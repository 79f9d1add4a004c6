import WyndLend.Market.Clock

/-!
# The orientation of the price

The market asks the oracle for the twap of its token against the common token and
takes `aPerB` of the answer. The oracle finds the pool in either order of the two
and forwards the pool's answer, which names its assets in the pool's own order. So
`aPerB` is common tokens per market token for a pool that lists the common token
first, and the reciprocal price for one that lists the market token first.
-/

namespace WyndLend.Market

open CosmWasm Utils

variable {SamplePeriod : Type}

/-- The market's view of the chain when an oracle answers its `Twap` queries. -/
def Querier.withOracle (q : Querier) (oracle : Oracle.Querier SamplePeriod)
    (state : Oracle.State SamplePeriod) : Querier :=
  { q with twap := fun _ offer ask =>
      (Oracle.queryTwap oracle state offer ask).mapError fun _ => .querier }

/-- The same pool with its assets listed the other way round. -/
def mirror (r : Oracle.TwapResponse) : Oracle.TwapResponse := ⟨r.b, r.a, r.bPerA, r.aPerB⟩

/-- Every pool answers with its assets listed the other way round. -/
def mirrored (oracle : Oracle.Querier SamplePeriod) : Oracle.Querier SamplePeriod :=
  { oracle with twap := fun pool duration startAge endAge =>
      (oracle.twap pool duration startAge endAge).map mirror }

/-- The answer of the pool that the oracle has registered for the two tokens. -/
def PoolAnswers (oracle : Oracle.Querier SamplePeriod) (state : Oracle.State SamplePeriod)
    (cfg : Config) (r : Oracle.TwapResponse) : Prop :=
  (∃ pool, Oracle.Query.poolAddress state cfg.marketToken cfg.commonToken = .ok pool ∧
    oracle.twap pool state.config.twapParams.samplePeriod state.config.twapParams.startAge
      (some 0) = .ok r) ∧
  (r.a = cfg.commonToken ∧ r.b = cfg.marketToken ∨ r.a = cfg.marketToken ∧ r.b = cfg.commonToken)

/-- The amount of the common token for one market token, in the pool's own answer. -/
def commonPerMarket (cfg : Config) (r : Oracle.TwapResponse) : Decimal :=
  if r.a = cfg.commonToken then r.aPerB else r.bPerA

theorem price_of_pool {q : Querier} {s : State} {oracle : Oracle.Querier SamplePeriod}
    {state : Oracle.State SamplePeriod} {r : Oracle.TwapResponse}
    (hne : s.config.commonToken ≠ s.config.marketToken)
    (h : PoolAnswers oracle state s.config r) :
    Query.priceMarketLocalPerCommon (q.withOracle oracle state) s =
      .ok ⟨s.config.commonToken, s.config.marketToken, r.aPerB⟩ := by
  obtain ⟨⟨pool, hpool, htwap⟩, -⟩ := h
  have hquery : Oracle.queryTwap oracle state s.config.marketToken s.config.commonToken =
      .ok r := by
    simp only [Oracle.queryTwap, Oracle.Query.twap, bind_eq_ok]
    exact ⟨pool, hpool, htwap⟩
  simp only [Query.priceMarketLocalPerCommon, Querier.withOracle, hne, if_false, hquery,
    Except.mapError, bind_eq_ok, pure_eq_ok]
  exact ⟨r, rfl, rfl⟩

theorem PoolAnswers.mirrored {oracle : Oracle.Querier SamplePeriod}
    {state : Oracle.State SamplePeriod} {cfg : Config} {r : Oracle.TwapResponse}
    (h : PoolAnswers oracle state cfg r) :
    PoolAnswers (mirrored oracle) state cfg (mirror r) := by
  obtain ⟨⟨pool, hpool, htwap⟩, hpair⟩ := h
  refine ⟨⟨pool, hpool, ?_⟩, ?_⟩
  · simp only [Market.mirrored, htwap, Except.map]
  · exact hpair.symm.imp And.symm And.symm

/-- The price is in common tokens per market token if and only if the registered pool
lists the common token first, or the two tokens are worth the same in it. A pool listed
the other way round gives the same price in the latter case only. -/
theorem price_orientation_iff {q : Querier} {s : State} {oracle : Oracle.Querier SamplePeriod}
    {state : Oracle.State SamplePeriod} {r : Oracle.TwapResponse}
    (hne : s.config.commonToken ≠ s.config.marketToken)
    (h : PoolAnswers oracle state s.config r) :
    ∃ price price', Query.priceMarketLocalPerCommon (q.withOracle oracle state) s = .ok price ∧
      Query.priceMarketLocalPerCommon (q.withOracle (mirrored oracle) state) s = .ok price' ∧
      (price.rateSellPerBuy = commonPerMarket s.config r ↔
        r.a = s.config.commonToken ∨ r.aPerB = r.bPerA) ∧
      (price.rateSellPerBuy = price'.rateSellPerBuy ↔ r.aPerB = r.bPerA) := by
  refine ⟨_, _, price_of_pool hne h, price_of_pool hne h.mirrored, ?_, Iff.rfl⟩
  unfold commonPerMarket
  split_ifs with ha
  · exact iff_of_true rfl (.inl ha)
  · exact (or_iff_right ha).symm

/-- A pool with four atom for one juno, which lists atom first. -/
def atomFirst : Oracle.TwapResponse :=
  ⟨.native "atom", .native "juno", ⟨4_000_000_000_000_000_000⟩, ⟨250_000_000_000_000_000⟩⟩

def oneOracle (r : Oracle.TwapResponse) : Oracle.Querier Unit where
  twap _ _ _ _ := .ok r
  simulateReverseSwap _ _ _ := .error .querier

/-- The oracle once that pool is registered. -/
def oneOracleState : Except Oracle.Error (Oracle.State Unit) :=
  Oracle.registerPool (Oracle.instantiate "governance" "multihop" 0 ()) "governance" "pool"
    (.native "atom") (.native "juno")

theorem sample_answers {r : Oracle.TwapResponse}
    (hr : r.a = .native "juno" ∧ r.b = .native "atom" ∨
      r.a = .native "atom" ∧ r.b = .native "juno") :
    ∃ init state, System.sample = .ok init ∧ oneOracleState = .ok state ∧
      init.market.config.commonToken = .native "juno" ∧
      init.market.config.commonToken ≠ init.market.config.marketToken ∧
      PoolAnswers (oneOracle r) state init.market.config r :=
  ⟨_, _, rfl, rfl, rfl, by decide, ⟨"pool", by decide, rfl⟩, hr⟩

/-- With juno listed first the price is one of juno per atom. -/
theorem price_orientation_iff_example : ∃ init state, ∃ price price' : PriceRate,
    System.sample = .ok init ∧ oneOracleState = .ok state ∧
    Query.priceMarketLocalPerCommon
      (((init.querier (System.sampleEnv 0)).withOracle (oneOracle (mirror atomFirst)) state))
      init.market = .ok price ∧
    (price.rateSellPerBuy = commonPerMarket init.market.config (mirror atomFirst) ∧
      ¬ price.rateSellPerBuy = price'.rateSellPerBuy) := by
  obtain ⟨init, state, hi, hs, hjuno, hne, hpool⟩ :=
    sample_answers (r := mirror atomFirst) (.inl ⟨rfl, rfl⟩)
  obtain ⟨price, price', hp, -, hiff, hiff'⟩ :=
    price_orientation_iff (q := init.querier (System.sampleEnv 0)) hne hpool
  exact ⟨init, state, price, price', hi, hs, hp, hiff.mpr (.inl hjuno.symm),
    fun h => absurd (hiff'.mp h) (by decide)⟩

/-- With atom listed first the market values one atom at four juno instead of a quarter. -/
theorem atom_first_inverted : ∃ init state, System.sample = .ok init ∧ oneOracleState = .ok state ∧
    PoolAnswers (oneOracle atomFirst) state init.market.config atomFirst ∧
    Query.priceMarketLocalPerCommon
      ((init.querier (System.sampleEnv 0)).withOracle (oneOracle atomFirst) state) init.market =
      .ok ⟨.native "juno", .native "atom", ⟨4_000_000_000_000_000_000⟩⟩ ∧
    commonPerMarket init.market.config atomFirst = ⟨250_000_000_000_000_000⟩ := by
  obtain ⟨init, state, hi, hs, hjuno, hne, hpool⟩ :=
    sample_answers (r := atomFirst) (.inr ⟨rfl, rfl⟩)
  cases hi
  exact ⟨_, state, rfl, hs, hpool, price_of_pool hne hpool, by decide⟩

end WyndLend.Market
