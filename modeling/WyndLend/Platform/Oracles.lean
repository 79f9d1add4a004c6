import WyndLend.Oracle.Registrations
import WyndLend.Platform.Footprint

/-!
# The platform with its oracles

The oracles that the markets ask are contracts as well, with pools that their controllers
register. A market without a pool for its token has no price, so everyone who has collateral
in it waits for the registration: no credit check of such an account succeeds, neither for
what it wants to do itself nor for its liquidation.
-/

namespace WyndLend

open CosmWasm Utils

/-! ## What a credit check hears -/

namespace Market.System

variable {env : Env} {info : MessageInfo} {msg : ExecuteMsg} {sys sys' : System}
  {entered : List Addr} {account : Addr} {time : ℕ}

/-- Without a price there is no credit line for those who have something. -/
theorem worthless_of_unpriced {response : CreditLineResponse}
    (hp : ∀ rate, Query.priceMarketLocalPerCommon (sys.querier env) sys.market ≠ .ok rate)
    (h : Query.creditLine (sys.querier env) sys.market time account = .ok response) :
    sys.collateralOf account = 0 ∧ sys.debtOf account = 0 := by
  obtain ⟨-, u, -, -, hu⟩ := simulatedBalance_spec (creditLine_unpriced hp h).1
  cases u <;> simp only [Uint128.val_zero] at hu <;> omega

theorem execute_credited (hasks : msg.asksCredit = true)
    (h : execute env info msg sys = .ok (sys', entered)) :
    ∃ total, env.totalCreditLine sys.market.config.creditAgency info.sender = .ok total := by
  obtain ⟨account, funds⟩ := info
  cases msg with
  | withdraw amount =>
    obtain ⟨_, transferable, _, ht, -⟩ := execute_withdraw h
    simp only [CrUtils.transferableAmount, bind_eq_ok] at ht
    obtain ⟨_, hcredit, -⟩ := ht
    exact ⟨_, CrUtils.queryCredit_spec hcredit⟩
  | borrow amount =>
    obtain ⟨_, _, hcan, -⟩ := execute_borrow h
    obtain ⟨_, _, -, htotal, -⟩ := CrUtils.canBorrow_spec hcan
    exact ⟨_, htotal⟩
  | _ => cases hasks

theorem executeCtoken_credited {sender : Addr} {msg : Ctoken.ExecuteMsg}
    (hasks : msg.asksCredit = true) (h : executeCtoken env sender msg sys = .ok sys') :
    ∃ total, env.totalCreditLine sys.market.config.creditAgency sender = .ok total := by
  cases msg with
  | transfer | send =>
    simp only [executeCtoken, Ctoken.execute, Ctoken.transfer, Ctoken.canTransfer, bind_eq_ok,
      mapError_eq_ok] at h
    obtain ⟨_, ⟨_, ⟨_, ⟨_, ht, -⟩, -⟩, -⟩, -⟩ := h
    simp only [ctokenQuerier] at ht
    split_ifs at ht
    · simp only [mapError_eq_ok, Query.transferableAmount, CrUtils.transferableAmount,
        bind_eq_ok] at ht
      obtain ⟨_, -, _, hcredit, -⟩ := ht
      exact ⟨_, CrUtils.queryCredit_spec hcredit⟩
  | _ => cases hasks

end Market.System

namespace Platform

open CreditAgency

variable {env : Env} {tx : Tx} {p p' : Platform} {account market : Addr}
  {total : CreditLineResponse}

theorem total_of_asked {creditAgency : Addr}
    (h : (p.marketEnv env).totalCreditLine creditAgency account = .ok total) :
    p.totalCreditLine env account = .ok total := by
  simp only [marketEnv, Env.market] at h
  split_ifs at h
  · exact mapError_eq_ok.mp h

/-- A transaction that checks an account's credit hears from all markets that it has entered. -/
theorem step_credited (hasks : tx.action.asks = some account) (h : step tx p = .ok p')
    (hm : market ∈ p.agency.entered account) :
    ∃ response, (p.querier tx.env).creditLine market account = .ok response := by
  have hline : ∀ {v}, Query.creditLine (p.querier tx.env) p.agency.config.commonToken account
      market = .ok v → ∃ response, (p.querier tx.env).creditLine market account = .ok response := by
    intro v hv
    obtain ⟨response, hr, -⟩ := bind_eq_ok.mp hv
    exact ⟨response, hr⟩
  have htotal : ∀ {total}, p.totalCreditLine tx.env account = .ok total →
      ∃ response, (p.querier tx.env).creditLine market account = .ok response :=
    fun ht => hline ((total_values ht).1 market hm)
  obtain ⟨env, action⟩ := tx
  cases action with
  | donate => cases hasks
  | market called info msg =>
    obtain ⟨hasked, rfl⟩ : msg.asksCredit = true ∧ info.sender = account := by
      simpa [Action.asks] using hasks
    obtain ⟨sys, _, _, -, he, -⟩ := executeMarket_spec h
    obtain ⟨total, ht⟩ := Market.System.execute_credited hasked he
    exact htotal (total_of_asked ht)
  | ctoken called sender msg =>
    obtain ⟨hasked, rfl⟩ : msg.asksCredit = true ∧ sender = account := by
      simpa [Action.asks] using hasks
    simp only [step, bind_eq_ok, mapError_eq_ok] at h
    obtain ⟨sys, -, _, he, -⟩ := h
    obtain ⟨total, ht⟩ := Market.System.executeCtoken_credited hasked he
    exact htotal (total_of_asked ht)
  | agency info msg =>
    simp only [step, bind_eq_ok, mapError_eq_ok] at h
    obtain ⟨⟨agency, msgs⟩, he, -⟩ := h
    cases msg with
    | liquidate debtor token =>
      cases hasks
      rw [execute] at he
      split at he
      · obtain ⟨-, hl⟩ := liquidate_spec he
        cases hl with
        | mk total => exact htotal total
      · cases he
    | receive sender amount debtor token =>
      cases hasks
      obtain ⟨-, hl⟩ := liquidate_spec he
      cases hl with
      | mk total => exact htotal total
    | exitMarket left =>
      cases hasks
      obtain ⟨-, ⟨response, hr, -⟩, ⟨_, _, hvalues, -⟩, -⟩ := exitMarket_spec he
      by_cases heq : market = left
      · subst heq
        exact ⟨response, hr⟩
      · exact hline ((creditLines_spec hvalues).2 market (BTreeSet.mem_remove.mpr ⟨heq, hm⟩))
    | repayWithCollateral maxCollateral amountToRepay =>
      cases hasks
      obtain ⟨-, hchecked⟩ := repayWithCollateral_checked he
      cases hchecked with
      | mk _ _ _ _ totalled => exact htotal totalled
    | _ => cases hasks

/-- Whatever takes ctokens from an account has its credit checked. -/
theorem Action.Spends.asks {action : Action} (h : action.Spends account) :
    action.asks = some account := by
  cases h <;> rfl

theorem asks_of_exits {action : Action} (h : Exits account market action) :
    action.asks = some account := by
  cases action with
  | agency info msg =>
    cases msg with
    | exitMarket => exact congrArg some h.1
    | _ => exact h.elim
  | _ => exact h.elim

end Platform

variable {SamplePeriod : Type}

/-! ## The contracts together -/

structure Deployment (SamplePeriod : Type) where
  platform : Platform
  oracles : Map Addr (Oracle.State SamplePeriod)

namespace Deployment

/-- The oracles answer themselves what the environment leaves open. -/
def wire (oracles : Map Addr (Oracle.State SamplePeriod)) (exchange : Oracle.Querier SamplePeriod)
    (env : Platform.Env) : Platform.Env :=
  { env with
    twap := fun oracle offer ask => do
      let state ← okOr (oracles.mayLoad oracle) .querier
      (Oracle.queryTwap exchange state offer ask).mapError fun _ => .querier
    simulateReverseSwap := fun oracle askAmount operations => do
      let state ← okOr (oracles.mayLoad oracle) .querier
      (Oracle.Query.simulateReverseSwapOperations exchange state askAmount operations).mapError
        fun _ => .querier
    multiHop := fun oracle => do
      let state ← okOr (oracles.mayLoad oracle) .querier
      return state.config.multiHop }

inductive Input (SamplePeriod : Type) where
  | platform (exchange : Oracle.Querier SamplePeriod) (tx : Platform.Tx)
  | instantiateOracle (oracle controller multiHop : Addr) (startAge : ℕ)
      (samplePeriod : SamplePeriod)
  | registerPool (oracle : Addr) (r : Oracle.Registration)

inductive Error where
  | platform (e : Platform.Error)
  | oracle (e : Oracle.Error)
  | noContract (address : Addr)
  | addressTaken (address : Addr)

def step (i : Input SamplePeriod) (d : Deployment SamplePeriod) :
    Except Error (Deployment SamplePeriod) :=
  match i with
  | .platform exchange tx => do
    let platform ← (Platform.step ⟨wire d.oracles exchange tx.env, tx.action⟩ d.platform).mapError
      .platform
    return { d with platform }
  | .instantiateOracle oracle controller multiHop startAge samplePeriod => do
    ensure ((d.oracles.mayLoad oracle).isNone = true) (.addressTaken oracle)
    return { d with
      oracles := d.oracles.save oracle
        (Oracle.instantiate controller multiHop startAge samplePeriod) }
  | .registerPool oracle r => do
    let state ← okOr (d.oracles.mayLoad oracle) (.noContract oracle)
    let state ← (Oracle.registerPool state r.sender r.pairContract r.denom1 r.denom2).mapError
      .oracle
    return { d with oracles := d.oracles.save oracle state }

def start (address : Addr) (config : CreditAgency.Config) : Deployment SamplePeriod :=
  ⟨Platform.start address config, ∅⟩

variable {i : Input SamplePeriod} {ins ins' : List (Input SamplePeriod)}
  {d d' : Deployment SamplePeriod} {guard : Deployment SamplePeriod → Input SamplePeriod → Prop}
  {oracle market account address pool : Addr} {x y : Token} {config : CreditAgency.Config}
  {exchange : Oracle.Querier SamplePeriod} {env : Platform.Env} {sys : Market.System}

/-! ## Pools -/

/-- The pool that the oracle knows for two assets. -/
def registered (d : Deployment SamplePeriod) (oracle : Addr) (x y : Token) : Option Addr :=
  (d.oracles.mayLoad oracle).bind fun state =>
    state.pools.mayLoad (Oracle.sortedTuple x.denom y.denom)

/-- The input registers a pool of the pair at the oracle. -/
def Input.Registers (oracle : Addr) (pair : Sym2 String) : Input SamplePeriod → Prop
  | .registerPool other r => other = oracle ∧ s(r.denom1.denom, r.denom2.denom) = pair
  | _ => False

theorem step_registered (h : step i d = .ok d') : d'.registered oracle x y = some pool ↔
    (∃ r, i = .registerPool oracle r ∧ s(r.denom1.denom, r.denom2.denom) = s(x.denom, y.denom) ∧
        r.pairContract = pool) ∨
      d.registered oracle x y = some pool ∧ ¬ i.Registers oracle s(x.denom, y.denom) := by
  cases i with
  | platform exchange tx =>
    simp only [step, bind_eq_ok, pure_eq_ok] at h
    obtain ⟨_, -, rfl⟩ := h
    simp [registered, Input.Registers]
  | instantiateOracle other controller multiHop startAge samplePeriod =>
    simp only [step, bind_eq_ok, ensure_eq_ok, pure_eq_ok, Option.isNone_iff_eq_none] at h
    obtain ⟨_, hnone, rfl⟩ := h
    by_cases heq : oracle = other
    · subst heq
      simp [registered, Input.Registers, hnone, Oracle.instantiate]
    · simp [registered, Input.Registers, Map.mayLoad_save_ne _ _ heq]
  | registerPool other r =>
    simp only [step, bind_eq_ok, okOr_eq_ok, mapError_eq_ok, Oracle.registerPool, ensure_eq_ok,
      pure_eq_ok] at h
    obtain ⟨state, found, _, ⟨-, -, rfl⟩, rfl⟩ := h
    by_cases heq : oracle = other
    · subst heq
      simp only [registered, Map.mayLoad_save_self, found, Option.bind_some, Map.mayLoad_save,
        Oracle.sortedTuple_eq_iff, Input.Registers]
      grind
    · simp only [registered, Map.mayLoad_save_ne _ _ heq, Input.Registers]
      grind

/-- The pool of two assets is the one that was registered last. -/
theorem registered_iff_history (h : Run step guard (start address config) ins d) :
    d.registered oracle x y = some pool ↔
      ∃ before r after, ins = before ++ .registerPool oracle r :: after ∧
        s(r.denom1.denom, r.denom2.denom) = s(x.denom, y.denom) ∧ r.pairContract = pool ∧
        ∀ later ∈ after, ¬ later.Registers oracle s(x.denom, y.denom) := by
  have hlast := h.last_iff (P := fun d => d.registered oracle x y = some pool)
    (by simp [registered, start]) fun _ _ _ hs => step_registered hs
  rw [hlast]
  constructor
  · rintro ⟨before, _, after, _, rfl, -, ⟨r, rfl, hpair, hpool⟩, hlater⟩
    exact ⟨before, r, after, rfl, hpair, hpool, hlater⟩
  · rintro ⟨before, r, after, rfl, hpair, hpool, hlater⟩
    obtain ⟨u, hu, -⟩ := h.exists_mid
    exact ⟨before, _, after, u, rfl, hu, ⟨r, rfl, hpair, hpool⟩, hlater⟩

theorem registered_eq_none (h : Run step guard (start address config) ins d)
    (hnone : ∀ i ∈ ins, ¬ i.Registers oracle s(x.denom, y.denom)) :
    d.registered oracle x y = none := by
  cases hpool : d.registered oracle x y with
  | none => rfl
  | some pool =>
    obtain ⟨before, r, after, rfl, hpair, -⟩ := (registered_iff_history h).mp hpool
    exact absurd ⟨rfl, hpair⟩ (hnone (.registerPool oracle r) (by simp))

/-- A market prices its token by the pool that its oracle knows for it and the common token. -/
theorem price_iff {rate : PriceRate}
    (hne : sys.market.config.commonToken ≠ sys.market.config.marketToken) :
    Market.Query.priceMarketLocalPerCommon
        (sys.querier (wire d.oracles exchange env).leaf) sys.market = .ok rate ↔
      ∃ state pool answer, d.oracles.mayLoad sys.market.config.priceOracle = some state ∧
        d.registered sys.market.config.priceOracle sys.market.config.marketToken
          sys.market.config.commonToken = some pool ∧
        exchange.twap pool state.config.twapParams.samplePeriod state.config.twapParams.startAge
          (some 0) = .ok answer ∧
        rate = ⟨sys.market.config.commonToken, sys.market.config.marketToken, answer.aPerB⟩ := by
  simp only [Market.Query.priceMarketLocalPerCommon, if_neg hne, Market.System.querier,
    Platform.Env.leaf, Platform.Env.market, wire, Oracle.queryTwap, Oracle.Query.twap,
    Oracle.Query.poolAddress, bind_eq_ok, okOr_eq_ok, mapError_eq_ok, pure_eq_ok, registered,
    Option.bind_eq_some_iff]
  grind

/-! ## Runs -/

/-- The transaction of the platform, if the input is one. -/
def Input.transaction : Input SamplePeriod → Option Platform.Tx
  | .platform _ tx => some tx
  | _ => none

/-- The account whose credit is checked. -/
def Input.asks (i : Input SamplePeriod) : Option Addr := i.transaction.bind fun tx => tx.action.asks

def Input.sender (i : Input SamplePeriod) : Option Addr := i.transaction.bind Platform.Tx.sender

/-- Nobody impersonates a contract of the platform. -/
def Genuine (d : Deployment SamplePeriod) (i : Input SamplePeriod) : Prop :=
  ∀ tx ∈ i.transaction, Platform.Genuine d.platform tx

instance (d : Deployment SamplePeriod) (i : Input SamplePeriod) : Decidable (Genuine d i) :=
  inferInstanceAs (Decidable (∀ tx ∈ i.transaction, Platform.Genuine d.platform tx))

/-- An input is a transaction of the platform, or leaves the platform alone. -/
theorem step_platform (h : step i d = .ok d') :
    (∃ exchange tx, i = .platform exchange tx ∧
      Platform.step ⟨wire d.oracles exchange tx.env, tx.action⟩ d.platform = .ok d'.platform) ∨
    i.transaction = none ∧ d'.platform = d.platform := by
  cases i with
  | platform exchange tx =>
    simp only [step, bind_eq_ok, mapError_eq_ok, pure_eq_ok] at h
    obtain ⟨_, hs, rfl⟩ := h
    exact .inl ⟨exchange, tx, rfl, hs⟩
  | instantiateOracle =>
    simp only [step, bind_eq_ok, pure_eq_ok] at h
    obtain ⟨_, -, rfl⟩ := h
    exact .inr ⟨rfl, rfl⟩
  | registerPool =>
    simp only [step, bind_eq_ok, pure_eq_ok] at h
    obtain ⟨_, -, _, -, rfl⟩ := h
    exact .inr ⟨rfl, rfl⟩

/-- The platform makes runs of its own. -/
theorem run_platform (h : Run step Genuine d ins d') :
    ∃ txs, Run Platform.step Platform.Genuine d.platform txs d'.platform := by
  induction h with
  | nil => exact ⟨[], .nil _⟩
  | @snoc u v is i _ hg hs ih =>
    obtain ⟨txs, hrun⟩ := ih
    obtain ⟨exchange, tx, rfl, hstep⟩ | ⟨-, hsame⟩ := step_platform hs
    · have hg : Platform.Genuine u.platform ⟨wire u.oracles exchange tx.env, tx.action⟩ :=
        hg tx rfl
      exact ⟨_, hrun.snoc hg hstep⟩
    · exact ⟨txs, hsame ▸ hrun⟩

/-- The settings are the same, and the account is still in its markets with what it held. -/
structure Locked (account : Addr) (d u : Deployment SamplePeriod) : Prop where
  governance : u.platform.governance = d.platform.governance
  entered : ∀ m ∈ d.platform.agency.entered account, m ∈ u.platform.agency.entered account
  held : Platform.Keeps (Platform.held account) d.platform u.platform

/-- Without a pool for a market in which the account has collateral nothing checks its
credit. -/
theorem Locked.asks {u v : Deployment SamplePeriod} (hk : Locked account d u)
    (found : d.platform.markets.mayLoad market = some sys)
    (hne : sys.market.config.commonToken ≠ sys.market.config.marketToken)
    (hin : market ∈ d.platform.agency.entered account) (hworth : sys.collateralOf account ≠ 0)
    (hnone : u.registered sys.market.config.priceOracle sys.market.config.marketToken
      sys.market.config.commonToken = none) (hs : step i u = .ok v) :
    i.asks ≠ some account := by
  obtain ⟨exchange, tx, rfl, hstep⟩ | ⟨htx, -⟩ := step_platform hs
  · intro hasks
    obtain ⟨sys', found', hheld⟩ := hk.held market sys found
    have hsettings := congrFun (congrArg Governance.settings hk.governance) market
    rw [Platform.governance_settings found, Platform.governance_settings found',
      Option.some.injEq] at hsettings
    simp only [Market.Config.settings, Market.Config.mk.injEq] at hsettings
    have hcollateral : sys.collateralOf account ≤ sys'.collateralOf account :=
      Ctoken.inBase_mono hheld
    have hne' : sys'.market.config.commonToken ≠ sys'.market.config.marketToken := by grind
    have hunpriced : ∀ rate, Market.Query.priceMarketLocalPerCommon
        (sys'.querier (wire u.oracles exchange tx.env).leaf) sys'.market ≠ .ok rate := by
      intro rate hrate
      obtain ⟨_, _, _, -, hpool, -⟩ := (price_iff hne').mp hrate
      grind
    have hasks : (⟨wire u.oracles exchange tx.env, tx.action⟩ : Platform.Tx).action.asks =
        some account := hasks
    obtain ⟨response, hr⟩ := Platform.step_credited hasks hstep (hk.entered market hin)
    simp only [Platform.querier, found', mapError_eq_ok] at hr
    have hzero := (Market.System.worthless_of_unpriced hunpriced hr).1
    omega
  · simp [Input.asks, htx]

theorem Locked.step {u v : Deployment SamplePeriod} (hk : Locked account d u)
    (hu : Run step Genuine (start address config) ins u) (hg : Genuine u i)
    (hungoverned : i.sender ≠ some config.govContract) (hasks : i.asks ≠ some account)
    (hs : Deployment.step i u = .ok v) : Locked account d v := by
  obtain ⟨exchange, tx, rfl, hstep⟩ | ⟨-, hsame⟩ := step_platform hs
  · obtain ⟨txs, hrun⟩ := run_platform hu
    obtain ⟨⟨haddress, hconfig⟩, hi⟩ := Platform.run_corresponds hrun
    have hg : Platform.Genuine u.platform ⟨wire u.oracles exchange tx.env, tx.action⟩ :=
      hg tx rfl
    refine ⟨?_, fun m hm => ?_, ?_⟩
    · rw [← haddress] at hi
      exact (Platform.step_ungoverned hi (by rw [hconfig]; rfl) hg hungoverned hstep).trans
        hk.governance
    · rw [Platform.step_entered hstep]
      exact .inr ⟨hk.entered m hm, fun hexits => hasks (Platform.asks_of_exits hexits)⟩
    · refine hk.held.trans ((Platform.step_keeps account (Platform.run_linked hrun)
        (Platform.run_controlled hrun) hg hstep).1 fun hspends => hasks hspends.asks)
  · exact ⟨hsame ▸ hk.governance, hsame ▸ hk.entered, hsame ▸ hk.held⟩

/-- Collateral in a market without a registered pool locks everything that the account has, and
keeps it from being liquidated: until the pool is registered, or governance intervenes, nothing
that checks its credit succeeds. -/
theorem locked_until_registered (h : Run step Genuine (start address config) ins d)
    (found : d.platform.markets.mayLoad market = some sys)
    (hne : sys.market.config.commonToken ≠ sys.market.config.marketToken)
    (hin : market ∈ d.platform.agency.entered account) (hworth : sys.collateralOf account ≠ 0)
    (h' : Run step (fun u i => Genuine u i ∧ i.sender ≠ some config.govContract) d ins' d')
    (hnone : ∀ i ∈ ins ++ ins', ¬ i.Registers sys.market.config.priceOracle
      s(sys.market.config.marketToken.denom, sys.market.config.commonToken.denom)) :
    (∀ i u, i.asks = some account → step i d' ≠ .ok u) ∧
    (∀ m ∈ d.platform.agency.entered account, m ∈ d'.platform.agency.entered account) ∧
    ∀ m s, d.platform.markets.mayLoad m = some s → ∃ s',
      d'.platform.markets.mayLoad m = some s' ∧
        s.collateralOf account ≤ s'.collateralOf account := by
  have hlocked : Locked account d d' ∧ ∀ i u, i.asks = some account → step i d' ≠ .ok u := by
    induction h' with
    | nil =>
      have hk : Locked account d d := ⟨rfl, fun _ hm => hm, Platform.keeps_of_markets rfl⟩
      rw [List.append_nil] at hnone
      exact ⟨hk, fun i u hasks hs =>
        hk.asks found hne hin hworth (registered_eq_none h hnone) hs hasks⟩
    | @snoc u v is i hrun hg hs ih =>
      obtain ⟨hk, hno⟩ := ih fun j hj => hnone j (by grind)
      have hu := h.trans (hrun.mono fun _ _ hg => hg.1)
      have hk : Locked account d v := hk.step hu hg.1 hg.2 (fun hasks => hno i v hasks hs) hs
      have hv := hu.snoc hg.1 hs
      rw [List.append_assoc] at hv
      exact ⟨hk, fun j w hasks hs' =>
        hk.asks found hne hin hworth (registered_eq_none hv hnone) hs' hasks⟩
  obtain ⟨hk, hno⟩ := hlocked
  refine ⟨hno, hk.entered, fun m s hs => ?_⟩
  obtain ⟨s', hs', hheld⟩ := hk.held m s hs
  exact ⟨s', hs', Ctoken.inBase_mono hheld⟩

/-- An exchange on which one atom is worth `price` dollars. -/
def sampleExchange (price : Decimal) : Oracle.Querier Unit where
  twap _ _ _ _ := .ok ⟨.native "usd", .native "atom", price, price⟩
  simulateReverseSwap _ _ _ := .error .querier

/-- There are markets for dollars, atom and juno, and a pool for atom. Bob has deposited atom
against a loan of dollars, and some juno. -/
def sampleInputs : List (Input Unit) :=
  [.instantiateOracle "oracle" "keeper" "multihop" 0 (),
    .registerPool "oracle" ⟨"keeper", "atom pool", .native "atom", .native "usd"⟩] ++
  (Platform.sampleCollateral Decimal.one ⟨600_000_000_000_000_000⟩ Decimal.zero 1_000 ++
    [Platform.sampleBorrow (Platform.sampleEnv "" "" Decimal.one) 500,
      ⟨Platform.sampleEnv "juno market" "juno ctoken" Decimal.one,
        .agency ⟨"gov", []⟩ (.createMarket (Platform.sampleMarket "juno"))⟩,
      ⟨Platform.sampleEnv "" "" Decimal.one,
        .market "juno market" ⟨"bob", [("juno", 1)]⟩ .deposit⟩]).map
    (.platform (sampleExchange Decimal.one))

/-- The lender takes out what is left. -/
def sampleWithdrawal : Input Unit :=
  .platform (sampleExchange Decimal.one) ⟨Platform.sampleEnv "" "" Decimal.one,
    .market "usd market" ⟨"lender", []⟩ (.withdraw 500)⟩

/-- One juno, for which there is no pool, keeps Bob from being liquidated when atom are worth
one cent. -/
theorem locked_until_registered_example : ∃ d d',
    Run step Genuine (start "agency" Platform.sampleConfig) sampleInputs d ∧
    step sampleWithdrawal d = .ok d' ∧
    ∀ u, step (.platform (sampleExchange ⟨10_000_000_000_000_000⟩)
      (Platform.sampleLiquidation (Platform.sampleEnv "" "" Decimal.one))) d' ≠ .ok u := by
  obtain ⟨d, hrun, sys, found, hne, hin, hworth, ⟨horacle, hmarket, hcommon⟩, hgenuine, hs⟩ : ∃ d,
      Run step Genuine (start "agency" Platform.sampleConfig) sampleInputs d ∧
      ∃ sys ∈ d.platform.markets.mayLoad "juno market",
        sys.market.config.commonToken ≠ sys.market.config.marketToken ∧
        "juno market" ∈ d.platform.agency.entered "bob" ∧ sys.collateralOf "bob" ≠ 0 ∧
        (sys.market.config.priceOracle = "oracle" ∧
          sys.market.config.marketToken = .native "juno" ∧
          sys.market.config.commonToken = .native "usd") ∧
        Genuine d sampleWithdrawal ∧ (step sampleWithdrawal d).toOption.isSome = true :=
    exists_run_of_runAll (by decide +kernel)
  obtain ⟨d', hs⟩ := Option.isSome_iff_exists.mp hs
  have hs := toOption_eq_some.mp hs
  refine ⟨d, d', hrun, hs, ?_⟩
  have hrun' : Run step (fun u i => Genuine u i ∧
      i.sender ≠ some Platform.sampleConfig.govContract) d [sampleWithdrawal] d' :=
    .snoc (.nil d) ⟨hgenuine, by decide⟩ hs
  have hnone : ∀ i ∈ sampleInputs ++ [sampleWithdrawal],
      ¬ i.Registers sys.market.config.priceOracle
        s(sys.market.config.marketToken.denom, sys.market.config.commonToken.denom) := by
    rw [horacle, hmarket, hcommon]
    simp [sampleInputs, Platform.sampleCollateral, sampleWithdrawal, Input.Registers, Token.denom]
  have hlocked := (locked_until_registered hrun found hne hin hworth hrun' hnone).1
  intro u
  exact hlocked _ u rfl

end Deployment

end WyndLend
