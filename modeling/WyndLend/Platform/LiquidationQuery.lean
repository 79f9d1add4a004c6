import WyndLend.CreditAgency.Registry
import WyndLend.Market.Insufficient
import WyndLend.Platform.Liquidation

/-!
# The liquidation query against the liquidation

The query lists what an account owes with all pending interest, the market compares the
repaid coins with the debt as it was last charged. What the query lists is therefore
accepted exactly when no whole token of interest is pending on it.
-/

namespace WyndLend.Platform

open CosmWasm Utils Rebasing CreditAgency

variable {env : Env} {tx : Tx} {p p' : Platform} {market account sender address : Addr}
  {sys sys' : Market.System} {coin : Coin} {token : Token} {txs : List Tx} {config : Config}
  {entered : List Addr}

/-! ## The registry lists every market under its token -/

def Listed (p : Platform) : Prop :=
  ∀ market sys, p.markets.mayLoad market = some sys →
    p.agency.markets.mayLoad sys.market.config.marketToken = some (.ready market)

theorem update_listed (hi : Listed p) (found : p.markets.mayLoad market = some sys)
    (hsame : sys'.market.config.marketToken = sys.market.config.marketToken) :
    Listed (p.update market sys' entered) := by
  unfold Listed
  rw [update_registry.2]
  refine forall_save hi ?_
  rw [hsame]
  exact hi market sys found

theorem call_listed (hi : Listed p) (h : Call env p p') : Listed p' := by
  cases h with
  | execute found _ executed =>
    exact update_listed hi found (Market.System.execute_marketToken executed)
  | @migrate market sys isotonicTokenId found =>
    refine update_listed hi found ?_
    cases isotonicTokenId <;> rfl

/-- A new market takes a token that had no market. -/
theorem instantiate_listed {m : Market.InstantiateMsg} {ctoken : Addr} {time : ℕ}
    (hi : Listed p) (vacant : p.agency.markets.mayLoad m.marketToken = none)
    (hs : Market.System.instantiate p.address market ctoken time m = .ok sys) :
    ∀ m' s, (p.markets.save market sys).mayLoad m' = some s →
      ((p.agency.reserve m.marketToken).markets.save m.marketToken (.ready market)).mayLoad
        s.market.config.marketToken = some (.ready m') := by
  simp only [Market.System.instantiate, Market.instantiate, bind_eq_ok, mapError_eq_ok,
    ensure_eq_ok, pure_eq_ok] at hs
  obtain ⟨_, ⟨_, -, -, -, rfl⟩, rfl⟩ := hs
  refine forall_save ?_ (Map.mayLoad_save_self _ _ _)
  intro m' s hm
  have hlisted := hi m' s hm
  have hne : s.market.config.marketToken ≠ m.marketToken := by
    intro heq
    rw [heq, vacant] at hlisted
    cases hlisted
  rw [State.reserve, Map.mayLoad_save_ne _ _ hne, Map.mayLoad_save_ne _ _ hne, hlisted]

theorem step_listed (hi : Listed p) (h : step tx p = .ok p') : Listed p' := by
  obtain ⟨env, action⟩ := tx
  cases action with
  | agency info msg =>
    simp only [step, bind_eq_ok, mapError_eq_ok] at h
    obtain ⟨⟨agency, msgs⟩, he, hd⟩ := h
    cases CreditAgency.execute_outcome he with
    | created _ _ vacant =>
      obtain ⟨q, hq, hd⟩ := bind_eq_ok.mp hd
      cases hd
      obtain ⟨-, sys, token, hs, ht, rfl⟩ := instantiateMarket_spec hq
      cases (Map.mayLoad_save_self _ _ _).symm.trans ht
      exact instantiate_listed hi vacant hs
    | entered =>
      cases hd
      exact hi
    | exited =>
      cases hd
      exact hi
    | forwarded _ _ none =>
      exact calls_preserve (deliverAll_calls hd none) hi fun _ _ => call_listed
  | market address info msg =>
    obtain ⟨sys, sys', entered, hf, he, rfl⟩ := executeMarket_spec h
    exact update_listed hi hf (Market.System.execute_marketToken he)
  | ctoken market sender msg =>
    simp only [step, bind_eq_ok, find_eq_ok, mapError_eq_ok, pure_eq_ok,
      Market.System.executeCtoken] at h
    obtain ⟨sys, hf, _, ⟨_, _, rfl⟩, rfl⟩ := h
    exact update_listed hi hf rfl
  | donate market amount =>
    simp only [step, Market.System.step, bind_eq_ok, find_eq_ok, mapError_eq_ok, pure_eq_ok] at h
    obtain ⟨sys, hf, _, ⟨_, _, rfl⟩, rfl⟩ := h
    exact update_listed hi hf rfl

theorem run_listed {guard : Platform → Tx → Prop}
    (h : Run step guard (start address config) txs p) : Listed p :=
  h.invariant (fun _ _ hs => absurd hs not_found_start) fun _ _ _ hi _ hs => step_listed hi hs

/-! ## A repayment of the credit agency -/

theorem found_of_query_market (hl : Linked p) (h : Query.market p.agency token = .ok market) :
    ∃ sys, p.markets.mayLoad market = some sys := by
  obtain ⟨token, hready⟩ := Chain.registered_of_market h
  exact hl.ready token market hready

theorem query_market_of_found (hi : Listed p) (found : p.markets.mayLoad market = some sys) :
    Query.market p.agency sys.market.config.marketToken = .ok market := by
  simp only [Query.market, bind_eq_ok, okOr_eq_ok]
  exact ⟨_, hi market sys found, rfl⟩

/-- The handler of a liquidation sends the repayment first, the market rejects it for lack
of debt, and with it the liquidation fails. -/
def Rejected (tx : Tx) (p : Platform) (market : Addr) (coin : Coin) (account : Addr) : Prop :=
  ∃ info msg agency msgs owed, tx.action = .agency info msg ∧
    CreditAgency.execute (p.querier tx.env) info msg p.agency =
      .ok (agency, .repayTo market coin account :: msgs) ∧
    repayTo tx.env market coin account { p with agency } =
      .error (.market (.market (.liquidationInsufficientDebt account owed))) ∧
    step tx p = .error (.market (.market (.liquidationInsufficientDebt account owed)))

/-- The message in which the coins of the credit agency arrive at the market. -/
theorem repayTo_carries (env : Env) (market account : Addr)
    (hagency : sys.market.config.creditAgency = p.address)
    (hdenom : coin.denom = sys.market.config.marketToken) :
    ∃ info msg, repayTo env market coin account p = executeMarket env market info msg p ∧
      Market.System.Carries sys info msg coin account := by
  obtain ⟨denom, amount⟩ := coin
  cases denom with
  | native denom =>
    refine ⟨_, _, rfl, ?_, ?_⟩
    · rw [← hdenom]
      simp only [Market.received, decide_true, List.filter_cons_of_pos, List.filter_nil,
        List.foldlM_cons, List.foldlM_nil, bind_pure, Uint128.add_eq_ok, Uint128.val_zero,
        Nat.zero_add]
    · intro q time s
      rw [hagency]
      rfl
  | cw20 contract =>
    refine ⟨_, _, rfl, ?_, ?_⟩
    · rw [← hdenom]
      simp only [Market.received, if_true]
    · intro q time s
      rw [hagency]
      rfl

theorem executeMarket_error {info : Market.MessageInfo} {msg : Market.ExecuteMsg}
    {e : Market.System.Error} (found : p.markets.mayLoad market = some sys) :
    executeMarket env market info msg p = .error (.market e) ↔
      sys.execute (p.marketEnv env) info msg = .error e := by
  have hfind : p.find market = .ok sys := find_eq_ok.mpr found
  simp only [executeMarket, hfind, bind_eq_error, mapError_eq_error, Except.ok.injEq, reduceCtorEq,
    false_or, exists_eq_left', Error.market.injEq, exists_eq_right, pure, Except.pure, and_false,
    exists_false, or_false]

/-- A liquidation that finds everything it asks for sends its two messages. -/
theorem liquidate_of {q : Querier} {s : State} {msgs : List Message}
    (h : CreditAgency.Liquidation q s sender account coin token msgs) :
    liquidate q s sender account coin token = .ok (s, msgs) := by
  cases h with
  | mk total excess debt rate collateral worth =>
    simp only [liquidate, bind_eq_ok, ensure_eq_ok, mapError_eq_ok, pure_eq_ok,
      CreditLineResponse.validate_eq_ok]
    exact ⟨_, total, _, rfl, (), excess, _, debt, _, rate, _, collateral, _, worth, rfl⟩

/-! ## What the query lists -/

/-- An entry of a market of the platform: what the market reports, and the price and the value
that a liquidation asks for. -/
structure Listing (env : Env) (sys : Market.System) (account : Addr) (coin : Coin) : Prop where
  balance : ∃ b, Market.Query.tokensBalance (sys.querier env.leaf) sys.market env.time account =
    .ok b ∧ coin = b.debt
  denom : coin.denom = sys.market.config.marketToken
  value : ∃ rate value, Market.Query.priceMarketLocalPerCommon (sys.querier env.leaf) sys.market =
    .ok rate ∧ coinTimesPriceRate coin rate = .ok value

theorem listing_of_query {answer : Query.LiquidationResponse}
    (h : Query.liquidation (p.querier env) p.agency account = .ok answer)
    (hcan : answer.canLiquidate = true) :
    (∃ v : CreditLineValues, p.totalCreditLine env account =
        .ok (v.makeResponse p.agency.config.commonToken) ∧ v.creditLine < v.debt) ∧
    ∀ market sys coin, (market, coin) ∈ answer.debt → p.markets.mayLoad market = some sys →
      Listing env sys account coin := by
  simp only [Query.liquidation, bind_eq_ok, pure_eq_ok] at h
  obtain ⟨total, ht, data, hdata, rfl⟩ := h
  obtain ⟨v, rfl, hall, -⟩ := totalCreditLine_spec ht
  refine ⟨⟨v, ht, of_decide_eq_true hcan⟩, ?_⟩
  intro market sys coin hmem found
  obtain ⟨⟨m, balance⟩, hd, heq⟩ := List.mem_map.mp hmem
  cases heq
  obtain ⟨hd, hne⟩ := List.mem_filter.mp hd
  obtain ⟨m', hm, hb⟩ := mem_of_mapM hdata hd
  simp only [bind_eq_ok, pure_eq_ok] at hb
  obtain ⟨b, hb, heq⟩ := hb
  cases heq
  have hline := market_line found (hall _ hm)
  simp only [querier, found, mapError_eq_ok] at hb
  obtain ⟨hden, hval⟩ := Market.System.creditLine_values_debt hline hb (of_decide_eq_true hne)
  exact ⟨⟨balance, hb, rfl⟩, hden, hval⟩

/-- The market rejects an entry that fits into its account exactly when interest is pending. -/
theorem repayTo_rejects_iff (hagency : sys.market.config.creditAgency = p.address)
    (found : p.markets.mayLoad market = some sys) (hlisting : Listing env sys account coin) :
    (∃ owed, repayTo env market coin account p =
        .error (.market (.market (.liquidationInsufficientDebt account owed)))) ↔
      sys.cash.val + coin.amount.val < 2 ^ 128 ∧ sys.Accrues env.leaf account := by
  obtain ⟨⟨balance, hb, rfl⟩, hdenom, -⟩ := hlisting
  obtain ⟨info, msg, hrepay, hcarries⟩ := repayTo_carries env market account hagency hdenom
  obtain ⟨n, u, hn, hu, -⟩ :=
    Market.simulatedBalance_spec (Market.System.tokensBalance_eq_ok hb)
  have howed : ∃ debt, Market.Debt.of sys.market.debt account = .ok debt := by
    simp only [Market.Query.tokensBalance, Market.Query.simulatedBalance, bind_eq_ok] at hb
    obtain ⟨_, ⟨_, -, debt, hdebt, -⟩, -⟩ := hb
    exact ⟨debt, hdebt⟩
  obtain ⟨debt, hdebt⟩ := howed
  simp only [hrepay, executeMarket_error found]
  rw [Market.System.execute_insufficient_iff hcarries hdenom hn hu hdebt,
    Market.System.tokensBalance_exceeds_iff hb hdebt]

/-- Every way to liquidate runs the same handler. -/
theorem Liquidates.handler {action : Action} (hl : Liquidates action sender account coin token) :
    ∃ info msg, action = .agency info msg ∧ ∀ q s,
      CreditAgency.execute q info msg s = liquidate q s sender account coin token := by
  cases hl with
  | native => exact ⟨_, _, rfl, fun _ _ => rfl⟩
  | cw20 => exact ⟨_, _, rfl, fun _ _ => rfl⟩

/-- A listed entry gets as far as its market if there is one for the collateral. -/
theorem rejected_iff {action : Action} {v : CreditLineValues} (hi : Listed p)
    (htotal : p.totalCreditLine env account = .ok (v.makeResponse p.agency.config.commonToken))
    (hlt : v.creditLine < v.debt) (found : p.markets.mayLoad market = some sys)
    (hlisting : Listing env sys account coin)
    (hl : Liquidates action sender account coin token) :
    Rejected ⟨env, action⟩ p market coin account ↔
      (∃ m, Query.market p.agency token = .ok m) ∧ ∃ owed,
        repayTo env market coin account p =
          .error (.market (.market (.liquidationInsufficientDebt account owed))) := by
  obtain ⟨info, msg, rfl, hhandler⟩ := hl.handler
  constructor
  · rintro ⟨info', msg', agency, msgs, owed, ha, he, hrepay, -⟩
    cases ha
    rw [hhandler] at he
    obtain ⟨rfl, hliquidation⟩ := liquidate_spec he
    cases hliquidation with
    | mk _ _ _ _ collateral => exact ⟨⟨_, collateral⟩, owed, hrepay⟩
  · rintro ⟨⟨m, hm⟩, owed, hrepay⟩
    obtain ⟨-, hdenom, rate, value, hrate, hvalue⟩ := hlisting
    have hdebt : Query.market p.agency coin.denom = .ok market :=
      hdenom ▸ query_market_of_found hi found
    have hprice : (p.querier env).priceMarketLocalPerCommon market = .ok rate := by
      simp only [querier, found, mapError_eq_ok]
      exact hrate
    have he : CreditAgency.execute (p.querier env) info msg p.agency = .ok (p.agency, _) :=
      (hhandler _ _).trans (liquidate_of (.mk htotal hlt hdebt hprice hm hvalue))
    refine ⟨info, msg, p.agency, _, owed, rfl, he, hrepay, ?_⟩
    refine bind_eq_error.mpr (.inr ⟨_, mapError_eq_ok.mpr he, ?_⟩)
    exact bind_eq_error.mpr (.inl hrepay)

/-- Every entry of the answer is accepted by its market, in every liquidation of that block,
unless a whole token of interest is pending on the debt. The collateral's market must exist
and the coins must fit into the market's account for it to be asked at all. -/
theorem listed_debt_accepted_iff {guard : Platform → Tx → Prop} {action : Action}
    {answer : Query.LiquidationResponse} (hrun : Run step guard (start address config) txs p)
    (h : Query.liquidation (p.querier env) p.agency account = .ok answer)
    (hcan : answer.canLiquidate = true) (hmem : (market, coin) ∈ answer.debt)
    (hl : Liquidates action sender account coin token) :
    ¬ Rejected ⟨env, action⟩ p market coin account ↔
      (∀ m, Query.market p.agency token ≠ .ok m) ∨
      ∀ sys, p.markets.mayLoad market = some sys →
        2 ^ 128 ≤ sys.cash.val + coin.amount.val ∨ ¬ sys.Accrues env.leaf account := by
  have hlinked := run_linked hrun
  obtain ⟨⟨v, htotal, hlt⟩, hlistings⟩ := listing_of_query h hcan
  cases found : p.markets.mayLoad market with
  | none =>
    refine iff_of_true ?_ (.inr fun _ hs => by cases hs)
    -- The credit agency only repays in markets of the platform.
    rintro ⟨info, msg, agency, msgs, owed, ha, he, -⟩
    obtain ⟨info', msg', rfl, hhandler⟩ := hl.handler
    cases ha
    rw [hhandler] at he
    obtain ⟨-, hliquidation⟩ := liquidate_spec he
    cases hliquidation with
    | mk _ _ debt =>
      obtain ⟨sys, hs⟩ := found_of_query_market hlinked debt
      cases found.symm.trans hs
  | some sys =>
    have hlisting := hlistings market sys coin hmem found
    rw [rejected_iff (run_listed hrun) htotal hlt found hlisting hl,
      repayTo_rejects_iff (hlinked.creditAgency market sys found) found hlisting]
    constructor
    · intro hnot
      by_cases hm : ∃ m, Query.market p.agency token = .ok m
      · right
        rintro _ ⟨⟩
        by_contra hor
        rw [not_or, not_le, not_not] at hor
        exact hnot ⟨hm, hor⟩
      · exact .inl fun m hm' => hm ⟨m, hm'⟩
    · rintro (hnone | hall) ⟨⟨m, hm⟩, hfits, haccrues⟩
      · exact hnone m hm
      · rcases hall sys rfl with hfull | hidle
        · omega
        · exact hidle haccrues

/-! ## Bob's dollars -/

/-- A block some years later, when one atom is worth three quarters of a dollar. -/
def sampleFall (years : ℕ) : Env :=
  { sampleEnv "" "" ⟨750_000_000_000_000_000⟩ with time := years * 31_536_000 }

/-- Carol pays some of Bob's dollars for his atom. -/
def samplePayment (amount : Uint128) : Action :=
  .agency ⟨"carol", [("usd", amount)]⟩ (.liquidate "bob" (.native "atom"))

/-- Bob owes 500 dollars, and the query tells Carol to pay that many. -/
theorem listed_debt_accepted_iff_example : ∃ p answer, Run step (fun _ _ => True)
      (start "agency" sampleConfig)
      (sampleCollateral Decimal.one ⟨600_000_000_000_000_000⟩ Decimal.zero 1_000 ++
        [sampleBorrow (sampleYear 0) 500]) p ∧
    Query.liquidation (p.querier (sampleFall 0)) p.agency "bob" = .ok answer ∧
    answer.canLiquidate = true ∧ ("usd market", ⟨.native "usd", 500⟩) ∈ answer.debt ∧
    ¬ Rejected ⟨sampleFall 0, samplePayment 500⟩ p "usd market" ⟨.native "usd", 500⟩ "bob" := by
  obtain ⟨p, hrun, ⟨answer, ha, hcan, hmem⟩, sys, found, hidle⟩ : ∃ p, Run step (fun _ _ => True)
      (start "agency" sampleConfig)
      (sampleCollateral Decimal.one ⟨600_000_000_000_000_000⟩ Decimal.zero 1_000 ++
        [sampleBorrow (sampleYear 0) 500]) p ∧
      (∃ answer ∈ (Query.liquidation (p.querier (sampleFall 0)) p.agency "bob").toOption,
        answer.canLiquidate = true ∧ ("usd market", ⟨.native "usd", 500⟩) ∈ answer.debt) ∧
      ∃ sys ∈ p.markets.mayLoad "usd market", ¬ sys.Accrues (sampleFall 0).leaf "bob" :=
    exists_run_of_runAll (by decide +kernel)
  have ha := toOption_eq_some.mp ha
  refine ⟨p, answer, hrun, ha, hcan, hmem, ?_⟩
  refine (listed_debt_accepted_iff hrun ha hcan hmem .native).mpr (.inr ?_)
  intro sys' found'
  cases found.symm.trans found'
  exact .inr hidle

/-- A year of interest at ten percent is pending on them. The query tells Carol to pay 550
dollars, and the market rejects them for a debt of 500. -/
theorem listed_debt_rejected : ∃ p answer, Run step (fun _ _ => True)
      (start "agency" sampleConfig)
      (sampleCollateral Decimal.one ⟨600_000_000_000_000_000⟩ ⟨100_000_000_000_000_000⟩ 1_000 ++
        [sampleBorrow (sampleYear 0) 500]) p ∧
    Query.liquidation (p.querier (sampleFall 1)) p.agency "bob" = .ok answer ∧
    answer.canLiquidate = true ∧ ("usd market", ⟨.native "usd", 550⟩) ∈ answer.debt ∧
    Rejected ⟨sampleFall 1, samplePayment 550⟩ p "usd market" ⟨.native "usd", 550⟩ "bob" := by
  obtain ⟨p, hrun, ⟨answer, ha, hcan, hmem⟩, ⟨m, hm⟩, sys, found, hfits, haccrues⟩ : ∃ p,
      Run step (fun _ _ => True) (start "agency" sampleConfig)
        (sampleCollateral Decimal.one ⟨600_000_000_000_000_000⟩ ⟨100_000_000_000_000_000⟩ 1_000 ++
          [sampleBorrow (sampleYear 0) 500]) p ∧
      (∃ answer ∈ (Query.liquidation (p.querier (sampleFall 1)) p.agency "bob").toOption,
        answer.canLiquidate = true ∧ ("usd market", ⟨.native "usd", 550⟩) ∈ answer.debt) ∧
      (∃ m ∈ (Query.market p.agency (.native "atom")).toOption, True) ∧
      ∃ sys ∈ p.markets.mayLoad "usd market", sys.cash.val + 550 < 2 ^ 128 ∧
        sys.Accrues (sampleFall 1).leaf "bob" :=
    exists_run_of_runAll (by decide +kernel)
  have ha := toOption_eq_some.mp ha
  refine ⟨p, answer, hrun, ha, hcan, hmem, ?_⟩
  obtain ⟨⟨v, htotal, hlt⟩, hlistings⟩ := listing_of_query ha hcan
  have hlisting := hlistings _ sys _ hmem found
  refine (rejected_iff (run_listed hrun) htotal hlt found hlisting .native).mpr
    ⟨⟨m, toOption_eq_some.mp hm.1⟩, ?_⟩
  exact (repayTo_rejects_iff ((run_linked hrun).creditAgency _ sys found) found hlisting).mpr
    ⟨hfits, haccrues⟩

end WyndLend.Platform
