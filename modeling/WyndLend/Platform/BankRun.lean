import WyndLend.Interleaving.Budget
import WyndLend.Platform.Quotas

/-!
# Withdrawals in one block

Once the interest of a block has been charged, a withdrawal changes nothing that another
account's withdrawal depends on but the cash of the market: it burns the ctokens of one
account and leaves the multipliers, so that the credit lines of all others stay the same.
-/

namespace WyndLend

open CosmWasm Utils Interleaving

namespace Market.System

variable {env : Env} {sys sys' mid : System} {account other : Addr} {amount : Uint128}
  {entered : List Addr}

/-- No charge period has passed since interest was last charged. -/
def Idle (time : ℕ) (sys : System) : Prop := epochsPassed sys.market.config time = .ok 0

instance (time : ℕ) (sys : System) : Decidable (Idle time sys) :=
  inferInstanceAs (Decidable (_ = _))

theorem Idle.settle (h : Idle env.time sys) :
    settle env sys = .ok { sys with time := env.time } := by
  have hcharge : chargeInterest (sys.querier env) env.time sys.market =
      .ok (sys.market, .unchanged) := by
    simp only [chargeInterest, bind_eq_ok]
    exact ⟨0, h, by simp⟩
  exact settle_eq_ok.mpr ⟨_, _, _, hcharge, rfl, rfl⟩

/-- The account may withdraw the amount and has the ctokens for it. -/
def Affords (env : Env) (sys : System) (account : Addr) (amount : Uint128) : Prop :=
  (∃ transferable, CrUtils.transferableAmount (sys.querier env) sys.market account =
    .ok transferable ∧ amount ≤ transferable) ∧
  ∃ tokens, baseToToken amount sys.ctoken.multiplier = .ok (ε := Ctoken.Error) tokens ∧
    tokens ≠ 0 ∧ tokens ≤ sys.ctoken.balance account

theorem withdraw_idle_iff (hi : Sound sys) (hidle : Idle env.time sys) :
    (∃ r, execute env ⟨account, []⟩ (.withdraw amount) sys = .ok r) ↔
      Affords env sys account amount ∧ amount ≤ sys.cash := by
  have hsound : Sound { sys with time := env.time } := ⟨hi.controller, hi.supply, hi.debtMultiplier⟩
  simp only [withdraw_succeeds_iff, hidle.settle, Except.ok.injEq, exists_and_left,
    exists_eq_left', Affords, and_assoc]
  refine and_congr_right fun _ => ?_
  constructor
  · rintro ⟨sys', happly⟩
    cases applied_of_apply happly with
    | withdraw burned paid =>
      obtain ⟨tokens, htokens, -⟩ := Ctoken.burnBaseFrom_spec burned
      obtain ⟨hburn, hcash⟩ := (apply_withdraw_succeeds_iff account hsound htokens).mp ⟨_, happly⟩
      exact ⟨⟨tokens, htokens, hburn⟩, hcash⟩
  · rintro ⟨⟨tokens, htokens, hburn⟩, hcash⟩
    exact (apply_withdraw_succeeds_iff account hsound htokens).mpr ⟨hburn, hcash⟩

/-- Nothing that the account's position depends on has changed. -/
structure SameFor (account : Addr) (sys sys' : System) : Prop where
  market : sys'.market = sys.market
  multiplier : sys'.ctoken.multiplier = sys.ctoken.multiplier
  balance : sys'.ctoken.balance account = sys.ctoken.balance account

/-- A withdrawal pays the amount and leaves the positions of all others. -/
theorem withdraw_idle_spec (hidle : Idle env.time sys)
    (h : execute env ⟨account, []⟩ (.withdraw amount) sys = .ok (sys', entered)) :
    entered = [] ∧ sys'.cash.val + amount.val = sys.cash.val ∧ sys'.market = sys.market ∧
      ∀ other ≠ account, SameFor other sys sys' := by
  obtain ⟨market, msgs, holdings, hm, hd, rfl, rfl⟩ := (execute_eq_ok (by simp)).mp h
  obtain ⟨-, hentered, mid, hs, happly⟩ := withdraw_outcome hm hd
  cases (hidle.settle).symm.trans hs
  generalize { sys with toHoldings := holdings, market, time := env.time } = after at happly ⊢
  refine ⟨hentered, ?_⟩
  cases applied_of_apply happly with
  | withdraw burned paid =>
    obtain ⟨tokens, -, hburn⟩ := Ctoken.burnBaseFrom_spec burned
    obtain ⟨-, -, _, _, ⟨b, c, -, -, rfl⟩, -, rfl⟩ := Ctoken.burnFrom_shift hburn
    refine ⟨paid, rfl, fun other hne => ⟨rfl, rfl, ?_⟩⟩
    simp only [Ctoken.State.balance, Map.mayLoad_save_ne _ _ hne]

theorem SameFor.affords_iff {env' : Env} (h : SameFor account sys sys')
    (hcredit : ∀ agency, env'.totalCreditLine agency account = env.totalCreditLine agency account)
    (htwap : env'.twap = env.twap) :
    Affords env' sys' account amount ↔ Affords env sys account amount := by
  have hcheck : CrUtils.transferableAmount (sys'.querier env') sys'.market account =
      CrUtils.transferableAmount (sys.querier env) sys.market account := by
    have hprice : Query.priceMarketLocalPerCommon (sys'.querier env') sys.market =
        Query.priceMarketLocalPerCommon (sys.querier env) sys.market := by
      simp only [Query.priceMarketLocalPerCommon, querier, htwap]
    simp only [CrUtils.transferableAmount, CrUtils.queryCredit, h.market, hprice,
      CrUtils.queryBorrowableTokensWithCreditvalues, CrUtils.availableLocalTokens]
    simp only [querier, hcredit, h.multiplier, h.balance]
  simp only [Affords, hcheck, h.multiplier, h.balance]

/-- The market reports the same credit line of the account. -/
theorem SameFor.creditLine_eq {time : ℕ} (h : SameFor account sys sys') (hidle : Idle time sys) :
    Query.creditLine (sys'.querier env) sys'.market time account =
      Query.creditLine (sys.querier env) sys.market time account := by
  have hbalance : Query.simulatedBalance (sys'.querier env) sys.market time account =
      Query.simulatedBalance (sys.querier env) sys.market time account := by
    have hn : epochsPassed sys.market.config time = .ok 0 := hidle
    simp only [Query.simulatedBalance, hn, querier, Ctoken.State.baseBalance, h.multiplier,
      h.balance]
    rfl
  unfold Query.creditLine
  rw [h.market, hbalance]
  rfl

end Market.System

namespace Platform

open CreditAgency

variable {env : Env} {p p' q : Platform} {market account address : Addr} {sys sys' : Market.System}
  {config : Config} {txs : List Tx} {w : Addr × Uint128}

/-- An account withdraws an amount. -/
def withdrawal (env : Env) (market : Addr) (w : Addr × Uint128) : Tx :=
  ⟨env, .market market ⟨w.1, []⟩ (.withdraw w.2)⟩

theorem withdrawal_spec (found : p.markets.mayLoad market = some sys)
    (hidle : sys.Idle env.time) (h : step (withdrawal env market w) p = .ok p') :
    ∃ sys', p' = p.update market sys' [] ∧ sys'.cash.val + w.2.val = sys.cash.val ∧
      sys'.market = sys.market ∧ (∀ other ≠ w.1, sys.SameFor other sys') ∧
      (sys.Sound → sys'.Sound) := by
  obtain ⟨_, sys', entered, found', hexecuted, rfl⟩ := executeMarket_spec h
  cases found.symm.trans found'
  obtain ⟨rfl, hcash, hmarket, hsame⟩ := Market.System.withdraw_idle_spec hidle hexecuted
  have hstep : Market.System.step ⟨p.marketEnv env, .execute ⟨w.1, []⟩ (.withdraw w.2)⟩ sys =
      .ok sys' := bind_eq_ok.mpr ⟨_, hexecuted, rfl⟩
  exact ⟨sys', rfl, hcash, hmarket, hsame, fun hi => Market.System.step_sound hi hstep⟩

/-- Whoever keeps its position in the market keeps its total credit line. -/
theorem totalCreditLine_update (found : p.markets.mayLoad market = some sys)
    (hidle : sys.Idle env.time) (h : sys.SameFor account sys') :
    (p.update market sys' []).totalCreditLine env account = p.totalCreditLine env account := by
  have hline : ∀ m, ((p.update market sys' []).querier env).creditLine m account =
      (p.querier env).creditLine m account := by
    intro m
    simp only [querier, update]
    by_cases hm : m = market
    · subst hm
      simp only [Map.mayLoad_save_self, found, h.creditLine_eq hidle]
    · rw [Map.mayLoad_save_ne _ _ hm]
  have hlines : ∀ token, Query.creditLine ((p.update market sys' []).querier env) token account =
      Query.creditLine (p.querier env) token account := by
    intro token
    funext m
    simp only [Query.creditLine, hline]
  have hagency : (p.update market sys' []).agency = p.agency := rfl
  simp only [totalCreditLine, Query.totalCreditLine, Query.creditLines, hagency, hlines]

/-- The cash of the market. -/
def cashOf (market : Addr) (p : Platform) : ℕ :=
  ((p.markets.mayLoad market).map fun sys => sys.cash.val).getD 0

/-- The withdrawals from a market in which nothing is pending draw on its cash. -/
theorem withdrawals_draw (env : Env) (market : Addr) :
    Draws (fun w p p' => step (withdrawal env market w) p = .ok p')
      (fun p => ∃ sys, p.markets.mayLoad market = some sys ∧ sys.Sound ∧ sys.Idle env.time)
      Prod.fst
      (fun w p => ∃ sys, p.markets.mayLoad market = some sys ∧
        sys.Affords (p.marketEnv env) w.1 w.2)
      (fun w => w.2.val) (cashOf market) where
  enabled := by
    rintro w p ⟨sys, found, hi, hidle⟩
    refine (accepts_iff found).trans ?_
    rw [Market.System.withdraw_idle_iff hi hidle, Uint128.le_def]
    simp [found, cashOf]
  keeps := by
    rintro w p p' ⟨sys, found, hi, hidle⟩ h
    obtain ⟨sys', rfl, -, hmarket, -, hsound⟩ := withdrawal_spec found hidle h
    refine ⟨sys', Map.mayLoad_save_self _ _ _, hsound hi, ?_⟩
    unfold Market.System.Idle
    rwa [hmarket]
  paid := by
    rintro w p p' ⟨sys, found, hi, hidle⟩ h
    obtain ⟨sys', rfl, hcash, -⟩ := withdrawal_spec found hidle h
    simpa [cashOf, update, found] using hcash
  frame := by
    rintro w v p p' ⟨sys, found, hi, hidle⟩ h hne
    obtain ⟨sys', rfl, -, -, hsame, -⟩ := withdrawal_spec found hidle h
    have hcredit := totalCreditLine_update found hidle (hsame v.1 hne)
    have haffords : sys'.Affords ((p.update market sys' []).marketEnv env) v.1 v.2 ↔
        sys.Affords (p.marketEnv env) v.1 v.2 := by
      refine (hsame v.1 hne).affords_iff (fun agency => ?_) rfl
      simp only [marketEnv, Env.market, hcredit]
      rfl
    simpa [update, found] using haffords

/-- Once the interest of the block has been charged, no account gains from withdrawing before
the others, except for cash: in whatever order they come, withdrawals of different accounts
from a market of a reachable platform all succeed if and only if each of them would succeed
as the first one and the market has the cash for all of them. -/
theorem withdrawals_succeed_iff {guard : Platform → Tx → Prop} {ws : List (Addr × Uint128)}
    (h : Run step guard (start address config) txs p)
    (found : p.markets.mayLoad market = some sys) (hidle : sys.Idle env.time)
    (haccounts : (ws.map Prod.fst).Nodup) :
    (∃ q, Run step (fun _ _ => True) p (ws.map (withdrawal env market)) q) ↔
      (∀ w ∈ ws, Accepts env p market w.1 (.withdraw w.2)) ∧
      (ws.map fun w => w.2.val).sum ≤ sys.cash.val := by
  have hi : ∃ sys, p.markets.mayLoad market = some sys ∧ sys.Sound ∧ sys.Idle env.time :=
    ⟨sys, found, lasting_sound.run h found, hidle⟩
  have hcash : cashOf market p = sys.cash.val := by simp [cashOf, found]
  simp only [Run.exec_iff, Exec.map_iff, (withdrawals_draw env market).exec_iff hi haccounts, hcash]
  rfl

/-- The lender and Carol have deposited 1100 dollars, and Bob has borrowed 20 of them. -/
def sampleLenders : List Tx :=
  sampleCollateral Decimal.one sampleHalf Decimal.zero 40 ++
    [⟨sampleYear 0, .market "usd market" ⟨"carol", [("usd", 100)]⟩ .deposit⟩,
      sampleBorrow (sampleYear 0) 20]

/-- Both may withdraw what they have deposited, but not both of them. -/
theorem withdrawals_succeed_iff_example : ∃ p,
    Run step (fun _ _ => True) (start "agency" sampleConfig) sampleLenders p ∧
    (∃ q, Run step (fun _ _ => True) p
      ([("lender", 1_000), ("carol", 80)].map (withdrawal (sampleYear 0) "usd market")) q) ∧
    Accepts (sampleYear 0) p "usd market" "lender" (.withdraw 1_000) ∧
    Accepts (sampleYear 0) p "usd market" "carol" (.withdraw 100) ∧
    ¬ ∃ q, Run step (fun _ _ => True) p
      ([("lender", 1_000), ("carol", 100)].map (withdrawal (sampleYear 0) "usd market")) q := by
  obtain ⟨p, hrun, ⟨sys, found, hidle, hcash⟩, hsome, hother⟩ : ∃ p,
      Run step (fun _ _ => True) (start "agency" sampleConfig) sampleLenders p ∧
      (∃ sys ∈ p.markets.mayLoad "usd market", sys.Idle (sampleYear 0).time ∧ sys.cash = 1_080) ∧
      (runAll step (fun _ _ => True)
        ([("lender", 1_000), ("carol", 80)].map (withdrawal (sampleYear 0) "usd market")) p).any
          (fun _ => decide True) = true ∧
      (runAll step (fun _ _ => True)
        ([("carol", 100)].map (withdrawal (sampleYear 0) "usd market")) p).any
          (fun _ => decide True) = true := exists_run_of_runAll (by decide +kernel)
  obtain ⟨q, hboth, -⟩ := exists_run_of_runAll hsome
  obtain ⟨q', hcarol, -⟩ := exists_run_of_runAll hother
  have hwhole := (withdrawals_succeed_iff hrun found hidle (by decide)).mp ⟨q, hboth⟩
  have hpart := (withdrawals_succeed_iff hrun found hidle (by decide)).mp ⟨q', hcarol⟩
  refine ⟨p, hrun, ⟨q, hboth⟩, hwhole.1 ("lender", 1_000) (by simp),
    hpart.1 ("carol", 100) (by simp), fun htoo => ?_⟩
  have hsum := ((withdrawals_succeed_iff hrun found hidle (by decide)).mp htoo).2
  rw [hcash] at hsum
  exact absurd hsum (by decide)

end Platform

end WyndLend
