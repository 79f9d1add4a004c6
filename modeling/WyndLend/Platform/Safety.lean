import WyndLend.Market.CreditLine
import WyndLend.Platform.HiddenDebt

/-!
# Credit safety

`Borrow`, `Withdraw` and `ExitMarket` are checked beforehand, and a liquidation looks
at the total credit line afterwards, which truncates in other places. When no interest
is pending the debt exceeds the credit line by at most one common token after a
withdrawal, and not at all otherwise. Pending interest is simulated on truncated
balances by the check and charged on the multipliers by the message.
-/

namespace WyndLend.Platform

open CosmWasm Utils Rebasing CreditAgency
open Market.System (pendingRate collateralDrift debtDrift price)

/-- Every market that the account has entered has ratios of at most one. -/
def RatiosWithin (p : Platform) (account : Addr) : Prop :=
  ∀ market ∈ (p.agency.entered account).toList, ∃ sys ∈ p.markets.mayLoad market,
    sys.market.config.collateralRatio ≤ Decimal.one ∧
    sys.market.config.borrowLimitRatio ≤ Decimal.one

instance (p : Platform) (account : Addr) : Decidable (RatiosWithin p account) :=
  inferInstanceAs (Decidable (∀ market ∈ (p.agency.entered account).toList,
    ∃ sys ∈ p.markets.mayLoad market, sys.market.config.collateralRatio ≤ Decimal.one ∧
      sys.market.config.borrowLimitRatio ≤ Decimal.one))

/-- By how much the debt may exceed the credit line: by `settled` if no interest is
pending, and otherwise by what the truncated balances are worth in addition. -/
def slack (env : Env) (sys : Market.System) (account : Addr) (settled : ℚ) : ℚ :=
  (pendingRate env.leaf sys).elim settled fun rate =>
    3 + (3 + rate.atomics.val / fractional + (sys.ctoken.balance account).val / fractional) *
      price env.leaf sys

/-- The messages of an account that draw on its credit, with the slack they leave. An
account borrows something, in a market where all it owes is counted. -/
inductive Draw (p : Platform) (env : Env) (account : Addr) : Action → ℚ → Prop where
  | exitMarket {funds market} :
    Draw p env account (.agency ⟨account, funds⟩ (.exitMarket market)) 0
  | borrow {funds market sys amount} (found : p.markets.mayLoad market = some sys)
    (positive : amount ≠ 0) (counted : market ∈ p.agency.entered account ∨ ¬ sys.Owes account) :
    Draw p env account (.market market ⟨account, funds⟩ (.borrow amount)) (slack env sys account 0)
  | withdraw {funds market sys amount} (found : p.markets.mayLoad market = some sys) :
    Draw p env account (.market market ⟨account, funds⟩ (.withdraw amount))
      (slack env sys account 1)

/-! ## The total credit line of an account -/

variable {p p' : Platform} {env : Env} {market account : Addr} {sys sys' mid : Market.System}
  {entered : List Addr} {token : Token} {amount : Uint128} {v : CreditLineValues}
  {funds : List (String × Uint128)} {total : CreditLineResponse} {rate : PriceRate}

/-- The credit line of the account in one market, and a total of these. -/
def lineOf (p : Platform) (env : Env) (account market : Addr) : CreditLineValues :=
  CreditAgency.lineOf (p.querier env) p.agency.config.commonToken account market

def totalOf (f : CreditLineValues → Uint128) (p : Platform) (env : Env) (account : Addr) : ℕ :=
  CreditAgency.totalOf f (p.querier env) p.agency.config.commonToken account
    (p.agency.entered account).toList

theorem total_values (h : p.totalCreditLine env account = .ok total) :
    (∀ market ∈ p.agency.entered account,
      CreditAgency.Query.creditLine (p.querier env) p.agency.config.commonToken account market =
        .ok (p.lineOf env account market)) ∧
    total.creditLine.amount.val = totalOf CreditLineValues.creditLine p env account ∧
    total.borrowLimit.amount.val = totalOf CreditLineValues.borrowLimit p env account ∧
    total.debt.amount.val = totalOf CreditLineValues.debt p env account := by
  obtain ⟨v, rfl, hall, hcredit, hlimit, hdebt⟩ := totalCreditLine_spec h
  exact ⟨hall, hcredit, hlimit, hdebt⟩

/-- What a market of the platform answers to the credit agency. -/
theorem market_line (found : p.markets.mayLoad market = some sys)
    (h : CreditAgency.Query.creditLine (p.querier env) token account market = .ok v) :
    Market.Query.creditLine (sys.querier env.leaf) sys.market env.time account =
      .ok (v.makeResponse token) := by
  simp only [CreditAgency.Query.creditLine, querier, found, bind_eq_ok, mapError_eq_ok,
    CreditLineResponse.validate_eq_ok] at h
  obtain ⟨response, hr, rfl⟩ := h
  exact hr

/-- Only the market that moved answers differently. -/
theorem lineOf_update {m : Addr} (hne : m ≠ market) :
    CreditAgency.lineOf ((p.update market sys entered).querier env) token account m =
      CreditAgency.lineOf (p.querier env) token account m := by
  refine lineOf_congr ?_
  simp only [CreditAgency.Query.creditLine, querier, update, Map.mayLoad_save_ne _ _ hne]

theorem limit_le_credit (hr : RatiosWithin p account)
    (h : p.totalCreditLine env account = .ok total) :
    total.borrowLimit.amount.val ≤ total.creditLine.amount.val := by
  obtain ⟨hall, hcredit, hlimit, -⟩ := total_values h
  rw [hcredit, hlimit]
  refine totalOf_mono ?_
  intro m hm
  obtain ⟨sys, found, -, hb⟩ := hr m hm
  exact Market.borrowLimit_le hb (market_line found (hall m hm))

/-- The total that a market asks for is the one of its own credit agency. -/
theorem asked_total (hl : Linked p) (found : p.markets.mayLoad market = some sys)
    (h : (p.marketEnv env).totalCreditLine sys.market.config.creditAgency account = .ok total) :
    p.totalCreditLine env account = .ok total := by
  rw [hl.creditAgency market sys found] at h
  simp only [marketEnv, Env.market, if_true, mapError_eq_ok] at h
  exact h

/-! ## Exiting a market -/

/-- An exit is checked against the very total that is left. -/
theorem exit_safe (h : step ⟨env, .agency ⟨account, funds⟩ (.exitMarket market)⟩ p = .ok p')
    (ht : p'.totalCreditLine env account = .ok total) :
    total.debt.amount ≤ total.creditLine.amount := by
  simp only [step, bind_eq_ok, mapError_eq_ok] at h
  obtain ⟨⟨agency, msgs⟩, hexit, hd⟩ := h
  obtain ⟨-, -, ⟨values, reduced, hv, hsum, hle⟩, rfl, rfl⟩ := exitMarket_spec hexit
  cases hd
  simp only [Platform.totalCreditLine, CreditAgency.Query.totalCreditLine, bind_eq_ok,
    pure_eq_ok] at ht
  obtain ⟨values', hv', reduced', hsum', rfl⟩ := ht
  rw [entered_save, if_pos rfl] at hv'
  cases hv.symm.trans hv'
  cases hsum.symm.trans hsum'
  exact hle

/-! ## What a check leaves room for -/

theorem slack_of_none (h : pendingRate env.leaf sys = none) (settled : ℚ) :
    slack env sys account settled = settled := by
  rw [slack, h, Option.elim]

/-- The slack is what the drifts of the balances are worth, and truncation. -/
theorem slack_of_some {accrued : Decimal} (h : pendingRate env.leaf sys = some accrued)
    (settled : ℚ) :
    slack env sys account settled =
      3 + (collateralDrift env.leaf sys account + debtDrift env.leaf sys) * price env.leaf sys := by
  rw [slack, collateralDrift, debtDrift, h]
  simp only [Option.elim]
  ring

theorem slack_nonneg {settled : ℚ} (h : 0 ≤ settled) : 0 ≤ slack env sys account settled := by
  unfold slack
  cases pendingRate env.leaf sys with
  | none => exact h
  | some accrued =>
    have hprice : 0 ≤ price env.leaf sys := Market.System.price_nonneg
    simp only [Option.elim]
    positivity

section Lines

/-! One market moves its credit from `l` to `l'` and its debt from `o` to `o'`, of the totals
`C` and `D`. -/

variable {C C' D D' l l' o o' : ℕ} {x y a b : ℚ}

/-- What the check covers stays covered, up to the drifts and three truncations. -/
theorem covered_drift (hC : C' + l = C + l') (hD : D' + o = D + o')
    (hlost : (l : ℚ) < l' + 2 + x + a) (howed : (o' : ℚ) < o + 1 + y + b)
    (hcheck : (D : ℚ) + x + y ≤ C) : (D' : ℚ) ≤ C' + (3 + (a + b)) := by
  have hC : (C' : ℚ) + l = C + l' := by exact_mod_cast hC
  have hD : (D' : ℚ) + o = D + o' := by exact_mod_cast hD
  linarith

/-- If the debt does not grow, the truncation of the credit costs one. -/
theorem covered_lost (hC : C' + l = C + l') (hD : D' + o = D + o')
    (hlost : (l : ℚ) < l' + 2 + x) (howed : o' ≤ o) (hcheck : (D : ℚ) + x ≤ C) : D' ≤ C' + 1 := by
  have hCq : (C' : ℚ) + l = C + l' := by exact_mod_cast hC
  have hlt : (D : ℚ) < C' + 2 := by linarith
  have hlt : D < C' + 2 := by exact_mod_cast hlt
  omega

/-- If the credit does not shrink, the truncation of the debt costs nothing. -/
theorem covered_owed (hC : C' + l = C + l') (hD : D' + o = D + o')
    (hlost : l ≤ l') (howed : (o' : ℚ) < o + 1 + y) (hcheck : (D : ℚ) + y ≤ C) : D' ≤ C' := by
  have hDq : (D' : ℚ) + o = D + o' := by exact_mod_cast hD
  have hlt : (D' : ℚ) < C + 1 := by linarith
  have hlt : D' < C + 1 := by exact_mod_cast hlt
  omega

/-- Debt in another market is covered if it is worth what was checked. -/
theorem covered_first (hC : C' = C + l') (hD : D' = D + o') (howed : (o' : ℚ) ≤ y)
    (hcheck : (D : ℚ) + y ≤ C) : D' ≤ C' := by
  have hle : (D : ℚ) + o' ≤ C := by linarith
  have hle : D + o' ≤ C := by exact_mod_cast hle
  omega

/-- Without debt elsewhere only what the drift adds can be owed. -/
theorem covered_free (hD : D' + o = 0 + o') (howed : (o' : ℚ) < o + 1 + b) (ha : 0 ≤ a) :
    (D' : ℚ) ≤ C' + (3 + (a + b)) := by
  rw [Nat.zero_add] at hD
  have hD : (D' : ℚ) + o = o' := by exact_mod_cast hD
  have hC : (0 : ℚ) ≤ C' := Nat.cast_nonneg _
  linarith

/-- A withdrawal that was checked leaves the debt covered, up to the slack. -/
theorem covered_withdraw (hC : C' + l = C + l') (hD : D' + o = D + o')
    (hlost : (l : ℚ) < l' + 2 + x + collateralDrift env.leaf sys account * price env.leaf sys)
    (howed : (o' : ℚ) < o + 1 + debtDrift env.leaf sys * price env.leaf sys)
    (hexact : pendingRate env.leaf sys = none → o' ≤ o) (hcheck : D ≠ 0 → (D : ℚ) + x ≤ C) :
    (D' : ℚ) ≤ C' + slack env sys account 1 := by
  cases hpending : pendingRate env.leaf sys with
  | none =>
    have hle := hexact hpending
    rw [Market.System.collateralDrift_of_none hpending, zero_mul, add_zero] at hlost
    rw [slack_of_none hpending]
    suffices D' ≤ C' + 1 by exact_mod_cast this
    by_cases h0 : D = 0
    · omega
    · exact covered_lost hC hD hlost hle (hcheck h0)
  | some accrued =>
    rw [slack_of_some hpending, add_mul]
    by_cases h0 : D = 0
    · have hdrift : 0 ≤ collateralDrift env.leaf sys account * price env.leaf sys :=
        mul_nonneg Market.System.collateralDrift_nonneg Market.System.price_nonneg
      exact covered_free (h0 ▸ hD) howed hdrift
    · have hle := hcheck h0
      exact covered_drift (y := 0) hC hD hlost (by linarith) (by linarith)

/-- A loan that was checked leaves the debt covered, up to the slack. -/
theorem covered_borrow (hC : C' + l = C + l') (hD : D' + o = D + o')
    (hlost : (l : ℚ) < l' + 2 + collateralDrift env.leaf sys account * price env.leaf sys)
    (howed : (o' : ℚ) < o + 1 + (y + debtDrift env.leaf sys) * price env.leaf sys)
    (hexact : pendingRate env.leaf sys = none → l ≤ l')
    (hcheck : (D : ℚ) + y * price env.leaf sys ≤ C) :
    (D' : ℚ) ≤ C' + slack env sys account 0 := by
  cases hpending : pendingRate env.leaf sys with
  | none =>
    rw [Market.System.debtDrift_of_none hpending, add_zero] at howed
    rw [slack_of_none hpending, add_zero]
    exact_mod_cast covered_owed hC hD (hexact hpending) howed hcheck
  | some accrued =>
    rw [slack_of_some hpending, add_mul]
    exact covered_drift (x := 0) (y := y * price env.leaf sys) hC hD (by linarith) (by linarith)
      (by linarith)

end Lines

/-! ## The totals of an account when one market moves -/

/-- The account has entered the market: its shares are replaced. -/
theorem totals_move {before after : CreditLineResponse}
    (found : p.markets.mayLoad market = some sys) (hm : market ∈ p.agency.entered account)
    (hb : p.totalCreditLine env account = .ok before)
    (ha : (p.update market sys' entered).totalCreditLine env account = .ok after) :
    ∃ (v v' : CreditLineValues) (token : Token),
      Market.Query.creditLine (sys.querier env.leaf) sys.market env.time account =
        .ok (v.makeResponse token) ∧
      Market.Query.creditLine (sys'.querier env.leaf) sys'.market env.time account =
        .ok (v'.makeResponse token) ∧
      after.creditLine.amount.val + v.creditLine.val =
        before.creditLine.amount.val + v'.creditLine.val ∧
      after.debt.amount.val + v.debt.val = before.debt.amount.val + v'.debt.val := by
  obtain ⟨hall, hcredit, -, hdebt⟩ := total_values hb
  obtain ⟨hall', hcredit', -, hdebt'⟩ := total_values ha
  have hset : ∀ m, m ∈ (p.update market sys' entered).agency.entered account ↔
      m ∈ p.agency.entered account := by
    intro m
    rw [mem_entered_update, or_iff_right_of_imp]
    rintro ⟨-, rfl⟩
    exact hm
  have hline' := hall' market ((hset market).mpr hm)
  unfold totalOf at hcredit hcredit' hdebt hdebt'
  unfold lineOf at hall hline'
  rw [update_registry.1] at hcredit' hdebt' hline'
  rw [hcredit, hcredit', hdebt, hdebt']
  have hset := List.toFinset.ext_iff.mpr hset
  exact ⟨_, _, _, market_line found (hall market hm),
    market_line (Map.mayLoad_save_self _ _ _) hline',
    totalOf_move _ hset hm fun _ hne => lineOf_update hne,
    totalOf_move _ hset hm fun _ hne => lineOf_update hne⟩

/-- The account enters the market: its shares are added. -/
theorem totals_enter {before after : CreditLineResponse} (hm : market ∉ p.agency.entered account)
    (hb : p.totalCreditLine env account = .ok before)
    (ha : (p.update market sys' [account]).totalCreditLine env account = .ok after) :
    ∃ (v' : CreditLineValues) (token : Token),
      Market.Query.creditLine (sys'.querier env.leaf) sys'.market env.time account =
        .ok (v'.makeResponse token) ∧
      after.creditLine.amount.val = before.creditLine.amount.val + v'.creditLine.val ∧
      after.debt.amount.val = before.debt.amount.val + v'.debt.val := by
  obtain ⟨-, hcredit, -, hdebt⟩ := total_values hb
  obtain ⟨hall', hcredit', -, hdebt'⟩ := total_values ha
  have hset : ((p.update market sys' [account]).agency.entered account).toList.toFinset =
      insert market (p.agency.entered account).toList.toFinset := by
    ext m
    rw [List.mem_toFinset, Finset.mem_insert, List.mem_toFinset, ← BTreeSet.mem_def,
      ← BTreeSet.mem_def, mem_entered_update]
    simp
  have hline' := hall' market (mem_entered_update.mpr (.inl ⟨List.mem_singleton_self _, rfl⟩))
  unfold totalOf at hcredit hcredit' hdebt hdebt'
  unfold lineOf at hline'
  rw [update_registry.1] at hcredit' hdebt' hline'
  rw [hcredit, hcredit', hdebt, hdebt']
  exact ⟨_, _, market_line (Map.mayLoad_save_self _ _ _) hline',
    totalOf_enter _ hset hm fun _ hne => lineOf_update hne,
    totalOf_enter _ hset hm fun _ hne => lineOf_update hne⟩

/-- The account stays outside the market: its totals are the same. -/
theorem totals_outside {before after : CreditLineResponse} (hm : market ∉ p.agency.entered account)
    (hb : p.totalCreditLine env account = .ok before)
    (ha : (p.update market sys' []).totalCreditLine env account = .ok after) :
    after.creditLine.amount.val = before.creditLine.amount.val ∧
      after.debt.amount.val = before.debt.amount.val := by
  obtain ⟨-, hcredit, -, hdebt⟩ := total_values hb
  obtain ⟨-, hcredit', -, hdebt'⟩ := total_values ha
  rw [hcredit, hcredit', hdebt, hdebt']
  exact ⟨totalOf_outside _ hm fun _ hne => lineOf_update hne,
    totalOf_outside _ hm fun _ hne => lineOf_update hne⟩

/-! ## Withdrawals and loans -/

theorem withdraw_safe (hl : Linked p) (hr : RatiosWithin p account)
    (found : p.markets.mayLoad market = some sys)
    (h : executeMarket env market ⟨account, funds⟩ (.withdraw amount) p = .ok p')
    (ht : p'.totalCreditLine env account = .ok total) :
    (total.debt.amount.val : ℚ) ≤ total.creditLine.amount.val + slack env sys account 1 := by
  obtain ⟨_, sys', entered, hf, he, rfl⟩ := executeMarket_spec h
  cases found.symm.trans hf
  obtain ⟨cash, transferable, mid, check, le, settled, applied, rfl⟩ :=
    Market.System.execute_withdraw he
  obtain ⟨rate, credit, hrate, hasked, hworth⟩ := Market.CrUtils.transferableAmount_spec check le
    (Market.System.apply_withdraw_ne_zero applied)
  have hbefore := asked_total hl found hasked
  have htime : env.leaf.time = (p.marketEnv env).time := rfl
  have hrate : Market.Query.priceMarketLocalPerCommon (sys.querier env.leaf) sys.market =
    .ok rate := hrate
  have hlimit : (credit.borrowLimit.val : ℚ) ≤ credit.creditLine.val := by
    exact_mod_cast limit_le_credit hr hbefore
  rw [← Market.System.price_of_ok hrate] at hworth
  by_cases hm : market ∈ p.agency.entered account
  · obtain ⟨_, hf, hratio, -⟩ := hr market hm
    cases found.symm.trans hf
    obtain ⟨v, v', token, hline, hline', hC, hD⟩ := totals_move found hm hbefore ht
    simp only [CreditLineValues.makeResponse, Token.amount] at hC hD
    obtain ⟨hlost, howed, hexact⟩ := Market.System.withdraw_line settled applied htime hratio hrate
      hline hline'
    exact covered_withdraw hC hD hlost howed hexact fun h0 => (hworth h0).trans hlimit
  · obtain ⟨hC, hD⟩ := totals_outside hm hbefore ht
    have hslack : 0 ≤ slack env sys account 1 := slack_nonneg zero_le_one
    rw [hC, hD]
    simp only [CreditLineValues.makeResponse, Token.amount]
    by_cases h0 : credit.debt.val = 0
    · rw [h0, Nat.cast_zero]
      positivity
    · have hnonneg : 0 ≤ amount.val * price env.leaf sys *
          (sys.market.config.collateralRatio.atomics.val / fractional) :=
        mul_nonneg (mul_nonneg (Nat.cast_nonneg _) Market.System.price_nonneg) (by positivity)
      linarith [hworth h0]

theorem borrow_safe (hl : Linked p) (hr : RatiosWithin p account)
    (found : p.markets.mayLoad market = some sys) (positive : amount ≠ 0)
    (counted : market ∈ p.agency.entered account ∨ ¬ sys.Owes account)
    (h : executeMarket env market ⟨account, funds⟩ (.borrow amount) p = .ok p')
    (ht : p'.totalCreditLine env account = .ok total) :
    (total.debt.amount.val : ℚ) ≤ total.creditLine.amount.val + slack env sys account 0 := by
  obtain ⟨_, sys', entered, hf, he, rfl⟩ := executeMarket_spec h
  cases found.symm.trans hf
  obtain ⟨cash, mid, check, settled, applied, rfl⟩ := Market.System.execute_borrow he
  obtain ⟨rate, credit, hrate, hasked, hworth⟩ := Market.CrUtils.canBorrow_spec check
  have hbefore := asked_total hl found hasked
  have htime : env.leaf.time = (p.marketEnv env).time := rfl
  have hrate : Market.Query.priceMarketLocalPerCommon (sys.querier env.leaf) sys.market =
    .ok rate := hrate
  have hlimit : (credit.borrowLimit.val : ℚ) ≤ credit.creditLine.val := by
    exact_mod_cast limit_le_credit hr hbefore
  rw [← Market.System.price_of_ok hrate] at hworth
  have hcheck := (hworth positive).trans hlimit
  by_cases hm : market ∈ p.agency.entered account
  · obtain ⟨_, hf, hratio, -⟩ := hr market hm
    cases found.symm.trans hf
    obtain ⟨v, v', token, hline, hline', hC, hD⟩ := totals_move found hm hbefore ht
    simp only [CreditLineValues.makeResponse, Token.amount] at hC hD
    obtain ⟨hlost, howed, hexact⟩ := Market.System.borrow_line settled applied htime hratio hrate
      hline hline'
    exact covered_borrow hC hD hlost howed hexact hcheck
  · obtain ⟨v', token, hline', hC, hD⟩ := totals_enter hm hbefore ht
    have hfirst := Market.System.first_borrow_line settled applied (counted.resolve_left hm) hrate
      hline'
    have hle : (total.debt.amount.val : ℚ) ≤ total.creditLine.amount.val := by
      exact_mod_cast covered_first hC hD hfirst hcheck
    exact hle.trans (le_add_of_nonneg_right (slack_nonneg le_rfl))

/-! ## Liquidations -/

/-- Nobody can liquidate an account whose debt is covered. -/
theorem liquidate_covered (h : p.totalCreditLine env account = .ok total)
    (hle : total.debt.amount ≤ total.creditLine.amount) (liquidator : Addr) (coins : Coin)
    (collateralDenom : Token) :
    CreditAgency.liquidate (p.querier env) p.agency liquidator account coins collateralDenom =
      .error .liquidationNotAllowed := by
  obtain ⟨v, rfl, -⟩ := totalCreditLine_spec h
  have hle : ¬ v.creditLine < v.debt := not_lt.mpr hle
  unfold Platform.totalCreditLine at h
  simp only [CreditAgency.liquidate, h, bind, Except.bind, CreditLineValues.validate_makeResponse,
    Except.mapError, ensure, if_neg hle]

/-- After a message that draws on its credit, the debt of an account is within its credit
line up to the slack, and as long as it is, the account cannot be liquidated. -/
theorem credit_safety {guard : Platform → Tx → Prop} {address : Addr}
    {config : CreditAgency.Config} {txs : List Tx} {action : Action} {excess : ℚ}
    (h : Run step guard (start address config) txs p) (hr : RatiosWithin p account)
    (hd : Draw p env account action excess) (hs : step ⟨env, action⟩ p = .ok p')
    (ht : p'.totalCreditLine env account = .ok total) :
    (total.debt.amount.val : ℚ) ≤ total.creditLine.amount.val + excess ∧
      (total.debt.amount ≤ total.creditLine.amount → ∀ liquidator coins collateralDenom,
        CreditAgency.liquidate (p'.querier env) p'.agency liquidator account coins
          collateralDenom = .error .liquidationNotAllowed) := by
  refine ⟨?_, liquidate_covered ht⟩
  have hl := run_linked h
  cases hd with
  | exitMarket =>
    rw [add_zero]
    exact_mod_cast exit_safe hs ht
  | borrow found positive counted => exact borrow_safe hl hr found positive counted hs ht
  | withdraw found => exact withdraw_safe hl hr found hs ht

/-! ## An account at its limit -/

/-- Dollars are lent at `rate` a year, and Bob has deposited atom. -/
def sampleCollateral (price ratio rate : Decimal) (collateral : Uint128) : List Tx :=
  [⟨sampleEnv "usd market" "usd ctoken" price, .agency ⟨"gov", []⟩
      (.createMarket { sampleMarket "usd" with interestRate := .linear rate Decimal.zero })⟩,
    ⟨sampleEnv "atom market" "atom ctoken" price, .agency ⟨"gov", []⟩
      (.createMarket { sampleMarket "atom" with collateralRatio := ratio })⟩,
    ⟨sampleEnv "" "" price, .market "usd market" ⟨"lender", [("usd", 1_000)]⟩ .deposit⟩,
    ⟨sampleEnv "" "" price, .market "atom market" ⟨"bob", [("atom", collateral)]⟩ .deposit⟩]

def sampleBorrow (env : Env) (amount : Uint128) : Tx :=
  ⟨env, .market "usd market" ⟨"bob", []⟩ (.borrow amount)⟩

/-- Carol pays one of Bob's dollars for his atom. -/
def sampleLiquidation (env : Env) : Tx :=
  ⟨env, .agency ⟨"carol", [("usd", 1)]⟩ (.liquidate "bob" (.native "atom"))⟩

/-- A block some years later, when one atom is worth one dollar. -/
def sampleYear (years : ℕ) : Env :=
  { sampleEnv "" "" Decimal.one with time := years * 31_536_000 }

def sampleHalf : Decimal := ⟨500_000_000_000_000_000⟩

theorem credit_safety_example : ∃ p p' total, Run step (fun _ _ => True)
      (start "agency" sampleConfig)
      (sampleCollateral sampleHalf ⟨600_000_000_000_000_000⟩ Decimal.zero 10) p ∧
    step (sampleBorrow (sampleEnv "" "" sampleHalf) 2) p = .ok p' ∧
    p'.totalCreditLine (sampleEnv "" "" sampleHalf) "bob" = .ok total ∧
    ∀ liquidator coins collateralDenom,
      CreditAgency.liquidate (p'.querier (sampleEnv "" "" sampleHalf)) p'.agency liquidator "bob"
        coins collateralDenom = .error .liquidationNotAllowed := by
  obtain ⟨p, hrun, hr, ⟨sys, found, ho⟩, p', hs, total, ht, hle⟩ : ∃ p, Run step (fun _ _ => True)
      (start "agency" sampleConfig)
      (sampleCollateral sampleHalf ⟨600_000_000_000_000_000⟩ Decimal.zero 10) p ∧
      RatiosWithin p "bob" ∧ (∃ sys ∈ p.markets.mayLoad "usd market", ¬ sys.Owes "bob") ∧
      ∃ p' ∈ (step (sampleBorrow (sampleEnv "" "" sampleHalf) 2) p).toOption,
      ∃ total ∈ (p'.totalCreditLine (sampleEnv "" "" sampleHalf) "bob").toOption,
        total.debt.amount ≤ total.creditLine.amount :=
    exists_run_of_runAll (by decide +kernel)
  have hs := toOption_eq_some.mp hs
  have ht := toOption_eq_some.mp ht
  exact ⟨p, p', total, hrun, hs, ht,
    (credit_safety hrun hr (.borrow found (by decide) (.inr ho)) hs ht).2 hle⟩

/-- Ten atom at half a dollar give a credit of three dollars. With two dollars of debt Bob
withdraws three atom and is left with one dollar of credit. And with interest pending for a
year he borrows eleven dollars of the eleven that are left, and owes one more. -/
theorem drawn_account_liquidated :
    (∃ p p' total, Run step (fun p _ => RatiosWithin p "bob") (start "agency" sampleConfig)
        (sampleCollateral sampleHalf ⟨600_000_000_000_000_000⟩ Decimal.zero 10 ++
          [sampleBorrow (sampleEnv "" "" sampleHalf) 2,
            ⟨sampleEnv "" "" sampleHalf, .market "atom market" ⟨"bob", []⟩ (.withdraw 3)⟩]) p ∧
      p.totalCreditLine (sampleEnv "" "" sampleHalf) "bob" = .ok total ∧
      total.creditLine.amount < total.debt.amount ∧
      step (sampleLiquidation (sampleEnv "" "" sampleHalf)) p = .ok p') ∧
    (∃ p p' total, Run step (fun p _ => RatiosWithin p "bob") (start "agency" sampleConfig)
        (sampleCollateral Decimal.one sampleHalf ⟨100_000_000_000_000_000⟩ 40 ++
          [sampleBorrow (sampleYear 0) 9,
            ⟨sampleYear 1, .market "usd market" ⟨"lender", [("usd", 1)]⟩ .deposit⟩,
            sampleBorrow (sampleYear 2) 11]) p ∧
      p.totalCreditLine (sampleYear 2) "bob" = .ok total ∧
      total.creditLine.amount < total.debt.amount ∧
      step (sampleLiquidation (sampleYear 2)) p = .ok p') := by
  refine ⟨?_, ?_⟩
  · obtain ⟨p, hrun, ⟨total, ht, hlt⟩, p', hs, -⟩ : ∃ p, Run step
        (fun p _ => RatiosWithin p "bob") (start "agency" sampleConfig)
        (sampleCollateral sampleHalf ⟨600_000_000_000_000_000⟩ Decimal.zero 10 ++
          [sampleBorrow (sampleEnv "" "" sampleHalf) 2,
            ⟨sampleEnv "" "" sampleHalf, .market "atom market" ⟨"bob", []⟩ (.withdraw 3)⟩]) p ∧
        (∃ total ∈ (p.totalCreditLine (sampleEnv "" "" sampleHalf) "bob").toOption,
          total.creditLine.amount < total.debt.amount) ∧
        ∃ p' ∈ (step (sampleLiquidation (sampleEnv "" "" sampleHalf)) p).toOption, True :=
      exists_run_of_runAll (by decide +kernel)
    exact ⟨p, p', total, hrun, toOption_eq_some.mp ht, hlt, toOption_eq_some.mp hs⟩
  · obtain ⟨p, hrun, ⟨total, ht, hlt⟩, p', hs, -⟩ : ∃ p, Run step
        (fun p _ => RatiosWithin p "bob") (start "agency" sampleConfig)
        (sampleCollateral Decimal.one sampleHalf ⟨100_000_000_000_000_000⟩ 40 ++
          [sampleBorrow (sampleYear 0) 9,
            ⟨sampleYear 1, .market "usd market" ⟨"lender", [("usd", 1)]⟩ .deposit⟩,
            sampleBorrow (sampleYear 2) 11]) p ∧
        (∃ total ∈ (p.totalCreditLine (sampleYear 2) "bob").toOption,
          total.creditLine.amount < total.debt.amount) ∧
        ∃ p' ∈ (step (sampleLiquidation (sampleYear 2)) p).toOption, True :=
      exists_run_of_runAll (by decide +kernel)
    exact ⟨p, p', total, hrun, toOption_eq_some.mp ht, hlt, toOption_eq_some.mp hs⟩

end WyndLend.Platform
