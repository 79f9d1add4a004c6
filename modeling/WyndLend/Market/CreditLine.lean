import WyndLend.Market.Books
import WyndLend.Market.Positions

/-!
# The credit line of one account in one market

A query simulates the pending interest on truncated balances, a message charges it on
the multipliers. The two agree when nothing is pending, and otherwise up to truncation.
-/

namespace WyndLend.Market

open CosmWasm Utils Rebasing

variable {q : Querier} {s : State} {env : Env} {sys sys' mid : System} {account : Addr}
  {time : ℕ} {amount collateral debt : Uint128} {rate : PriceRate} {response : CreditLineResponse}
  {funds : List (String × Uint128)} {entered : List Addr}

namespace System

/-- The collateral of the account in base tokens. -/
def collateralOf (sys : System) (account : Addr) : ℕ :=
  toBase fractional (sys.ctoken.balance account).val sys.ctoken.multiplier.atomics.val

/-- The debt of the account in base tokens. -/
def debtOf (sys : System) (account : Addr) : ℕ :=
  toBase fractional (sys.market.debt.points account).val
    sys.market.debt.info.multiplier.atomics.val

/-- How much more collateral a query may report than a charge leaves. -/
def collateralDrift (env : Env) (sys : System) (account : Addr) : ℚ :=
  (pendingRate env sys).elim 0 fun _ => 1 + (sys.ctoken.balance account).val / fractional

/-- How much less debt a query may report than a charge leaves. -/
def debtDrift (env : Env) (sys : System) : ℚ :=
  (pendingRate env sys).elim 0 fun rate => 2 + rate.atomics.val / fractional

theorem collateralDrift_of_none (h : pendingRate env sys = none) :
    collateralDrift env sys account = 0 := by
  rw [collateralDrift, h, Option.elim]

theorem debtDrift_of_none (h : pendingRate env sys = none) : debtDrift env sys = 0 := by
  rw [debtDrift, h, Option.elim]

theorem collateralDrift_nonneg : 0 ≤ collateralDrift env sys account := by
  unfold collateralDrift
  cases pendingRate env sys with
  | none => exact le_refl _
  | some rate => simp only [Option.elim]; positivity

end System

/-! ## What a query reports -/

/-- The balances that a query simulates. -/
theorem simulatedBalance_spec
    (h : Query.simulatedBalance (sys.querier env) sys.market time account =
      .ok (collateral, debt)) :
    ∃ n u, epochsPassed sys.market.config time = .ok n ∧
      calculateInterest sys.market sys.ctoken n = .ok u ∧
      match u with
      | none => collateral.val = sys.collateralOf account ∧ debt.val = sys.debtOf account
      | some u =>
        collateral.val = sys.collateralOf account +
          toBase fractional (sys.collateralOf account) u.ctokenRatio.atomics.val ∧
        debt.val = sys.debtOf account +
          toBase fractional (sys.debtOf account) u.debtRatio.atomics.val := by
  simp only [Query.simulatedBalance, bind_eq_ok, Ctoken.State.baseBalance, Debt.of,
    tokenToBase_eq_ok] at h
  obtain ⟨c, hc, d, hd, n, hn, u, hu, h⟩ := h
  have hc : c.val = sys.collateralOf account := hc
  have hd : d.val = sys.debtOf account := hd
  refine ⟨n, u, hn, hu, ?_⟩
  cases u with
  | none =>
    cases h
    exact ⟨hc, hd⟩
  | some u =>
    simp only [Query.accrue, bind_eq_ok, Uint128.mulDecimal_eq_ok, Uint128.add_eq_ok,
      pure_eq_ok] at h
    obtain ⟨c', ⟨ci, hci, hc'⟩, d', ⟨di, hdi, hd'⟩, h⟩ := h
    cases h
    rw [hc', hci, hd', hdi, hc, hd]
    exact ⟨rfl, rfl⟩

/-- The response is in the market's common token. -/
theorem creditLine_denom (h : Query.creditLine q s time account = .ok response) :
    ∃ v : CreditLineValues, response = v.makeResponse s.config.commonToken := by
  simp only [Query.creditLine, bind_eq_ok] at h
  obtain ⟨⟨collateral, debt⟩, -, h⟩ := h
  split_ifs at h
  · cases h
    exact ⟨_, rfl⟩
  · simp only [bind_eq_ok] at h
    obtain ⟨_, -, _, -, _, -, _, -, _, -, h⟩ := h
    cases h
    exact ⟨_, rfl⟩

/-- The values of a credit line: balances at the price, truncated, and the collateral
weighted by the two ratios, truncated each time. -/
theorem creditLine_spec (hp : Query.priceMarketLocalPerCommon q s = .ok rate)
    (h : Query.creditLine q s time account = .ok response) :
    ∃ collateral debt, Query.simulatedBalance q s time account = .ok (collateral, debt) ∧
    ∃ v : CreditLineValues, response = v.makeResponse s.config.commonToken ∧
      v.creditLine.val = toBase fractional
        (toBase fractional collateral.val rate.rateSellPerBuy.atomics.val)
        s.config.collateralRatio.atomics.val ∧
      v.debt.val = toBase fractional debt.val rate.rateSellPerBuy.atomics.val := by
  simp only [Query.creditLine, bind_eq_ok] at h
  obtain ⟨⟨collateral, debt⟩, hb, h⟩ := h
  refine ⟨collateral, debt, hb, ?_⟩
  split_ifs at h with h0
  · obtain ⟨rfl, rfl⟩ := h0
    cases h
    refine ⟨.zero, rfl, ?_, ?_⟩ <;> simp [CreditLineValues.zero, toBase]
  · simp only [bind_eq_ok, hp, mapError_eq_ok, coinTimesPriceRate_eq_ok, Uint128.mulDecimal_eq_ok,
      pure_eq_ok, Except.ok.injEq] at h
    obtain ⟨_, rfl, c, ⟨-, -, hc⟩, d, ⟨-, -, hd⟩, cl, hcl, bl, -, rfl⟩ := h
    refine ⟨_, rfl, ?_, hd⟩
    dsimp only
    rw [hcl, hc]
    rfl

/-- With a borrow limit ratio of at most one the limit is within the credit line. -/
theorem borrowLimit_le (hb : s.config.borrowLimitRatio ≤ Decimal.one)
    (h : Query.creditLine q s time account = .ok response) :
    response.borrowLimit.amount ≤ response.creditLine.amount := by
  simp only [Query.creditLine, bind_eq_ok] at h
  obtain ⟨⟨collateral, debt⟩, -, h⟩ := h
  split_ifs at h with h0
  · cases h
    exact le_refl _
  · simp only [bind_eq_ok, Uint128.mulDecimal_eq_ok, pure_eq_ok] at h
    obtain ⟨_, -, c, -, d, -, cl, -, bl, hbl, rfl⟩ := h
    rw [Decimal.le_def, Decimal.atomics_one] at hb
    rw [Uint128.le_def]
    simp only [CreditLineValues.makeResponse, Token.amount]
    rw [hbl]
    exact Nat.div_le_of_le_mul ((Nat.mul_le_mul_left _ hb).trans_eq (Nat.mul_comm _ _))

/-! ## What a settlement does to an account -/

namespace System

/-- A charge grows the balances of every account, and mints to the governance contract. -/
theorem accrued_account {u : InterestUpdate} (account : Addr) (h : Accrued sys mid u) :
    toBase fractional (sys.ctoken.balance account).val
        (grow fractional sys.ctoken.multiplier.atomics.val u.ctokenRatio.atomics.val) ≤
      mid.collateralOf account ∧
    (account ≠ sys.market.config.governanceContract →
      mid.collateralOf account = toBase fractional (sys.ctoken.balance account).val
        (grow fractional sys.ctoken.multiplier.atomics.val u.ctokenRatio.atomics.val)) ∧
    mid.debtOf account = toBase fractional (sys.market.debt.points account).val
      (grow fractional sys.market.debt.info.multiplier.atomics.val u.debtRatio.atomics.val) := by
  obtain ⟨⟨dr, hdr, hdebt⟩, cr, ct, hcr, hrebase, hmint⟩ := h
  obtain ⟨dm, hdm, hdebt⟩ := Debt.rebase_spec hdebt
  obtain ⟨-, cm, hcm, rfl⟩ := Ctoken.rebase_spec hrebase
  have hmid : mid.ctoken.multiplier = cm ∧
      (sys.ctoken.balance account).val ≤ (mid.ctoken.balance account).val ∧
      (account ≠ sys.market.config.governanceContract →
        mid.ctoken.balance account = sys.ctoken.balance account) := by
    split_ifs at hmint with h0
    · rw [hmint]
      exact ⟨rfl, le_refl _, fun _ => rfl⟩
    · obtain ⟨tokens, -, hmint⟩ := Ctoken.mintBase_spec hmint
      obtain ⟨-, -, b, t, w, hb, -, hmint⟩ := Ctoken.mint_spec hmint
      rw [hmint]
      refine ⟨rfl, ?_⟩
      simp only [Ctoken.State.balance, Map.mayLoad_save]
      split_ifs with ha
      · subst ha
        exact ⟨Nat.le.intro hb.symm, fun hne => absurd rfl hne⟩
      · exact ⟨le_refl _, fun _ => rfl⟩
  refine ⟨?_, fun hne => ?_, ?_⟩
  · unfold collateralOf
    rw [hmid.1, hcm, hcr]
    exact toBase_mono hmid.2.1 _
  · unfold collateralOf
    rw [hmid.1, hcm, hcr, hmid.2.2 hne]
    rfl
  · unfold debtOf
    rw [hdebt, hdm, hdr]
    rfl

/-- After a settlement the account has what a query reported, up to the drifts. -/
theorem settle_drift {env' : Env} (h : settle env sys = .ok mid)
    (hq : Query.simulatedBalance (sys.querier env') sys.market env.time account =
      .ok (collateral, debt)) :
    (collateral.val : ℚ) ≤ mid.collateralOf account + collateralDrift env sys account ∧
      (mid.debtOf account : ℚ) ≤ debt.val + debtDrift env sys := by
  obtain ⟨n, u, hn, hu, -, hcase⟩ := settle_spec h
  obtain ⟨n', u', hn', hu', hsim⟩ := simulatedBalance_spec hq
  cases hn.symm.trans hn'
  cases hu.symm.trans hu'
  unfold collateralDrift debtDrift
  rw [pendingRate_eq hn hu]
  cases u with
  | none =>
    have hc : mid.collateralOf account = sys.collateralOf account := by
      unfold collateralOf
      rw [hcase.2]
    have hd : mid.debtOf account = sys.debtOf account := by
      unfold debtOf
      rw [hcase.1]
    simp only [Option.map, Option.elim, hc, hd, hsim.1, hsim.2, add_zero, le_refl, and_self]
  | some u =>
    obtain ⟨hc, -, hd⟩ := accrued_account account hcase
    have hc : ((toBase fractional (sys.ctoken.balance account).val (grow fractional
        sys.ctoken.multiplier.atomics.val u.ctokenRatio.atomics.val) : ℕ) : ℚ) ≤
        mid.collateralOf account := by exact_mod_cast hc
    have hgrown := toBase_add_growth_lt fractional_pos (sys.ctoken.balance account).val
      sys.ctoken.multiplier.atomics.val u.ctokenRatio.atomics.val
    have howed := toBase_grow_lt fractional_pos (sys.market.debt.points account).val
      sys.market.debt.info.multiplier.atomics.val u.debtRatio.atomics.val
    simp only [Option.map, Option.elim, hsim.1, hsim.2, hd]
    push_cast
    refine ⟨?_, ?_⟩
    · unfold collateralOf at hc ⊢
      linarith
    · exact howed.le

/-! ## What an operation does to an account -/

/-- A withdrawal is checked on the market as the attached funds found it, then settled. -/
theorem execute_withdraw (h : execute env ⟨account, funds⟩ (.withdraw amount) sys =
      .ok (sys', entered)) :
    ∃ cash transferable mid, let base : System := { sys with cash }
      CrUtils.transferableAmount (base.querier env) sys.market account = .ok transferable ∧
      amount ≤ transferable ∧ settle env base = .ok mid ∧
      Op.apply mid (.withdraw account amount) = .ok sys' ∧ entered = [] := by
  obtain ⟨_, ⟨ctoken, cash⟩, -, hreceived, hout⟩ := execute_outcome h
  obtain ⟨rfl, -⟩ := Holdings.receive_eq_ok.mp hreceived
  cases hout with
  | @withdraw _ transferable mid _ hmsg check le settled applied =>
    cases hmsg
    exact ⟨cash, transferable, mid, check, le, settled, applied, rfl⟩
  | _ => grind [ExecuteMsg.plain]

theorem execute_borrow (h : execute env ⟨account, funds⟩ (.borrow amount) sys =
      .ok (sys', entered)) :
    ∃ cash mid, let base : System := { sys with cash }
      CrUtils.canBorrow (base.querier env) sys.market account amount = .ok true ∧
      settle env base = .ok mid ∧ Op.apply mid (.borrow account amount) = .ok sys' ∧
      entered = [account] := by
  obtain ⟨_, ⟨ctoken, cash⟩, -, hreceived, hout⟩ := execute_outcome h
  obtain ⟨rfl, -⟩ := Holdings.receive_eq_ok.mp hreceived
  cases hout with
  | @borrow _ mid _ hmsg check settled applied =>
    cases hmsg
    exact ⟨cash, mid, check, settled, applied, rfl⟩
  | _ => grind [ExecuteMsg.plain]

theorem apply_withdraw_account (h : Op.apply mid (.withdraw account amount) = .ok sys') :
    mid.collateralOf account ≤ sys'.collateralOf account + amount.val ∧
      sys'.debtOf account = mid.debtOf account := by
  cases applied_of_apply h with
  | withdraw burned _ =>
    obtain ⟨tokens, htokens, hburn⟩ := Ctoken.burnBaseFrom_spec burned
    obtain ⟨-, -, b, t, w, hb, -, rfl⟩ := Ctoken.burnFrom_spec hburn
    refine ⟨?_, rfl⟩
    have hle := toBase_add_toPoints_le fractional b.val amount.val mid.ctoken.multiplier.atomics.val
    have hpoints : toPoints fractional amount.val mid.ctoken.multiplier.atomics.val = tokens.val :=
      (baseToToken_eq_ok.mp htokens).2.symm
    rw [hpoints, hb] at hle
    simp only [collateralOf, Ctoken.State.balance, Map.mayLoad_save_self, Option.getD_some]
      at hle ⊢
    exact hle

/-- No ctokens are burnt for nothing, and burning none fails. -/
theorem apply_withdraw_ne_zero (h : Op.apply mid (.withdraw account amount) = .ok sys') :
    amount ≠ 0 := by
  cases applied_of_apply h with
  | withdraw burned _ =>
    obtain ⟨tokens, htokens, hburn⟩ := Ctoken.burnBaseFrom_spec burned
    obtain ⟨-, hne, -⟩ := Ctoken.burnFrom_spec hburn
    rintro rfl
    refine hne (Uint128.val_eq_zero.mp ?_)
    rw [(baseToToken_eq_ok.mp htokens).2, Uint128.val_zero, Nat.zero_mul, Nat.zero_div]

theorem apply_borrow_account (h : Op.apply mid (.borrow account amount) = .ok sys') :
    sys'.collateralOf account = mid.collateralOf account ∧
      sys'.debtOf account ≤ mid.debtOf account + amount.val := by
  cases applied_of_apply h with
  | borrow hdebt _ =>
    refine ⟨rfl, ?_⟩
    obtain ⟨rfl, rfl⟩ | ⟨points, t, p, hpoints, -, hp, rfl⟩ := Debt.increase_spec hdebt
    · exact Nat.le_add_right _ _
    · have hle := toBase_add_toPoints_le fractional (mid.market.debt.points account).val amount.val
        mid.market.debt.info.multiplier.atomics.val
      have hval : toPoints fractional amount.val mid.market.debt.info.multiplier.atomics.val =
          points.val := (baseToToken_eq_ok.mp hpoints).2.symm
      rw [hval, ← hp] at hle
      unfold debtOf
      simp only [Debt.points_save, if_true]
      exact hle

theorem debtOf_eq_zero (h : ¬ sys.Owes account) : sys.debtOf account = 0 := by
  unfold debtOf
  rw [not_not.mp h, Uint128.val_zero, toBase, Nat.zero_mul, Nat.zero_div]

/-! ## Queries right after a message -/

/-- With nothing pending a query reports the balances as they are. -/
theorem simulated_idle (hn : epochsPassed sys.market.config time = .ok 0)
    (hq : Query.simulatedBalance (sys.querier env) sys.market time account =
      .ok (collateral, debt)) :
    collateral.val = sys.collateralOf account ∧ debt.val = sys.debtOf account := by
  obtain ⟨n, u, hn', hu, hcase⟩ := simulatedBalance_spec hq
  cases hn.symm.trans hn'
  cases hu
  exact hcase

/-- All elapsed epochs are charged, so a query in the same block simulates nothing. -/
theorem simulated_after {env' : Env} {op : Op} (hs : settle env sys = .ok mid)
    (ha : op.apply mid = .ok sys')
    (hq : Query.simulatedBalance (sys'.querier env') sys'.market env.time account =
      .ok (collateral, debt)) :
    collateral.val = sys'.collateralOf account ∧ debt.val = sys'.debtOf account := by
  refine simulated_idle ?_ hq
  rw [(apply_frame ha).1]
  exact epochsPassed_settled hs

/-- A withdrawal costs the account its amount of collateral, and truncation. -/
theorem withdraw_positions {leaf : Env} {collateral' debt' : Uint128}
    (hs : settle env sys = .ok mid) (ha : Op.apply mid (.withdraw account amount) = .ok sys')
    (hq : Query.simulatedBalance (sys.querier leaf) sys.market env.time account =
      .ok (collateral, debt))
    (hq' : Query.simulatedBalance (sys'.querier leaf) sys'.market env.time account =
      .ok (collateral', debt')) :
    (collateral.val : ℚ) ≤ collateral'.val + (amount.val + collateralDrift env sys account) ∧
      (debt'.val : ℚ) ≤ debt.val + debtDrift env sys := by
  obtain ⟨hc, hd⟩ := settle_drift hs hq
  obtain ⟨hc', hd'⟩ := apply_withdraw_account ha
  obtain ⟨hcollateral, hdebt⟩ := simulated_after hs ha hq'
  have hc' : (mid.collateralOf account : ℚ) ≤ sys'.collateralOf account + amount.val := by
    exact_mod_cast hc'
  rw [hcollateral, hdebt, hd']
  exact ⟨by linarith, hd⟩

/-- A loan costs the account its amount of debt, and truncation. -/
theorem borrow_positions {leaf : Env} {collateral' debt' : Uint128}
    (hs : settle env sys = .ok mid) (ha : Op.apply mid (.borrow account amount) = .ok sys')
    (hq : Query.simulatedBalance (sys.querier leaf) sys.market env.time account =
      .ok (collateral, debt))
    (hq' : Query.simulatedBalance (sys'.querier leaf) sys'.market env.time account =
      .ok (collateral', debt')) :
    (collateral.val : ℚ) ≤ collateral'.val + collateralDrift env sys account ∧
      (debt'.val : ℚ) ≤ debt.val + (amount.val + debtDrift env sys) := by
  obtain ⟨hc, hd⟩ := settle_drift hs hq
  obtain ⟨hc', hd'⟩ := apply_borrow_account ha
  obtain ⟨hcollateral, hdebt⟩ := simulated_after hs ha hq'
  have hd' : (sys'.debtOf account : ℚ) ≤ mid.debtOf account + amount.val := by
    exact_mod_cast hd'
  rw [hcollateral, hdebt, hc']
  exact ⟨hc, by linarith⟩

/-- The first loan is all that the account owes. -/
theorem first_borrow {env' : Env} (hs : settle env sys = .ok mid)
    (ha : Op.apply mid (.borrow account amount) = .ok sys') (ho : ¬ sys.Owes account)
    (hq : Query.simulatedBalance (sys'.querier env') sys'.market env.time account =
      .ok (collateral, debt)) : debt.val ≤ amount.val := by
  obtain ⟨-, hd⟩ := apply_borrow_account ha
  rw [(simulated_after hs ha hq).2]
  rwa [debtOf_eq_zero (mt (settle_owes hs).mp ho), Nat.zero_add] at hd

end System

/-! ## What the checks allow -/

namespace CrUtils

variable {available : Uint128} {credit : CreditLineValues}

/-- What can be borrowed is worth at most the unused part of the borrow limit. -/
theorem borrowable_spec (h : queryBorrowableTokensWithCreditvalues q s credit = .ok available) :
    ∃ rate, Query.priceMarketLocalPerCommon q s = .ok rate ∧
      (available ≠ 0 → (credit.debt.val : ℚ) + available.val * (rate.rateSellPerBuy.atomics.val /
        fractional) ≤ credit.borrowLimit.val) := by
  simp only [queryBorrowableTokensWithCreditvalues, availableLocalTokens, bind_eq_ok,
    divide_eq_ok, Uint128.val_saturatingSub] at h
  obtain ⟨rate, hrate, -, -, hval⟩ := h
  refine ⟨rate, hrate, ?_⟩
  intro hne
  have hlt : credit.debt.val < credit.borrowLimit.val := by
    by_contra hge
    refine hne (Uint128.val_eq_zero.mp ?_)
    rw [hval, Nat.sub_eq_zero_of_le (not_lt.mp hge), Nat.zero_mul, Nat.zero_div]
  have hmul : available.val * rate.rateSellPerBuy.atomics.val ≤
      (credit.borrowLimit.val - credit.debt.val) * fractional := by
    rw [hval]
    exact Nat.div_mul_le_self _ _
  have hmul : (available.val : ℚ) * rate.rateSellPerBuy.atomics.val ≤
      (credit.borrowLimit.val - credit.debt.val) * fractional := by
    rw [← Nat.cast_sub hlt.le]
    exact_mod_cast hmul
  rw [mul_div_assoc', ← le_sub_iff_add_le', div_le_iff₀ (by exact_mod_cast fractional_pos)]
  exact hmul

theorem queryCredit_spec (h : queryCredit q s account = .ok credit) :
    q.totalCreditLine s.config.creditAgency account =
      .ok (credit.makeResponse s.config.commonToken) := by
  simp only [queryCredit, bind_eq_ok, mapError_eq_ok, CreditLineResponse.validate_eq_ok] at h
  obtain ⟨_, ht, rfl⟩ := h
  exact ht

/-- A loan that is allowed stays within the borrow limit. -/
theorem canBorrow_spec (h : canBorrow q s account amount = .ok true) :
    ∃ (rate : PriceRate) (credit : CreditLineValues),
      Query.priceMarketLocalPerCommon q s = .ok rate ∧
      q.totalCreditLine s.config.creditAgency account =
        .ok (credit.makeResponse s.config.commonToken) ∧
      (amount ≠ 0 → (credit.debt.val : ℚ) + amount.val * (rate.rateSellPerBuy.atomics.val /
        fractional) ≤ credit.borrowLimit.val) := by
  simp only [canBorrow, queryBorrowableTokens, bind_eq_ok, pure_eq_ok, decide_eq_true_eq] at h
  obtain ⟨available, ⟨credit, hcredit, havailable⟩, hle⟩ := h
  obtain ⟨rate, hrate, hworth⟩ := borrowable_spec havailable
  refine ⟨rate, credit, hrate, queryCredit_spec hcredit, ?_⟩
  intro hne
  have hle : (amount.val : ℚ) ≤ available.val := by exact_mod_cast Uint128.le_def.mp hle
  have havailable : available ≠ 0 := by
    rintro rfl
    exact hne (Uint128.val_eq_zero.mp (by exact_mod_cast le_antisymm hle (Nat.cast_nonneg _)))
  have hprice : (0 : ℚ) ≤ rate.rateSellPerBuy.atomics.val / fractional := by positivity
  have hmono := mul_le_mul_of_nonneg_right hle hprice
  linarith [hworth havailable]

/-- With debt, a withdrawal that is allowed gives credit of at most the unused borrow limit. -/
theorem transferableAmount_spec {transferable : Uint128}
    (h : transferableAmount q s account = .ok transferable) (hle : amount ≤ transferable)
    (hne : amount ≠ 0) :
    ∃ (rate : PriceRate) (credit : CreditLineValues),
      Query.priceMarketLocalPerCommon q s = .ok rate ∧
      q.totalCreditLine s.config.creditAgency account =
        .ok (credit.makeResponse s.config.commonToken) ∧
      (credit.debt.val ≠ 0 → (credit.debt.val : ℚ) + amount.val *
        (rate.rateSellPerBuy.atomics.val / fractional) *
        (s.config.collateralRatio.atomics.val / fractional) ≤ credit.borrowLimit.val) := by
  simp only [transferableAmount, bind_eq_ok, divide_eq_ok] at h
  obtain ⟨credit, hcredit, available, havailable, can, ⟨-, hratio, hcan⟩, h⟩ := h
  obtain ⟨rate, hrate, hworth⟩ := borrowable_spec havailable
  refine ⟨rate, credit, hrate, queryCredit_spec hcredit, ?_⟩
  intro hdebt
  rw [if_neg fun h0 => hdebt (Uint128.val_eq_zero.mpr h0)] at h
  cases h
  have hpos : 0 < amount.val := Uint128.val_pos.mpr hne
  rw [Uint128.le_def] at hle
  have hmul : amount.val * s.config.collateralRatio.atomics.val ≤ available.val * fractional := by
    refine (Nat.mul_le_mul_right _ hle).trans ?_
    rw [hcan]
    exact Nat.div_mul_le_self _ _
  have havailable : available ≠ 0 := by
    rintro rfl
    rw [Uint128.val_zero, Nat.zero_mul, Nat.zero_div] at hcan
    omega
  have hcredit : (amount.val : ℚ) * (s.config.collateralRatio.atomics.val / fractional) ≤
      available.val := by
    rw [mul_div_assoc', div_le_iff₀ (by exact_mod_cast fractional_pos)]
    exact_mod_cast hmul
  have hprice : (0 : ℚ) ≤ rate.rateSellPerBuy.atomics.val / fractional := by positivity
  have hmono := mul_le_mul_of_nonneg_right hcredit hprice
  linarith [hworth havailable]

end CrUtils

/-! ## Credit lines around a message -/

/-- The values of a credit line, whatever the denom that they come in. -/
theorem creditLine_values {v : CreditLineValues} {token : Token}
    (hp : Query.priceMarketLocalPerCommon q s = .ok rate)
    (h : Query.creditLine q s time account = .ok (v.makeResponse token)) :
    ∃ collateral debt, Query.simulatedBalance q s time account = .ok (collateral, debt) ∧
      v.creditLine.val = toBase fractional
        (toBase fractional collateral.val rate.rateSellPerBuy.atomics.val)
        s.config.collateralRatio.atomics.val ∧
      v.debt.val = toBase fractional debt.val rate.rateSellPerBuy.atomics.val := by
  obtain ⟨collateral, debt, hb, w, hw, hcredit, hdebt⟩ := creditLine_spec hp h
  simp only [CreditLineValues.makeResponse, Token.amount, CreditLineResponse.mk.injEq,
    Coin.mk.injEq] at hw
  obtain ⟨-, ⟨-, hvc⟩, -, -, hvd⟩ := hw
  exact ⟨collateral, debt, hb, by rw [hvc, hcredit], by rw [hvd, hdebt]⟩

/-- The credit for collateral that is `x` and a drift less. -/
theorem credit_lt {c c' m : ℕ} {x drift : ℚ} {ratio : Decimal} (hdrift : 0 ≤ drift)
    (hr : ratio ≤ Decimal.one) (hc : (c : ℚ) ≤ c' + (x + drift)) :
    (toBase fractional (toBase fractional c m) ratio.atomics.val : ℚ) <
      toBase fractional (toBase fractional c' m) ratio.atomics.val + 2 +
        x * (m / fractional) * (ratio.atomics.val / fractional) + drift * (m / fractional) := by
  rw [Decimal.le_def, Decimal.atomics_one] at hr
  have hlt := weighted_lt_add (m := m) fractional_pos hr hc
  have hone : (ratio.atomics.val : ℚ) / fractional ≤ 1 := by
    rw [div_le_one (by exact_mod_cast fractional_pos)]
    exact_mod_cast hr
  have hweighted : drift * (m / fractional) * (ratio.atomics.val / fractional) ≤
      drift * (m / fractional) :=
    mul_le_of_le_one_right (mul_nonneg hdrift (by positivity)) hone
  linarith

namespace System

variable {leaf : Env} {v v' : CreditLineValues} {token token' : Token}

/-- The price of the market token in common tokens. -/
def price (env : Env) (sys : System) : ℚ :=
  match Query.priceMarketLocalPerCommon (sys.querier env) sys.market with
  | .ok rate => rate.rateSellPerBuy.atomics.val / fractional
  | .error _ => 0

theorem price_of_ok (h : Query.priceMarketLocalPerCommon (sys.querier env) sys.market = .ok rate) :
    price env sys = rate.rateSellPerBuy.atomics.val / fractional := by
  rw [price, h]

theorem price_nonneg : 0 ≤ price env sys := by
  unfold price
  split
  · positivity
  · exact le_refl _

/-- A settled operation changes neither the price nor the ratio of the market. -/
theorem price_after {op : Op} (leaf : Env) (hs : settle env sys = .ok mid)
    (ha : op.apply mid = .ok sys') :
    Query.priceMarketLocalPerCommon (sys'.querier leaf) sys'.market =
        Query.priceMarketLocalPerCommon (sys.querier leaf) sys.market ∧
      sys'.market.config.collateralRatio = sys.market.config.collateralRatio := by
  obtain ⟨n, -, hc, -⟩ := settle_frame hs
  obtain ⟨hc', -⟩ := apply_frame ha
  simp only [Query.priceMarketLocalPerCommon, hc', hc]
  exact ⟨rfl, rfl⟩

/-- The drifts do not depend on the funds of the market, and of the chain only on the time. -/
theorem drift_credited (account : Addr) (cash : Uint128) (h : leaf.time = env.time) :
    pendingRate env { sys with cash } = pendingRate leaf sys ∧
      collateralDrift env { sys with cash } account = collateralDrift leaf sys account ∧
      debtDrift env { sys with cash } = debtDrift leaf sys := by
  have hpending : pendingRate env { sys with cash } = pendingRate leaf sys := by
    unfold pendingRate
    rw [h]
    rfl
  unfold collateralDrift debtDrift
  rw [hpending]
  exact ⟨rfl, rfl, rfl⟩

/-- What a withdrawal does to the credit line of the market. -/
theorem withdraw_line {cash : Uint128} (hs : settle env { sys with cash } = .ok mid)
    (ha : Op.apply mid (.withdraw account amount) = .ok sys') (ht : leaf.time = env.time)
    (hr : sys.market.config.collateralRatio ≤ Decimal.one)
    (hp : Query.priceMarketLocalPerCommon (sys.querier leaf) sys.market = .ok rate)
    (h : Query.creditLine (sys.querier leaf) sys.market env.time account =
      .ok (v.makeResponse token))
    (h' : Query.creditLine (sys'.querier leaf) sys'.market env.time account =
      .ok (v'.makeResponse token')) :
    (v.creditLine.val : ℚ) < v'.creditLine.val + 2 +
        amount.val * price leaf sys * (sys.market.config.collateralRatio.atomics.val / fractional) +
        collateralDrift leaf sys account * price leaf sys ∧
      (v'.debt.val : ℚ) < v.debt.val + 1 + debtDrift leaf sys * price leaf sys ∧
      (pendingRate leaf sys = none → v'.debt.val ≤ v.debt.val) := by
  obtain ⟨hprice, hratio⟩ := price_after leaf hs ha
  obtain ⟨c, d, hb, hcredit, hdebt⟩ := creditLine_values hp h
  obtain ⟨c', d', hb', hcredit', hdebt'⟩ := creditLine_values (hprice.trans hp) h'
  obtain ⟨hc, hd⟩ := withdraw_positions hs ha hb hb'
  obtain ⟨-, hcollateral, howing⟩ := drift_credited account cash ht
  rw [hratio] at hcredit'
  rw [hcollateral] at hc
  rw [howing] at hd
  rw [hcredit, hcredit', hdebt, hdebt', price_of_ok hp]
  refine ⟨credit_lt collateralDrift_nonneg hr hc, toBase_lt_add hd _, ?_⟩
  intro hpending
  refine toBase_mono ?_ _
  rw [debtDrift_of_none hpending, add_zero] at hd
  exact_mod_cast hd

/-- What a loan does to the credit line of the market. -/
theorem borrow_line {cash : Uint128} (hs : settle env { sys with cash } = .ok mid)
    (ha : Op.apply mid (.borrow account amount) = .ok sys') (ht : leaf.time = env.time)
    (hr : sys.market.config.collateralRatio ≤ Decimal.one)
    (hp : Query.priceMarketLocalPerCommon (sys.querier leaf) sys.market = .ok rate)
    (h : Query.creditLine (sys.querier leaf) sys.market env.time account =
      .ok (v.makeResponse token))
    (h' : Query.creditLine (sys'.querier leaf) sys'.market env.time account =
      .ok (v'.makeResponse token')) :
    (v.creditLine.val : ℚ) < v'.creditLine.val + 2 +
        collateralDrift leaf sys account * price leaf sys ∧
      (v'.debt.val : ℚ) < v.debt.val + 1 + (amount.val + debtDrift leaf sys) * price leaf sys ∧
      (pendingRate leaf sys = none → v.creditLine.val ≤ v'.creditLine.val) := by
  obtain ⟨hprice, hratio⟩ := price_after leaf hs ha
  obtain ⟨c, d, hb, hcredit, hdebt⟩ := creditLine_values hp h
  obtain ⟨c', d', hb', hcredit', hdebt'⟩ := creditLine_values (hprice.trans hp) h'
  obtain ⟨hc, hd⟩ := borrow_positions hs ha hb hb'
  obtain ⟨-, hcollateral, howing⟩ := drift_credited account cash ht
  rw [hratio] at hcredit'
  rw [hcollateral] at hc
  rw [howing] at hd
  rw [hcredit, hcredit', hdebt, hdebt', price_of_ok hp]
  refine ⟨?_, toBase_lt_add hd _, ?_⟩
  · rw [← zero_add (collateralDrift leaf sys account)] at hc
    have hlt := credit_lt (m := rate.rateSellPerBuy.atomics.val) collateralDrift_nonneg hr hc
    linarith
  · intro hpending
    refine toBase_mono (toBase_mono ?_ _) _
    rw [collateralDrift_of_none hpending, add_zero] at hc
    exact_mod_cast hc

/-- The first loan in the market is worth at most what it was given for. -/
theorem first_borrow_line (hs : settle env sys = .ok mid)
    (ha : Op.apply mid (.borrow account amount) = .ok sys') (ho : ¬ sys.Owes account)
    (hp : Query.priceMarketLocalPerCommon (sys.querier leaf) sys.market = .ok rate)
    (h' : Query.creditLine (sys'.querier leaf) sys'.market env.time account =
      .ok (v'.makeResponse token')) : (v'.debt.val : ℚ) ≤ amount.val * price leaf sys := by
  obtain ⟨c', d', hb', -, hdebt'⟩ := creditLine_values ((price_after leaf hs ha).1.trans hp) h'
  have hd : (d'.val : ℚ) ≤ amount.val := by exact_mod_cast first_borrow hs ha ho hb'
  rw [hdebt', price_of_ok hp]
  calc (toBase fractional d'.val rate.rateSellPerBuy.atomics.val : ℚ)
      ≤ value fractional d'.val rate.rateSellPerBuy.atomics.val := toBase_le_value _ _ _
    _ = d'.val * (rate.rateSellPerBuy.atomics.val / fractional) := mul_div_assoc _ _ _
    _ ≤ amount.val * (rate.rateSellPerBuy.atomics.val / fractional) := by gcongr

end System

end WyndLend.Market
