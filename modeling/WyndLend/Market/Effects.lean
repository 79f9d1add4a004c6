import WyndLend.Market.Contract
import WyndLend.Market.DebtLedger

/-!
# What each market handler does

One lemma for each handler says what a successful call checked, what it wrote
and which messages it sent. Callers use these and never unfold a handler.
-/

namespace WyndLend.Market

open CosmWasm Utils

variable {q : Querier} {time : ℕ} {s s' : State} {sender account source destination : Addr}
  {amount : Uint128} {tokens : Coin} {msgs : List Message} {charge : Ratios}

/-- The clock after `n` epochs were charged. -/
def State.advance (s : State) (n : ℕ) : State :=
  { s with
    config := { s.config with
      lastCharged := s.config.lastCharged + n * s.config.interestChargePeriod }
    charged := s.charged + n }

@[simp] theorem State.advance_zero (s : State) : s.advance 0 = s := by
  simp [State.advance]

/-- What a charge does with an update: the debt is rebased at once, the ctokens and
the reserve by messages. -/
structure Charged (s s' : State) (charge : Ratios) (u : InterestUpdate) : Prop where
  debtRatio : charge.debtRatio.atomics.val = u.debtRatio.atomics.val + fractional
  ctokenRatio : charge.ctokenRatio.atomics.val = u.ctokenRatio.atomics.val + fractional
  debt : Debt.rebase s.debt charge.debtRatio = .ok s'.debt
  messages : charge.messages = .ctoken s.config.ctokenContract (.rebase charge.ctokenRatio) ::
    mintReserve s.config u.reserve

/-- A charge moves the clock over all elapsed epochs and applies the update that
was calculated for them, if there is one. -/
theorem chargeInterest_spec (h : chargeInterest q time s = .ok (s', charge)) :
    ∃ n u, epochsPassed s.config time = .ok n ∧ calculateInterest s q.ctoken n = .ok u ∧
      s' = { s.advance n with debt := s'.debt } ∧
      match u with
      | none => s'.debt = s.debt ∧ charge.messages = []
      | some u => Charged s s' charge u := by
  simp only [chargeInterest, bind_eq_ok] at h
  obtain ⟨n, hn, h⟩ := h
  refine ⟨n, ?_⟩
  split_ifs at h with h0
  · cases h
    subst h0
    exact ⟨none, hn, rfl, by simp, rfl, rfl⟩
  · simp only [bind_eq_ok] at h
    obtain ⟨u, hu, h⟩ := h
    refine ⟨u, hn, hu, ?_⟩
    cases u with
    | none =>
      cases h
      exact ⟨rfl, rfl, rfl⟩
    | some u =>
      simp only [bind_eq_ok, Decimal.add_eq_ok, pure_eq_ok, Decimal.atomics_one] at h
      obtain ⟨debtRatio, hd, debt, hdebt, ctokenRatio, hc, h⟩ := h
      cases h
      exact ⟨rfl, hd, hc, hdebt, rfl⟩

/-- A charge writes the clock and the debt multiplier, nothing else. -/
theorem chargeInterest_frame (h : chargeInterest q time s = .ok (s', charge)) :
    ∃ n, epochsPassed s.config time = .ok n ∧ s'.config = (s.advance n).config ∧
      s'.charged = s.charged + n ∧ s'.debt.debt = s.debt.debt ∧
      s'.debt.info.totalPoints = s.debt.info.totalPoints := by
  obtain ⟨n, u, hn, -, hs, hu⟩ := chargeInterest_spec h
  refine ⟨n, hn, by rw [hs], by rw [hs]; rfl, ?_⟩
  cases u with
  | none => rw [hu.1]; exact ⟨rfl, rfl⟩
  | some u =>
    obtain ⟨m, -, hm⟩ := Debt.rebase_spec hu.debt
    rw [hm]
    exact ⟨rfl, rfl⟩

/-! ## Handlers -/

theorem ensureUnderCap_eq_ok {received : Uint128} :
    ensureUnderCap q s received = .ok () ↔ ∀ cap, s.config.marketCap = some cap →
      ∃ base, q.ctoken.totalSupplyBase = .ok (ε := Error) base ∧
        base.val + received.val ≤ cap.val := by
  unfold ensureUnderCap
  cases s.config.marketCap with
  | none => exact ⟨nofun, fun _ => rfl⟩
  | some cap =>
    simp only [bind_eq_ok, ensure_eq_ok, Uint128.add_eq_ok, Uint128.le_def, Option.some.injEq]
    constructor
    · rintro ⟨base, hb, supply, hsum, hle⟩ _ rfl
      exact ⟨base, hb, hsum ▸ hle⟩
    · intro h
      obtain ⟨base, hb, hle⟩ := h cap rfl
      exact ⟨base, hb, ⟨_, lt_of_le_of_lt hle cap.isLt⟩, rfl, hle⟩

theorem deposit_spec (h : deposit q time s account tokens = .ok (s', msgs)) :
    tokens.denom = s.config.marketToken ∧ ensureUnderCap q s tokens.amount = .ok () ∧
    ∃ charge, chargeInterest q time s = .ok (s', charge) ∧ msgs = charge.messages ++
      [.ctoken s.config.ctokenContract (.mintBase account tokens.amount),
        .enterMarket s.config.creditAgency account] := by
  simp only [deposit, bind_eq_ok, ensure_eq_ok] at h
  obtain ⟨-, hd, _, hcap, ⟨s₁, charge⟩, hch, h⟩ := h
  cases h
  exact ⟨hd, hcap, charge, hch, rfl⟩

theorem withdraw_spec (h : withdraw q time s sender amount = .ok (s', msgs)) :
    (∃ transferable, CrUtils.transferableAmount q s sender = .ok transferable ∧
      amount ≤ transferable) ∧
    ∃ charge, chargeInterest q time s = .ok (s', charge) ∧ msgs = charge.messages ++
      [.ctoken s.config.ctokenContract (.burnBaseFrom sender amount),
        .send s.config.marketToken sender amount] := by
  simp only [withdraw, bind_eq_ok, ensure_eq_ok] at h
  obtain ⟨transferable, ht, -, hle, ⟨s₁, charge⟩, hch, h⟩ := h
  cases h
  exact ⟨⟨transferable, ht, hle⟩, charge, hch, rfl⟩

theorem borrow_spec (h : borrow q time s sender amount = .ok (s', msgs)) :
    CrUtils.canBorrow q s sender amount = .ok true ∧
    ∃ s₁ charge debt, chargeInterest q time s = .ok (s₁, charge) ∧
      Debt.increase s₁.debt sender amount = .ok debt ∧ s' = { s₁ with debt } ∧
      msgs = charge.messages ++ [.enterMarket s.config.creditAgency sender,
        .send s.config.marketToken sender amount] := by
  simp only [borrow, bind_eq_ok, ensure_eq_ok] at h
  obtain ⟨can, hc, -, rfl, ⟨s₁, charge⟩, hch, debt, hd, h⟩ := h
  cases h
  exact ⟨hc, s₁, charge, debt, hch, hd, rfl, rfl⟩

theorem repay_spec (h : repay q time s tokens sender = .ok (s', msgs)) :
    tokens.denom = s.config.marketToken ∧
    ∃ s₁ charge debt sendBack, chargeInterest q time s = .ok (s₁, charge) ∧
      Debt.decrease s₁.debt sender tokens.amount = .ok (debt, sendBack) ∧
      s' = { s₁ with debt } ∧ msgs = charge.messages ++
        if sendBack = 0 then [] else [.send s.config.marketToken sender sendBack] := by
  simp only [repay, bind_eq_ok, ensure_eq_ok] at h
  obtain ⟨-, hd, ⟨s₁, charge⟩, hch, ⟨debt, sendBack⟩, hdec, h⟩ := h
  cases h
  exact ⟨hd, s₁, charge, debt, sendBack, hch, hdec, rfl, rfl⟩

theorem repayTo_spec (h : repayTo q time s sender tokens account = .ok (s', msgs)) :
    s.config.creditAgency = sender ∧ tokens.denom = s.config.marketToken ∧
    (∃ debt, Debt.of s.debt account = .ok debt ∧ tokens.amount ≤ debt) ∧
    ∃ s₁ charge debt sendBack, chargeInterest q time s = .ok (s₁, charge) ∧
      Debt.decrease s₁.debt account tokens.amount = .ok (debt, sendBack) ∧
      s' = { s₁ with debt } ∧ msgs = charge.messages := by
  simp only [repayTo, bind_eq_ok, ensure_eq_ok] at h
  obtain ⟨-, hs, -, hd, debt, hdebt, -, hle, ⟨s₁, charge⟩, hch, ⟨debt', sendBack⟩, hdec, h⟩ := h
  cases h
  exact ⟨hs, hd, ⟨debt, hdebt, hle⟩, s₁, charge, debt', sendBack, hch, hdec, rfl, rfl⟩

theorem transferFrom_spec {price : Decimal}
    (h : transferFrom q time s sender source destination amount price = .ok (s', msgs)) :
    s.config.creditAgency = sender ∧
    ∃ charge rate unit repaid, chargeInterest q time s = .ok (s', charge) ∧
      Query.priceMarketLocalPerCommon q s' = .ok rate ∧
      rate.rateSellPerBuy.mul price = .ok (ε := Error) unit ∧
      CrUtils.divide amount unit .zeroPrice = .ok repaid ∧
      msgs = charge.messages ++ [.enterMarket s.config.creditAgency destination,
        .ctoken s.config.ctokenContract (.transferBaseFrom source destination repaid)] := by
  simp only [transferFrom, bind_eq_ok, ensure_eq_ok] at h
  obtain ⟨-, hs, ⟨s₁, charge⟩, hch, rate, hr, unit, hu, repaid, hv, h⟩ := h
  cases h
  exact ⟨hs, charge, rate, unit, repaid, hch, hr, hu, hv, rfl⟩

/-- Either the market token itself is sent, or ctokens are burned and a swap is
ordered. The state stays as it is. -/
theorem swapWithdrawFrom_spec {buy : Coin} {sellLimit : Uint128}
    (h : swapWithdrawFrom q s sender account buy sellLimit = .ok (s', msgs)) :
    s.config.creditAgency = sender ∧ s' = s ∧
    ((s.config.marketToken = buy.denom ∧ msgs = [.send buy.denom sender buy.amount]) ∨
      (s.config.marketToken ≠ buy.denom ∧ ∃ estimate tokens multiHop,
        q.simulateReverseSwap s.config.priceOracle buy.amount
          (swapOperations s.config buy.denom) = .ok estimate ∧ estimate ≤ sellLimit ∧
        baseToToken estimate q.ctoken.multiplier = .ok (ε := Error) tokens ∧
        msgs = [.ctoken s.config.ctokenContract (.burnFrom account tokens),
          .swap multiHop (swapOperations s.config buy.denom) buy.amount
            (s.config.marketToken.amount sellLimit),
          .send buy.denom sender buy.amount])) := by
  simp only [swapWithdrawFrom, bind_eq_ok, ensure_eq_ok] at h
  obtain ⟨-, hs, h⟩ := h
  refine ⟨hs, ?_⟩
  split_ifs at h with hd
  · cases h
    exact ⟨rfl, .inl ⟨hd, rfl⟩⟩
  · simp only [bind_eq_ok, ensure_eq_ok, pure_eq_ok] at h
    obtain ⟨estimate, he, -, hle, tokens, ht, multiHop, -, swap, hw, h⟩ := h
    cases h
    have hswap : swap = .swap multiHop (swapOperations s.config buy.denom) buy.amount
        (s.config.marketToken.amount sellLimit) := by
      unfold swapMsg at hw
      split at hw <;> cases hw
      rfl
    exact ⟨rfl, .inr ⟨hd, estimate, tokens, multiHop, he, hle, ht, by rw [hswap]⟩⟩

theorem adjust_spec {change : Config → Config}
    (h : Restricted.adjust s sender change = .ok (s', msgs)) :
    s.config.governanceContract = sender ∧ s' = { s with config := change s.config } ∧
      msgs = [] := by
  simp only [Restricted.adjust, bind_eq_ok, ensure_eq_ok] at h
  obtain ⟨-, hs, h⟩ := h
  cases h
  exact ⟨hs, rfl, rfl⟩

/-- The debt is charged, the clock is set back to where it was. -/
theorem adjustInterestRates_spec {curve : Interest}
    (h : Restricted.adjustInterestRates q time s sender curve = .ok (s', msgs)) :
    s.config.governanceContract = sender ∧
    ∃ s₁ charge, ∃ rates : ValidatedInterest, chargeInterest q time s = .ok (s₁, charge) ∧
      rates.inner = curve ∧ s' = { s₁ with config := { s.config with rates } } ∧
      msgs = charge.messages := by
  simp only [Restricted.adjustInterestRates, bind_eq_ok, ensure_eq_ok, mapError_eq_ok,
    Interest.validate_eq_ok] at h
  obtain ⟨-, hs, ⟨s₁, charge⟩, hch, rates, hr, h⟩ := h
  cases h
  exact ⟨hs, s₁, charge, rates, hch, hr, rfl, rfl⟩

end WyndLend.Market
