import WyndLend.Ctoken.Contract
import WyndLend.Market.State

/-!
# Interest

How many charge periods have elapsed, and what charging them does: the reserve
to mint and the ratios by which ctokens and debt grow.
-/

namespace WyndLend.Market

open CosmWasm Utils

/-- Values that should be updated when interest is charged for all pending charge periods. -/
structure InterestUpdate where
  reserve : Uint128
  /-- The ratio to rebase ctokens by. -/
  ctokenRatio : Decimal
  /-- The ratio to rebase debt by. -/
  debtRatio : Decimal
  deriving DecidableEq

/-- How many charging periods happened between now and last charge. The native subtraction
would wrap for a block before the last charge, which no run of ordered blocks has
(`System.reachable_running`); here it aborts. -/
def epochsPassed (cfg : Config) (time : ℕ) : Except Error ℕ :=
  if time < cfg.lastCharged then .error (.fault .overflow)
  else if cfg.interestChargePeriod = 0 then .error (.fault .divideByZero)
  else .ok ((time - cfg.lastCharged) / cfg.interestChargePeriod)

/-- Figure out the current utilisation given the amount supplied and borrowed. -/
def utilisation (supplied borrowed : Uint128) : Except Error Decimal :=
  if supplied = 0 then .ok Decimal.zero else Decimal.fromRatio borrowed supplied

/-- Compounds the yearly rate over the epochs; the epochs are cast to `u32`. -/
def compoundedInterestRate (interestRate : Decimal) (chargePeriod epochs : ℕ) :
    Except Error Decimal := do
  let period ← Uint128.narrow chargePeriod
  let scaled ← Decimal.fromRatio (← period.mul interestRate.atomics)
    (← secondsInYear.mul Decimal.one.atomics)
  let growth ← (← Decimal.one.add scaled).checkedPow (epochs % 2 ^ 32)
  growth.sub Decimal.one

/-- The rate for one charge period, truncated. -/
def periodRate (chargePeriod : ℕ) (interestRate : Decimal) : ℕ :=
  chargePeriod * interestRate.atomics.val / secondsInYear.val

theorem compoundedInterestRate_spec {interestRate rate : Decimal} {chargePeriod epochs : ℕ}
    (h : compoundedInterestRate interestRate chargePeriod epochs = .ok rate) :
    ∃ base growth : Decimal,
      base.atomics.val = fractional + periodRate chargePeriod interestRate ∧
      base.checkedPow (epochs % 2 ^ 32) = .ok (ε := Error) growth ∧
      rate.atomics.val + fractional = growth.atomics.val := by
  simp only [compoundedInterestRate, bind_eq_ok, Uint128.narrow_eq_ok, Uint128.mul_eq_ok,
    Decimal.fromRatio_eq_ok, Decimal.add_eq_ok, Decimal.sub_eq_ok, Decimal.atomics_one] at h
  obtain ⟨period, hp, n, hn, d, hd, scaled, ⟨-, hs⟩, base, hb, growth, hg, hr⟩ := h
  refine ⟨base, growth, ?_, hg, hr⟩
  have hcancel := Nat.mul_div_mul_right (chargePeriod * interestRate.atomics.val)
    secondsInYear.val fractional_pos
  rw [hb, hs, hn, hd, hp]
  unfold periodRate
  omega

/-- Calculates new values after applying all pending interest charges. -/
def calculateInterest (s : State) (ctoken : Ctoken.State) (epochs : ℕ) :
    Except Error (Option InterestUpdate) :=
  if epochs = 0 then .ok none
  else do
    let cfg := s.config
    let supplied ← ctoken.totalSupplyBase
    let (borrowed, _) ← Debt.total s.debt
    -- if there are no ctokens, don't charge interest
    if supplied = 0 then return none
    else
      let interest ← cfg.rates.calculateInterestRate (← utilisation supplied borrowed)
      let debtRatio ← compoundedInterestRate interest cfg.interestChargePeriod epochs
      let chargedInterest ← borrowed.mulDecimal debtRatio
      let reserve ← chargedInterest.mulDecimal cfg.reserveFactor
      let baseAssetBalance ← supplied.sub borrowed
      let cSupply ← (← borrowed.add baseAssetBalance).sub reserve
      let ctokenRatio ← Decimal.fromRatio (← borrowed.mulDecimal debtRatio) cSupply
      return some ⟨reserve, ctokenRatio, debtRatio⟩

theorem epochsPassed_eq_ok {cfg : Config} {time n : ℕ} :
    epochsPassed cfg time = .ok n ↔
      cfg.lastCharged ≤ time ∧ cfg.interestChargePeriod ≠ 0 ∧
      n = (time - cfg.lastCharged) / cfg.interestChargePeriod := by
  unfold epochsPassed
  split_ifs with h1 h2
  · exact ⟨nofun, fun h => absurd h.1 (not_le.mpr h1)⟩
  · exact ⟨nofun, fun h => absurd h2 h.2.1⟩
  · rw [Except.ok.injEq, eq_comm]
    exact ⟨fun h => ⟨not_lt.mp h1, h2, h⟩, fun h => h.2.2⟩

/-- The rate on the debt that a number of epochs compounds to, from the supply, the
debt and the curve of a state. -/
def debtRatio (s : State) (ctoken : Ctoken.State) (epochs : ℕ) : Except Error Decimal := do
  let supplied ← ctoken.totalSupplyBase
  let (borrowed, _) ← Debt.total s.debt
  let interest ← s.config.rates.calculateInterestRate (← utilisation supplied borrowed)
  compoundedInterestRate interest s.config.interestChargePeriod epochs

/-- Without epochs or without ctokens there is no update. -/
theorem calculateInterest_none {s : State} {ctoken : Ctoken.State} {epochs : ℕ}
    (h : calculateInterest s ctoken epochs = .ok none) :
    epochs = 0 ∨ ctoken.totalSupplyBase = .ok (ε := Error) 0 := by
  unfold calculateInterest at h
  split_ifs at h with h0
  · exact .inl h0
  simp only [bind_eq_ok, Debt.total, pure_eq_ok] at h
  obtain ⟨supplied, hs, _, ⟨borrowed, hb, rfl⟩, h⟩ := h
  split_ifs at h with hz
  · exact .inr (hz ▸ hs)
  · simp only [bind_eq_ok, pure_eq_ok, reduceCtorEq, and_false, exists_false] at h

/-- What an update is made of. `supplied` and `borrowed` are in base tokens. -/
theorem calculateInterest_spec {s : State} {ctoken : Ctoken.State} {epochs : ℕ}
    {u : InterestUpdate} (h : calculateInterest s ctoken epochs = .ok (some u)) :
    epochs ≠ 0 ∧ debtRatio s ctoken epochs = .ok u.debtRatio ∧
    ∃ supplied borrowed charged : Uint128,
      ctoken.totalSupplyBase = .ok (ε := Error) supplied ∧
      tokenToBase s.debt.info.totalPoints s.debt.info.multiplier = .ok (ε := Error) borrowed ∧
      supplied ≠ 0 ∧ borrowed ≤ supplied ∧
      charged.val = borrowed.val * u.debtRatio.atomics.val / fractional ∧
      u.reserve.val = charged.val * s.config.reserveFactor.atomics.val / fractional ∧
      u.reserve < supplied ∧
      u.ctokenRatio.atomics.val =
        charged.val * fractional / (supplied.val - u.reserve.val) := by
  unfold calculateInterest at h
  split_ifs at h with h0
  · cases h
  simp only [bind_eq_ok, Debt.total, pure_eq_ok] at h
  obtain ⟨supplied, hs, _, ⟨borrowed, hb, rfl⟩, h⟩ := h
  split_ifs at h with hz
  · cases h
  simp only [bind_eq_ok, Uint128.mulDecimal_eq_ok, Uint128.sub_eq_ok, Uint128.add_eq_ok,
    Decimal.fromRatio_eq_ok, pure_eq_ok] at h
  obtain ⟨util, hutil, interest, hinterest, rate, hrate, charged, hc, reserve, hr, balance, hbal,
    sum, hsum, cs, hcs, charged', hc', ratio, ⟨hne, hratio⟩, h⟩ := h
  cases h
  have hcc : charged'.val = charged.val := by rw [hc, hc']
  refine ⟨h0, ?_, supplied, borrowed, charged, hs, hb, hz, ?_, hc, hr, ?_, ?_⟩
  · simp only [debtRatio, Debt.total, bind_eq_ok, pure_eq_ok]
    exact ⟨supplied, hs, _, ⟨borrowed, hb, rfl⟩, util, hutil, interest, hinterest, hrate⟩
  · rw [Uint128.le_def]
    omega
  · rw [Uint128.lt_def]
    dsimp only
    omega
  · rw [hratio, hcc, show cs.val = supplied.val - reserve.val by omega]

end WyndLend.Market
