import WyndLend.Market.Clock

/-!
# Which charges can be calculated

The reserve grows with the compounded rate and is subtracted from a supply that does not.
The only guard is for a market without ctokens, so a market that was left alone for long
enough aborts on every message from then on.
-/

namespace WyndLend.Market

open CosmWasm Utils

/-- The interest on the debt, in base tokens. -/
def interestOn (borrowed : Uint128) (rate : Decimal) : ℕ :=
  borrowed.val * rate.atomics.val / fractional

/-- The part of it that goes to the reserve. -/
def reserveOf (borrowed : Uint128) (rate reserveFactor : Decimal) : ℕ :=
  interestOn borrowed rate * reserveFactor.atomics.val / fractional

/-- The interest fits in 128 bits, the reserve is below the supply, and far enough below it
that the interest over the rest of the supply fits in a decimal. -/
structure Settleable (supplied borrowed : Uint128) (rate reserveFactor : Decimal) : Prop where
  interest : interestOn borrowed rate < 2 ^ 128
  reserve : reserveOf borrowed rate reserveFactor < supplied.val
  ratio : interestOn borrowed rate * fractional /
    (supplied.val - reserveOf borrowed rate reserveFactor) < 2 ^ 128

instance (supplied borrowed : Uint128) (rate reserveFactor : Decimal) :
    Decidable (Settleable supplied borrowed rate reserveFactor) :=
  decidable_of_iff (_ ∧ _ ∧ _)
    ⟨fun h => ⟨h.1, h.2.1, h.2.2⟩, fun h => ⟨h.interest, h.reserve, h.ratio⟩⟩

variable {s : State} {ctoken : Ctoken.State} {epochs : ℕ} {supplied borrowed : Uint128}
  {m rate : Decimal}

/-- A part of at most the whole. -/
theorem reserveOf_le {reserveFactor : Decimal} (h : reserveFactor ≤ Decimal.one) :
    reserveOf borrowed rate reserveFactor ≤ interestOn borrowed rate := by
  unfold reserveOf
  rw [Decimal.le_def, Decimal.atomics_one] at h
  exact Nat.div_le_of_le_mul ((Nat.mul_le_mul_left _ h).trans_eq (Nat.mul_comm _ _))

/-- Once the rate is known, each remaining operation of the calculation succeeds. -/
theorem calculateInterest_of_settleable (hrf : s.config.reserveFactor ≤ Decimal.one)
    (hs : ctoken.totalSupplyBase = .ok (ε := Error) supplied)
    (hb : Debt.total s.debt = .ok (borrowed, m)) (h0 : supplied ≠ 0) (hle : borrowed ≤ supplied)
    (hrate : debtRatio s ctoken epochs = .ok rate) (hn : epochs ≠ 0)
    (h : Settleable supplied borrowed rate s.config.reserveFactor) :
    ∃ u, calculateInterest s ctoken epochs = .ok (some u) := by
  obtain ⟨hinterest, hreserve, hratio⟩ := h
  have hpart : reserveOf borrowed rate s.config.reserveFactor ≤ interestOn borrowed rate :=
    reserveOf_le hrf
  rw [Uint128.le_def] at hle
  have hfits := supplied.isLt
  simp only [debtRatio, hs, hb, bind_eq_ok, Except.ok.injEq, exists_eq_left'] at hrate
  obtain ⟨util, hutil, curve, hcurve, hcompound⟩ := hrate
  obtain ⟨charged, hcharged⟩ := Uint128.exists_val hinterest
  obtain ⟨reserve, hres⟩ := Uint128.exists_val (hpart.trans_lt hinterest)
  obtain ⟨balance, hbalance⟩ :=
    Uint128.exists_val (n := supplied.val - borrowed.val) (by omega)
  obtain ⟨rest, hrest⟩ := Uint128.exists_val (n := supplied.val - reserve.val) (by omega)
  obtain ⟨ratio, hval⟩ := Uint128.exists_val hratio
  refine ⟨⟨reserve, ⟨ratio⟩, rate⟩, ?_⟩
  unfold calculateInterest
  rw [if_neg hn]
  simp only [hs, hb, if_neg h0, bind_eq_ok, Except.ok.injEq, exists_eq_left', pure_eq_ok,
    Uint128.mulDecimal_eq_ok, Uint128.sub_eq_ok, Uint128.add_eq_ok, Decimal.fromRatio_eq_ok]
  refine ⟨util, hutil, curve, hcurve, rate, hcompound, charged, hcharged, reserve, ?_, balance,
    ?_, supplied, ?_, rest, ?_, charged, hcharged, ⟨ratio⟩, ⟨?_, ?_⟩, rfl⟩
  · rw [hres, hcharged]
    rfl
  · omega
  · omega
  · omega
  · omega
  · rw [hrest, hcharged, hres]
    exact hval

/-- With a reserve factor of at most one, ctokens, no more debt than supply, and a compounded
rate that fits in a decimal, the calculation returns if and only if nothing is pending or the
reserve leaves enough of the supply. -/
theorem calculateInterest_returns_iff (hrf : s.config.reserveFactor ≤ Decimal.one)
    (hs : ctoken.totalSupplyBase = .ok (ε := Error) supplied)
    (hb : Debt.total s.debt = .ok (borrowed, m)) (h0 : supplied ≠ 0) (hle : borrowed ≤ supplied)
    (hrate : debtRatio s ctoken epochs = .ok rate) :
    (∃ u, calculateInterest s ctoken epochs = .ok u) ↔
      epochs = 0 ∨ Settleable supplied borrowed rate s.config.reserveFactor := by
  constructor
  · rintro ⟨u, hu⟩
    by_cases hn : epochs = 0
    · exact .inl hn
    right
    cases u with
    | none =>
      rcases calculateInterest_none hu with hzero | hnone
      · exact absurd hzero hn
      · cases hs.symm.trans hnone
        exact absurd rfl h0
    | some u =>
      obtain ⟨-, hrate', supplied', borrowed', charged, hs', hb', -, -, hc, hr, hlt, hratio⟩ :=
        calculateInterest_spec hu
      cases hs.symm.trans hs'
      cases hrate.symm.trans hrate'
      have hborrowed : borrowed = borrowed' := by
        simp only [Debt.total, hb', bind_eq_ok, pure_eq_ok, Except.ok.injEq,
          exists_eq_left'] at hb
        exact (Prod.mk.inj hb).1.symm
      subst hborrowed
      have hcharged : interestOn borrowed u.debtRatio = charged.val := hc.symm
      have hreserve : reserveOf borrowed u.debtRatio s.config.reserveFactor = u.reserve.val := by
        rw [hr, ← hcharged]
        rfl
      refine ⟨hcharged ▸ charged.isLt, hreserve ▸ hlt, ?_⟩
      rw [hcharged, hreserve, ← hratio]
      exact u.ctokenRatio.atomics.isLt
  · rintro (rfl | h)
    · exact ⟨none, rfl⟩
    · by_cases hn : epochs = 0
      · subst hn
        exact ⟨none, rfl⟩
      · obtain ⟨u, hu⟩ := calculateInterest_of_settleable hrf hs hb h0 hle hrate hn h
        exact ⟨some u, hu⟩

namespace System

/-- The sample market with half of the deposits lent. -/
def idleTxs : List Tx :=
  [sampleTx 0 "lender" 2000 .deposit, sampleTx 0 "bob" 0 (.borrow 1000)]

/-- Ten years can be charged. -/
theorem calculateInterest_returns_iff_example : ∃ init sys, sample = .ok init ∧
    Run step Ordered init idleTxs sys ∧
    ∃ u, calculateInterest sys.market sys.ctoken 10 = .ok u := by
  obtain ⟨init, sys, hi, hrun, hrf, hs, hb, hrate⟩ : ∃ init sys, sample = .ok init ∧
      Run step Ordered init idleTxs sys ∧ sys.market.config.reserveFactor ≤ Decimal.one ∧
      (sys.ctoken.totalSupplyBase (ε := Market.Error)).toOption = some 2000 ∧
      (Debt.total sys.market.debt).toOption = some (1000, Debt.initialMultiplier) ∧
      (debtRatio sys.market sys.ctoken 10).toOption.any (fun rate =>
        decide (Settleable 2000 1000 rate sys.market.config.reserveFactor)) = true :=
    exists_run_of_start (by decide)
  obtain ⟨rate, hrate, hsettle⟩ := exists_ok_of_any hrate
  exact ⟨init, sys, hi, hrun, (calculateInterest_returns_iff hrf (toOption_eq_some.mp hs)
    (toOption_eq_some.mp hb) (by decide) (by decide) hrate).mpr (.inr hsettle)⟩

/-- After fourteen idle years the reserve of 2367 exceeds the supply of 2000. The interest
cannot be calculated, and no message that settles succeeds any more. -/
theorem idle_market_aborts : ∃ init sys, sample = .ok init ∧
    Run step Ordered init idleTxs sys ∧ sys.market.config.reserveFactor ≤ Decimal.one ∧
    (sys.ctoken.totalSupplyBase (ε := Market.Error)).toOption = some 2000 ∧
    (Debt.total sys.market.debt).toOption = some (1000, Debt.initialMultiplier) ∧
    (debtRatio sys.market sys.ctoken 14).toOption.isSome = true ∧
    (calculateInterest sys.market sys.ctoken 14).toOption.isSome = false ∧
    (step (sampleTx (14 * 31_536_000) "bob" 1000 .repay) sys).toOption.isNone = true :=
  exists_run_of_start (by decide)

end System

end WyndLend.Market
