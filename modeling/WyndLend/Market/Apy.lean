import WyndLend.Market.Compounding

/-!
# Displayed yields

The `Apy` query divides the yearly rate by the number of periods in a year, a charge takes
the share of a period in the year. The borrower's yield is the charged one exactly when both
give the same rate for a period. The lender's yield takes the reserve off, the charge takes
the whole interest to what is left of the supply without it.
-/

namespace WyndLend.Market

open CosmWasm Utils Rebasing

/-- What is supplied and borrowed in base tokens, and the yearly rate of the curve there. -/
structure Curve (s : State) (ctoken : Ctoken.State) (supplied borrowed : Uint128)
    (rate : Decimal) : Prop where
  supply : ctoken.totalSupplyBase = .ok (ε := Error) supplied
  debt : Debt.total s.debt = .ok (borrowed, s.debt.info.multiplier)
  asked : ∃ u, utilisation supplied borrowed = .ok u ∧
    s.config.rates.calculateInterestRate u = .ok (ε := Error) rate

/-- The charge periods that fit into a year. -/
def chargePeriods (s : State) : ℕ := secondsInYear.val / s.config.interestChargePeriod

/-- The rate of a charge period is an equal part of the yearly rate. -/
def PeriodExact (s : State) (rate : Decimal) : Prop :=
  rate.atomics.val / chargePeriods s = periodRate s.config.interestChargePeriod rate

instance (s : State) (rate : Decimal) : Decidable (PeriodExact s rate) :=
  inferInstanceAs (Decidable (_ = _))

variable {q : Querier} {s : State} {ctoken : Ctoken.State} {supplied borrowed : Uint128}
  {rate : Decimal} {answer : Query.ApyResponse} {u : InterestUpdate}

theorem chargePeriods_mod (s : State) : chargePeriods s % 2 ^ 32 = chargePeriods s :=
  Nat.mod_eq_of_lt (lt_of_le_of_lt (Nat.div_le_self _ _) (by decide))

/-- What the query displays; it only answers if a period fits into a year. -/
theorem apy_spec (hc : Curve s q.ctoken supplied borrowed rate) (h : Query.apy q s = .ok answer) :
    chargePeriods s ≠ 0 ∧
    answer.borrower.atomics.val + fractional = power fractional 32
      (fractional + rate.atomics.val / chargePeriods s) (chargePeriods s) ∧
    s.config.reserveFactor.atomics.val ≤ fractional ∧
    ∃ util, utilisation supplied borrowed = .ok util ∧
      answer.lender.atomics.val = toBase fractional
        (toBase fractional answer.borrower.atomics.val util.atomics.val)
        (fractional - s.config.reserveFactor.atomics.val) := by
  obtain ⟨util, hutil, hrate⟩ := hc.asked
  simp only [Query.apy, hc.supply, hc.debt, hutil, hrate, bind_eq_ok, Except.ok.injEq,
    exists_eq_left', Uint128.narrow_eq_ok, Uint128.div_eq_ok, Decimal.divUint_eq_ok,
    Decimal.add_eq_ok, Decimal.sub_eq_ok, Decimal.mul_eq_ok, Decimal.atomics_one,
    pure_eq_ok] at h
  obtain ⟨period, hperiod, periods, ⟨-, hperiods⟩, part, ⟨hne, hpart⟩, base, hbase, growth,
    hgrowth, borrower, hborrower, weighted, hweighted, kept, hkept, lender, hlender, rfl⟩ := h
  have hn : periods.val = chargePeriods s := by rw [hperiods, hperiod, chargePeriods]
  have hne : chargePeriods s ≠ 0 := by
    rw [← hn]
    exact mt Uint128.val_eq_zero.mp hne
  rw [hn, chargePeriods_mod] at hgrowth
  have hpower := Decimal.checkedPow_atomics hne hgrowth
  refine ⟨hne, ?_, by omega, util, hutil, ?_⟩
  · rw [hborrower, hpower, hbase, hpart, hn]
  · rw [hlender, hweighted, show kept.atomics.val = fractional -
      s.config.reserveFactor.atomics.val by omega]
    rfl

/-- What a charge over the periods of a year computes. -/
theorem calculateInterest_year (hc : Curve s ctoken supplied borrowed rate)
    (h : calculateInterest s ctoken (chargePeriods s) = .ok (some u)) :
    u.debtRatio.atomics.val + fractional = power fractional 32
      (fractional + periodRate s.config.interestChargePeriod rate) (chargePeriods s) ∧
    supplied ≠ 0 ∧ ∃ charged : Uint128,
      charged.val = toBase fractional borrowed.val u.debtRatio.atomics.val ∧
      u.reserve.val = toBase fractional charged.val s.config.reserveFactor.atomics.val ∧
      u.reserve < supplied ∧
      u.ctokenRatio.atomics.val =
        charged.val * fractional / (supplied.val - u.reserve.val) := by
  obtain ⟨hne, hratio, supplied', borrowed', charged, hs, hb, h0, -, hcharged, hreserve, hlt,
    hctoken⟩ := calculateInterest_spec h
  obtain ⟨util, hutil, hrate⟩ := hc.asked
  cases hc.supply.symm.trans hs
  simp only [debtRatio, hc.supply, hc.debt, hutil, hrate, bind_eq_ok, Except.ok.injEq,
    exists_eq_left'] at hratio
  obtain ⟨base, growth, hbase, hgrowth, hr⟩ := compoundedInterestRate_spec hratio
  rw [chargePeriods_mod] at hgrowth
  have hdebt := hc.debt
  simp only [Debt.total, hb, bind_eq_ok, Except.ok.injEq, exists_eq_left', pure_eq_ok,
    Prod.mk.injEq, and_true] at hdebt
  subst hdebt
  refine ⟨?_, h0, charged, hcharged, hreserve, hlt, hctoken⟩
  rw [hr, Decimal.checkedPow_atomics hne hgrowth, hbase]

/-- The borrower's yields are equal powers, and so of equal rates. -/
theorem borrower_eq_iff (hc : Curve s q.ctoken supplied borrowed rate)
    (ha : Query.apy q s = .ok answer)
    (hu : calculateInterest s q.ctoken (chargePeriods s) = .ok (some u)) :
    answer.borrower = u.debtRatio ↔ PeriodExact s rate := by
  obtain ⟨-, hdisplayed, -⟩ := apy_spec hc ha
  obtain ⟨hcharged, -⟩ := calculateInterest_year hc hu
  have hinj := power_inj fractional_pos 32 (n := chargePeriods s)
    (Nat.le_add_right fractional (rate.atomics.val / chargePeriods s))
    (Nat.le_add_right fractional (periodRate s.config.interestChargePeriod rate))
  rw [Nat.add_left_cancel_iff] at hinj
  unfold PeriodExact
  rw [← hinj, Decimal.ext_iff, Uint128.ext_iff]
  omega

/-! ## The lender's yield -/

/-- The tolerance for the truncations on the way to the lender's yield. -/
def tolerance (supplied : Uint128) (borrower : Decimal) : ℚ :=
  3 / supplied.val + (1 + fixed fractional borrower.atomics.val) / 10 ^ 15

/-- The displayed yields are the charged ones. -/
structure Displayed (answer : Query.ApyResponse) (u : InterestUpdate) (supplied : Uint128) :
    Prop where
  borrower : answer.borrower = u.debtRatio
  lender : |fixed fractional answer.lender.atomics.val -
    fixed fractional u.ctokenRatio.atomics.val| ≤ tolerance supplied answer.borrower

/-- The reserve of a year's interest. -/
def yearlyReserve (s : State) (borrowed : Uint128) (rate : Decimal) : ℕ :=
  toBase fractional (toBase fractional borrowed.val (power fractional 32
    (fractional + rate.atomics.val / chargePeriods s) (chargePeriods s) - fractional))
    s.config.reserveFactor.atomics.val

/-- The numbers behind the two yields of a lender, in exact arithmetic: `charged` is the
interest, `part` and `kept` are utilisation and what the reserve leaves. -/
structure Yields (supplied borrowed charged reserve : ℕ) (borrower factor lender ratio : ℚ) :
    Prop where
  charged_le : (charged : ℚ) ≤ borrowed * borrower
  lt_charged : borrowed * borrower < charged + 1
  reserve_le : (reserve : ℚ) ≤ charged * factor
  lt_reserve : charged * factor < reserve + 1
  ratio_le : ratio ≤ charged / (supplied - reserve)
  lt_ratio : charged / (supplied - reserve) < ratio + 1 / fractional
  lender_le : lender ≤ borrower * (borrowed / supplied) * (1 - factor)
  le_lender : borrower * (borrowed / supplied - 1 / fractional) * (1 - factor) -
    2 / fractional ≤ lender

theorem yields_of (hc : Curve s q.ctoken supplied borrowed rate)
    (ha : Query.apy q s = .ok answer)
    (hu : calculateInterest s q.ctoken (chargePeriods s) = .ok (some u))
    (heq : answer.borrower = u.debtRatio) :
    ∃ charged : ℕ, u.reserve.val = yearlyReserve s borrowed rate ∧
      Yields supplied.val borrowed.val charged u.reserve.val
        (fixed fractional answer.borrower.atomics.val)
        (fixed fractional s.config.reserveFactor.atomics.val)
        (fixed fractional answer.lender.atomics.val)
        (fixed fractional u.ctokenRatio.atomics.val) := by
  obtain ⟨-, hdisplayed, hfactor, util, hutil, hlender⟩ := apy_spec hc ha
  obtain ⟨-, h0, charged, hcharged, hreserve, hlt, hratio⟩ := calculateInterest_year hc hu
  rw [← heq] at hcharged
  have hutil : util.atomics.val = borrowed.val * fractional / supplied.val := by
    simp only [utilisation, if_neg h0, Decimal.fromRatio_eq_ok] at hutil
    exact hutil.2
  obtain ⟨hshare, hshare'⟩ := fixed_div_bounds fractional_pos borrowed.val supplied.val
  obtain ⟨hyield, hyield'⟩ :=
    fixed_div_bounds fractional_pos charged.val (supplied.val - u.reserve.val)
  rw [← hutil] at hshare hshare'
  rw [← hratio, Nat.cast_sub (Uint128.lt_def.mp hlt).le] at hyield hyield'
  have hkept := fixed_sub fractional_pos hfactor
  have hborrower := fixed_nonneg fractional answer.borrower.atomics.val
  have hfactor := fixed_nonneg fractional
    (fractional - s.config.reserveFactor.atomics.val)
  refine ⟨charged.val, ?_, ?_, ?_, ?_, ?_, hyield, hyield', ?_, ?_⟩
  · rw [hreserve, hcharged, yearlyReserve, ← hdisplayed, Nat.add_sub_cancel]
  · rw [hcharged, ← value_eq_mul_fixed]
    exact toBase_le_value _ _ _
  · rw [hcharged, ← value_eq_mul_fixed]
    exact value_lt_toBase_add_one _ _ _
  · rw [hreserve, ← value_eq_mul_fixed]
    exact toBase_le_value _ _ _
  · rw [hreserve, ← value_eq_mul_fixed]
    exact value_lt_toBase_add_one _ _ _
  · rw [hlender, ← hkept]
    refine (fixed_toBase_toBase_le fractional_pos _ _ _).trans ?_
    gcongr
  · rw [hlender, ← hkept]
    refine le_trans ?_ (fixed_toBase_toBase_ge fractional_pos _ _ (Nat.sub_le _ _))
    have hutil' := sub_le_iff_le_add.mpr hshare'.le
    gcongr

/-- Without a reserve the two yields differ by truncation only. -/
theorem Yields.within {supplied borrowed charged : ℕ} {borrower factor lender ratio : ℚ}
    (h : Yields supplied borrowed charged 0 borrower factor lender ratio) (hs : 0 < supplied)
    (hborrower : 0 ≤ borrower) (hfactor : 0 ≤ factor) (hone : factor ≤ 1) :
    |lender - ratio| ≤ 3 / supplied + (1 + borrower) / 10 ^ 15 := by
  have hS : (0 : ℚ) < supplied := by exact_mod_cast hs
  have hF : (fractional : ℚ) = 10 ^ 18 := by norm_num [fractional]
  obtain ⟨hcharged, hcharged', -, hreserve, hratio, hratio', hlender, hlender'⟩ := h
  rw [Nat.cast_zero, sub_zero] at hratio hratio'
  rw [Nat.cast_zero, zero_add] at hreserve
  have hkeep : 0 ≤ 1 - factor := sub_nonneg.mpr hone
  have hleast : (charged - 1) / supplied ≤ borrower * (borrowed / supplied) * (1 - factor) := by
    calc ((charged : ℚ) - 1) / supplied ≤ (charged - charged * factor) / supplied := by gcongr
      _ = charged * (1 - factor) / supplied := by ring
      _ ≤ borrowed * borrower * (1 - factor) / supplied := by gcongr
      _ = borrower * (borrowed / supplied) * (1 - factor) := by ring
  have hmost : borrower * (borrowed / supplied) * (1 - factor) ≤ (charged + 1) / supplied := by
    calc borrower * (borrowed / supplied) * (1 - factor)
        ≤ borrower * (borrowed / supplied) := mul_le_of_le_one_right (by positivity) (by linarith)
      _ = borrowed * borrower / supplied := by ring
      _ ≤ (charged + 1) / supplied := by gcongr
  have hunits : borrower * (1 / fractional) * (1 - factor) ≤ borrower * (1 / fractional) :=
    mul_le_of_le_one_right (by positivity) (by linarith)
  have hsplit : borrower * (borrowed / supplied - 1 / fractional) * (1 - factor) =
      borrower * (borrowed / supplied) * (1 - factor) -
        borrower * (1 / fractional) * (1 - factor) := by ring
  have htoken : (0 : ℚ) < 1 / supplied := by positivity
  rw [sub_div] at hleast
  rw [add_div] at hmost
  rw [hsplit] at hlender'
  rw [hF] at hlender' hratio' hunits
  have hthree : (3 : ℚ) / supplied = 3 * (1 / supplied) := by ring
  rw [hthree, abs_le]
  constructor
  · linarith
  · linarith

/-- With a reserve the charge gives more than is displayed, for about each token of it. -/
theorem Yields.beyond {supplied borrowed charged reserve : ℕ} {borrower factor lender ratio : ℚ}
    (h : Yields supplied borrowed charged reserve borrower factor lender ratio)
    (hs : reserve < supplied) (hfactor : 0 ≤ factor) (hone : factor ≤ 1)
    (hreserve : 4 + supplied * (1 / fractional + (1 + borrower) / 10 ^ 15) ≤ (reserve : ℚ)) :
    3 / supplied + (1 + borrower) / 10 ^ 15 < |lender - ratio| := by
  have hS : (0 : ℚ) < supplied := by exact_mod_cast (Nat.zero_le _).trans_lt hs
  have hleft : (0 : ℚ) < supplied - reserve := sub_pos.mpr (by exact_mod_cast hs)
  obtain ⟨hcharged, hcharged', hreserve', -, -, hratio, hlender, -⟩ := h
  have hmost : lender ≤ (charged + 1 - reserve) / supplied := by
    calc lender ≤ borrower * (borrowed / supplied) * (1 - factor) := hlender
      _ = borrowed * borrower * (1 - factor) / supplied := by ring
      _ ≤ (charged + 1) * (1 - factor) / supplied := by
        have hkeep : 0 ≤ 1 - factor := sub_nonneg.mpr hone
        gcongr
      _ ≤ (charged + 1 - reserve) / supplied := by
        gcongr
        linarith
  have hleast : (charged : ℚ) / supplied < ratio + 1 / fractional := by
    refine lt_of_le_of_lt ?_ hratio
    gcongr
    exact sub_le_self _ (Nat.cast_nonneg _)
  have hshare : 4 / supplied + (1 / fractional + (1 + borrower) / 10 ^ 15) ≤
      (reserve : ℚ) / supplied := by
    rw [le_div_iff₀ hS, add_mul, div_mul_cancel₀ _ hS.ne', mul_comm _ (supplied : ℚ)]
    exact hreserve
  rw [sub_div, add_div] at hmost
  have hthree : (3 : ℚ) / supplied = 3 * (1 / supplied) := by ring
  have hfour : (4 : ℚ) / supplied = 4 * (1 / supplied) := by ring
  rw [hfour] at hshare
  rw [hthree, lt_abs]
  right
  linarith

/-- The borrower's displayed yield is the charged one if and only if the rate of a charge
period is an equal part of the yearly rate. Then, as long as the reserve of a year's interest
rounds to zero, the lender's is as well up to truncation; and it is not once the reserve
exceeds four tokens and the tolerance for them. -/
theorem apy_displays_charged (hc : Curve s q.ctoken supplied borrowed rate)
    (ha : Query.apy q s = .ok answer)
    (hu : calculateInterest s q.ctoken (chargePeriods s) = .ok (some u)) :
    (answer.borrower = u.debtRatio ↔ PeriodExact s rate) ∧
    (PeriodExact s rate → yearlyReserve s borrowed rate = 0 → Displayed answer u supplied) ∧
    (4 + supplied.val * (1 / (fractional : ℚ) +
        (1 + fixed fractional answer.borrower.atomics.val) / 10 ^ 15) ≤
      yearlyReserve s borrowed rate → ¬ Displayed answer u supplied) := by
  have hborrower := borrower_eq_iff hc ha hu
  obtain ⟨-, -, hle, -⟩ := apy_spec hc ha
  obtain ⟨-, h0, -, -, -, hlt, -⟩ := calculateInterest_year hc hu
  have hone := fixed_le_one fractional_pos hle
  have hfactor := fixed_nonneg fractional s.config.reserveFactor.atomics.val
  refine ⟨hborrower, ?_, ?_⟩
  · intro hexact hzero
    obtain ⟨charged, hreserve, hyields⟩ := yields_of hc ha hu (hborrower.mpr hexact)
    rw [hreserve, hzero] at hyields
    exact ⟨hborrower.mpr hexact,
      hyields.within (Uint128.val_pos.mpr h0) (fixed_nonneg _ _) hfactor hone⟩
  · rintro hlarge ⟨heq, hlender⟩
    obtain ⟨charged, hreserve, hyields⟩ := yields_of hc ha hu heq
    rw [← hreserve] at hlarge
    exact absurd hlender
      (not_le.mpr (hyields.beyond (Uint128.lt_def.mp hlt) hfactor hone hlarge))

/-! ## Yields of the sample market -/

namespace System

/-- Two tokens of interest on a loan of twenty leave nothing for the reserve. -/
theorem apy_displays_charged_example : ∃ init sys answer u, sample = .ok init ∧
    Run step Ordered init
      [sampleTx 0 "lender" 2000 .deposit, sampleTx 0 "bob" 0 (.borrow 20)] sys ∧
    Query.apy (sys.querier (sampleEnv 0)) sys.market = .ok answer ∧
    calculateInterest sys.market sys.ctoken (chargePeriods sys.market) = .ok (some u) ∧
    Displayed answer u 2000 := by
  obtain ⟨init, sys, hi, hrun, hsupply, hdebt, hasked, hexact, hzero, ⟨answer, ha, -⟩, u, hu, -⟩ :
      ∃ init sys, sample = .ok init ∧ Run step Ordered init
        [sampleTx 0 "lender" 2000 .deposit, sampleTx 0 "bob" 0 (.borrow 20)] sys ∧
      sys.ctoken.totalSupplyBase = .ok (ε := Market.Error) 2000 ∧
      Debt.total sys.market.debt = .ok (20, sys.market.debt.info.multiplier) ∧
      (∃ util ∈ (utilisation 2000 20).toOption, sys.market.config.rates.calculateInterestRate util =
        .ok (ε := Market.Error) ⟨102_000_000_000_000_000⟩) ∧
      PeriodExact sys.market ⟨102_000_000_000_000_000⟩ ∧
      yearlyReserve sys.market 20 ⟨102_000_000_000_000_000⟩ = 0 ∧
      (∃ answer ∈ (Query.apy (sys.querier (sampleEnv 0)) sys.market).toOption, True) ∧
      ∃ u ∈ ((calculateInterest sys.market sys.ctoken
        (chargePeriods sys.market)).toOption).join, True :=
    exists_run_of_start (by decide +kernel)
  obtain ⟨util, hutil, hrate⟩ := hasked
  have hc : Curve sys.market (sys.querier (sampleEnv 0)).ctoken 2000 20
      ⟨102_000_000_000_000_000⟩ := ⟨hsupply, hdebt, util, toOption_eq_some.mp hutil, hrate⟩
  have ha := toOption_eq_some.mp ha
  have hu : calculateInterest sys.market sys.ctoken (chargePeriods sys.market) = .ok (some u) :=
    toOption_eq_some.mp (Option.join_eq_some_iff.mp hu)
  exact ⟨init, sys, answer, u, hi, hrun, ha, hu,
    (apy_displays_charged hc ha hu).2.1 hexact hzero⟩

/-- A loan of 1000 yields 200 tokens: eight percent are displayed to the lender, and more than
ten percent charged. And twenty percent a year are displayed to the borrower of a market that
charges every twenty million seconds, of which there is one in a year, and less charged. -/
theorem apy_displays_other : (∃ init sys answer u, sample = .ok init ∧
      Run step Ordered init
        [sampleTx 0 "lender" 2000 .deposit, sampleTx 0 "bob" 0 (.borrow 1000)] sys ∧
      sys.ctoken.totalSupplyBase = .ok (ε := Market.Error) 2000 ∧
      Query.apy (sys.querier (sampleEnv 0)) sys.market = .ok answer ∧
      calculateInterest sys.market sys.ctoken (chargePeriods sys.market) = .ok (some u) ∧
      answer.borrower = u.debtRatio ∧ ¬ Displayed answer u 2000) ∧
    ∃ init sys answer u,
      instantiate "agency" "market" "ctoken" 0
        { sampleMsg with interestChargePeriod := 20_000_000 } = .ok init ∧
      Run step Ordered init
        [sampleTx 0 "lender" 2000 .deposit, sampleTx 0 "bob" 0 (.borrow 1000)] sys ∧
      Query.apy (sys.querier (sampleEnv 0)) sys.market = .ok answer ∧
      calculateInterest sys.market sys.ctoken (chargePeriods sys.market) = .ok (some u) ∧
      ¬ answer.borrower = u.debtRatio := by
  constructor
  · obtain ⟨init, sys, hi, hrun, hsupply, answer, ha, u, hu, heq, hlarge⟩ : ∃ init sys,
        sample = .ok init ∧ Run step Ordered init
          [sampleTx 0 "lender" 2000 .deposit, sampleTx 0 "bob" 0 (.borrow 1000)] sys ∧
        sys.ctoken.totalSupplyBase = .ok (ε := Market.Error) 2000 ∧
        ∃ answer ∈ (Query.apy (sys.querier (sampleEnv 0)) sys.market).toOption,
        ∃ u ∈ ((calculateInterest sys.market sys.ctoken
          (chargePeriods sys.market)).toOption).join,
          answer.borrower = u.debtRatio ∧
          ¬ |fixed fractional answer.lender.atomics.val -
            fixed fractional u.ctokenRatio.atomics.val| ≤ tolerance 2000 answer.borrower :=
      exists_run_of_start (by decide +kernel)
    exact ⟨init, sys, answer, u, hi, hrun, hsupply, toOption_eq_some.mp ha,
      toOption_eq_some.mp (Option.join_eq_some_iff.mp hu), heq, fun hd => hlarge hd.lender⟩
  · obtain ⟨init, sys, hi, hrun, answer, ha, u, hu, hne⟩ : ∃ init sys,
        instantiate "agency" "market" "ctoken" 0
          { sampleMsg with interestChargePeriod := 20_000_000 } = .ok init ∧
        Run step Ordered init
          [sampleTx 0 "lender" 2000 .deposit, sampleTx 0 "bob" 0 (.borrow 1000)] sys ∧
        ∃ answer ∈ (Query.apy (sys.querier (sampleEnv 0)) sys.market).toOption,
        ∃ u ∈ ((calculateInterest sys.market sys.ctoken
          (chargePeriods sys.market)).toOption).join, ¬ answer.borrower = u.debtRatio :=
      exists_run_of_start (by decide +kernel)
    exact ⟨init, sys, answer, u, hi, hrun, toOption_eq_some.mp ha,
      toOption_eq_some.mp (Option.join_eq_some_iff.mp hu), hne⟩

end System

end WyndLend.Market
