import WyndLend.Market.Settlement
import WyndLend.Market.Books
import WyndLend.Rebasing.Compound

/-!
# Compounding

With a curve that does not depend on utilisation every charge multiplies the debt by a
truncated power of the same factor. However the elapsed periods are split into charges,
the multiplier stays within a few units of the exact power.
-/

namespace WyndLend

open CosmWasm Utils Rebasing

/-! ## Powers of decimals -/

namespace CosmWasm.Decimal

variable {ε : Type} [HasFault ε]

theorem powLoop_atomics {fuel n : ℕ} {x y x' y' : Decimal}
    (h : (powLoop fuel x y n : Except ε _) = .ok (x', y')) :
    Rebasing.powLoop fractional fuel x.atomics.val y.atomics.val n =
      (x'.atomics.val, y'.atomics.val) := by
  induction fuel generalizing x y n with
  | zero =>
    cases h
    rfl
  | succ fuel ih =>
    unfold powLoop at h
    unfold Rebasing.powLoop
    split_ifs at h ⊢ with h1 h2
    · cases h
      rfl
    · simp only [bind_eq_ok, mul_eq_ok] at h
      obtain ⟨xx, hxx, h⟩ := h
      have hsquare : toBase fractional x.atomics.val x.atomics.val = xx.atomics.val := hxx.symm
      rw [hsquare]
      exact ih h
    · simp only [bind_eq_ok, mul_eq_ok] at h
      obtain ⟨xy, hxy, xx, hxx, h⟩ := h
      have hodd : toBase fractional x.atomics.val y.atomics.val = xy.atomics.val := hxy.symm
      have hsquare : toBase fractional x.atomics.val x.atomics.val = xx.atomics.val := hxx.symm
      rw [hsquare, hodd]
      exact ih h

/-- `checked_pow` is the truncated power by squaring. -/
theorem checkedPow_atomics {d r : Decimal} {n : ℕ} (hn : n ≠ 0)
    (h : (d.checkedPow n : Except ε _) = .ok r) :
    r.atomics.val = power fractional 32 d.atomics.val n := by
  unfold checkedPow at h
  rw [if_neg hn] at h
  simp only [bind_eq_ok, mul_eq_ok] at h
  obtain ⟨⟨x, y⟩, hloop, hr⟩ := h
  have hatomics := powLoop_atomics hloop
  unfold power
  rw [atomics_one] at hatomics
  rw [hr, hatomics]
  rfl

end CosmWasm.Decimal

/-! ## Flat curves -/

namespace Utils

/-- The curve charges `base` at every utilisation. -/
def Interest.Flat (base : Decimal) : Interest → Prop
  | .linear b slope => b = base ∧ slope = Decimal.zero
  | .piecewiseLinear b slope1 slope2 _ =>
    b = base ∧ slope1 = Decimal.zero ∧ slope2 = Decimal.zero

instance (base : Decimal) : DecidablePred (Interest.Flat base) := fun i =>
  match i with
  | .linear _ _ => inferInstanceAs (Decidable (_ ∧ _))
  | .piecewiseLinear _ _ _ _ => inferInstanceAs (Decidable (_ ∧ _ ∧ _))

theorem Interest.Flat.rate {ε : Type} [HasFault ε] {i : ValidatedInterest} {base u r : Decimal}
    (hf : i.inner.Flat base) (h : i.calculateInterestRate u = .ok (ε := ε) r) : r = base := by
  obtain ⟨inner, valid⟩ := i
  have hzero : ∀ {a p : Decimal}, p.atomics.val = Decimal.zero.atomics.val * a.atomics.val /
      fractional → p.atomics.val = 0 := by
    intro a p hp
    rw [hp, Decimal.atomics_zero, Uint128.val_zero, Nat.zero_mul, Nat.zero_div]
  cases inner with
  | linear b slope =>
    obtain ⟨rfl, rfl⟩ := hf
    simp only [ValidatedInterest.calculateInterestRate, bind_eq_ok, Decimal.mul_eq_ok,
      Decimal.add_eq_ok] at h
    obtain ⟨p, hp, hr⟩ := h
    have := hzero hp
    exact Decimal.ext (Uint128.ext (by omega))
  | piecewiseLinear b slope1 slope2 optimal =>
    obtain ⟨rfl, rfl, rfl⟩ := hf
    simp only [ValidatedInterest.calculateInterestRate] at h
    split_ifs at h with hlow
    · simp only [bind_eq_ok, Decimal.mul_eq_ok, Decimal.add_eq_ok] at h
      obtain ⟨_, -, _, -, p, hp, hr⟩ := h
      have := hzero hp
      exact Decimal.ext (Uint128.ext (by omega))
    · simp only [bind_eq_ok, Decimal.mul_eq_ok, Decimal.add_eq_ok, Decimal.atomics_zero,
        Uint128.val_zero] at h
      obtain ⟨start, hstart, _, -, _, -, _, -, _, -, p, hp, hr⟩ := h
      have := hzero hp
      exact Decimal.ext (Uint128.ext (by omega))

end Utils

namespace Market.System

variable {env : Env} {info : MessageInfo} {msg : ExecuteMsg} {start sys sys' mid : System}
  {entered : List Addr} {tx : Tx} {txs : List Tx} {base : Decimal} {n k : ℕ}

/-! ## What a step does to the debt multiplier -/

/-- A step that charges nothing. -/
structure Uncharged (sys sys' : System) : Prop where
  charged : sys'.market.charged = sys.market.charged
  debt : sys'.market.debt.info.multiplier = sys.market.debt.info.multiplier

theorem outcome_charges {holdings : Holdings} (hh : holdings.ctoken = sys.ctoken)
    (h : Outcome env info { sys with toHoldings := holdings } msg sys' entered) :
    ChargesElapsed env sys sys' ∨ Uncharged sys sys' := by
  cases h with
  | deposit _ _ _ _ hs ha | withdraw _ _ _ hs ha | borrow _ _ hs ha | repay _ _ _ hs ha
  | repayTo _ _ _ _ _ _ hs ha | transferFrom _ _ hs _ _ _ ha =>
    exact .inl (charges_of_apply hh hs ha)
  | rates _ _ _ hs => exact .inl (charges_of_settle hh hs rfl rfl rfl)
  | adjust | send | swap => exact .inr ⟨rfl, rfl⟩

theorem step_charges (h : step tx sys = .ok sys') :
    ChargesElapsed tx.env sys sys' ∨ Uncharged sys sys' := by
  cases step_transition h with
  | executed _ executed =>
    obtain ⟨_, _, -, hcredit, hout⟩ := execute_outcome executed
    exact outcome_charges (Holdings.receive_eq_ok.mp hcredit).1 hout
  | ctoken | donated => exact .inr ⟨rfl, rfl⟩

/-- The factor by which one period multiplies debt, in atomics. -/
def periodGrowth (sys : System) (base : Decimal) : ℕ :=
  fractional + periodRate sys.market.config.interestChargePeriod base

/-- A flat curve multiplies the debt by a truncated power of one factor. -/
theorem debtRatio_flat {rate : Decimal} (hf : sys.market.config.rates.inner.Flat base)
    (h : debtRatio sys.market sys.ctoken n = .ok rate) (h0 : n ≠ 0) (hn : n < 2 ^ 32) :
    rate.atomics.val + fractional = power fractional 32 (periodGrowth sys base) n := by
  simp only [debtRatio, bind_eq_ok] at h
  obtain ⟨_, -, _, -, _, -, interest, hinterest, hrate⟩ := h
  obtain rfl := hf.rate hinterest
  obtain ⟨b, growth, hb, hpow, hr⟩ := compoundedInterestRate_spec hrate
  rw [Nat.mod_eq_of_lt hn] at hpow
  rw [hr, Decimal.checkedPow_atomics h0 hpow, hb]
  rfl

/-- On a flat curve a step charges nothing, or multiplies the debt by the power for the
periods that it charges. -/
theorem step_flat (hf : sys.market.config.rates.inner.Flat base)
    (hclaims : sys'.market.charged ≠ sys.market.charged → sys.claims ≠ 0)
    (h : step tx sys = .ok sys') :
    Uncharged sys sys' ∨ ∃ n, n ≠ 0 ∧ sys'.market.charged = sys.market.charged + n ∧
      (n < 2 ^ 32 → sys'.market.debt.info.multiplier.atomics.val =
        toBase fractional sys.market.debt.info.multiplier.atomics.val
          (power fractional 32 (periodGrowth sys base) n)) := by
  rcases step_charges h with ⟨n, u, -, hu, hcharged, hcase⟩ | huncharged
  · by_cases h0 : n = 0
    · subst h0
      cases hu
      exact .inl ⟨hcharged, hcase.1⟩
    · refine .inr ⟨n, h0, hcharged, fun hn => ?_⟩
      cases u with
      | none =>
        rcases calculateInterest_none hu with hzero | hnone
        · exact absurd hzero h0
        · exact absurd (totalSupplyBase_eq_ok.mp hnone).symm (hclaims (by omega))
      | some u =>
        obtain ⟨-, hrate, -⟩ := calculateInterest_spec hu
        rw [← debtRatio_flat hf hrate h0 hn]
        exact hcase.1
  · exact .inl huncharged

end Market.System

namespace Market

/-! ## Charges of a run -/

/-- A system with the number of charges that led to it. -/
structure Counted where
  sys : System
  charges : ℕ

namespace Counted

open Market.System

variable {start sys : System} {c c' : Counted} {tx : Tx} {txs : List Tx} {base : Decimal} {n k : ℕ}

/-- A transaction counts if it charges at least one period. -/
def step (tx : Tx) (c : Counted) : Except System.Error Counted := do
  let sys ← System.step tx c.sys
  return ⟨sys, if sys.market.charged = c.sys.market.charged then c.charges else c.charges + 1⟩

/-- The transaction succeeds and charges at least one period. -/
def Charges (tx : Tx) (sys : System) : Prop :=
  ∃ sys', System.step tx sys = .ok sys' ∧ sys'.market.charged ≠ sys.market.charged

instance (tx : Tx) (sys : System) : Decidable (Charges tx sys) :=
  match h : System.step tx sys with
  | .ok sys' => decidable_of_iff (sys'.market.charged ≠ sys.market.charged)
      ⟨fun hne => ⟨sys', h, hne⟩, fun ⟨_, h', hne⟩ => by cases h.symm.trans h'; exact hne⟩
  | .error _ => .isFalse fun ⟨_, h', _⟩ => by cases h.symm.trans h'

/-- The curve is flat, and there are ctokens whenever interest is charged. -/
def Flatly (base : Decimal) (c : Counted) (tx : Tx) : Prop :=
  c.sys.market.config.rates.inner.Flat base ∧ (Charges tx c.sys → c.sys.claims ≠ 0)

instance (base : Decimal) (c : Counted) (tx : Tx) : Decidable (Flatly base c tx) :=
  inferInstanceAs (Decidable (_ ∧ (_ → _)))

/-- What a run of charges keeps: the multiplier has grown over the charged periods. -/
structure Compounded (start : System) (base : Decimal) (c : Counted) : Prop where
  period : c.sys.market.config.interestChargePeriod =
    start.market.config.interestChargePeriod
  le : start.market.charged ≤ c.sys.market.charged
  grown : c.sys.market.charged - start.market.charged < 2 ^ 32 →
    Grown fractional start.market.debt.info.multiplier.atomics.val (periodGrowth start base)
      (c.sys.market.charged - start.market.charged) c.charges
      c.sys.market.debt.info.multiplier.atomics.val

theorem step_compounded (hi : Compounded start base c) (hg : Flatly base c tx)
    (h : step tx c = .ok c') : Compounded start base c' := by
  obtain ⟨sys, k⟩ := c
  simp only [step, bind_eq_ok, pure_eq_ok] at h
  obtain ⟨sys', hs, rfl⟩ := h
  have hperiod := (step_ticks hs).period
  obtain ⟨hp, hle, hgrown⟩ := hi
  dsimp only at hp hle hgrown
  have hflat : sys.market.config.rates.inner.Flat base := hg.1
  rcases step_flat hflat (fun hne => hg.2 ⟨sys', hs, hne⟩) hs with
    ⟨hcharged, hdebt⟩ | ⟨n, h0, hcharged, hdebt⟩
  · refine ⟨hperiod.trans hp, by rw [hcharged]; exact hle, ?_⟩
    simp only [if_pos hcharged]
    rw [hcharged, hdebt]
    exact hgrown
  · have hne : sys'.market.charged ≠ sys.market.charged := by omega
    refine ⟨hperiod.trans hp, by dsimp only; omega, fun hlt => ?_⟩
    dsimp only at hlt
    have hsame : periodGrowth sys base = periodGrowth start base := by
      unfold periodGrowth
      rw [hp]
    have hgrowth : fractional ≤ periodGrowth start base := Nat.le_add_right _ _
    have hpos : 0 < n := Nat.pos_of_ne_zero h0
    have hstep := (hgrown (by omega)).step fractional_pos hgrowth
      (power_le fractional_pos 32 hgrowth hpos (by omega))
      (le_power fractional_pos 32 hgrowth hpos (by omega))
    have hdiff : sys'.market.charged - start.market.charged =
        sys.market.charged - start.market.charged + n := by omega
    simp only [if_neg hne]
    rw [hdiff, hdebt (by omega), hsame]
    exact hstep

/-- The exact multiplier after `n` periods. -/
def exactMultiplier (start : System) (base : Decimal) (n : ℕ) : ℚ :=
  fixed fractional start.market.debt.info.multiplier.atomics.val *
    (1 + fixed fractional (periodRate start.market.config.interestChargePeriod base)) ^ n

/-- How far below it `k` charges may end. -/
def shortfall (start : System) (base : Decimal) (n k : ℕ) : ℚ :=
  (2 * n * fixed fractional start.market.debt.info.multiplier.atomics.val + k) *
    (1 + fixed fractional (periodRate start.market.config.interestChargePeriod base)) ^ n *
      (1 / fractional)

theorem run_within (h : Run step (Flatly base) ⟨start, 0⟩ txs ⟨sys, k⟩)
    (hn : sys.market.charged = start.market.charged + n) (hlt : n < 2 ^ 32) :
    exactMultiplier start base n - shortfall start base n k ≤
        fixed fractional sys.market.debt.info.multiplier.atomics.val ∧
      fixed fractional sys.market.debt.info.multiplier.atomics.val ≤
        exactMultiplier start base n := by
  have hinit : Compounded start base ⟨start, 0⟩ := by
    refine ⟨rfl, le_refl _, fun _ => ?_⟩
    rw [Nat.sub_self]
    exact Grown.start _ _ _
  have hrun := h.invariant hinit fun _ _ _ hu hg hs => step_compounded hu hg hs
  have hdiff : sys.market.charged - start.market.charged = n := by omega
  have hgrown := hrun.grown (by dsimp only; omega)
  dsimp only at hgrown
  rw [hdiff] at hgrown
  have hfactor : fixed fractional (periodGrowth start base) =
      1 + fixed fractional (periodRate start.market.config.interestChargePeriod base) := by
    rw [← fixed_self fractional_pos]
    unfold fixed periodGrowth
    push_cast
    ring
  have hwithin := hgrown.within fractional_pos
  have hle := hgrown.le
  rw [hfactor] at hwithin hle
  refine ⟨le_trans ?_ hwithin, hle⟩
  have hm := fixed_nonneg fractional start.market.debt.info.multiplier.atomics.val
  have hs := fixed_nonneg fractional (periodRate start.market.config.interestChargePeriod base)
  unfold exactMultiplier shortfall
  gcongr
  have hnonneg : (0 : ℚ) ≤ n * fixed fractional
    start.market.debt.info.multiplier.atomics.val := by positivity
  linarith

/-- However `n` charge periods of a flat curve are split into charges, `k` charges leave the
debt multiplier below its exact value, by no more than the shortfall; so two ways of charging
them differ by no more than that. -/
theorem multiplier_within_of_flat (h : Run step (Flatly base) ⟨start, 0⟩ txs ⟨sys, k⟩)
    (hn : sys.market.charged = start.market.charged + n) (hlt : n < 2 ^ 32) :
    (exactMultiplier start base n - shortfall start base n k ≤
        fixed fractional sys.market.debt.info.multiplier.atomics.val ∧
      fixed fractional sys.market.debt.info.multiplier.atomics.val ≤
        exactMultiplier start base n) ∧
    ∀ (txs' : List Tx) (sys' : System) (k' : ℕ),
      Run step (Flatly base) ⟨start, 0⟩ txs' ⟨sys', k'⟩ →
      sys'.market.charged = start.market.charged + n →
      |fixed fractional sys'.market.debt.info.multiplier.atomics.val -
          fixed fractional sys.market.debt.info.multiplier.atomics.val| ≤
        shortfall start base n (max k k') := by
  refine ⟨run_within h hn hlt, fun txs' sys' k' h' hn' => ?_⟩
  obtain ⟨hlow, hup⟩ := run_within h hn hlt
  obtain ⟨hlow', hup'⟩ := run_within h' hn' hlt
  have hmono : ∀ {i j : ℕ}, i ≤ j → shortfall start base n i ≤ shortfall start base n j := by
    intro i j hij
    have hs := fixed_nonneg fractional (periodRate start.market.config.interestChargePeriod base)
    unfold shortfall
    gcongr
  have hk := hmono (le_max_left k k')
  have hk' := hmono (le_max_right k k')
  rw [abs_le]
  constructor
  · linarith
  · linarith

/-! ## Three years in two and in three charges -/

/-- The sample market with a tenth of interest at every utilisation. -/
def flatSample : Except System.Error System :=
  System.instantiate "agency" "market" "ctoken" 0
    { sampleMsg with interestRate := .linear ⟨100_000_000_000_000_000⟩ Decimal.zero }

/-- A loan, and three years in which Bob repays at the end of the given years. -/
def loanTxs (years : List ℕ) : List Tx :=
  [sampleTx 0 "lender" 2000 .deposit, sampleTx 0 "bob" 0 (.borrow 1000)] ++
    years.map fun year => sampleTx (31_536_000 * year) "bob" 100 .repay

theorem multiplier_within_of_flat_example : ∃ init sys sys', flatSample = .ok init ∧
    Run step (Flatly ⟨100_000_000_000_000_000⟩) ⟨init, 0⟩ (loanTxs [1, 3]) ⟨sys, 2⟩ ∧
    Run step (Flatly ⟨100_000_000_000_000_000⟩) ⟨init, 0⟩ (loanTxs [1, 2, 3]) ⟨sys', 3⟩ ∧
    |fixed fractional sys'.market.debt.info.multiplier.atomics.val -
        fixed fractional sys.market.debt.info.multiplier.atomics.val| ≤
      shortfall init ⟨100_000_000_000_000_000⟩ 3 (max 2 3) := by
  have hrun : ∀ years charges, flatSample.toOption.any (fun init =>
        (runAll step (Flatly ⟨100_000_000_000_000_000⟩) (loanTxs years) ⟨init, 0⟩).any fun c =>
          decide (c.charges = charges ∧ c.sys.market.charged = init.market.charged + 3)) = true →
      ∃ init sys, flatSample = .ok init ∧
        Run step (Flatly ⟨100_000_000_000_000_000⟩) ⟨init, 0⟩ (loanTxs years) ⟨sys, charges⟩ ∧
        sys.market.charged = init.market.charged + 3 := by
    intro years charges h
    cases hinit : flatSample with
    | error e => rw [hinit] at h; cases h
    | ok init =>
      rw [hinit] at h
      obtain ⟨⟨sys, k⟩, hr, rfl, hcharged⟩ := exists_run_of_runAll h
      exact ⟨init, sys, rfl, hr, hcharged⟩
  obtain ⟨init, sys, hi, h, hn⟩ := hrun [1, 3] 2 (by decide)
  obtain ⟨init', sys', hi', h', hn'⟩ := hrun [1, 2, 3] 3 (by decide)
  cases hi.symm.trans hi'
  exact ⟨init, sys, sys', hi, h, h',
    (multiplier_within_of_flat h hn (by decide)).2 _ sys' 3 h' hn'⟩

end Counted

end Market

end WyndLend
