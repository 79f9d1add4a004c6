import WyndLend.Rebasing.Conversion
import WyndLend.Utils.Interest

/-!
# The shape of an interest curve

`Interest.rate` is the rate that `calculate_interest_rate` computes unless a decimal
overflows: base and slopes, weighted with shares that are truncated on the way. It never
falls when utilisation rises, and meets its corners up to truncation.
-/

namespace WyndLend.Utils

open CosmWasm Rebasing

namespace Interest

/-- What is charged at 0% utilisation. -/
def base : Interest → Decimal
  | .linear base _ => base
  | .piecewiseLinear base _ _ _ => base

/-- The rate in atomics at a utilisation in atomics. -/
def rate : Interest → ℕ → ℕ
  | .linear base slope, u => base.atomics.val + toBase fractional slope.atomics.val u
  | .piecewiseLinear base slope1 slope2 optimal, u =>
    if u < optimal.atomics.val then
      base.atomics.val +
        toBase fractional slope1.atomics.val (share fractional u optimal.atomics.val)
    else base.atomics.val + slope1.atomics.val + toBase fractional slope2.atomics.val
      (share fractional (u - optimal.atomics.val) (fractional - optimal.atomics.val))

/-- The maximum rate, in atomics: base and all slopes. -/
def maximum : Interest → ℕ
  | .linear base slope => base.atomics.val + slope.atomics.val
  | .piecewiseLinear base slope1 slope2 _ =>
    base.atomics.val + slope1.atomics.val + slope2.atomics.val

/-- By how much the rate may miss the maximum at full utilisation. -/
def miss : Interest → ℚ
  | .linear _ _ => 0
  | .piecewiseLinear _ _ slope2 _ => (slope2.atomics.val / fractional + 1) / 10 ^ 18

variable {i : Interest} {u u' : ℕ}

theorem rate_zero (hv : i.Valid) : i.rate 0 = i.base.atomics.val := by
  cases i with
  | linear base slope => simp [rate, Interest.base]
  | piecewiseLinear base slope1 slope2 optimal =>
    have hpos : 0 < optimal.atomics.val :=
      Uint128.val_pos.mpr fun h => hv.1 (Decimal.ext h)
    simp [rate, Interest.base, hpos]

/-- Below the breakpoint the rate is at most the one at the breakpoint. -/
theorem rate_mono (h : u ≤ u') : i.rate u ≤ i.rate u' := by
  cases i with
  | linear base slope => exact Nat.add_le_add_left (toBase_le_toBase le_rfl h) _
  | piecewiseLinear base slope1 slope2 optimal =>
    simp only [rate]
    split_ifs with hlow hlow'
    · exact Nat.add_le_add_left (toBase_le_toBase le_rfl (share_mono h _)) _
    · have hfirst : toBase fractional slope1.atomics.val
          (share fractional u optimal.atomics.val) ≤ slope1.atomics.val :=
        toBase_le_self (share_le hlow.le)
      omega
    · omega
    · exact Nat.add_le_add_left
        (toBase_le_toBase le_rfl (share_mono (Nat.sub_le_sub_right h _) _)) _

theorem rate_le_maximum (h : u ≤ fractional) : i.rate u ≤ i.maximum := by
  cases i with
  | linear base slope => exact Nat.add_le_add_left (toBase_le_self h) _
  | piecewiseLinear base slope1 slope2 optimal =>
    simp only [rate, maximum]
    split_ifs with hlow
    · have hfirst : toBase fractional slope1.atomics.val
          (share fractional u optimal.atomics.val) ≤ slope1.atomics.val :=
        toBase_le_self (share_le hlow.le)
      omega
    · exact Nat.add_le_add_left (toBase_le_self (share_le (Nat.sub_le_sub_right h _))) _

/-- At full utilisation the second share is one unit short of one at most. -/
theorem maximum_sub_rate_le (hv : i.Valid) :
    ((i.maximum : ℚ) - i.rate fractional) / fractional ≤ i.miss := by
  cases i with
  | linear base slope =>
    have hfull : toBase fractional slope.atomics.val fractional = slope.atomics.val :=
      Nat.mul_div_cancel _ fractional_pos
    simp [maximum, rate, miss, hfull]
  | piecewiseLinear base slope1 slope2 optimal =>
    have hlt : optimal.atomics.val < fractional := Decimal.lt_def.mp hv.2
    have hshort := le_share_self (Nat.sub_pos_of_lt hlt) (Nat.sub_le _ _)
    have hlost := lt_toBase_add_share (p := slope2.atomics.val) fractional_pos hshort
    simp only [maximum, rate, miss, if_neg (not_lt.mpr hlt.le)]
    push_cast
    rw [show (10 : ℚ) ^ 18 = fractional by norm_num [fractional]]
    gcongr
    linarith

end Interest

namespace ValidatedInterest

variable {ε : Type} [HasFault ε] {v : ValidatedInterest} {u r : Decimal}

theorem inv_eq_some {d x : Decimal} (hd : d.atomics ≠ 0) :
    d.inv = some x ↔ x.atomics.val = inverse fractional d.atomics.val := by
  unfold Decimal.inv
  rw [dif_neg hd, Option.some.injEq, Decimal.ext_iff, Uint128.ext_iff]
  exact eq_comm

theorem exists_inv {d : Decimal} (hd : d.atomics ≠ 0) : ∃ x, d.inv = some x := by
  unfold Decimal.inv
  rw [dif_neg hd]
  exact ⟨_, rfl⟩

/-- Some utilisation is left above the breakpoint. -/
theorem rest_ne_zero {optimal rest : Decimal} (hlt : optimal < Decimal.one)
    (h : rest.atomics.val + optimal.atomics.val = fractional) : rest.atomics ≠ 0 := by
  rw [Decimal.lt_def, Decimal.atomics_one] at hlt
  rw [ne_eq, ← Uint128.val_eq_zero]
  omega

/-! ## One piece -/

/-- The slope, weighted with how much of the range was used, on top of the start. -/
def piece (start slope used range : Decimal) : Except ε Decimal := do
  let inverse ← okOr range.inv (HasFault.fault .unwrap)
  start.add (← slope.mul (← used.mul inverse))

variable {start slope used range : Decimal}

theorem piece_val (hne : range.atomics ≠ 0) (h : piece start slope used range = .ok (ε := ε) r) :
    r.atomics.val = start.atomics.val + toBase fractional slope.atomics.val
      (share fractional used.atomics.val range.atomics.val) := by
  simp only [piece, bind_eq_ok, okOr_eq_ok, Decimal.mul_eq_ok, Decimal.add_eq_ok,
    inv_eq_some hne] at h
  obtain ⟨x, hx, q, hq, p, hp, hr⟩ := h
  rw [hr, hp, hq, hx]
  rfl

theorem exists_piece (hne : range.atomics ≠ 0) (hused : used ≤ range)
    (hfits : start.atomics.val + toBase fractional slope.atomics.val
      (share fractional used.atomics.val range.atomics.val) < 2 ^ 128) :
    ∃ r, piece start slope used range = .ok (ε := ε) r := by
  have hone : fractional < 2 ^ 128 := by decide
  have hshare : share fractional used.atomics.val range.atomics.val < 2 ^ 128 :=
    (share_le (Decimal.le_def.mp hused)).trans_lt hone
  obtain ⟨x, hx⟩ := exists_inv hne
  obtain ⟨q, hq⟩ := Decimal.exists_val hshare
  obtain ⟨p, hp⟩ := Decimal.exists_val (Nat.lt_of_le_of_lt (Nat.le_add_left _ _) hfits)
  obtain ⟨r, hr⟩ := Decimal.exists_val hfits
  refine ⟨r, ?_⟩
  simp only [piece, bind_eq_ok, okOr_eq_ok, Decimal.mul_eq_ok, Decimal.add_eq_ok]
  refine ⟨x, hx, q, ?_, p, ?_, by rw [hr, hp]⟩
  · rw [hq, (inv_eq_some hne).mp hx]
    rfl
  · rw [hp, hq]
    rfl

theorem piece_onlyOverflows (hne : range.atomics ≠ 0) :
    OnlyOverflows (piece start slope used range : Except ε Decimal) := by
  obtain ⟨x, hx⟩ := exists_inv hne
  unfold piece
  rw [hx]
  refine onlyOverflows_bind (onlyOverflows_ok x) fun _ _ => ?_
  refine onlyOverflows_bind (Decimal.mul_onlyOverflows _ _) fun _ _ => ?_
  refine onlyOverflows_bind (Decimal.mul_onlyOverflows _ _) fun _ _ => ?_
  exact Decimal.add_onlyOverflows _ _

theorem calculateInterestRate_piecewise {base slope1 slope2 optimal : Decimal}
    (valid : (Interest.piecewiseLinear base slope1 slope2 optimal).Valid) :
    calculateInterestRate ⟨_, valid⟩ u = (if u < optimal then piece base slope1 u optimal
      else do
        let start ← base.add slope1
        let excess ← u.sub optimal
        let rest ← Decimal.one.sub optimal
        piece start slope2 excess rest : Except ε Decimal) :=
  rfl

/-! ## The curve -/

/-- A result is the rate. -/
theorem calculateInterestRate_rate
    (h : v.calculateInterestRate u = .ok (ε := ε) r) :
    r.atomics.val = v.inner.rate u.atomics.val := by
  obtain ⟨inner, valid⟩ := v
  cases inner with
  | linear base slope =>
    simp only [calculateInterestRate, bind_eq_ok, Decimal.mul_eq_ok, Decimal.add_eq_ok] at h
    obtain ⟨p, hp, hr⟩ := h
    rw [hr, hp]
    rfl
  | piecewiseLinear base slope1 slope2 optimal =>
    have hpos : optimal.atomics ≠ 0 := fun h => valid.1 (Decimal.ext h)
    rw [calculateInterestRate_piecewise] at h
    simp only [Interest.rate]
    split_ifs at h with hlow
    · rw [if_pos (Decimal.lt_def.mp hlow), piece_val hpos h]
    · simp only [bind_eq_ok, Decimal.add_eq_ok, Decimal.sub_eq_ok, Decimal.atomics_one] at h
      obtain ⟨start, hstart, excess, hexcess, rest, hrest, h⟩ := h
      have hrest' : rest.atomics.val = fractional - optimal.atomics.val := by omega
      have hexcess' : excess.atomics.val = u.atomics.val - optimal.atomics.val := by omega
      rw [if_neg (mt Decimal.lt_def.mpr hlow), piece_val (rest_ne_zero valid.2 hrest) h, hrest',
        hexcess', hstart]

/-- Up to full utilisation there is a result as long as the rate fits. -/
theorem exists_calculateInterestRate (hu : u ≤ Decimal.one)
    (hfits : v.inner.rate u.atomics.val < 2 ^ 128) :
    ∃ r, v.calculateInterestRate u = .ok (ε := ε) r := by
  obtain ⟨inner, valid⟩ := v
  cases inner with
  | linear base slope =>
    simp only [Interest.rate] at hfits
    obtain ⟨p, hp⟩ := Decimal.exists_val (Nat.lt_of_le_of_lt (Nat.le_add_left _ _) hfits)
    obtain ⟨r, hr⟩ := Decimal.exists_val hfits
    refine ⟨r, ?_⟩
    simp only [calculateInterestRate, bind_eq_ok, Decimal.mul_eq_ok, Decimal.add_eq_ok]
    exact ⟨p, hp, by rw [hr, hp]⟩
  | piecewiseLinear base slope1 slope2 optimal =>
    have hpos : optimal.atomics ≠ 0 := fun h => valid.1 (Decimal.ext h)
    simp only [Interest.rate] at hfits
    rw [calculateInterestRate_piecewise]
    split_ifs at hfits with hlow
    · rw [if_pos (Decimal.lt_def.mpr hlow)]
      exact exists_piece hpos (Decimal.le_def.mpr hlow.le) hfits
    · rw [if_neg (mt Decimal.lt_def.mp hlow)]
      have hlt : optimal.atomics.val < fractional := Decimal.lt_def.mp valid.2
      have hone : fractional < 2 ^ 128 := by decide
      rw [Decimal.le_def, Decimal.atomics_one] at hu
      obtain ⟨start, hstart⟩ := Decimal.exists_val (Nat.lt_of_le_of_lt (Nat.le_add_right _ _) hfits)
      obtain ⟨excess, hexcess⟩ := Decimal.exists_val (n := u.atomics.val - optimal.atomics.val)
        (by omega)
      obtain ⟨rest, hrest⟩ := Decimal.exists_val (n := fractional - optimal.atomics.val)
        (by omega)
      have hne := rest_ne_zero valid.2 (by omega : rest.atomics.val + _ = _)
      have hexcess_le : excess ≤ rest := Decimal.le_def.mpr (by omega)
      rw [← hexcess, ← hrest, ← hstart] at hfits
      obtain ⟨r, hr⟩ := exists_piece (ε := ε) hne hexcess_le hfits
      refine ⟨r, ?_⟩
      simp only [bind_eq_ok, Decimal.add_eq_ok, Decimal.sub_eq_ok, Decimal.atomics_one]
      exact ⟨start, hstart, excess, by omega, rest, by omega, hr⟩

/-- The only way to fail is an overflow: no reciprocal of zero is unwrapped. -/
theorem calculateInterestRate_onlyOverflows (v : ValidatedInterest) (u : Decimal) :
    OnlyOverflows (v.calculateInterestRate u : Except ε Decimal) := by
  obtain ⟨inner, valid⟩ := v
  cases inner with
  | linear base slope =>
    exact onlyOverflows_bind (Decimal.mul_onlyOverflows _ _) fun _ _ =>
      Decimal.add_onlyOverflows _ _
  | piecewiseLinear base slope1 slope2 optimal =>
    rw [calculateInterestRate_piecewise]
    split_ifs with hlow
    · exact piece_onlyOverflows fun h => valid.1 (Decimal.ext h)
    · refine onlyOverflows_bind (Decimal.add_onlyOverflows _ _) fun _ _ => ?_
      refine onlyOverflows_bind (Decimal.sub_onlyOverflows _ _) fun _ _ => ?_
      refine onlyOverflows_bind (Decimal.sub_onlyOverflows _ _) fun rest hrest => ?_
      exact piece_onlyOverflows (rest_ne_zero valid.2 (Decimal.sub_eq_ok.mp hrest))

end ValidatedInterest

/-- An accepted curve never unwraps the reciprocal of zero, and up to full utilisation it
has a rate unless the maximum overflows. The rate never falls when utilisation rises, starts
at the base, passes through base and first slope at the breakpoint, and stays within the
maximum, which it misses by at most a unit of the second slope and one of its own. -/
theorem interest_curve {ε : Type} [HasFault ε] {i : Interest} {v : ValidatedInterest}
    (h : i.validate = .ok v) :
    (∀ u, (v.calculateInterestRate u : Except Fault Decimal) ≠ .error .unwrap) ∧
    (∀ u, OnlyOverflows (v.calculateInterestRate u : Except ε Decimal)) ∧
    (i.maximum < 2 ^ 128 → ∀ u ≤ Decimal.one, ∃ r, v.calculateInterestRate u = .ok (ε := ε) r) ∧
    (∀ u u' r r', u ≤ u' → v.calculateInterestRate u = .ok (ε := ε) r →
      v.calculateInterestRate u' = .ok (ε := ε) r' → r ≤ r') ∧
    v.calculateInterestRate Decimal.zero = .ok (ε := ε) i.base ∧
    (∀ base slope1 slope2 optimal, i = .piecewiseLinear base slope1 slope2 optimal → ∀ r,
      v.calculateInterestRate optimal = .ok (ε := ε) r ↔ base.add slope1 = .ok (ε := ε) r) ∧
    (∀ u ≤ Decimal.one, ∀ r, v.calculateInterestRate u = .ok (ε := ε) r →
      r.atomics.val ≤ i.maximum) ∧
    ∀ r, v.calculateInterestRate Decimal.one = .ok (ε := ε) r →
      ((i.maximum : ℚ) - r.atomics.val) / fractional ≤ i.miss := by
  obtain rfl := Interest.validate_eq_ok.mp h
  refine ⟨fun u hu => ?_, fun u => v.calculateInterestRate_onlyOverflows u, ?_, ?_, ?_, ?_, ?_, ?_⟩
  · cases v.calculateInterestRate_onlyOverflows u _ hu
  · intro hmax u hu
    exact v.exists_calculateInterestRate hu ((Interest.rate_le_maximum hu).trans_lt hmax)
  · intro u u' r r' hle hr hr'
    rw [Decimal.le_def, v.calculateInterestRate_rate hr, v.calculateInterestRate_rate hr']
    exact Interest.rate_mono hle
  · have hzero := Interest.rate_zero v.valid
    obtain ⟨r, hr⟩ := v.exists_calculateInterestRate (ε := ε) (u := Decimal.zero)
      (Nat.zero_le _) (hzero.trans_lt v.inner.base.atomics.isLt)
    have hrate := (v.calculateInterestRate_rate hr).trans hzero
    rw [hr, Decimal.ext (Uint128.ext hrate)]
  · intro base slope1 slope2 optimal hi r
    have hcorner : v.inner.rate optimal.atomics.val = base.atomics.val + slope1.atomics.val := by
      simp [hi, Interest.rate]
    have hle : optimal ≤ Decimal.one := by
      have hvalid := v.valid
      rw [hi] at hvalid
      exact hvalid.2.le
    rw [Decimal.add_eq_ok, ← hcorner]
    constructor
    · exact v.calculateInterestRate_rate
    · intro hr
      obtain ⟨r', hr'⟩ := v.exists_calculateInterestRate (ε := ε) hle
        (hr.symm.trans_lt r.atomics.isLt)
      rw [hr', Decimal.ext (Uint128.ext (hr.trans (v.calculateInterestRate_rate hr').symm))]
  · intro u hu r hr
    rw [v.calculateInterestRate_rate hr]
    exact Interest.rate_le_maximum hu
  · intro r hr
    rw [v.calculateInterestRate_rate hr]
    exact Interest.maximum_sub_rate_le v.valid

/-- A curve whose breakpoint at 40% has no exact reciprocal of the rest. -/
def sampleCurve : Interest :=
  .piecewiseLinear ⟨100_000_000_000_000_000⟩ ⟨100_000_000_000_000_000⟩ Decimal.one
    ⟨400_000_000_000_000_000⟩

/-- It starts at 10% and ends one unit below 120%. -/
theorem interest_curve_example : ∃ v r, sampleCurve.validate = .ok v ∧
    v.calculateInterestRate Decimal.zero = .ok (ε := Fault) ⟨100_000_000_000_000_000⟩ ∧
    v.calculateInterestRate Decimal.one = .ok (ε := Fault) r ∧
    r.atomics = 1_199_999_999_999_999_999 ∧
    ((sampleCurve.maximum : ℚ) - r.atomics.val) / fractional ≤ sampleCurve.miss := by
  obtain ⟨v, hv, r, hr, hlast⟩ : ∃ v, sampleCurve.validate = .ok v ∧
      ∃ r, v.calculateInterestRate Decimal.one = .ok (ε := Fault) r ∧
        r.atomics = 1_199_999_999_999_999_999 := by
    refine ⟨⟨sampleCurve, by decide⟩, Interest.validate_eq_ok.mpr rfl, ?_⟩
    exact exists_ok_of_any (by decide +kernel)
  obtain ⟨-, -, -, -, hzero, -, -, hmiss⟩ := interest_curve (ε := Fault) hv
  exact ⟨v, r, hv, hzero, hr, hlast, hmiss r hr⟩

end WyndLend.Utils
