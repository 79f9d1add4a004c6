import Mathlib.Algebra.Order.Floor.Semifield
import Mathlib.Data.Nat.Cast.Order.Field
import Mathlib.Data.Rat.Floor
import Mathlib.Tactic.FieldSimp
import Mathlib.Tactic.GCongr
import Mathlib.Tactic.Linarith
import Mathlib.Tactic.Positivity
import Mathlib.Tactic.Ring

/-!
# Fixed-point conversions

A rebasing ledger counts points and keeps one multiplier, in units of `1 / scale`.
Points are worth `value` exactly; the conversions truncate, and the lemmas below
say by how much each of them misses the exact value.
-/

namespace Rebasing

variable {scale : ℕ}

/-- The exact worth of a number of points. -/
def value (scale points multiplier : ℕ) : ℚ := points * multiplier / scale

def toBase (scale points multiplier : ℕ) : ℕ := points * multiplier / scale

def toPoints (scale base multiplier : ℕ) : ℕ := base * scale / multiplier

/-- A multiplier after growing by `ratio`, itself in units of `1 / scale`. -/
def grow (scale multiplier ratio : ℕ) : ℕ := multiplier * (ratio + scale) / scale

/-! ## Truncated division -/

theorem cast_div_le (n d : ℕ) : ((n / d : ℕ) : ℚ) ≤ n / d := Nat.cast_div_le

theorem lt_cast_div_add_one (n d : ℕ) : (n : ℚ) / d < (n / d : ℕ) + 1 := by
  rw [← Nat.floor_div_eq_div (K := ℚ)]
  exact Nat.lt_floor_add_one _

/-- A quotient by `d`, weighted by `w / s`: it exceeds the dividend only if the weight
exceeds `d` and the remainder does not make up for it. -/
theorem div_mul_le_mul_iff {n d w s : ℕ} :
    n / d * w ≤ n * s ↔ w ≤ d * s ∨ n / d * (w - d * s) ≤ n % d * s := by
  have hn : n * s = n / d * (d * s) + n % d * s := by
    rw [← Nat.mul_assoc, ← Nat.add_mul, Nat.div_add_mod']
  rw [hn]
  by_cases hw : w ≤ d * s
  · have hle := Nat.mul_le_mul_left (n / d) hw
    exact iff_of_true (by omega) (.inl hw)
  · obtain ⟨e, rfl⟩ : ∃ e, w = d * s + e := ⟨w - d * s, by omega⟩
    rw [Nat.add_sub_cancel_left, Nat.mul_add, or_iff_right hw]
    omega

/-! ## Exact values -/

theorem value_nonneg (scale points multiplier : ℕ) : 0 ≤ value scale points multiplier := by
  unfold value
  positivity

theorem value_add (p p' m : ℕ) : value scale (p + p') m = value scale p m + value scale p' m := by
  unfold value
  push_cast
  ring

theorem value_sub {p p' : ℕ} (h : p' ≤ p) (m : ℕ) :
    value scale (p - p') m = value scale p m - value scale p' m := by
  unfold value
  push_cast [h]
  ring

theorem value_mono {p p' : ℕ} (h : p ≤ p') (m : ℕ) : value scale p m ≤ value scale p' m := by
  unfold value
  gcongr

/-! ## Points to base -/

theorem toBase_le_value (scale p m : ℕ) : (toBase scale p m : ℚ) ≤ value scale p m := by
  have h := cast_div_le (p * m) scale
  push_cast at h
  exact h

theorem value_lt_toBase_add_one (scale p m : ℕ) : value scale p m < toBase scale p m + 1 := by
  have h := lt_cast_div_add_one (p * m) scale
  push_cast at h
  exact h

/-- An integer below the exact value is below the truncated one. -/
theorem le_toBase {n p m : ℕ} (h : (n : ℚ) ≤ value scale p m) : n ≤ toBase scale p m := by
  have := h.trans_lt (value_lt_toBase_add_one scale p m)
  exact_mod_cast Nat.lt_succ_iff.mp (by exact_mod_cast this)

theorem toBase_lt {n p m : ℕ} (h : value scale p m < n) : toBase scale p m < n := by
  exact_mod_cast (toBase_le_value scale p m).trans_lt h

theorem toBase_le_iff {n p m : ℕ} : toBase scale p m ≤ n ↔ value scale p m < n + 1 := by
  constructor
  · intro h
    have hcast : (toBase scale p m : ℚ) ≤ n := by exact_mod_cast h
    linarith [value_lt_toBase_add_one scale p m]
  · intro h
    exact Nat.lt_succ_iff.mp (toBase_lt (by push_cast; exact h))

theorem toBase_mono {p p' : ℕ} (h : p ≤ p') (m : ℕ) : toBase scale p m ≤ toBase scale p' m :=
  Nat.div_le_div_right (Nat.mul_le_mul_right m h)

theorem toBase_le_toBase {p p' m m' : ℕ} (hp : p ≤ p') (hm : m ≤ m') :
    toBase scale p m ≤ toBase scale p' m' :=
  Nat.div_le_div_right (Nat.mul_le_mul hp hm)

/-- Points that are converted together are worth no less than apart. -/
theorem toBase_add_le (scale p p' m : ℕ) :
    toBase scale p m + toBase scale p' m ≤ toBase scale (p + p') m := by
  unfold toBase
  rw [Nat.add_mul]
  exact Nat.div_add_div_le_add_div

/-- Nor are they worth more than one unit more. -/
theorem toBase_add_le_add_one (scale p p' m : ℕ) :
    toBase scale (p + p') m ≤ toBase scale p m + toBase scale p' m + 1 := by
  refine Nat.lt_succ_iff.mp (toBase_lt ?_)
  have h := value_lt_toBase_add_one scale p m
  have h' := value_lt_toBase_add_one scale p' m
  rw [value_add]
  push_cast
  linarith

/-- With a weight of at most one, what is converted twice loses at most two units more. -/
theorem weighted_add_le {r : ℕ} (hs : 0 < scale) (hr : r ≤ scale) (a b m : ℕ) :
    toBase scale (toBase scale (a + b) m) r ≤
      toBase scale (toBase scale a m) r + toBase scale (toBase scale b m) r + 2 := by
  refine (toBase_mono (toBase_add_le_add_one scale a b m) r).trans ?_
  refine Nat.lt_succ_iff.mp (toBase_lt ?_)
  have h := value_lt_toBase_add_one scale (toBase scale a m) r
  have h' := value_lt_toBase_add_one scale (toBase scale b m) r
  have hone : value scale 1 r ≤ 1 := by
    unfold value
    rw [Nat.cast_one, one_mul, div_le_one (by exact_mod_cast hs)]
    exact_mod_cast hr
  rw [value_add, value_add]
  push_cast
  linarith

/-- More points by `d` are more base tokens by at most their worth and one. -/
theorem toBase_lt_add {a b : ℕ} {d : ℚ} (h : (a : ℚ) ≤ b + d) (m : ℕ) :
    (toBase scale a m : ℚ) < toBase scale b m + 1 + d * (m / scale) := by
  have ha := toBase_le_value scale a m
  have hb := value_lt_toBase_add_one scale b m
  have hab : value scale a m ≤ value scale b m + d * (m / scale) := by
    have hm : (0 : ℚ) ≤ m / scale := by positivity
    calc value scale a m = a * (m / scale) := by unfold value; ring
      _ ≤ (b + d) * (m / scale) := by gcongr
      _ = value scale b m + d * (m / scale) := by unfold value; ring
  linarith

/-- The same after weighting with a ratio of at most one, truncated again. -/
theorem weighted_lt_add {a b m r : ℕ} {d : ℚ} (hs : 0 < scale) (hr : r ≤ scale)
    (h : (a : ℚ) ≤ b + d) :
    (toBase scale (toBase scale a m) r : ℚ) <
      toBase scale (toBase scale b m) r + 2 + d * (m / scale) * (r / scale) := by
  have hworth : (toBase scale a m : ℚ) ≤ toBase scale b m + (1 + d * (m / scale)) := by
    rw [← add_assoc]
    exact (toBase_lt_add h m).le
  have hweighted : (toBase scale (toBase scale a m) r : ℚ) <
      toBase scale (toBase scale b m) r + 1 + (1 + d * (m / scale)) * (r / scale) :=
    toBase_lt_add hworth r
  have hratio : (r : ℚ) / scale ≤ 1 := by
    rw [div_le_one (by exact_mod_cast hs)]
    exact_mod_cast hr
  linarith

/-! ## Base to points -/

/-- Points are worth at most the amount they were given for. -/
theorem value_toPoints_le (scale base m : ℕ) : value scale (toPoints scale base m) m ≤ base := by
  unfold value
  rcases Nat.eq_zero_or_pos scale with rfl | hs
  · simp
  have h : toPoints scale base m * m ≤ base * scale := Nat.div_mul_le_self _ _
  rw [div_le_iff₀ (by exact_mod_cast hs)]
  exact_mod_cast h

/-- Points that were given for an amount add at most that amount. -/
theorem toBase_add_toPoints_le (scale p base m : ℕ) :
    toBase scale (p + toPoints scale base m) m ≤ toBase scale p m + base := by
  refine Nat.lt_succ_iff.mp (toBase_lt ?_)
  have hpoints := value_toPoints_le scale base m
  have hfloor := value_lt_toBase_add_one scale p m
  rw [value_add]
  push_cast
  linarith

/-- What points were worth is paid for with no more points once the multiplier has grown. -/
theorem toPoints_le {base p m m' : ℕ} (h : base ≤ toBase scale p m) (hm : m ≤ m') :
    toPoints scale base m' ≤ p := by
  refine Nat.div_le_of_le_mul ?_
  calc base * scale ≤ p * m / scale * scale := Nat.mul_le_mul_right _ h
    _ ≤ p * m := Nat.div_mul_le_self _ _
    _ ≤ p * m' := Nat.mul_le_mul_left _ hm
    _ = m' * p := Nat.mul_comm _ _

theorem toBase_toPoints_le (scale base m : ℕ) :
    toBase scale (toPoints scale base m) m ≤ base := by
  have h := toBase_add_toPoints_le scale 0 base m
  rw [Nat.zero_add] at h
  simpa [toBase] using h

/-- More points than an amount is given are worth at least that amount. -/
theorem le_toBase_of_toPoints_lt {base p m : ℕ} (hs : 0 < scale) (hm : 0 < m)
    (h : toPoints scale base m < p) : base ≤ toBase scale p m := by
  unfold toPoints at h
  unfold toBase
  rw [Nat.div_lt_iff_lt_mul hm] at h
  rw [Nat.le_div_iff_mul_le hs]
  exact h.le

/-- The worth of an amount that its conversion to points drops. -/
def dropped (scale base multiplier : ℕ) : ℚ := (base * scale % multiplier : ℕ) / scale

theorem value_toPoints (hs : 0 < scale) (base m : ℕ) :
    value scale (toPoints scale base m) m = base - dropped scale base m := by
  have hs' : (scale : ℚ) ≠ 0 := by exact_mod_cast hs.ne'
  have h : toPoints scale base m * m + base * scale % m = base * scale := Nat.div_add_mod' _ _
  have hcast : (toPoints scale base m : ℚ) * m + (base * scale % m : ℕ) = base * scale := by
    exact_mod_cast h
  unfold value dropped
  rw [eq_sub_iff_add_eq, ← add_div, hcast]
  exact mul_div_cancel_right₀ _ hs'

/-- Less than one multiplier is dropped. -/
theorem dropped_lt (hs : 0 < scale) (base : ℕ) {m : ℕ} (hm : 0 < m) :
    dropped scale base m < m / scale := by
  have hs' : (0 : ℚ) < scale := by exact_mod_cast hs
  have h := Nat.mod_lt (base * scale) hm
  unfold dropped
  gcongr

theorem dropped_zero (scale m : ℕ) : dropped scale 0 m = 0 := by
  unfold dropped
  simp

/-! ## Growth -/

/-- A factor of at least one does not lower the multiplier. -/
theorem le_scaled {m ratio : ℕ} (hs : 0 < scale) (h : scale ≤ ratio) : m ≤ m * ratio / scale := by
  rw [Nat.le_div_iff_mul_le hs]
  exact Nat.mul_le_mul_left m h

theorem le_grow (hs : 0 < scale) (m ratio : ℕ) : m ≤ grow scale m ratio :=
  le_scaled hs (Nat.le_add_left _ _)

/-- Truncation never lets points grow faster than the ratio. -/
theorem value_grow_le (hs : 0 < scale) (p m ratio : ℕ) :
    value scale p (grow scale m ratio) ≤ value scale p m * (1 + ratio / scale) := by
  have hs' : (0 : ℚ) < scale := by exact_mod_cast hs
  have h := cast_div_le (m * (ratio + scale)) scale
  calc value scale p (grow scale m ratio)
      ≤ p * ((m * (ratio + scale) : ℕ) / scale) / scale := by
        unfold value grow
        gcongr
    _ = value scale p m * (1 + ratio / scale) := by
        unfold value
        push_cast
        field_simp
        ring

/-- The growth that truncation swallows is less than one unit of `1 / scale` a point. -/
theorem value_grow_ge (hs : 0 < scale) (p m ratio : ℕ) :
    value scale p m * (1 + ratio / scale) - p / scale ≤ value scale p (grow scale m ratio) := by
  have hs' : (0 : ℚ) < scale := by exact_mod_cast hs
  have h := (lt_cast_div_add_one (m * (ratio + scale)) scale).le
  calc value scale p m * (1 + ratio / scale) - p / scale
      = p * ((m * (ratio + scale) : ℕ) / scale - 1) / scale := by
        unfold value
        push_cast
        field_simp
        ring
    _ ≤ value scale p (grow scale m ratio) := by
        unfold value grow
        gcongr
        linarith

/-- Growing the truncated amount overestimates the truncated grown one by little. -/
theorem toBase_add_growth_lt (hs : 0 < scale) (p m ratio : ℕ) :
    (toBase scale p m + toBase scale (toBase scale p m) ratio : ℚ) <
      toBase scale p (grow scale m ratio) + 1 + p / scale := by
  have hratio : (0 : ℚ) ≤ ratio / scale := by positivity
  have hbase := toBase_le_value scale p m
  have hgrowth := toBase_le_value scale (toBase scale p m) ratio
  have hexact := value_grow_ge hs p m ratio
  have hfloor := value_lt_toBase_add_one scale p (grow scale m ratio)
  have hmul : value scale (toBase scale p m) ratio ≤ value scale p m * (ratio / scale) := by
    calc value scale (toBase scale p m) ratio = toBase scale p m * (ratio / scale) := by
          unfold value; ring
      _ ≤ value scale p m * (ratio / scale) := by gcongr
  linarith

/-- And it underestimates it by less than two and the ratio. -/
theorem toBase_grow_lt (hs : 0 < scale) (p m ratio : ℕ) :
    (toBase scale p (grow scale m ratio) : ℚ) <
      toBase scale p m + toBase scale (toBase scale p m) ratio + (2 + ratio / scale) := by
  have hratio : (0 : ℚ) ≤ ratio / scale := by positivity
  have hbase := value_lt_toBase_add_one scale p m
  have hgrowth := value_lt_toBase_add_one scale (toBase scale p m) ratio
  have hexact := value_grow_le hs p m ratio
  have hfloor := toBase_le_value scale p (grow scale m ratio)
  have hmul : value scale p m * (ratio / scale) ≤
      value scale (toBase scale p m) ratio + ratio / scale := by
    calc value scale p m * (ratio / scale)
        ≤ (toBase scale p m + 1) * (ratio / scale) := by gcongr
      _ = value scale (toBase scale p m) ratio + ratio / scale := by unfold value; ring
  linarith

/-! ## Shares of a whole -/

/-- `1 / whole` in units of `1 / scale`. -/
def inverse (scale whole : ℕ) : ℕ := scale * scale / whole

/-- `part / whole`, by way of the truncated inverse. -/
def share (scale part whole : ℕ) : ℕ := toBase scale part (inverse scale whole)

@[simp] theorem toBase_zero (scale m : ℕ) : toBase scale 0 m = 0 := by simp [toBase]

@[simp] theorem toBase_zero_right (scale p : ℕ) : toBase scale p 0 = 0 := by simp [toBase]

theorem toBase_le_self {p m : ℕ} (h : m ≤ scale) : toBase scale p m ≤ p :=
  Nat.div_le_of_le_mul ((Nat.mul_le_mul_left p h).trans_eq (Nat.mul_comm _ _))

@[simp] theorem share_zero (scale whole : ℕ) : share scale 0 whole = 0 := toBase_zero _ _

theorem share_mono {part part' : ℕ} (h : part ≤ part') (whole : ℕ) :
    share scale part whole ≤ share scale part' whole :=
  toBase_mono h _

theorem share_le {part whole : ℕ} (h : part ≤ whole) : share scale part whole ≤ scale :=
  Nat.div_le_of_le_mul ((Nat.mul_le_mul_right _ h).trans (Nat.mul_div_le _ _))

/-- The whole is at most one unit short of one. -/
theorem le_share_self {whole : ℕ} (hpos : 0 < whole) (h : whole ≤ scale) :
    scale ≤ share scale whole whole + 1 := by
  have hs : 0 < scale := hpos.trans_le h
  have hrest := Nat.mod_lt (scale * scale) hpos
  have hsplit := Nat.div_add_mod (scale * scale) whole
  have hsub : (scale - 1) * scale = scale * scale - scale := by rw [Nat.sub_mul, Nat.one_mul]
  have hle : scale - 1 ≤ share scale whole whole := by
    unfold share toBase inverse
    rw [Nat.le_div_iff_mul_le hs, hsub]
    omega
  omega

/-- A weight one unit short of one loses one share, and less than one by truncation. -/
theorem lt_toBase_add_share {p m : ℕ} (hs : 0 < scale) (h : scale ≤ m + 1) :
    (p : ℚ) < toBase scale p m + p / scale + 1 := by
  have hs' : (scale : ℚ) ≠ 0 := by exact_mod_cast hs.ne'
  have hweight : (scale : ℚ) ≤ m + 1 := by exact_mod_cast h
  have hvalue : (p : ℚ) - p / scale ≤ value scale p m := by
    calc (p : ℚ) - p / scale = p * (scale - 1) / scale := by field_simp
      _ ≤ p * m / scale := by gcongr; linarith
  linarith [value_lt_toBase_add_one scale p m]

end Rebasing
