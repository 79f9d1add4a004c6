import WyndLend.Rebasing.Conversion
import Mathlib.Algebra.Order.Ring.Pow

/-!
# Compound growth in fixed point

A factor of at least one, raised to a power by squaring with truncated products. Each
product loses at most the share `1 / scale` of its exact value, and raising to the power
`n` takes the share once for each factor, so the result misses the exact power by at most
`n` such shares.
-/

namespace Rebasing

variable {scale : ℕ}

/-- A number of units of `1 / scale`. -/
def fixed (scale x : ℕ) : ℚ := x / scale

/-- What truncation leaves of a product, at least. -/
def kept (scale : ℕ) : ℚ := 1 - 1 / scale

theorem fixed_nonneg (scale x : ℕ) : 0 ≤ fixed scale x := by
  unfold fixed
  positivity

theorem fixed_self (hs : 0 < scale) : fixed scale scale = 1 := by
  unfold fixed
  have hs' : (scale : ℚ) ≠ 0 := by exact_mod_cast hs.ne'
  exact div_self hs'

theorem value_eq_mul_fixed (scale x y : ℕ) : value scale x y = x * fixed scale y :=
  mul_div_assoc _ _ _

theorem fixed_sub (hs : 0 < scale) {x : ℕ} (h : x ≤ scale) :
    fixed scale (scale - x) = 1 - fixed scale x := by
  rw [← fixed_self hs]
  unfold fixed
  push_cast [h]
  ring

/-- A truncated quotient loses less than one unit. -/
theorem fixed_div_bounds (hs : 0 < scale) (n d : ℕ) : fixed scale (n * scale / d) ≤ n / d ∧
    (n : ℚ) / d < fixed scale (n * scale / d) + 1 / scale := by
  have hs' : (0 : ℚ) < scale := by exact_mod_cast hs
  have hscaled : ((n * scale : ℕ) : ℚ) / d = n / d * scale := by
    push_cast
    ring
  have hle := cast_div_le (n * scale) d
  have hlt := lt_cast_div_add_one (n * scale) d
  rw [hscaled] at hle hlt
  unfold fixed
  constructor
  · rwa [div_le_iff₀ hs']
  · rwa [← add_div, lt_div_iff₀ hs']

theorem fixed_mono {x y : ℕ} (h : x ≤ y) : fixed scale x ≤ fixed scale y := by
  unfold fixed
  gcongr

theorem fixed_le_one (hs : 0 < scale) {x : ℕ} (h : x ≤ scale) : fixed scale x ≤ 1 :=
  (fixed_mono h).trans_eq (fixed_self hs)

theorem one_le_fixed (hs : 0 < scale) {x : ℕ} (h : scale ≤ x) : 1 ≤ fixed scale x :=
  (fixed_self hs).symm.trans_le (fixed_mono h)

theorem kept_nonneg (hs : 0 < scale) : 0 ≤ kept scale := by
  unfold kept
  rw [sub_nonneg, div_le_one (by exact_mod_cast hs)]
  exact_mod_cast hs

theorem kept_le_one : kept scale ≤ 1 := by
  unfold kept
  have h : (0 : ℚ) ≤ 1 / scale := by positivity
  linarith

/-- Bernoulli's inequality for the shares that are lost. -/
theorem one_sub_le_kept_pow (hs : 0 < scale) (n : ℕ) : 1 - n / scale ≤ kept scale ^ n := by
  have hkept := kept_nonneg hs
  unfold kept at hkept ⊢
  have h := one_add_mul_le_pow (a := -(1 / (scale : ℚ))) (by linarith) n
  calc 1 - (n : ℚ) / scale = 1 + n * -(1 / scale) := by ring
    _ ≤ (1 + -(1 / (scale : ℚ))) ^ n := h
    _ = (1 - 1 / (scale : ℚ)) ^ n := by rw [← sub_eq_add_neg]

/-! ## Truncated products -/

theorem fixed_toBase_le (hs : 0 < scale) (x y : ℕ) :
    fixed scale (toBase scale x y) ≤ fixed scale x * fixed scale y := by
  have h := toBase_le_value scale x y
  unfold fixed
  calc (toBase scale x y : ℚ) / scale ≤ value scale x y / scale := by gcongr
    _ = x / scale * (y / scale) := by unfold value; ring

/-- Any product loses less than one unit. -/
theorem fixed_toBase_ge (hs : 0 < scale) (x y : ℕ) :
    fixed scale x * fixed scale y - 1 / scale ≤ fixed scale (toBase scale x y) := by
  have h := (value_lt_toBase_add_one scale x y).le
  unfold fixed
  calc (x : ℚ) / scale * (y / scale) - 1 / scale = (value scale x y - 1) / scale := by
        unfold value; ring
    _ ≤ toBase scale x y / scale := by
        gcongr
        linarith

theorem fixed_toBase_toBase_le (hs : 0 < scale) (x y z : ℕ) :
    fixed scale (toBase scale (toBase scale x y) z) ≤
      fixed scale x * fixed scale y * fixed scale z :=
  (fixed_toBase_le hs _ _).trans
    (mul_le_mul_of_nonneg_right (fixed_toBase_le hs _ _) (fixed_nonneg _ _))

/-- Two products lose less than a unit each, as the last factor enlarges no loss. -/
theorem fixed_toBase_toBase_ge (hs : 0 < scale) (x y : ℕ) {z : ℕ} (hz : z ≤ scale) :
    fixed scale x * fixed scale y * fixed scale z - 2 / scale ≤
      fixed scale (toBase scale (toBase scale x y) z) := by
  have hfirst := mul_le_mul_of_nonneg_right (fixed_toBase_ge hs x y) (fixed_nonneg scale z)
  have hlast := fixed_toBase_ge hs (toBase scale x y) z
  have hlost : 1 / scale * fixed scale z ≤ 1 / scale :=
    mul_le_of_le_one_right (by positivity) (fixed_le_one hs hz)
  have htwo : (2 : ℚ) / scale = 1 / scale + 1 / scale := by ring
  rw [sub_mul] at hfirst
  rw [htwo]
  linarith

/-- A product of factors of at least one loses no more than one share. -/
theorem fixed_toBase_ge_kept (hs : 0 < scale) {x y : ℕ} (hx : scale ≤ x) (hy : scale ≤ y) :
    fixed scale x * fixed scale y * kept scale ≤ fixed scale (toBase scale x y) := by
  have h := fixed_toBase_ge hs x y
  have hone : 1 ≤ fixed scale x * fixed scale y :=
    one_le_mul_of_one_le_of_one_le (one_le_fixed hs hx) (one_le_fixed hs hy)
  have hshare : (1 : ℚ) / scale ≤ fixed scale x * fixed scale y * (1 / scale) :=
    le_mul_of_one_le_left (by positivity) hone
  unfold kept
  linarith

/-! ## Powers by squaring -/

/-- The loop: `x` is squared while `n` is halved, odd factors are collected in `y`. -/
def powLoop (scale : ℕ) : ℕ → ℕ → ℕ → ℕ → ℕ × ℕ
  | 0, x, y, _ => (x, y)
  | fuel + 1, x, y, n =>
    if n ≤ 1 then (x, y)
    else if n % 2 = 0 then powLoop scale fuel (toBase scale x x) y (n / 2)
    else powLoop scale fuel (toBase scale x x) (toBase scale x y) ((n - 1) / 2)

/-- A truncated square, repeated: one share for each repetition. -/
theorem square_pow_bounds (hs : 0 < scale) {x : ℕ} (hx : scale ≤ x) (k : ℕ) :
    fixed scale x ^ (2 * k) * kept scale ^ k ≤ fixed scale (toBase scale x x) ^ k ∧
      fixed scale (toBase scale x x) ^ k ≤ fixed scale x ^ (2 * k) := by
  have hk := kept_nonneg hs
  have hX := fixed_nonneg scale x
  constructor
  · calc fixed scale x ^ (2 * k) * kept scale ^ k
        = (fixed scale x * fixed scale x * kept scale) ^ k := by ring
      _ ≤ fixed scale (toBase scale x x) ^ k :=
          pow_le_pow_left₀ (by positivity) (fixed_toBase_ge_kept hs hx hx) k
  · calc fixed scale (toBase scale x x) ^ k
        ≤ (fixed scale x * fixed scale x) ^ k :=
          pow_le_pow_left₀ (fixed_nonneg _ _) (fixed_toBase_le hs x x) k
      _ = fixed scale x ^ (2 * k) := by ring

/-- What the loop returns multiplies to `x ^ n * y`, but for a share for each factor
beyond the first. -/
theorem powLoop_bounds (hs : 0 < scale) (fuel : ℕ) {x y n : ℕ} (hx : scale ≤ x) (hy : scale ≤ y)
    (hn : 0 < n) (hfuel : n < 2 ^ (fuel + 1)) :
    scale ≤ (powLoop scale fuel x y n).1 ∧ scale ≤ (powLoop scale fuel x y n).2 ∧
    fixed scale x ^ n * fixed scale y * kept scale ^ (n - 1) ≤
      fixed scale (powLoop scale fuel x y n).1 * fixed scale (powLoop scale fuel x y n).2 ∧
    fixed scale (powLoop scale fuel x y n).1 * fixed scale (powLoop scale fuel x y n).2 ≤
      fixed scale x ^ n * fixed scale y := by
  induction fuel generalizing x y n with
  | zero =>
    have h1 : n = 1 := by omega
    subst h1
    simp [powLoop, hx, hy]
  | succ fuel ih =>
    have hx2 : scale ≤ toBase scale x x := hx.trans (le_scaled hs hx)
    have hk := kept_nonneg hs
    have hX := fixed_nonneg scale x
    have hY := fixed_nonneg scale y
    unfold powLoop
    split_ifs with h1 h2
    · have h1 : n = 1 := by omega
      subst h1
      simp [hx, hy]
    · -- An even power: the square of `x` has lost one share, which the `n / 2` factors repeat.
      obtain ⟨k, rfl⟩ : ∃ k, n = 2 * (k + 1) := ⟨n / 2 - 1, by omega⟩
      have hhalf : 2 * (k + 1) / 2 = k + 1 := by omega
      rw [hhalf]
      obtain ⟨hx', hy', hlow, hup⟩ := ih hx2 hy (by omega : 0 < k + 1) (by omega)
      obtain ⟨hsquare, hsquare'⟩ := square_pow_bounds hs hx (k + 1)
      rw [Nat.add_sub_cancel] at hlow
      refine ⟨hx', hy', le_trans ?_ hlow, hup.trans ?_⟩
      · calc fixed scale x ^ (2 * (k + 1)) * fixed scale y * kept scale ^ (2 * (k + 1) - 1)
            = fixed scale x ^ (2 * (k + 1)) * kept scale ^ (k + 1) * fixed scale y *
                kept scale ^ k := by
              rw [show 2 * (k + 1) - 1 = (k + 1) + k by omega]
              ring
          _ ≤ fixed scale (toBase scale x x) ^ (k + 1) * fixed scale y * kept scale ^ k := by
              gcongr
      · gcongr
    · -- An odd power: one more product collects the odd factor, with one more share.
      obtain ⟨k, rfl⟩ : ∃ k, n = 2 * (k + 1) + 1 := ⟨(n - 1) / 2 - 1, by omega⟩
      have hhalf : (2 * (k + 1) + 1 - 1) / 2 = k + 1 := by omega
      rw [hhalf]
      have hy2 : scale ≤ toBase scale x y := hx.trans (le_scaled hs hy)
      obtain ⟨hx', hy', hlow, hup⟩ := ih hx2 hy2 (by omega : 0 < k + 1) (by omega)
      obtain ⟨hsquare, hsquare'⟩ := square_pow_bounds hs hx (k + 1)
      have hodd := fixed_toBase_le hs x y
      have hodd' := fixed_toBase_ge_kept hs hx hy
      have hXX := fixed_nonneg scale (toBase scale x x)
      have hXY := fixed_nonneg scale (toBase scale x y)
      rw [Nat.add_sub_cancel] at hlow
      refine ⟨hx', hy', le_trans ?_ hlow, hup.trans ?_⟩
      · calc fixed scale x ^ (2 * (k + 1) + 1) * fixed scale y *
              kept scale ^ (2 * (k + 1) + 1 - 1)
            = fixed scale x ^ (2 * (k + 1)) * kept scale ^ (k + 1) *
                (fixed scale x * fixed scale y * kept scale) * kept scale ^ k := by
              rw [show 2 * (k + 1) + 1 - 1 = (k + 1) + 1 + k by omega]
              ring
          _ ≤ fixed scale (toBase scale x x) ^ (k + 1) * fixed scale (toBase scale x y) *
                kept scale ^ k := by gcongr
      · calc fixed scale (toBase scale x x) ^ (k + 1) * fixed scale (toBase scale x y)
            ≤ fixed scale x ^ (2 * (k + 1)) * (fixed scale x * fixed scale y) := by gcongr
          _ = fixed scale x ^ (2 * (k + 1) + 1) * fixed scale y := by ring

/-- The power that the loop leaves to multiply out. -/
def power (scale fuel x n : ℕ) : ℕ :=
  toBase scale (powLoop scale fuel x scale n).1 (powLoop scale fuel x scale n).2

theorem power_le (hs : 0 < scale) (fuel : ℕ) {x n : ℕ} (hx : scale ≤ x) (hn : 0 < n)
    (hfuel : n < 2 ^ (fuel + 1)) : fixed scale (power scale fuel x n) ≤ fixed scale x ^ n := by
  obtain ⟨-, -, -, hup⟩ := powLoop_bounds hs fuel hx (le_refl scale) hn hfuel
  rw [fixed_self hs, mul_one] at hup
  exact (fixed_toBase_le hs _ _).trans hup

theorem le_power (hs : 0 < scale) (fuel : ℕ) {x n : ℕ} (hx : scale ≤ x) (hn : 0 < n)
    (hfuel : n < 2 ^ (fuel + 1)) :
    fixed scale x ^ n * kept scale ^ n ≤ fixed scale (power scale fuel x n) := by
  obtain ⟨hx', hy', hlow, -⟩ := powLoop_bounds hs fuel hx (le_refl scale) hn hfuel
  rw [fixed_self hs, mul_one] at hlow
  obtain ⟨k, rfl⟩ : ∃ k, n = k + 1 := ⟨n - 1, by omega⟩
  rw [Nat.add_sub_cancel] at hlow
  calc fixed scale x ^ (k + 1) * kept scale ^ (k + 1)
      = fixed scale x ^ (k + 1) * kept scale ^ k * kept scale := by ring
    _ ≤ _ := mul_le_mul_of_nonneg_right hlow (kept_nonneg hs)
    _ ≤ fixed scale (power scale fuel x (k + 1)) := fixed_toBase_ge_kept hs hx' hy'

/-! ## Comparing powers -/

/-- With factors of at least one, truncation does not hide that a factor is larger. -/
theorem toBase_lt_toBase (hs : 0 < scale) {x x' y y' : ℕ} (hlt : x < x') (hle : y ≤ y')
    (hy : scale ≤ y) : toBase scale x y < toBase scale x' y' := by
  have hgap : x * y + scale ≤ x' * y' := by
    calc x * y + scale ≤ x * y + y := by omega
      _ = (x + 1) * y := by ring
      _ ≤ x' * y' := Nat.mul_le_mul hlt hle
  unfold toBase
  rw [Nat.lt_iff_add_one_le, ← Nat.add_div_right _ hs]
  exact Nat.div_le_div_right hgap

/-- The loop keeps the order of two bases. -/
theorem powLoop_lt (hs : 0 < scale) (fuel : ℕ) {x x' y y' n : ℕ} (hx : scale ≤ x)
    (hy : scale ≤ y) (hlt : x < x') (hle : y ≤ y') :
    (powLoop scale fuel x y n).1 < (powLoop scale fuel x' y' n).1 ∧
      (powLoop scale fuel x y n).2 ≤ (powLoop scale fuel x' y' n).2 ∧
      scale ≤ (powLoop scale fuel x y n).2 := by
  induction fuel generalizing x x' y y' n with
  | zero => exact ⟨hlt, hle, hy⟩
  | succ fuel ih =>
    have hx2 : scale ≤ toBase scale x x := hx.trans (le_scaled hs hx)
    have hsquare : toBase scale x x < toBase scale x' x' := toBase_lt_toBase hs hlt hlt.le hx
    unfold powLoop
    split_ifs
    · exact ⟨hlt, hle, hy⟩
    · exact ih hx2 hy hsquare hle
    · exact ih hx2 (hx.trans (le_scaled hs hy)) hsquare (toBase_le_toBase hlt.le hle)

theorem power_lt_power (hs : 0 < scale) (fuel : ℕ) {x x' n : ℕ} (hx : scale ≤ x) (hlt : x < x') :
    power scale fuel x n < power scale fuel x' n := by
  obtain ⟨hfirst, hsecond, hone⟩ := powLoop_lt (n := n) hs fuel hx le_rfl hlt le_rfl
  exact toBase_lt_toBase hs hfirst hsecond hone

/-- Equal powers come from equal bases. -/
theorem power_inj (hs : 0 < scale) (fuel : ℕ) {x x' n : ℕ} (hx : scale ≤ x) (hx' : scale ≤ x') :
    power scale fuel x n = power scale fuel x' n ↔ x = x' := by
  constructor
  · intro h
    rcases Nat.lt_trichotomy x x' with hlt | heq | hgt
    · exact absurd h (power_lt_power hs fuel hx hlt).ne
    · exact heq
    · exact absurd h (power_lt_power hs fuel hx' hgt).ne'
  · intro h
    rw [h]

/-! ## Repeated growth -/

/-- A multiplier `m` that has grown to `after` in `count` truncated steps, over `periods`
periods at the rate `growth`. -/
structure Grown (scale m growth periods count after : ℕ) : Prop where
  le : fixed scale after ≤ fixed scale m * fixed scale growth ^ periods
  ge : fixed scale m * fixed scale growth ^ periods * kept scale ^ periods -
    count * fixed scale growth ^ periods / scale ≤ fixed scale after

theorem Grown.start (scale m growth : ℕ) : Grown scale m growth 0 0 m := by
  constructor <;> simp

/-- One more step over `n` periods, by a truncated power. -/
theorem Grown.step {m growth periods count after n factor : ℕ} (hs : 0 < scale)
    (hg : scale ≤ growth) (h : Grown scale m growth periods count after)
    (hup : fixed scale factor ≤ fixed scale growth ^ n)
    (hlow : fixed scale growth ^ n * kept scale ^ n ≤ fixed scale factor) :
    Grown scale m growth (periods + n) (count + 1) (toBase scale after factor) := by
  have hG := one_le_fixed hs hg
  have hGn : 0 ≤ fixed scale growth ^ n := by positivity
  have hk := kept_nonneg hs
  have hkn : kept scale ^ n ≤ 1 := pow_le_one₀ hk kept_le_one
  constructor
  · calc fixed scale (toBase scale after factor) ≤ fixed scale after * fixed scale factor :=
          fixed_toBase_le hs _ _
      _ ≤ fixed scale m * fixed scale growth ^ periods * fixed scale growth ^ n :=
          mul_le_mul h.le hup (fixed_nonneg _ _) ((fixed_nonneg _ _).trans h.le)
      _ = fixed scale m * fixed scale growth ^ (periods + n) := by ring
  · -- The units lost so far grow along, and the new step loses one more.
    have hold : (fixed scale m * fixed scale growth ^ periods * kept scale ^ periods -
          count * fixed scale growth ^ periods / scale) *
          (fixed scale growth ^ n * kept scale ^ n) ≤ fixed scale after * fixed scale factor :=
      (mul_le_mul_of_nonneg_right h.ge (by positivity)).trans
        (mul_le_mul_of_nonneg_left hlow (fixed_nonneg _ _))
    have hunits : count * fixed scale growth ^ periods / scale *
          (fixed scale growth ^ n * kept scale ^ n) ≤
        count * fixed scale growth ^ (periods + n) / scale := by
      calc _ = count * fixed scale growth ^ (periods + n) / scale * kept scale ^ n := by ring
        _ ≤ count * fixed scale growth ^ (periods + n) / scale :=
            mul_le_of_le_one_right (by positivity) hkn
    have hunit : (1 : ℚ) / scale ≤ fixed scale growth ^ (periods + n) / scale := by
      gcongr
      exact one_le_pow₀ hG
    have hlast := fixed_toBase_ge hs after factor
    have hsplit : fixed scale m * fixed scale growth ^ (periods + n) *
          kept scale ^ (periods + n) = fixed scale m * fixed scale growth ^ periods *
          kept scale ^ periods * (fixed scale growth ^ n * kept scale ^ n) := by ring
    rw [sub_mul] at hold
    push_cast
    rw [hsplit, add_mul, add_div, one_mul]
    linarith

/-- In all, `count` units and a share for each period, of the grown multiplier. -/
theorem Grown.within {m growth periods count after : ℕ} (hs : 0 < scale)
    (h : Grown scale m growth periods count after) :
    fixed scale m * fixed scale growth ^ periods -
      (periods * fixed scale m + count) * fixed scale growth ^ periods * (1 / scale) ≤
        fixed scale after := by
  have hshares := one_sub_le_kept_pow hs periods
  have hE : 0 ≤ fixed scale m * fixed scale growth ^ periods :=
    mul_nonneg (fixed_nonneg _ _) (pow_nonneg (fixed_nonneg _ _) _)
  have hmul := mul_le_mul_of_nonneg_left hshares hE
  have hge := h.ge
  have hring : fixed scale m * fixed scale growth ^ periods * (1 - periods / scale) -
        count * fixed scale growth ^ periods / scale =
      fixed scale m * fixed scale growth ^ periods -
        (periods * fixed scale m + count) * fixed scale growth ^ periods * (1 / scale) := by ring
  linarith

end Rebasing
