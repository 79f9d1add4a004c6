import WyndLend.CosmWasm.Uint128
import Mathlib.Data.Int.ModEq

/-!
# Native integers of a release build

The contracts are shipped as `cargo build --release` makes them, and no profile of the
workspace sets `overflow-checks`: native `i128` and `u128` arithmetic wraps, and casts
between the two reinterpret the bits. Whatever is computed is right modulo `2 ^ 128`,
and exact where the exact value is in the range of the type.
-/

namespace WyndLend.CosmWasm

/-- `i128`, the signed native integer. -/
@[ext] structure Int128 where
  val : ℤ
  isGe : -2 ^ 127 ≤ val
  isLt : val < 2 ^ 127
  deriving DecidableEq

/-- `n` is in the range of `i128`. -/
def InI128 (n : ℤ) : Prop := -2 ^ 127 ≤ n ∧ n < 2 ^ 127

instance : DecidablePred InI128 := fun _ => inferInstanceAs (Decidable (_ ∧ _))

namespace Int128

variable {ε : Type} [HasFault ε]

instance : Inhabited Int128 := ⟨⟨0, by norm_num, by norm_num⟩⟩

/-- Keep an integer that fits in 128 signed bits; abort on any other. -/
def narrow (n : ℤ) : Except ε Int128 :=
  if h : -2 ^ 127 ≤ n ∧ n < 2 ^ 127 then .ok ⟨n, h.1, h.2⟩
  else .error (HasFault.fault .overflow)

@[simp] theorem narrow_eq_ok {n : ℤ} {i : Int128} :
    (narrow n : Except ε Int128) = .ok i ↔ i.val = n := by
  unfold narrow
  split_ifs with h
  · rw [Except.ok.injEq, Int128.ext_iff]
    exact eq_comm
  · exact ⟨nofun, fun hi => absurd ⟨hi ▸ i.isGe, hi ▸ i.isLt⟩ h⟩

/-- The integer of 128 signed bits that an integer wraps to. -/
def wrap (n : ℤ) : Int128 where
  val := n.bmod (2 ^ 128)
  isGe := by
    have h := Int.le_bmod (x := n) (m := 2 ^ 128) (by norm_num)
    norm_num at h ⊢
    exact h
  isLt := by
    have h := Int.bmod_lt (x := n) (m := 2 ^ 128) (by norm_num)
    norm_num at h ⊢
    exact h

def neg (a : Int128) : Int128 := wrap (-a.val)
def add (a b : Int128) : Int128 := wrap (a.val + b.val)
def sub (a b : Int128) : Int128 := wrap (a.val - b.val)
def mul (a b : Int128) : Int128 := wrap (a.val * b.val)

theorem val_wrap (n : ℤ) : (wrap n).val = n.bmod (2 ^ 128) := rfl

theorem val_wrap_modEq (n : ℤ) : (wrap n).val ≡ n [ZMOD 2 ^ 128] := by
  have h := Int.bmod_emod (x := n) (m := 2 ^ 128)
  norm_num at h
  unfold Int.ModEq
  rw [val_wrap]
  norm_num
  exact h

theorem wrap_eq_wrap {m n : ℤ} (h : m ≡ n [ZMOD 2 ^ 128]) : wrap m = wrap n := by
  refine Int128.ext ?_
  have hmod : m % ((2 ^ 128 : ℕ) : ℤ) = n % ((2 ^ 128 : ℕ) : ℤ) := by
    rw [Nat.cast_pow]
    exact h
  rw [val_wrap, val_wrap, ← Int.emod_bmod m, ← Int.emod_bmod n, hmod]

/-- What is in range is kept. -/
theorem val_wrap_of_in {n : ℤ} (h : InI128 n) : (wrap n).val = n := by
  obtain ⟨hge, hlt⟩ := h
  rw [val_wrap]
  refine Int.bmod_eq_of_le ?_ ?_ <;> norm_num at hge hlt ⊢ <;> assumption

end Int128

namespace Uint128

/-- The amount of 128 bits that an integer wraps to. -/
def wrap (n : ℤ) : Uint128 :=
  ⟨(n % 2 ^ 128).toNat, by have := Int.emod_lt_of_pos n (b := 2 ^ 128) (by norm_num); omega⟩

/-- Addition of native `u128`. -/
def wrappingAdd (a b : Uint128) : Uint128 := wrap (a.val + b.val)

/-- Subtraction of native `u128`. -/
def wrappingSub (a b : Uint128) : Uint128 := wrap (a.val - b.val)

/-- Multiplication of native `u128`. -/
def wrappingMul (a b : Uint128) : Uint128 := wrap (a.val * b.val)

/-- `as i128`: reinterprets the bits, so a large number becomes a negative one. -/
def asI128 (a : Uint128) : Int128 := .wrap a.val

theorem val_wrap (n : ℤ) : ((wrap n).val : ℤ) = n % 2 ^ 128 :=
  Int.toNat_of_nonneg (Int.emod_nonneg n (by norm_num))

theorem val_wrap_modEq (n : ℤ) : ((wrap n).val : ℤ) ≡ n [ZMOD 2 ^ 128] := by
  rw [val_wrap]
  exact Int.mod_modEq n _

theorem val_wrap_of_lt {n : ℤ} (hpos : 0 ≤ n) (hlt : n < 2 ^ 128) : ((wrap n).val : ℤ) = n := by
  rw [val_wrap, Int.emod_eq_of_lt hpos hlt]

theorem wrap_eq_wrap {m n : ℤ} (h : m ≡ n [ZMOD 2 ^ 128]) : wrap m = wrap n := by
  unfold wrap
  simp only [h.eq]

theorem val_asI128_modEq (a : Uint128) : a.asI128.val ≡ a.val [ZMOD 2 ^ 128] :=
  Int128.val_wrap_modEq _

theorem val_neg_asI128_modEq (a : Uint128) : a.asI128.neg.val ≡ -a.val [ZMOD 2 ^ 128] :=
  (Int128.val_wrap_modEq _).trans (val_asI128_modEq a).neg

theorem wrappingAdd_of_lt {a b : Uint128} (h : a.val + b.val < 2 ^ 128) :
    (a.wrappingAdd b).val = a.val + b.val := by
  have hval := val_wrap_of_lt (n := a.val + b.val) (by positivity) (by exact_mod_cast h)
  exact_mod_cast hval

theorem wrappingMul_of_lt {a b : Uint128} (h : a.val * b.val < 2 ^ 128) :
    (a.wrappingMul b).val = a.val * b.val := by
  have hval := val_wrap_of_lt (n := a.val * b.val) (by positivity) (by exact_mod_cast h)
  exact_mod_cast hval

theorem wrappingSub_of_le {a b : Uint128} (h : b ≤ a) : (a.wrappingSub b).val + b.val = a.val := by
  have hle := le_def.mp h
  have hlt := a.isLt
  have hval := val_wrap_of_lt (n := a.val - b.val) (by omega) (by omega)
  change ((a.wrappingSub b).val : ℤ) = a.val - b.val at hval
  omega

end Uint128

/-- `as u128`: reinterprets the bits, so a negative number becomes a large one. -/
def Int128.asU128 (a : Int128) : Uint128 := .wrap a.val

end WyndLend.CosmWasm
