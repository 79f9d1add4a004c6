import Mathlib.Data.List.Lex
import Mathlib.Data.String.Basic
import Mathlib.Order.Monotone.Basic
import Mathlib.Tactic.SplitIfs

/-!
# Encodings that keep the order

A code for letters extends to words by writing the codewords one after the other. It keeps
the lexicographic order if two codewords compare as their letters whatever is written after
them. UTF-8 does, so strings may be compared byte by byte.
-/

namespace Encoding

variable {α β : Type*} [LinearOrder α] [LinearOrder β]

/-- Codewords compare as the letters, whatever follows. -/
def Ordered (code : α → List β) : Prop :=
  ∀ a b, a < b → ∀ xs ys, code a ++ xs < code b ++ ys

variable {code : α → List β}

theorem Ordered.flatMap_lt (h : Ordered code) (hne : ∀ a, code a ≠ []) {l l' : List α}
    (hlt : l < l') : l.flatMap code < l'.flatMap code := by
  induction hlt with
  | @nil b l =>
    obtain ⟨x, xs, hx⟩ := List.exists_cons_of_ne_nil (hne b)
    rw [List.flatMap_nil, List.flatMap_cons, hx]
    exact .nil
  | rel hab =>
    rw [List.flatMap_cons, List.flatMap_cons]
    exact h _ _ hab _ _
  | cons _ ih =>
    rw [List.flatMap_cons, List.flatMap_cons]
    exact List.append_left_lt ih

theorem Ordered.strictMono (h : Ordered code) (hne : ∀ a, code a ≠ []) :
    StrictMono (List.flatMap code) :=
  fun _ _ => h.flatMap_lt hne

/-! ## UTF-8 -/

instance linearOrderUInt8 : LinearOrder UInt8 where
  le_refl := UInt8.le_refl
  le_trans _ _ _ := UInt8.le_trans
  lt_iff_le_not_ge a b := by simp only [UInt8.lt_iff_toNat_lt, UInt8.le_iff_toNat_le]; omega
  le_antisymm _ _ := UInt8.le_antisymm
  le_total := UInt8.le_total
  toDecidableLE := inferInstance

theorem utf8_ordered : Ordered String.utf8EncodeChar := by
  intro a b hab xs ys
  have hlt : a.val.toNat < b.val.toNat := hab
  have hb : b.val.toNat < 0x110000 := by
    have hvalid := b.valid
    unfold UInt32.isValidChar Nat.isValidChar at hvalid
    omega
  have hdiv : ∀ n : ℕ, n / 262144 = n / 4096 / 64 := fun n =>
    (Nat.div_div_eq_div_mul n 4096 64).symm
  have hdiv' : ∀ n : ℕ, n / 4096 = n / 64 / 64 := fun n => (Nat.div_div_eq_div_mul n 64 64).symm
  unfold String.utf8EncodeChar
  dsimp only
  generalize a.val.toNat = m, b.val.toNat = n at *
  -- a shorter codeword starts with a smaller byte, and codewords of the same length have the
  -- same marks in front of their digits to base 64
  split_ifs <;>
    simp only [List.cons_append, List.nil_append, List.cons_lt_cons_iff, UInt8.lt_iff_toNat_lt,
      ← UInt8.toNat_inj, UInt8.toNat_ofNat', hdiv, hdiv'] <;>
    omega

/-- `str::as_bytes`. -/
def asBytes (s : String) : List UInt8 := s.toList.flatMap String.utf8EncodeChar

theorem asBytes_strictMono : StrictMono asBytes := fun _ _ h =>
  utf8_ordered.strictMono (fun _ => String.utf8EncodeChar_ne_nil) (String.lt_iff_toList_lt.mp h)

/-- Strings in the order of their bytes are in the order of their characters. -/
theorem asBytes_lt_iff {s t : String} : asBytes s < asBytes t ↔ s < t :=
  asBytes_strictMono.lt_iff_lt

/-- `String::from_utf8`. -/
def fromUtf8 (bytes : List UInt8) : Option String := String.fromUTF8? bytes.toByteArray

theorem fromUtf8_asBytes (s : String) : fromUtf8 (asBytes s) = some s := by
  have hbytes : (asBytes s).toByteArray = s.toByteArray := by
    conv_rhs => rw [← String.ofList_toList (s := s)]
    rw [String.toByteArray_ofList]
    rfl
  unfold fromUtf8 String.fromUTF8?
  rw [hbytes, dif_pos s.isValidUTF8]
  rfl

end Encoding
