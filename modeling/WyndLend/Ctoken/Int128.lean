import WyndLend.CosmWasm.Native
import WyndLend.Encoding.Decimal
import Mathlib.Algebra.Order.Ring.Int
import Mathlib.Tactic.Ring

/-!
# `Int128` as a string

Points corrections are stored as decimal strings. Every number is read back from what was
written, and what else is read is exactly what denotes a number in the range.
-/

namespace WyndLend.Ctoken

open CosmWasm Encoding

/-- `std::num::IntErrorKind`, as far as a signed integer is parsed. -/
inductive ParseIntError where
  | empty
  | invalidDigit
  | posOverflow
  | negOverflow
  deriving DecidableEq

def ParseIntError.text : ParseIntError → String
  | .empty => "cannot parse integer from empty string"
  | .invalidDigit => "invalid digit found in string"
  | .posOverflow => "number too large to fit in target type"
  | .negOverflow => "number too small to fit in target type"

/-- `char::to_digit(10)`. -/
def toDigit (c : Char) : Option ℕ := if c.isDigit then some (c.toNat - '0'.toNat) else none

def overflow (negative : Bool) : ParseIntError := if negative then .negOverflow else .posOverflow

/-- `checked_mul`, `checked_add` and `checked_sub` of `i128`. -/
def checked (n : ℤ) : Option Int128 := (Int128.narrow n : Except Fault Int128).toOption

/-- One round of `from_str_radix`: the digits of a negative number are subtracted. -/
def accumulate (negative : Bool) (result : Int128) (c : Char) : Except ParseIntError Int128 := do
  let mul := checked (result.val * 10)
  let x ← okOr (toDigit c) .invalidDigit
  let mul ← okOr mul (overflow negative)
  okOr (checked (if negative then mul.val - x else mul.val + x)) (overflow negative)

/-- Whether there is a minus, and the digits. -/
def splitSign : List Char → Except ParseIntError (Bool × List Char)
  | [] => .error .empty
  | ['+'] | ['-'] => .error .invalidDigit
  | '+' :: digits => .ok (false, digits)
  | '-' :: digits => .ok (true, digits)
  | digits => .ok (false, digits)

/-- `str::parse::<i128>`. -/
def parseI128 (v : String) : Except ParseIntError Int128 := do
  let (negative, digits) ← splitSign v.toList
  digits.foldlM (accumulate negative) default

/-- `Int128Visitor::visit_str`. -/
def visitStr (v : String) : Except String Int128 :=
  (parseI128 v).mapError fun e => "invalid Int128 '" ++ v ++ "' - " ++ e.text

def i128Serialize (val : Int128) : String := toString val.val

/-! ## Reading digits -/

def signed (negative : Bool) (n : ℕ) : ℤ := if negative then -n else n

/-- The largest number that fits, without its sign. -/
def bound (negative : Bool) : ℕ := if negative then 2 ^ 127 else 2 ^ 127 - 1

def readError (negative : Bool) : ReadError → ParseIntError
  | .invalidDigit => .invalidDigit
  | .overflow => overflow negative

theorem overflow_eq_iff {negative sign : Bool} {e : ReadError} :
    overflow negative = readError sign e ↔ e = .overflow ∧ negative = sign := by
  cases negative <;> cases sign <;> cases e <;> decide

variable {negative : Bool} {result i : Int128} {n : ℕ} {c : Char} {digits : List Char} {v : String}
  {z : ℤ}

theorem checked_eq_some : checked z = some i ↔ i.val = z := by
  unfold checked
  rw [toOption_eq_some]
  exact Int128.narrow_eq_ok

theorem checked_eq_none : checked z = none ↔ ¬ (-2 ^ 127 ≤ z ∧ z < 2 ^ 127) := by
  unfold checked Int128.narrow
  split_ifs with h
  · exact ⟨fun hnone => absurd hnone (Option.some_ne_none _), fun hno => absurd h hno⟩
  · exact ⟨fun _ => h, fun _ => rfl⟩

theorem fits_iff : (-2 ^ 127 ≤ signed negative n ∧ signed negative n < 2 ^ 127) ↔
    n ≤ bound negative := by
  unfold signed bound
  cases negative <;> simp <;> omega

theorem signed_appendDigit : signed negative (appendDigit n c) =
    if negative then signed negative n * 10 - (c.toNat - '0'.toNat : ℕ)
    else signed negative n * 10 + (c.toNat - '0'.toNat : ℕ) := by
  unfold signed appendDigit
  cases negative <;> simp <;> ring

/-- A round appends a digit to the number so far. -/
theorem accumulate_spec (hr : result.val = signed negative n) :
    accumulate negative result c =
      if c.isDigit then okOr (checked (signed negative (appendDigit n c))) (overflow negative)
      else .error .invalidDigit := by
  unfold accumulate toDigit
  by_cases hdigit : c.isDigit
  · rw [if_pos hdigit, if_pos hdigit, signed_appendDigit, ← hr]
    cases hmul : checked (result.val * 10) with
    | some mul =>
      rw [← checked_eq_some.mp hmul]
      rfl
    | none =>
      -- What overflows without the digit does so with it.
      have hlarge : checked (if negative then result.val * 10 - (c.toNat - '0'.toNat : ℕ)
          else result.val * 10 + (c.toNat - '0'.toNat : ℕ)) = none := by
        rw [checked_eq_none] at hmul ⊢
        cases negative <;> simp [signed] at hr ⊢ <;> omega
      rw [hlarge]
      rfl
  · rw [if_neg hdigit, if_neg hdigit]
    rfl

/-- The loop reads a number within the range of `i128`. -/
theorem foldlM_accumulate (hr : result.val = signed negative n) :
    match readDecimal (bound negative) n digits with
    | .ok m => ∃ i, digits.foldlM (accumulate negative) result = .ok i ∧ i.val = signed negative m
    | .error e => digits.foldlM (accumulate negative) result = .error (readError negative e) := by
  induction digits generalizing result n with
  | nil => exact ⟨result, rfl, hr⟩
  | cons c digits ih =>
    rw [List.foldlM_cons, accumulate_spec hr, readDecimal]
    split_ifs with hdigit hbound
    · obtain ⟨i, hi⟩ := Option.ne_none_iff_exists'.mp
        (mt checked_eq_none.mp (not_not.mpr (fits_iff.mpr hbound)))
      rw [hi]
      exact ih (checked_eq_some.mp hi)
    · rw [checked_eq_none.mpr (mt fits_iff.mp hbound)]
      rfl
    · rfl

/-! ## Signs -/

/-- The characters are a sign, which a positive number may lack, and what follows it. -/
inductive Spells : List Char → Bool → List Char → Prop where
  | plain (digits : List Char) : Spells digits false digits
  | plus (digits : List Char) : Spells ('+' :: digits) false digits
  | minus (digits : List Char) : Spells ('-' :: digits) true digits

variable {chars rest : List Char}

theorem spells_of_splitSign (h : splitSign chars = .ok (negative, digits)) :
    Spells chars negative digits ∧ digits ≠ [] := by
  unfold splitSign at h
  split at h <;> cases h <;> grind [Spells]

theorem splitSign_of_spells (h : Spells chars negative (c :: rest)) (hdigit : c.isDigit) :
    splitSign chars = .ok (negative, c :: rest) := by
  cases h with
  | plus | minus => rfl
  | plain =>
    have hplus : c ≠ '+' := by rintro rfl; cases hdigit
    have hminus : c ≠ '-' := by rintro rfl; cases hdigit
    unfold splitSign
    split <;> simp_all

/-! ## What is parsed -/

theorem parse_of_spells (h : Spells v.toList negative digits) {first : Char}
    (hdigits : digits = first :: rest) (hfirst : first.isDigit) :
    parseI128 v = digits.foldlM (accumulate negative) default := by
  subst hdigits
  unfold parseI128
  rw [splitSign_of_spells h hfirst]
  rfl

/-- The loop starts at zero. -/
theorem foldlM_digits (negative : Bool) (digits : List Char) :
    match readDecimal (bound negative) 0 digits with
    | .ok m => ∃ i, digits.foldlM (accumulate negative) default = .ok i ∧ i.val = signed negative m
    | .error e => digits.foldlM (accumulate negative) default = .error (readError negative e) :=
  foldlM_accumulate (by cases negative <;> rfl)

theorem parse_eq_ok : parseI128 v = .ok i ↔ ∃ negative digits, Spells v.toList negative digits ∧
    digits ≠ [] ∧ (∀ c ∈ digits, c.isDigit) ∧
    i.val = signed negative (Nat.ofDigitChars 10 digits 0) := by
  constructor
  · intro h
    obtain ⟨⟨negative, digits⟩, hsplit, h⟩ := bind_eq_ok.mp h
    obtain ⟨hspells, hne⟩ := spells_of_splitSign hsplit
    have hloop := foldlM_digits negative digits
    cases hread : readDecimal (bound negative) 0 digits with
    | ok m =>
      rw [hread] at hloop
      obtain ⟨j, hj, hval⟩ := hloop
      cases hj.symm.trans h
      obtain ⟨hdigits, rfl, -⟩ := (readDecimal_eq_ok (Nat.zero_le _)).mp hread
      exact ⟨negative, digits, hspells, hne, hdigits, hval⟩
    | error e =>
      rw [hread] at hloop
      cases hloop.symm.trans h
  · rintro ⟨negative, digits, hspells, hne, hdigits, hval⟩
    obtain ⟨first, rest, hcons⟩ := List.exists_cons_of_ne_nil hne
    have hfits := fits_iff.mp ⟨hval ▸ i.isGe, hval ▸ i.isLt⟩
    have hread := (readDecimal_eq_ok (Nat.zero_le (bound negative))).mpr ⟨hdigits, rfl, hfits⟩
    have hloop := foldlM_digits negative digits
    rw [hread] at hloop
    obtain ⟨j, hj, hjval⟩ := hloop
    rw [parse_of_spells hspells hcons (hdigits _ (by simp [hcons])), hj,
      Int128.ext (hjval.trans hval.symm)]

/-- The number is refused for its size as soon as its first digits are too many. -/
theorem parse_eq_overflow : parseI128 v = .error (overflow negative) ↔
    ∃ digits rest, Spells v.toList negative (digits ++ rest) ∧ (∀ c ∈ digits, c.isDigit) ∧
      bound negative < Nat.ofDigitChars 10 digits 0 := by
  have hread : ∀ chars, readDecimal (bound negative) 0 chars = .error .overflow ↔ _ := fun _ =>
    readDecimal_eq_overflow (Nat.zero_le (bound negative))
  constructor
  · intro h
    unfold parseI128 at h
    cases hsplit : splitSign v.toList with
    | error e =>
      rw [hsplit] at h
      cases h
      unfold splitSign at hsplit
      cases negative <;> split at hsplit <;> cases hsplit
    | ok r =>
      obtain ⟨sign, chars⟩ := r
      rw [hsplit] at h
      have h : chars.foldlM (accumulate sign) default = .error (overflow negative) := h
      have hloop := foldlM_digits sign chars
      split at hloop
      · obtain ⟨_, hok, -⟩ := hloop
        cases h.symm.trans hok
      · next e he =>
        obtain ⟨rfl, rfl⟩ := overflow_eq_iff.mp (Except.error.inj (h.symm.trans hloop))
        obtain ⟨digits, rest, rfl, hdigits, hlt⟩ := (hread _).mp he
        exact ⟨digits, rest, (spells_of_splitSign hsplit).1, hdigits, hlt⟩
  · rintro ⟨digits, rest, hspells, hdigits, hlt⟩
    have hloop := foldlM_digits negative (digits ++ rest)
    rw [(hread _).mpr ⟨digits, rest, rfl, hdigits, hlt⟩] at hloop
    cases digits with
    | nil => cases hlt
    | cons first digits => exact (parse_of_spells hspells rfl (hdigits _ (by simp))).trans hloop

/-- What is written is read back. -/
theorem parse_i128Serialize (i : Int128) : parseI128 (i128Serialize i) = .ok i := by
  have hdigits : ∀ n, ∀ c ∈ Nat.toDigits 10 n, c.isDigit := fun _ _ =>
    Nat.isDigit_of_mem_toDigits (by decide) (by decide)
  rw [parse_eq_ok, i128Serialize, Int.toString_eq_repr, Int.repr_eq_if]
  split_ifs with hsign
  · refine ⟨false, _, .plain _, ?_, ?_, ?_⟩
    · simp [Nat.toDigits_ne_nil]
    · simpa using hdigits i.val.toNat
    · simp [signed, hsign]
  · refine ⟨true, Nat.toDigits 10 (-i.val).toNat, ?_, Nat.toDigits_ne_nil, hdigits _, ?_⟩
    · simpa using Spells.minus _
    · simp [signed]
      omega

/-- Every correction is read back from what is stored of it. What is read at all is exactly
what spells a number of 128 bits, with any number of leading zeros and perhaps a plus; and
what begins with too large a number is refused for that, whatever follows. -/
theorem int128_text :
    (∀ i, visitStr (i128Serialize i) = .ok i) ∧
    (∀ v i, visitStr v = .ok i ↔ ∃ negative digits, Spells v.toList negative digits ∧
      digits ≠ [] ∧ (∀ c ∈ digits, c.isDigit) ∧
      i.val = signed negative (Nat.ofDigitChars 10 digits 0)) ∧
    ∀ v negative, parseI128 v = .error (overflow negative) ↔
      ∃ digits rest, Spells v.toList negative (digits ++ rest) ∧ (∀ c ∈ digits, c.isDigit) ∧
        bound negative < Nat.ofDigitChars 10 digits 0 := by
  refine ⟨fun i => ?_, fun v i => ?_, fun v negative => parse_eq_overflow⟩
  · rw [visitStr, parse_i128Serialize]
    rfl
  · rw [visitStr, mapError_eq_ok, parse_eq_ok]

end WyndLend.Ctoken
