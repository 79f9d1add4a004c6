import Mathlib.Data.List.Basic
import Mathlib.Order.Nat

/-!
# Decimal numbers within a bound

A reader of digits that stops at the first character that is no digit, or that makes the
number exceed a bound. Numbers only grow while they are read, so no number within the bound
is refused on the way.
-/

namespace Encoding

inductive ReadError where
  | invalidDigit
  | overflow
  deriving DecidableEq

/-- The number with one more digit. -/
def appendDigit (n : ℕ) (c : Char) : ℕ := 10 * n + (c.toNat - '0'.toNat)

/-- Read on after `n`. -/
def readDecimal (bound : ℕ) : ℕ → List Char → Except ReadError ℕ
  | n, [] => .ok n
  | n, c :: cs =>
    if c.isDigit then
      if appendDigit n c ≤ bound then readDecimal bound (appendDigit n c) cs
      else .error .overflow
    else .error .invalidDigit

variable {bound n m : ℕ} {c : Char} {cs : List Char}

theorem ofDigitChars_appendDigit :
    Nat.ofDigitChars 10 (c :: cs) n = Nat.ofDigitChars 10 cs (appendDigit n c) :=
  Nat.ofDigitChars_cons

theorem le_appendDigit : n ≤ appendDigit n c := by
  unfold appendDigit
  omega

theorem le_ofDigitChars : n ≤ Nat.ofDigitChars 10 cs n := by
  induction cs generalizing n with
  | nil => simp
  | cons c cs ih =>
    rw [ofDigitChars_appendDigit]
    exact le_appendDigit.trans ih

/-- What is read is what the digits say. -/
theorem readDecimal_eq_ok (hn : n ≤ bound) : readDecimal bound n cs = .ok m ↔
    (∀ c ∈ cs, c.isDigit) ∧ m = Nat.ofDigitChars 10 cs n ∧ m ≤ bound := by
  induction cs generalizing n with
  | nil => simp only [readDecimal, Except.ok.injEq, Nat.ofDigitChars_nil]; grind
  | cons c cs ih =>
    rw [readDecimal, ofDigitChars_appendDigit]
    have hle : appendDigit n c ≤ Nat.ofDigitChars 10 cs (appendDigit n c) := le_ofDigitChars
    split_ifs with hdigit hbound
    · simp [ih hbound, hdigit]
    · simp only [false_iff]
      omega
    · simp [hdigit]

/-- The number is too large as soon as the digits read so far are. -/
theorem readDecimal_eq_overflow (hn : n ≤ bound) : readDecimal bound n cs = .error .overflow ↔
    ∃ pre rest, cs = pre ++ rest ∧ (∀ c ∈ pre, c.isDigit) ∧
      bound < Nat.ofDigitChars 10 pre n := by
  induction cs generalizing n with
  | nil =>
    simp only [readDecimal, reduceCtorEq, List.nil_eq, List.append_eq_nil_iff, false_iff]
    rintro ⟨_, _, ⟨rfl, rfl⟩, -, hlt⟩
    rw [Nat.ofDigitChars_nil] at hlt
    omega
  | cons c cs ih =>
    have hcons : (∃ pre rest, c :: cs = pre ++ rest ∧ (∀ c ∈ pre, c.isDigit) ∧
        bound < Nat.ofDigitChars 10 pre n) ↔
        c.isDigit ∧ ∃ pre rest, cs = pre ++ rest ∧ (∀ c ∈ pre, c.isDigit) ∧
          bound < Nat.ofDigitChars 10 pre (appendDigit n c) := by
      constructor
      · rintro ⟨_ | ⟨d, pre⟩, rest, heq, hdigits, hlt⟩
        · rw [Nat.ofDigitChars_nil] at hlt
          omega
        · obtain ⟨rfl, rfl⟩ := List.cons.inj heq
          rw [ofDigitChars_appendDigit] at hlt
          exact ⟨hdigits _ (by simp), pre, rest, rfl, fun e he => hdigits e (by simp [he]), hlt⟩
      · rintro ⟨hdigit, pre, rest, rfl, hdigits, hlt⟩
        refine ⟨c :: pre, rest, rfl, by simpa using ⟨hdigit, hdigits⟩, ?_⟩
        rwa [ofDigitChars_appendDigit]
    rw [readDecimal, hcons]
    split_ifs with hdigit hbound
    · simp [ih hbound, hdigit]
    · simp only [hdigit, true_and, true_iff]
      exact ⟨[], cs, rfl, by simp, by simpa using hbound⟩
    · simp [hdigit]

end Encoding
