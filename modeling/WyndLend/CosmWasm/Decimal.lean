import WyndLend.CosmWasm.Uint128

/-!
# `Decimal`

A fixed-point number with 18 fractional digits, stored as a `Uint128` of
atomics. Every product and quotient truncates; the lemmas below give each result
as a quotient of natural numbers.
-/

namespace WyndLend.CosmWasm

/-- `cosmwasm_std::Decimal`. -/
@[ext] structure Decimal where
  atomics : Uint128
  deriving DecidableEq

/-- `Decimal::DECIMAL_FRACTIONAL`, the number of atomics in one. -/
def fractional : ℕ := 10 ^ 18

theorem fractional_pos : 0 < fractional := by decide
theorem fractional_ne_zero : fractional ≠ 0 := by decide

namespace Decimal

variable {ε : Type} [HasFault ε]

instance : LinearOrder Decimal :=
  LinearOrder.lift' (fun d => d.atomics.val) fun _ _ h => Decimal.ext (Uint128.ext h)

theorem le_def {a b : Decimal} : a ≤ b ↔ a.atomics.val ≤ b.atomics.val := Iff.rfl
theorem lt_def {a b : Decimal} : a < b ↔ a.atomics.val < b.atomics.val := Iff.rfl

def zero : Decimal := ⟨0⟩
def one : Decimal := ⟨⟨fractional, by decide⟩⟩

instance : Inhabited Decimal := ⟨zero⟩

@[simp] theorem atomics_zero : zero.atomics = 0 := rfl
@[simp] theorem atomics_one : one.atomics.val = fractional := rfl

/-- `Decimal::from_ratio`, truncated; aborts on a zero denominator. -/
def fromRatio (numerator denominator : Uint128) : Except ε Decimal := do
  let atomics ← numerator.multiplyRatio fractional denominator.val
  return ⟨atomics⟩

def add (a b : Decimal) : Except ε Decimal := do
  let atomics ← a.atomics.add b.atomics
  return ⟨atomics⟩

def sub (a b : Decimal) : Except ε Decimal := do
  let atomics ← a.atomics.sub b.atomics
  return ⟨atomics⟩

/-- The 256-bit product of the atomics, divided by `fractional`. -/
def mul (a b : Decimal) : Except ε Decimal := do
  let atomics ← a.atomics.multiplyRatio b.atomics.val fractional
  return ⟨atomics⟩

/-- `Decimal / Uint128`. -/
def divUint (a : Decimal) (b : Uint128) : Except ε Decimal := do
  let atomics ← a.atomics.div b
  return ⟨atomics⟩

/-- The truncated reciprocal, none for zero. -/
def inv (a : Decimal) : Option Decimal :=
  if h : a.atomics = 0 then none
  else some ⟨⟨fractional * fractional / a.atomics.val, by
    refine lt_of_le_of_lt (Nat.div_le_self _ _) (by decide)⟩⟩

theorem add_onlyFaults (a b : Decimal) : OnlyFaults (add a b : Except ε Decimal) :=
  onlyFaults_bind (Uint128.narrow_onlyFaults _) fun _ => onlyFaults_ok _

theorem mul_onlyFaults (a b : Decimal) : OnlyFaults (mul a b : Except ε Decimal) :=
  onlyFaults_bind (Uint128.multiplyRatio_onlyFaults _ _ _) fun _ => onlyFaults_ok _

theorem exists_val {n : ℕ} (h : n < 2 ^ 128) : ∃ d : Decimal, d.atomics.val = n :=
  ⟨⟨⟨n, h⟩⟩, rfl⟩

/-! The only way in which these abort is overflow. -/

theorem add_onlyOverflows (a b : Decimal) : OnlyOverflows (add a b : Except ε Decimal) :=
  onlyOverflows_bind (fun _ => Uint128.add_error) fun _ _ => onlyOverflows_ok _

theorem sub_onlyOverflows (a b : Decimal) : OnlyOverflows (sub a b : Except ε Decimal) :=
  onlyOverflows_bind (fun _ => Uint128.sub_error) fun _ _ => onlyOverflows_ok _

theorem mul_onlyOverflows (a b : Decimal) : OnlyOverflows (mul a b : Except ε Decimal) :=
  onlyOverflows_bind (fun _ => Uint128.multiplyRatio_error fractional_ne_zero)
    fun _ _ => onlyOverflows_ok _

/-- A decimal is its atomics. -/
theorem exists_atomics {p : Uint128 → Prop} {r : Decimal} :
    (∃ u, p u ∧ Decimal.mk u = r) ↔ p r.atomics := by
  constructor
  · rintro ⟨u, hu, rfl⟩
    exact hu
  · intro hr
    exact ⟨r.atomics, hr, rfl⟩

@[simp] theorem fromRatio_eq_ok {n d : Uint128} {r : Decimal} :
    (fromRatio n d : Except ε Decimal) = .ok r ↔
      d.val ≠ 0 ∧ r.atomics.val = n.val * fractional / d.val := by
  simp only [fromRatio, bind_eq_ok, Uint128.multiplyRatio_eq_ok, pure_eq_ok]
  exact exists_atomics

@[simp] theorem add_eq_ok {a b r : Decimal} :
    (add a b : Except ε Decimal) = .ok r ↔
      r.atomics.val = a.atomics.val + b.atomics.val := by
  simp only [add, bind_eq_ok, Uint128.add_eq_ok, pure_eq_ok]
  exact exists_atomics

@[simp] theorem sub_eq_ok {a b r : Decimal} :
    (sub a b : Except ε Decimal) = .ok r ↔
      r.atomics.val + b.atomics.val = a.atomics.val := by
  simp only [sub, bind_eq_ok, Uint128.sub_eq_ok, pure_eq_ok]
  exact exists_atomics

@[simp] theorem mul_eq_ok {a b r : Decimal} :
    (mul a b : Except ε Decimal) = .ok r ↔
      r.atomics.val = a.atomics.val * b.atomics.val / fractional := by
  simp only [mul, bind_eq_ok, Uint128.multiplyRatio_eq_ok, pure_eq_ok]
  exact exists_atomics.trans (and_iff_right fractional_ne_zero)

@[simp] theorem divUint_eq_ok {a r : Decimal} {b : Uint128} :
    (divUint a b : Except ε Decimal) = .ok r ↔
      b ≠ 0 ∧ r.atomics.val = a.atomics.val / b.val := by
  simp only [divUint, bind_eq_ok, Uint128.div_eq_ok, pure_eq_ok]
  exact exists_atomics

/-! ## Powers -/

/-- The loop of `checked_pow`: `x` is squared while `n` is halved, and the odd
factors are collected in `y`. Each round at least halves `n`, so `fuel` rounds
finish every `n < 2 ^ (fuel + 1)`. -/
def powLoop : ℕ → Decimal → Decimal → ℕ → Except ε (Decimal × Decimal)
  | 0, x, y, _ => .ok (x, y)
  | fuel + 1, x, y, n =>
    if n ≤ 1 then .ok (x, y)
    else if n % 2 = 0 then do
      let x ← mul x x
      powLoop fuel x y (n / 2)
    else do
      let y ← mul x y
      let x ← mul x x
      powLoop fuel x y ((n - 1) / 2)

/-- `checked_pow` for a `u32` exponent. -/
def checkedPow (d : Decimal) (n : ℕ) : Except ε Decimal :=
  if n = 0 then .ok one
  else do
    let (x, y) ← powLoop 32 d one n
    mul x y

end Decimal

/-- `Uint128 * Decimal`, truncated; a zero factor gives zero without dividing. -/
def Uint128.mulDecimal {ε : Type} [HasFault ε] (u : Uint128) (d : Decimal) : Except ε Uint128 :=
  if u = 0 ∨ d = Decimal.zero then .ok 0 else u.multiplyRatio d.atomics.val fractional

theorem Uint128.mulDecimal_onlyFaults {ε : Type} [HasFault ε] (u : Uint128) (d : Decimal) :
    OnlyFaults (u.mulDecimal d : Except ε Uint128) := by
  unfold mulDecimal
  split_ifs
  · exact onlyFaults_ok _
  · exact u.multiplyRatio_onlyFaults _ _

@[simp] theorem Uint128.mulDecimal_eq_ok {ε : Type} [HasFault ε] {u v : Uint128} {d : Decimal} :
    (u.mulDecimal d : Except ε Uint128) = .ok v ↔
      v.val = u.val * d.atomics.val / fractional := by
  unfold mulDecimal
  split_ifs with h
  · have hz : u.val * d.atomics.val = 0 := by
      rcases h with rfl | rfl <;> simp
    rw [hz, Nat.zero_div, Except.ok.injEq, Uint128.ext_iff, eq_comm]
    rfl
  · rw [Uint128.multiplyRatio_eq_ok]
    simp [fractional_ne_zero]

end WyndLend.CosmWasm
