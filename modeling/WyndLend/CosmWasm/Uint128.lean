import WyndLend.CosmWasm.Checked
import Mathlib.Order.Basic
import Mathlib.Tactic.Linarith

/-!
# `Uint128`

A 128-bit unsigned amount carries its bound, so an amount out of range cannot be
built. The operators of `Uint128` check their results in every build. Each operation
is described by one lemma that says when it succeeds and what its value is as a
natural number.
-/

namespace WyndLend.CosmWasm

/-- `cosmwasm_std::Uint128`. -/
@[ext] structure Uint128 where
  val : ℕ
  isLt : val < 2 ^ 128
  deriving DecidableEq

namespace Uint128

variable {ε : Type} [HasFault ε]

instance : LinearOrder Uint128 :=
  LinearOrder.lift' val fun _ _ h => Uint128.ext h

theorem le_def {a b : Uint128} : a ≤ b ↔ a.val ≤ b.val := Iff.rfl
theorem lt_def {a b : Uint128} : a < b ↔ a.val < b.val := Iff.rfl

theorem val_max (a b : Uint128) : (max a b).val = max a.val b.val := by
  rcases le_total a b with h | h
  · rw [max_eq_right h, max_eq_right (le_def.mp h)]
  · rw [max_eq_left h, max_eq_left (le_def.mp h)]

instance (n : ℕ) : OfNat Uint128 n := ⟨⟨n % 2 ^ 128, Nat.mod_lt _ (by decide)⟩⟩

@[simp] theorem val_zero : (0 : Uint128).val = 0 := rfl
@[simp] theorem val_one : (1 : Uint128).val = 1 := rfl

/-- Every number that fits is the value of an amount. -/
theorem exists_val {n : ℕ} (h : n < 2 ^ 128) : ∃ u : Uint128, u.val = n := ⟨⟨n, h⟩, rfl⟩

theorem exists_rest {a b : Uint128} (h : b ≤ a) : ∃ rest : Uint128, rest.val + b.val = a.val := by
  rw [le_def] at h
  obtain ⟨rest, hrest⟩ := exists_val (lt_of_le_of_lt (Nat.sub_le a.val b.val) a.isLt)
  exact ⟨rest, by omega⟩

instance : Inhabited Uint128 := ⟨0⟩

@[simp] theorem val_eq_zero {a : Uint128} : a.val = 0 ↔ a = 0 :=
  ⟨fun h => Uint128.ext h, fun h => by rw [h]; rfl⟩

theorem val_pos {a : Uint128} : 0 < a.val ↔ a ≠ 0 := by
  rw [Nat.pos_iff_ne_zero, ne_eq, val_eq_zero]

/-- Keep a number that fits in 128 bits; abort on any other. -/
def narrow (n : ℕ) : Except ε Uint128 :=
  if h : n < 2 ^ 128 then .ok ⟨n, h⟩ else .error (HasFault.fault .overflow)

@[simp] theorem narrow_eq_ok {n : ℕ} {u : Uint128} :
    (narrow n : Except ε Uint128) = .ok u ↔ u.val = n := by
  unfold narrow
  split_ifs with h
  · rw [Except.ok.injEq, Uint128.ext_iff]
    exact eq_comm
  · refine ⟨nofun, fun hu => absurd u.isLt ?_⟩
    rwa [hu]

def add (a b : Uint128) : Except ε Uint128 := narrow (a.val + b.val)

/-- Subtraction aborts below zero. -/
def sub (a b : Uint128) : Except ε Uint128 :=
  if b.val ≤ a.val then narrow (a.val - b.val) else .error (HasFault.fault .overflow)

def mul (a b : Uint128) : Except ε Uint128 := narrow (a.val * b.val)

def div (a b : Uint128) : Except ε Uint128 :=
  if b = 0 then .error (HasFault.fault .divideByZero) else narrow (a.val / b.val)

def rem (a b : Uint128) : Except ε Uint128 :=
  if b = 0 then .error (HasFault.fault .divideByZero) else narrow (a.val % b.val)

def saturatingSub (a b : Uint128) : Uint128 :=
  ⟨a.val - b.val, lt_of_le_of_lt (Nat.sub_le _ _) a.isLt⟩

/-- `self * numerator / denominator` with a 256-bit product, truncated. -/
def multiplyRatio (a : Uint128) (numerator denominator : ℕ) : Except ε Uint128 :=
  if denominator = 0 then .error (HasFault.fault .divideByZero)
  else narrow (a.val * numerator / denominator)

theorem narrow_error {n : ℕ} {e : ε} (h : narrow n = .error e) :
    e = HasFault.fault .overflow := by
  unfold narrow at h
  split_ifs at h
  cases h
  rfl

theorem narrow_onlyFaults (n : ℕ) : OnlyFaults (narrow n : Except ε Uint128) := by
  unfold narrow
  split_ifs
  · exact onlyFaults_ok _
  · exact onlyFaults_fault _

theorem sub_onlyFaults (a b : Uint128) : OnlyFaults (sub a b : Except ε Uint128) := by
  unfold sub
  split_ifs
  · exact narrow_onlyFaults _
  · exact onlyFaults_fault _

theorem multiplyRatio_onlyFaults (a : Uint128) (n d : ℕ) :
    OnlyFaults (multiplyRatio a n d : Except ε Uint128) := by
  unfold multiplyRatio
  split_ifs
  · exact onlyFaults_fault _
  · exact narrow_onlyFaults _

@[simp] theorem add_eq_ok {a b c : Uint128} :
    (add a b : Except ε Uint128) = .ok c ↔ c.val = a.val + b.val := narrow_eq_ok

theorem add_error {a b : Uint128} {e : ε} (h : add a b = .error e) :
    e = HasFault.fault .overflow :=
  narrow_error h

theorem sub_error {a b : Uint128} {e : ε} (h : sub a b = .error e) :
    e = HasFault.fault .overflow := by
  unfold sub at h
  split_ifs at h
  · exact narrow_error h
  · cases h
    rfl

@[simp] theorem sub_eq_ok {a b c : Uint128} :
    (sub a b : Except ε Uint128) = .ok c ↔ c.val + b.val = a.val := by
  unfold sub
  split_ifs with h
  · rw [narrow_eq_ok]; omega
  · exact ⟨nofun, fun hc => absurd (Nat.le.intro ((Nat.add_comm _ _).trans hc)) h⟩

@[simp] theorem mul_eq_ok {a b c : Uint128} :
    (mul a b : Except ε Uint128) = .ok c ↔ c.val = a.val * b.val := narrow_eq_ok

@[simp] theorem div_eq_ok {a b c : Uint128} :
    (div a b : Except ε Uint128) = .ok c ↔ b ≠ 0 ∧ c.val = a.val / b.val := by
  unfold div
  split_ifs with h <;> simp [h]

@[simp] theorem rem_eq_ok {a b c : Uint128} :
    (rem a b : Except ε Uint128) = .ok c ↔ b ≠ 0 ∧ c.val = a.val % b.val := by
  unfold rem
  split_ifs with h <;> simp [h]

@[simp] theorem val_saturatingSub {a b : Uint128} :
    (saturatingSub a b).val = a.val - b.val := rfl

theorem multiplyRatio_error {a : Uint128} {n d : ℕ} {e : ε} (hd : d ≠ 0)
    (h : multiplyRatio a n d = .error e) : e = HasFault.fault .overflow := by
  unfold multiplyRatio at h
  rw [if_neg hd] at h
  exact narrow_error h

@[simp] theorem multiplyRatio_eq_ok {a c : Uint128} {n d : ℕ} :
    (multiplyRatio a n d : Except ε Uint128) = .ok c ↔ d ≠ 0 ∧ c.val = a.val * n / d := by
  unfold multiplyRatio
  split_ifs with h <;> simp [h]

end Uint128

end WyndLend.CosmWasm
