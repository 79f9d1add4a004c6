import Mathlib.Data.Finsupp.Weight
import Mathlib.Tactic.Ring

/-!
# Reward accumulators

A reward is shared among holders by weight. Instead of booking every holder's
part when the reward comes in, the accumulator adds up what one unit of weight
has earned so far, and a signed correction for each holder accounts for the
changes of weight. `earned` is the ledger that this stands for: sharing books
the increment for each unit of weight, and a change of weight books nothing.
-/

namespace Rewards

open Finsupp

variable {α : Type*}

structure Accumulator (α : Type*) where
  /-- What one unit of weight has earned so far. -/
  perUnit : ℤ
  weight : α →₀ ℤ
  correction : α →₀ ℤ

namespace Accumulator

variable (l : Accumulator α) (increment : ℤ) (holder : α) (diff : ℤ)

/-- Pay `increment` for every unit of weight. -/
def share : Accumulator α := { l with perUnit := l.perUnit + increment }

/-- New weight has earned nothing yet: its share of the past is corrected away. -/
noncomputable def change : Accumulator α :=
  { l with
    weight := l.weight + single holder diff
    correction := l.correction - single holder (l.perUnit * diff) }

noncomputable def earned : α →₀ ℤ := l.perUnit • l.weight + l.correction

theorem earned_apply :
    l.earned holder = l.perUnit * l.weight holder + l.correction holder := rfl

theorem earned_share : (l.share increment).earned = l.earned + increment • l.weight := by
  change (l.perUnit + increment) • l.weight + l.correction = _
  rw [add_smul, add_right_comm]
  rfl

theorem earned_change : (l.change holder diff).earned = l.earned := by
  ext a
  simp only [earned, change, coe_add, coe_smul, coe_sub, Pi.add_apply, Pi.smul_apply,
    Pi.sub_apply, smul_eq_mul]
  by_cases h : holder = a
  · subst h
    rw [single_eq_same, single_eq_same]
    ring
  · rw [single_eq_of_ne' h, single_eq_of_ne' h]
    ring

end Accumulator

/-! ## Paying out

Holders are paid in whole coins of `scale` points.
-/

theorem sum_le_degree {f : α →₀ ℤ} (h : ∀ a, 0 ≤ f a) (accounts : Finset α) :
    ∑ a ∈ accounts, f a ≤ f.degree := by
  classical
  rw [degree_apply, ← Finset.sum_filter_add_sum_filter_not accounts (· ∈ f.support)]
  have hzero : ∑ a ∈ accounts with a ∉ f.support, f a = 0 :=
    Finset.sum_eq_zero fun a ha => notMem_support_iff.mp (Finset.mem_filter.mp ha).2
  rw [hzero, add_zero]
  refine Finset.sum_le_sum_of_subset_of_nonneg (fun a ha => (Finset.mem_filter.mp ha).2) ?_
  intro a _ _
  exact h a

/-- What is paid out in whole coins never exceeds what was earned. -/
theorem sum_div_le_degree_div {f : α →₀ ℤ} {scale : ℤ} (hs : 0 < scale) (h : ∀ a, 0 ≤ f a)
    (accounts : Finset α) : ∑ a ∈ accounts, f a / scale ≤ f.degree / scale := by
  refine (Int.le_ediv_iff_mul_le hs).mpr ?_
  calc (∑ a ∈ accounts, f a / scale) * scale
      = ∑ a ∈ accounts, f a / scale * scale := Finset.sum_mul _ _ _
    _ ≤ ∑ a ∈ accounts, f a := by
      refine Finset.sum_le_sum fun a _ => ?_
      exact Int.ediv_mul_le (f a) hs.ne'
    _ ≤ f.degree := sum_le_degree h accounts

/-! ## Carried remainders

The increment is what an amount gives to each of a number of units; what does not divide is
kept for the next amount. So it does not matter how an amount is split up.
-/

/-- What one unit has got so far, and what is left over. -/
@[ext] structure Carry where
  perUnit : ℕ
  leftover : ℕ

namespace Carry

/-- Share an amount together with the leftover; nothing happens without an amount. -/
def share (units amount : ℕ) (c : Carry) : Carry :=
  if amount = 0 then c
  else ⟨c.perUnit + (amount + c.leftover) / units, (amount + c.leftover) % units⟩

@[simp] theorem share_zero (units : ℕ) (c : Carry) : c.share units 0 = c := if_pos rfl

theorem perUnit_le_share (units amount : ℕ) (c : Carry) :
    c.perUnit ≤ (c.share units amount).perUnit := by
  unfold share
  split_ifs
  · exact le_rfl
  · exact Nat.le_add_right _ _

/-- Two amounts in turn are their sum at once. -/
theorem share_share {units : ℕ} (hu : 0 < units) (a b : ℕ) (c : Carry) :
    (c.share units a).share units b = c.share units (a + b) := by
  by_cases ha : a = 0
  · rw [ha, share_zero, Nat.zero_add]
  by_cases hb : b = 0
  · rw [hb, share_zero, Nat.add_zero]
  have hab : a + b ≠ 0 := by omega
  have hsum : a + b + c.leftover =
      b + (a + c.leftover) % units + units * ((a + c.leftover) / units) := by
    have hsplit := Nat.div_add_mod (a + c.leftover) units
    omega
  unfold share
  rw [if_neg ha, if_neg hb, if_neg hab, hsum, Nat.add_mul_div_left _ _ hu,
    Nat.add_mul_mod_self_left, Nat.add_assoc, Nat.add_comm (_ / units)]

end Carry

end Rewards
