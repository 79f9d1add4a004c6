import WyndLend.CosmWasm.Storage
import Mathlib.Data.Finsupp.Weight

/-!
# Stored numbers as functions

A map of stored values, read as a function that is zero on absent keys. Its
`degree` is the sum over all keys, and a save changes it at one key.
-/

namespace WyndLend.CosmWasm.Map

open Finsupp

variable {κ ν : Type} [DecidableEq κ] (f : ν → ℤ) (m : Map κ ν)

/-- `f` of the value stored under each key. -/
noncomputable def tally : κ →₀ ℤ :=
  Finsupp.onFinset m.keys.toFinset (fun k => (mayLoad m k).elim 0 f) (by
    intro k hk
    rw [List.mem_toFinset]
    by_contra h
    rw [mayLoad, AList.lookup_eq_none.mpr h] at hk
    exact hk rfl)

theorem tally_apply (k : κ) : tally f m k = (mayLoad m k).elim 0 f := rfl

@[simp] theorem tally_empty : tally f (∅ : Map κ ν) = 0 := by
  ext k
  rw [tally_apply, mayLoad_empty]
  rfl

theorem tally_save (k : κ) (v : ν) :
    tally f (save m k v) = tally f m + single k (f v - tally f m k) := by
  ext k'
  rw [coe_add, Pi.add_apply, tally_apply, mayLoad_save]
  by_cases h : k = k'
  · subst h
    rw [if_pos rfl, single_eq_same]
    exact (add_sub_cancel _ _).symm
  · rw [if_neg (Ne.symm h), single_eq_of_ne' h, add_zero]
    rfl

/-- The sum over all keys is the sum over the stored values. -/
theorem degree_tally (f : ν → ℕ) (m : Map κ ν) :
    (tally (fun v => (f v : ℤ)) m).degree = (sum f m : ℤ) := by
  induction m using AList.insertRec with
  | H0 => rw [tally_empty, map_zero, sum_empty, Nat.cast_zero]
  | IH k v m hk ih =>
    have hnone : mayLoad m k = none := AList.lookup_eq_none.mpr hk
    have hsum := sum_save f m k v
    have htally := tally_save (fun v => (f v : ℤ)) m k v
    unfold save at hsum htally
    rw [hnone] at hsum
    rw [tally_apply, hnone] at htally
    rw [htally, map_add, degree_single, ih]
    simp only [Option.elim_none] at hsum ⊢
    omega

end WyndLend.CosmWasm.Map
