import WyndLend.CosmWasm.Uint128
import Mathlib.Data.List.AList
import Mathlib.Data.List.Sort
import Mathlib.Algebra.BigOperators.Group.List.Basic
import Mathlib.Data.String.Basic

/-!
# Contract storage

`Map` stands for `cw_storage_plus::Map`: finitely many entries, at most one for
each key. `BTreeSet` is the ordered set of the Rust standard library. Addresses
are strings, compared byte by byte.
-/

namespace WyndLend.CosmWasm

/-- `cosmwasm_std::Addr`. -/
abbrev Addr := String

abbrev Map (κ ν : Type) := AList fun _ : κ => ν

namespace Map

variable {κ ν : Type}

/-- The sum of `f` over the stored values. -/
def sum (f : ν → ℕ) (m : Map κ ν) : ℕ := (m.entries.map fun e => f e.2).sum

@[simp] theorem sum_empty (f : ν → ℕ) : sum f (∅ : Map κ ν) = 0 := rfl

/-- `range` over all keys, ascending. -/
def range [LinearOrder κ] (m : Map κ ν) : List (κ × ν) :=
  (m.entries.map fun e => (e.1, e.2)).insertionSort fun a b => a.1 ≤ b.1

theorem range_sorted [LinearOrder κ] (m : Map κ ν) : m.range.Pairwise fun a b => a.1 < b.1 := by
  have hsorted : m.range.Pairwise fun a b => a.1 ≤ b.1 := List.pairwise_insertionSort _ _
  have hkeys : (m.range.map Prod.fst).Nodup := by
    have hperm := (List.perm_insertionSort (fun a b : κ × ν => a.1 ≤ b.1)
      (m.entries.map fun e => (e.1, e.2))).map Prod.fst
    refine hperm.nodup_iff.mpr ?_
    rw [List.map_map]
    exact m.nodupKeys
  rw [List.Nodup, List.pairwise_map] at hkeys
  exact (hsorted.and hkeys).imp fun h => lt_of_le_of_ne h.1 h.2

variable [DecidableEq κ]

def mayLoad (m : Map κ ν) (k : κ) : Option ν := m.lookup k

def save (m : Map κ ν) (k : κ) (v : ν) : Map κ ν := m.insert k v

@[simp] theorem mayLoad_empty (k : κ) : mayLoad (∅ : Map κ ν) k = none := AList.lookup_empty k

@[simp] theorem mayLoad_save_self (m : Map κ ν) (k : κ) (v : ν) :
    mayLoad (save m k v) k = some v := AList.lookup_insert m

theorem mayLoad_save_ne (m : Map κ ν) {k k' : κ} (v : ν) (h : k' ≠ k) :
    mayLoad (save m k v) k' = mayLoad m k' := AList.lookup_insert_ne h

theorem mayLoad_save (m : Map κ ν) (k k' : κ) (v : ν) :
    mayLoad (save m k v) k' = if k' = k then some v else mayLoad m k' := by
  split_ifs with h
  · rw [h, mayLoad_save_self]
  · exact mayLoad_save_ne m v h

theorem mem_range [LinearOrder κ] {m : Map κ ν} {k : κ} {v : ν} :
    (k, v) ∈ m.range ↔ mayLoad m k = some v := by
  unfold range mayLoad
  rw [List.mem_insertionSort, List.mem_map, ← Option.mem_def, AList.mem_lookup_iff]
  constructor
  · rintro ⟨⟨k', v'⟩, he, heq⟩
    cases heq
    exact he
  · exact fun he => ⟨⟨k, v⟩, he, rfl⟩

private theorem sum_kerase (f : ν → ℕ) (k : κ) (l : List (Sigma fun _ : κ => ν)) :
    ((l.kerase k).map fun e => f e.2).sum + (l.dlookup k).elim 0 f =
      (l.map fun e => f e.2).sum := by
  induction l with
  | nil => rfl
  | cons e l ih =>
    by_cases h : k = e.1
    · subst h
      rw [List.kerase_cons_eq rfl, List.dlookup_cons_eq, List.map_cons, List.sum_cons]
      exact Nat.add_comm _ _
    · rw [List.kerase_cons_ne h, List.dlookup_cons_ne _ _ h, List.map_cons, List.map_cons,
        List.sum_cons, List.sum_cons, ← ih, Nat.add_assoc]

/-- Saving replaces the old value's share of the sum by the new one's. -/
theorem sum_save (f : ν → ℕ) (m : Map κ ν) (k : κ) (v : ν) :
    sum f (save m k v) + (mayLoad m k).elim 0 f = sum f m + f v := by
  have h := sum_kerase f k m.entries
  unfold sum save mayLoad AList.lookup
  rw [AList.entries_insert, List.map_cons, List.sum_cons]
  dsimp only
  omega

/-- One stored value is at most the sum. -/
theorem le_sum (f : ν → ℕ) (m : Map κ ν) (k : κ) : (mayLoad m k).elim 0 f ≤ sum f m := by
  have h := sum_kerase f k m.entries
  unfold sum mayLoad AList.lookup
  omega

end Map

/-- `std::collections::BTreeSet`: its elements in strictly ascending order. -/
@[ext] structure BTreeSet (α : Type) [LinearOrder α] where
  toList : List α
  sorted : toList.Pairwise (· < ·)

namespace BTreeSet

variable {α : Type} [LinearOrder α]

instance : Membership α (BTreeSet α) := ⟨fun s a => a ∈ s.toList⟩

theorem mem_def {a : α} {s : BTreeSet α} : a ∈ s ↔ a ∈ s.toList := Iff.rfl

instance (a : α) (s : BTreeSet α) : Decidable (a ∈ s) := inferInstanceAs (Decidable (a ∈ s.toList))

instance : EmptyCollection (BTreeSet α) := ⟨⟨[], .nil⟩⟩

@[simp] theorem not_mem_empty (a : α) : a ∉ (∅ : BTreeSet α) := List.not_mem_nil

/-- Insert into an ascending list, unless the element is there. -/
def insertList (a : α) : List α → List α
  | [] => [a]
  | b :: l => if a < b then a :: b :: l else if a = b then b :: l else b :: insertList a l

theorem mem_insertList {a b : α} {l : List α} : b ∈ insertList a l ↔ b = a ∨ b ∈ l := by
  induction l with
  | nil => simp [insertList]
  | cons c l ih =>
    unfold insertList
    split_ifs with h1 h2
    · simp
    · subst h2; simp
    · rw [List.mem_cons, ih, List.mem_cons]
      tauto

theorem sorted_insertList {a : α} {l : List α} (h : l.Pairwise (· < ·)) :
    (insertList a l).Pairwise (· < ·) := by
  induction l with
  | nil => exact List.pairwise_singleton _ _
  | cons b l ih =>
    obtain ⟨hb, hl⟩ := List.pairwise_cons.mp h
    unfold insertList
    split_ifs with h1 h2
    · refine List.pairwise_cons.mpr ⟨fun c hc => ?_, h⟩
      rcases List.mem_cons.mp hc with rfl | hc
      · exact h1
      · exact h1.trans (hb c hc)
    · exact h
    · refine List.pairwise_cons.mpr ⟨fun c hc => ?_, ih hl⟩
      rcases mem_insertList.mp hc with rfl | hc
      · exact lt_of_le_of_ne (not_lt.mp h1) (Ne.symm h2)
      · exact hb c hc

def insert (s : BTreeSet α) (a : α) : BTreeSet α :=
  ⟨insertList a s.toList, sorted_insertList s.sorted⟩

def remove (s : BTreeSet α) (a : α) : BTreeSet α :=
  ⟨s.toList.erase a, s.sorted.sublist List.erase_sublist⟩

theorem nodup (s : BTreeSet α) : s.toList.Nodup :=
  s.sorted.imp fun h => ne_of_lt h

@[simp] theorem mem_insert {s : BTreeSet α} {a b : α} : b ∈ s.insert a ↔ b = a ∨ b ∈ s :=
  mem_insertList

@[simp] theorem mem_remove {s : BTreeSet α} {a b : α} : b ∈ s.remove a ↔ b ≠ a ∧ b ∈ s :=
  List.Nodup.mem_erase_iff s.nodup

end BTreeSet

end WyndLend.CosmWasm
