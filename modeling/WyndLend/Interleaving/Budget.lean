import Mathlib.Algebra.Order.BigOperators.Group.List
import Mathlib.Algebra.Order.Group.Nat
import Mathlib.Algebra.Ring.Nat
import WyndLend.Interleaving.Product

/-!
# Inputs that draw on one budget

Inputs of different owners, each of which needs something of its owner's own and takes its
cost out of a budget that all of them share. What one owner does leaves the others what is
their own, so the budget is all that they compete for.
-/

namespace Interleaving

variable {ι κ σ : Type}

/-- In the states of the invariant an input works as soon as its owner has what it needs and
the budget covers the cost. -/
structure Draws (R : ι → σ → σ → Prop) (I : σ → Prop) (owner : ι → κ) (needs : ι → σ → Prop)
    (cost : ι → ℕ) (budget : σ → ℕ) : Prop where
  enabled : ∀ {i s}, I s → ((∃ t, R i s t) ↔ needs i s ∧ cost i ≤ budget s)
  keeps : ∀ {i s t}, I s → R i s t → I t
  paid : ∀ {i s t}, I s → R i s t → budget t + cost i = budget s
  frame : ∀ {i j s t}, I s → R i s t → owner j ≠ owner i → (needs j t ↔ needs j s)

namespace Draws

variable {R : ι → σ → σ → Prop} {I : σ → Prop} {owner : ι → κ} {needs : ι → σ → Prop}
  {cost : ι → ℕ} {budget : σ → ℕ} {is : List ι} {s t : σ}

theorem exec_needs_iff (hd : Draws R I owner needs cost budget) (hs : I s)
    (howners : (is.map owner).Nodup) :
    (∃ t, Exec R is s t) ↔ (∀ i ∈ is, needs i s) ∧ (is.map cost).sum ≤ budget s := by
  induction is generalizing s with
  | nil => simp
  | cons i is ih =>
    rw [List.map_cons, List.nodup_cons] at howners
    obtain ⟨hi, howners⟩ := howners
    have hframe : ∀ {u}, R i s u → ((∀ j ∈ is, needs j u) ↔ ∀ j ∈ is, needs j s) := by
      intro u hu
      refine forall₂_congr fun j hj => hd.frame hs hu ?_
      intro heq
      exact hi (heq ▸ List.mem_map_of_mem hj)
    simp only [Exec.cons_iff, List.forall_mem_cons, List.map_cons, List.sum_cons]
    constructor
    · rintro ⟨t, u, hu, hrest⟩
      obtain ⟨hneeds, hsum⟩ := (ih (hd.keeps hs hu) howners).mp ⟨t, hrest⟩
      have hpaid := hd.paid hs hu
      exact ⟨⟨((hd.enabled hs).mp ⟨u, hu⟩).1, (hframe hu).mp hneeds⟩, by omega⟩
    · rintro ⟨⟨hneeds, hothers⟩, hsum⟩
      obtain ⟨u, hu⟩ := (hd.enabled hs).mpr ⟨hneeds, by omega⟩
      have hpaid := hd.paid hs hu
      obtain ⟨t, hrest⟩ := (ih (hd.keeps hs hu) howners).mpr ⟨(hframe hu).mpr hothers, by omega⟩
      exact ⟨t, u, hu, hrest⟩

/-- Inputs of different owners work one after the other if and only if each of them works on
its own and the budget covers all of them. -/
theorem exec_iff (hd : Draws R I owner needs cost budget) (hs : I s)
    (howners : (is.map owner).Nodup) :
    (∃ t, Exec R is s t) ↔ (∀ i ∈ is, ∃ t, R i s t) ∧ (is.map cost).sum ≤ budget s := by
  rw [hd.exec_needs_iff hs howners]
  refine and_congr_left fun hsum => forall₂_congr fun i hi => ?_
  rw [hd.enabled hs]
  have hcost : cost i ≤ (is.map cost).sum :=
    List.single_le_sum (fun _ _ => Nat.zero_le _) _ (List.mem_map_of_mem hi)
  exact (and_iff_left (hcost.trans hsum)).symm

end Draws

end Interleaving
