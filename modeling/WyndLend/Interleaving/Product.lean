import Mathlib.Logic.Function.Basic
import Mathlib.Data.List.Basic

/-!
# Interleavings

A state that is made up of components, and inputs that each move the component at one place.
An execution of the whole is nothing but an execution of every component on its own inputs,
so inputs for different components may be interleaved in any way.
-/

namespace Interleaving

variable {κ ι σ : Type}

/-- The inputs are executed one after the other. -/
inductive Exec (R : ι → σ → σ → Prop) : List ι → σ → σ → Prop where
  | nil (s : σ) : Exec R [] s s
  | cons {i : ι} {is : List ι} {s u t : σ} : R i s u → Exec R is u t → Exec R (i :: is) s t

namespace Exec

variable {R : ι → σ → σ → Prop} {i : ι} {is js : List ι} {s u t : σ}

@[simp] theorem nil_iff : Exec R [] s t ↔ s = t := by
  constructor
  · rintro ⟨⟩
    rfl
  · rintro rfl
    exact .nil s

@[simp] theorem cons_iff : Exec R (i :: is) s t ↔ ∃ u, R i s u ∧ Exec R is u t := by
  constructor
  · rintro ⟨⟩
    exact ⟨_, ‹_›, ‹_›⟩
  · rintro ⟨u, hi, his⟩
    exact .cons hi his

theorem append_iff : Exec R (is ++ js) s t ↔ ∃ u, Exec R is s u ∧ Exec R js u t := by
  induction is generalizing s with
  | nil => simp
  | cons i is ih =>
    simp only [List.cons_append, cons_iff, ih]
    grind

/-- Inputs that stand for other inputs. -/
theorem map_iff {ι' : Type} {f : ι' → ι} {is : List ι'} :
    Exec R (is.map f) s t ↔ Exec (fun i => R (f i)) is s t := by
  induction is generalizing s with
  | nil => simp
  | cons i is ih => simp [ih]

end Exec

variable [DecidableEq κ]

/-- The inputs at one place, in their order. -/
def project (place : ι → κ) (k : κ) (is : List ι) : List ι := is.filter fun i => place i = k

/-- The input moves the component at its place and leaves the others alone. -/
structure Moves (place : ι → κ) (R : ι → σ → σ → Prop) (i : ι) (s t : κ → σ) : Prop where
  moved : R i (s (place i)) (t (place i))
  kept : ∀ k, k ≠ place i → t k = s k

variable {place : ι → κ} {R : ι → σ → σ → Prop} {i : ι} {is js : List ι} {s t : κ → σ} {k : κ}

@[simp] theorem project_nil : project place k ([] : List ι) = [] := rfl

theorem project_cons : project place k (i :: is) =
    if place i = k then i :: project place k is else project place k is := by
  simp [project, List.filter_cons]

/-- Whoever moves its component moves the whole. -/
theorem moves_update {u : σ} (h : R i (s (place i)) u) :
    Moves place R i s (Function.update s (place i) u) where
  moved := by simpa using h
  kept k hk := Function.update_of_ne hk u s

theorem exec_iff : Exec (Moves place R) is s t ↔
    ∀ k, Exec R (project place k is) (s k) (t k) := by
  induction is generalizing s with
  | nil => simp [funext_iff]
  | cons i is ih =>
    simp only [Exec.cons_iff, ih, project_cons]
    constructor
    · rintro ⟨u, hmoves, hrest⟩ k
      split_ifs with hk
      · subst hk
        exact .cons hmoves.moved (hrest _)
      · rw [← hmoves.kept k (Ne.symm hk)]
        exact hrest k
    · intro h
      obtain ⟨u, hu, hrest⟩ : ∃ u, R i (s (place i)) u ∧
          Exec R (project place (place i) is) u (t (place i)) := by simpa using h (place i)
      refine ⟨_, moves_update hu, fun k => ?_⟩
      by_cases hk : k = place i
      · subst hk
        simpa using hrest
      · rw [Function.update_of_ne hk]
        simpa [Ne.symm hk] using h k

/-- Only the order at each place matters. -/
theorem exec_reorder (h : ∀ k, project place k is = project place k js) :
    Exec (Moves place R) is s t ↔ Exec (Moves place R) js s t := by
  simp only [exec_iff, h]

end Interleaving
