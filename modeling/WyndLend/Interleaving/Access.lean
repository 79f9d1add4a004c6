import Mathlib.Data.Set.Lattice
import Mathlib.Logic.Relation
import Mathlib.Order.CompletePartialOrder
import WyndLend.Interleaving.Product

/-!
# What inputs read and write

A state that is looked at part by part, and inputs that come with the parts that they read
and those that they write. What an input does depends on what it reads alone, so inputs may
be swapped where neither writes what the other one reads, and whatever there is in parts that
nothing reads, the others go on in the same way.
-/

namespace Interleaving

variable {κ ι σ ν : Type}

/-- The states look the same in the parts. -/
def AgreeOn (view : κ → σ → ν) (parts : Set κ) (s t : σ) : Prop :=
  ∀ k ∈ parts, view k s = view k t

namespace AgreeOn

variable {view : κ → σ → ν} {parts parts' : Set κ} {s t u : σ}

theorem refl (s : σ) : AgreeOn view parts s s := fun _ _ => rfl

theorem symm (h : AgreeOn view parts s t) : AgreeOn view parts t s := fun k hk => (h k hk).symm

theorem trans (h : AgreeOn view parts s t) (h' : AgreeOn view parts t u) :
    AgreeOn view parts s u := fun k hk => (h k hk).trans (h' k hk)

theorem mono (h : AgreeOn view parts s t) (hsub : parts' ⊆ parts) : AgreeOn view parts' s t :=
  fun k hk => h k (hsub hk)

end AgreeOn

/-- An input leaves alone what it does not write, and what it does depends on what it reads.
What it writes counts as read. -/
structure Accesses (view : κ → σ → ν) (R : ι → σ → σ → Prop) (reads writes : ι → σ → Set κ) :
    Prop where
  subset : ∀ {i s}, writes i s ⊆ reads i s
  frame : ∀ {i s t}, R i s t → AgreeOn view (writes i s)ᶜ s t
  congr : ∀ {i s t u}, R i s t → AgreeOn view (reads i s) s u →
    ∃ v, R i u v ∧ AgreeOn view (reads i s) t v
  reads_congr : ∀ {i s u}, AgreeOn view (reads i s) s u → reads i u = reads i s
  writes_congr : ∀ {i s u}, AgreeOn view (reads i s) s u → writes i u = writes i s

/-- Neither input writes what the other one reads. -/
def Independent (reads writes : ι → σ → Set κ) (i j : ι) (s : σ) : Prop :=
  Disjoint (writes i s) (reads j s) ∧ Disjoint (writes j s) (reads i s)

/-- Two schedules that differ by one swap of neighbours that are independent when their turn
comes. -/
def Swapped (R : ι → σ → σ → Prop) (reads writes : ι → σ → Set κ) (s : σ) (is js : List ι) :
    Prop :=
  ∃ before i j after, is = before ++ i :: j :: after ∧ js = before ++ j :: i :: after ∧
    ∀ u, Exec R before s u → Independent reads writes i j u

namespace Accesses

variable {view : κ → σ → ν} {R : ι → σ → σ → Prop} {reads writes : ι → σ → Set κ}
  {i j : ι} {is js : List ι} {s t u : σ} {parts : Set κ}

/-- The same input leads from states that agree in what it reads to states that agree in all
that they agreed in before. -/
theorem follow (h : Accesses view R reads writes) (hi : R i s t) (hsub : reads i s ⊆ parts)
    (hagree : AgreeOn view parts s u) : ∃ v, R i u v ∧ AgreeOn view parts t v := by
  have hreads := hagree.mono hsub
  obtain ⟨v, hv, hsame⟩ := h.congr hi hreads
  refine ⟨v, hv, fun k hk => ?_⟩
  by_cases hread : k ∈ reads i s
  · exact hsame k hread
  · have hkept : k ∉ writes i s := fun hw => hread (h.subset hw)
    have hkept' : k ∉ writes i u := by rwa [h.writes_congr hreads]
    calc view k t = view k s := (h.frame hi k hkept).symm
      _ = view k u := hagree k hk
      _ = view k v := h.frame hv k hkept'

/-- What an input does not read does not matter to it, and it stays as it is. -/
theorem spare (h : Accesses view R reads writes) (hi : R i s t)
    (hspares : Disjoint (reads i s) parts) (hagree : AgreeOn view partsᶜ s u) :
    ∃ v, R i u v ∧ AgreeOn view partsᶜ t v ∧ AgreeOn view parts s t ∧ AgreeOn view parts u v := by
  have hsub : reads i s ⊆ partsᶜ := Set.subset_compl_iff_disjoint_right.mpr hspares
  obtain ⟨v, hv, hsame⟩ := h.follow hi hsub hagree
  have hout : ∀ k ∈ parts, k ∉ writes i s := fun k hk hw => hsub (h.subset hw) hk
  have hout' : ∀ k ∈ parts, k ∉ writes i u := by
    rwa [h.writes_congr (hagree.mono hsub)]
  exact ⟨v, hv, hsame, fun k hk => h.frame hi k (hout k hk),
    fun k hk => h.frame hv k (hout' k hk)⟩

/-- Independent inputs commute. -/
theorem commute (h : Accesses view R reads writes) (hi : R i s t) (hj : R j t u)
    (hindep : Independent reads writes i j s) :
    ∃ t' u', R j s t' ∧ R i t' u' ∧ AgreeOn view Set.univ u u' := by
  obtain ⟨hij, hji⟩ := hindep
  have hjreads : AgreeOn view (reads j s) s t :=
    (h.frame hi).mono (Set.subset_compl_iff_disjoint_left.mpr hij)
  have hwj : writes j t = writes j s := h.writes_congr hjreads
  have hback : AgreeOn view (reads j t) t s := by
    rw [h.reads_congr hjreads]
    exact hjreads.symm
  obtain ⟨t', ht', hsame⟩ := h.congr hj hback
  rw [h.reads_congr hjreads] at hsame
  have hireads : AgreeOn view (reads i s) s t' :=
    (h.frame ht').mono (Set.subset_compl_iff_disjoint_left.mpr hji)
  have hwi : writes i t' = writes i s := h.writes_congr hireads
  obtain ⟨u', hu', hsame'⟩ := h.congr hi hireads
  refine ⟨t', u', ht', hu', fun k _ => ?_⟩
  by_cases hk : k ∈ writes i s
  · -- what `i` has written is left alone by `j`, before and after
    have hkj : k ∉ writes j t := by
      rw [hwj]
      exact fun hw => hij.le_bot ⟨hk, h.subset hw⟩
    exact (h.frame hj k hkj).symm.trans (hsame' k (h.subset hk))
  · have hki : k ∉ writes i t' := by rwa [hwi]
    rw [← h.frame hu' k hki]
    by_cases hkj : k ∈ reads j s
    · exact hsame k hkj
    · have hw : k ∉ writes j s := fun hw => hkj (h.subset hw)
      have hw' : k ∉ writes j t := by rwa [hwj]
      calc view k u = view k t := (h.frame hj k hw').symm
        _ = view k s := (h.frame hi k hk).symm
        _ = view k t' := h.frame ht' k hw

/-- States that look the same everywhere have the same executions. -/
theorem exec_congr (h : Accesses view R reads writes) (he : Exec R is s t)
    (hagree : AgreeOn view Set.univ s u) : ∃ v, Exec R is u v ∧ AgreeOn view Set.univ t v := by
  induction he generalizing u with
  | nil => exact ⟨u, .nil u, hagree⟩
  | cons hi _ ih =>
    obtain ⟨v, hv, hsame⟩ := h.follow hi (Set.subset_univ _) hagree
    obtain ⟨w, hw, hsame'⟩ := ih hsame
    exact ⟨w, .cons hv hw, hsame'⟩

theorem exec_swapped (h : Accesses view R reads writes) (he : Exec R is s t)
    (hswap : Swapped R reads writes s is js) :
    ∃ t', Exec R js s t' ∧ AgreeOn view Set.univ t t' := by
  obtain ⟨before, i, j, after, rfl, rfl, hindep⟩ := hswap
  obtain ⟨u, hbefore, hrest⟩ := Exec.append_iff.mp he
  obtain ⟨v, hi, hrest⟩ := Exec.cons_iff.mp hrest
  obtain ⟨w, hj, hafter⟩ := Exec.cons_iff.mp hrest
  obtain ⟨v', w', hj', hi', hsame⟩ := h.commute hi hj (hindep u hbefore)
  obtain ⟨t', hafter', hsame'⟩ := h.exec_congr hafter hsame
  exact ⟨t', Exec.append_iff.mpr ⟨u, hbefore, .cons hj' (.cons hi' hafter')⟩, hsame'⟩

/-- Any number of swaps of independent neighbours leads to the same. -/
theorem exec_reordered (h : Accesses view R reads writes) (he : Exec R is s t)
    (hswaps : Relation.ReflTransGen (Swapped R reads writes s) is js) :
    ∃ t', Exec R js s t' ∧ AgreeOn view Set.univ t t' := by
  induction hswaps with
  | refl => exact ⟨t, he, .refl t⟩
  | tail _ hswap ih =>
    obtain ⟨t', he', hsame⟩ := ih
    obtain ⟨t'', he'', hsame'⟩ := h.exec_swapped he' hswap
    exact ⟨t'', he'', hsame.trans hsame'⟩

end Accesses

end Interleaving
