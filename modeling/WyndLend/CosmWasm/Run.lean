import WyndLend.CosmWasm.Checked
import WyndLend.Interleaving.Product

/-!
# Runs of a transaction system

A transaction that aborts leaves no trace, so a run lists the successful
transactions only. `Run step guard s is t` says that the inputs `is`, in order,
lead from `s` to `t` and that each of them met `guard` in the state it found.
An invariant is proved once for one step and holds along the run.
-/

namespace WyndLend.CosmWasm

variable {σ ι ε : Type}

/-- A run whose every input meets the guard in the state before it. -/
inductive Run (step : ι → σ → Except ε σ) (guard : σ → ι → Prop) : σ → List ι → σ → Prop where
  | nil (s : σ) : Run step guard s [] s
  | snoc {s u t : σ} {is : List ι} {i : ι} :
      Run step guard s is u → guard u i → step i u = .ok t → Run step guard s (is ++ [i]) t

namespace Run

variable {step : ι → σ → Except ε σ} {guard guard' : σ → ι → Prop} {s t : σ} {is : List ι}

/-- What one guarded step preserves, a whole run preserves. -/
theorem invariant {I : σ → Prop} (h : Run step guard s is t) (init : I s)
    (preserve : ∀ u i v, I u → guard u i → step i u = .ok v → I v) : I t := by
  induction h with
  | nil => exact init
  | snoc _ hg hs ih => exact preserve _ _ _ ih hg hs

/-- As `invariant`, for a property that also depends on the inputs so far. -/
theorem invariant_list {I : List ι → σ → Prop} (h : Run step guard s is t) (init : I [] s)
    (preserve : ∀ is u i v, I is u → guard u i → step i u = .ok v → I (is ++ [i]) v) :
    I is t := by
  induction h with
  | nil => exact init
  | snoc _ hg hs ih => exact preserve _ _ _ _ ih hg hs

theorem mono (h : Run step guard s is t) (hle : ∀ u i, guard u i → guard' u i) :
    Run step guard' s is t := by
  induction h with
  | nil => exact .nil _
  | snoc _ hg hs ih => exact ih.snoc (hle _ _ hg) hs

/-- A run from where another one ended continues it. -/
theorem trans {u : σ} {js : List ι} (h : Run step guard s is u) (h' : Run step guard u js t) :
    Run step guard s (is ++ js) t := by
  induction h' with
  | nil => rwa [List.append_nil]
  | snoc _ hg hs ih =>
    rw [← List.append_assoc]
    exact ih.snoc hg hs

/-- A run of a concatenation pauses in between. -/
theorem exists_mid {js : List ι} (h : Run step guard s (is ++ js) t) :
    ∃ u, Run step guard s is u ∧ Run step guard u js t := by
  generalize hinputs : is ++ js = ks at h
  induction h generalizing js with
  | nil =>
    obtain ⟨rfl, rfl⟩ := List.append_eq_nil_iff.mp hinputs
    exact ⟨s, .nil s, .nil s⟩
  | @snoc u t ks i hrun hg hs ih =>
    rcases List.eq_nil_or_concat js with rfl | ⟨js, j, rfl⟩
    · rw [List.append_nil] at hinputs
      subst hinputs
      exact ⟨t, hrun.snoc hg hs, .nil t⟩
    · rw [List.concat_eq_append, ← List.append_assoc] at hinputs
      obtain ⟨rfl, hlast⟩ := List.append_inj' hinputs rfl
      cases hlast
      obtain ⟨v, hv, hrest⟩ := ih rfl
      exact ⟨v, hv, by simpa using hrest.snoc hg hs⟩

/-- Guards that agree on every step that succeeds admit the same runs. -/
theorem guard_iff (heq : ∀ u i v, step i u = .ok v → (guard u i ↔ guard' u i)) :
    Run step guard s is t ↔ Run step guard' s is t := by
  constructor
  · intro h
    induction h with
    | nil => exact .nil _
    | snoc _ hg hs ih => exact ih.snoc ((heq _ _ _ hs).mp hg) hs
  · intro h
    induction h with
    | nil => exact .nil _
    | snoc _ hg hs ih => exact ih.snoc ((heq _ _ _ hs).mpr hg) hs

/-- The same inputs lead to the same state. -/
theorem unique {u : σ} (h : Run step guard s is t) (h' : Run step guard' s is u) : t = u := by
  induction h generalizing u with
  | nil =>
    generalize hempty : ([] : List ι) = js at h'
    cases h' with
    | nil => rfl
    | snoc => simp at hempty
  | @snoc v _ is i _ _ hs ih =>
    generalize hinputs : is ++ [i] = js at h'
    cases h' with
    | nil => simp at hinputs
    | snoc hrun _ hs' =>
      obtain ⟨rfl, heq⟩ := List.append_inj' hinputs rfl
      cases heq
      cases ih hrun
      exact Except.ok.inj (hs.symm.trans hs')

/-- A property that some steps set and others clear holds at the end if and only if a step has
set it and no later one has cleared it. -/
theorem last_iff {P : σ → Prop} {sets : σ → ι → Prop} {clears : ι → Prop}
    (h : Run step guard s is t) (init : ¬ P s)
    (hstep : ∀ u i v, step i u = .ok v → (P v ↔ sets u i ∨ P u ∧ ¬ clears i)) :
    P t ↔ ∃ before i after u, is = before ++ i :: after ∧ Run step guard s before u ∧ sets u i ∧
      ∀ j ∈ after, ¬ clears j := by
  induction h with
  | nil => simp [init]
  | @snoc u t is i hrun hg hs ih =>
    rw [hstep _ _ _ hs, ih]
    constructor
    · rintro (hsets | ⟨⟨before, j, after, v, rfl, hv, hsets, hkept⟩, hclear⟩)
      · exact ⟨is, i, [], u, rfl, hrun, hsets, by simp⟩
      · refine ⟨before, j, after ++ [i], v, by simp, hv, hsets, ?_⟩
        intro k hk
        rcases List.mem_append.mp hk with hk | hk
        · exact hkept k hk
        · rwa [List.mem_singleton.mp hk]
    · rintro ⟨before, j, after, v, heq, hv, hsets, hkept⟩
      rcases List.eq_nil_or_concat after with rfl | ⟨after, last, rfl⟩
      · obtain ⟨rfl, hlast⟩ := List.append_inj' heq rfl
        cases hlast
        cases hrun.unique hv
        exact .inl hsets
      · rw [List.concat_eq_append, ← List.cons_append, ← List.append_assoc] at heq
        obtain ⟨rfl, hlast⟩ := List.append_inj' heq rfl
        cases hlast
        refine .inr ⟨⟨before, j, after, v, rfl, hv, hsets, ?_⟩, hkept i (by simp)⟩
        intro k hk
        exact hkept k (by simp [hk])

/-- `v` is a state of the run on `is`, and all inputs that came later satisfy `late`. -/
def InForce (step : ι → σ → Except ε σ) (late : ι → Prop) (s : σ) (is : List ι) (v : σ) : Prop :=
  ∃ before after, is = before ++ after ∧ Run step (fun _ _ => True) s before v ∧
    ∀ i ∈ after, late i

theorem inForce_nil {late : ι → Prop} {v : σ} (h : InForce step late s [] v) : v = s := by
  obtain ⟨before, after, heq, hv, -⟩ := h
  obtain ⟨rfl, -⟩ := List.append_eq_nil_iff.mp heq.symm
  have hnil : Run step (fun _ _ => True) s [] s := .nil s
  exact hv.unique hnil

/-- What is in force after a step is its outcome, or was in force before a late step. -/
theorem inForce_snoc {late : ι → Prop} {i : ι} {u v : σ} (h : Run step guard s is u)
    (hs : step i u = .ok t) (hv : InForce step late s (is ++ [i]) v) :
    v = t ∨ late i ∧ InForce step late s is v := by
  obtain ⟨before, after, heq, hv, hlate⟩ := hv
  rcases List.eq_nil_or_concat after with rfl | ⟨after, last, rfl⟩
  · rw [List.append_nil] at heq
    subst heq
    exact .inl (hv.unique ((h.mono fun _ _ _ => trivial).snoc trivial hs))
  · rw [List.concat_eq_append, ← List.append_assoc] at heq
    obtain ⟨rfl, hlast⟩ := List.append_inj' heq rfl
    cases hlast
    exact .inr ⟨hlate i (by simp), before, after, rfl, hv, fun j hj => hlate j (by simp [hj])⟩

/-- A machine that can follow every step of another one can follow every run of it. -/
theorem simulate {τ ε' : Type} {step' : ι → τ → Except ε' τ} {guard' : τ → ι → Prop}
    {R : σ → τ → Prop} {u : τ} (h : Run step guard s is t) (init : R s u)
    (hstep : ∀ a b i a', R a b → guard a i → step i a = .ok a' →
      guard' b i ∧ ∃ b', step' i b = .ok b' ∧ R a' b') :
    ∃ v, Run step' guard' u is v ∧ R t v := by
  induction h with
  | nil => exact ⟨u, .nil u, init⟩
  | snoc _ hg hs ih =>
    obtain ⟨v, hrun, hr⟩ := ih
    obtain ⟨hg', w, hs', hr'⟩ := hstep _ _ _ _ hr hg hs
    exact ⟨w, hrun.snoc hg' hs', hr'⟩

/-- Runs without a guard, from the first input on. -/
theorem exec_iff : Run step (fun _ _ => True) s is t ↔
    Interleaving.Exec (fun i s t => step i s = .ok t) is s t := by
  constructor
  · intro h
    induction h with
    | nil => exact .nil _
    | snoc _ _ hs ih =>
      exact Interleaving.Exec.append_iff.mpr ⟨_, ih, .cons hs (.nil _)⟩
  · intro h
    induction h with
    | nil => exact .nil _
    | cons hs _ ih => exact ((Run.nil _).snoc trivial hs).trans ih

end Run

/-- Execute the inputs in order; none if one of them aborts or fails its guard. -/
def runAll (step : ι → σ → Except ε σ) (guard : σ → ι → Prop) [∀ s i, Decidable (guard s i)] :
    List ι → σ → Option σ
  | [], s => some s
  | i :: is, s =>
    if guard s i then
      match step i s with
      | .ok t => runAll step guard is t
      | .error _ => none
    else none

/-- Inputs that execute form a run. -/
theorem run_of_runAll {step : ι → σ → Except ε σ} {guard : σ → ι → Prop}
    [∀ s i, Decidable (guard s i)] {s t : σ} {is : List ι}
    (h : runAll step guard is s = some t) : Run step guard s is t := by
  suffices ∀ (done : List ι) (u : σ), Run step guard s done u →
      runAll step guard is u = some t → Run step guard s (done ++ is) t from
    this [] s (.nil s) h
  clear h
  induction is with
  | nil =>
    intro done u hu h
    cases h
    rwa [List.append_nil]
  | cons i is ih =>
    intro done u hu h
    unfold runAll at h
    split_ifs at h with hg
    split at h
    · next v hv =>
      rw [List.append_cons]
      exact ih (done ++ [i]) v (hu.snoc hg hv) h
    · cases h

/-- A concrete run with a decidable property of its last state, by evaluation. -/
theorem exists_run_of_runAll {step : ι → σ → Except ε σ} {guard : σ → ι → Prop}
    [∀ s i, Decidable (guard s i)] {p : σ → Prop} [DecidablePred p] {s : σ} {is : List ι}
    (h : (runAll step guard is s).any (fun t => decide (p t)) = true) :
    ∃ t, Run step guard s is t ∧ p t := by
  cases ht : runAll step guard is s with
  | none => rw [ht] at h; cases h
  | some t =>
    rw [ht] at h
    exact ⟨t, run_of_runAll ht, of_decide_eq_true h⟩

/-- As `exists_run_of_runAll`, from a state that is itself computed. -/
theorem exists_run_of_start {ε' : Type} {step : ι → σ → Except ε σ} {guard : σ → ι → Prop}
    [∀ s i, Decidable (guard s i)] {p : σ → σ → Prop} [∀ s t, Decidable (p s t)]
    {start : Except ε' σ} {is : List ι}
    (h : start.toOption.any (fun s => (runAll step guard is s).any fun t => decide (p s t)) =
      true) :
    ∃ s t, start = .ok s ∧ Run step guard s is t ∧ p s t := by
  cases start with
  | error e => cases h
  | ok s =>
    obtain ⟨t, ht, hp⟩ := exists_run_of_runAll (p := p s) h
    exact ⟨s, t, rfl, ht, hp⟩

end WyndLend.CosmWasm
