import Mathlib.Logic.Basic
import Mathlib.Tactic.Common

/-!
# Computations that may abort

Contract code either returns a value or aborts the whole transaction, so every
modelled function is an `Except`. The arithmetic of `Uint128` and `Decimal` checks
its results and aborts with a `Fault`, and a contract embeds faults in its own error
type through `HasFault`. Native integers are not checked in the release build that
is modelled here; they wrap and are in `Native`.

The simp lemmas below take a successful run apart: a bind succeeds exactly when
both halves do, and a passed `ensure` is the fact it checked.
-/

namespace WyndLend.CosmWasm

/-- The ways in which machine arithmetic aborts. -/
inductive Fault where
  | overflow
  | divideByZero
  | unwrap
  deriving DecidableEq, Repr

/-- An error type that can carry an arithmetic fault. -/
class HasFault (ε : Type) where
  fault : Fault → ε

instance : HasFault Fault := ⟨id⟩

variable {ε ε' α β : Type}

/-- Abort with `e` unless `c` holds. -/
def ensure (c : Prop) [Decidable c] (e : ε) : Except ε Unit :=
  if c then .ok () else .error e

/-- The value of an option, or the given error. -/
def okOr (o : Option α) (e : ε) : Except ε α :=
  match o with
  | some a => .ok a
  | none => .error e

/-- `Result<Option<T>, E>::transpose`. -/
def transpose : Except ε (Option α) → Option (Except ε α)
  | .ok none => none
  | .ok (some a) => some (.ok a)
  | .error e => some (.error e)

@[simp] theorem bind_eq_ok {x : Except ε α} {f : α → Except ε β} {b : β} :
    (x >>= f) = .ok b ↔ ∃ a, x = .ok a ∧ f a = .ok b := by
  cases x with
  | error e => exact ⟨nofun, fun ⟨_, h, _⟩ => nomatch h⟩
  | ok a => exact ⟨fun h => ⟨a, rfl, h⟩, fun ⟨_, h, hf⟩ => by cases h; exact hf⟩

@[simp] theorem pure_eq_ok {a b : α} : (pure a : Except ε α) = .ok b ↔ a = b :=
  Except.ok.injEq a b ▸ Iff.rfl

@[simp] theorem throw_ne_ok {e : ε} {b : α} : (throw e : Except ε α) ≠ .ok b := nofun

@[simp] theorem ensure_eq_ok {c : Prop} [Decidable c] {e : ε} {u : Unit} :
    ensure c e = .ok u ↔ c := by
  unfold ensure
  split_ifs with h <;> simp [h]

@[simp] theorem okOr_eq_ok {o : Option α} {e : ε} {a : α} :
    okOr o e = .ok a ↔ o = some a := by
  cases o <;> simp [okOr]

@[simp] theorem mapError_eq_ok {g : ε → ε'} {x : Except ε α} {a : α} :
    x.mapError g = .ok a ↔ x = .ok a := by
  cases x <;> simp [Except.mapError]

/-! ## Errors -/

theorem bind_eq_error {x : Except ε α} {f : α → Except ε β} {e : ε} :
    (x >>= f) = .error e ↔ x = .error e ∨ ∃ a, x = .ok a ∧ f a = .error e := by
  cases x with
  | error e' => simp [bind, Except.bind]
  | ok a => simp [bind, Except.bind]

theorem mapError_eq_error {g : ε → ε'} {x : Except ε α} {e : ε'} :
    x.mapError g = .error e ↔ ∃ e', x = .error e' ∧ g e' = e := by
  cases x <;> simp [Except.mapError]

theorem ensure_eq_error {c : Prop} [Decidable c] {e e' : ε} (h : ensure c e = .error e') :
    e' = e := by
  unfold ensure at h
  split_ifs at h
  cases h
  rfl

/-- A traversal fails with the error of one of its elements. -/
theorem mapM_error {f : α → Except ε β} {xs : List α} {e : ε} (h : xs.mapM f = .error e) :
    ∃ x ∈ xs, f x = .error e := by
  induction xs with
  | nil => cases h
  | cons x xs ih =>
    rw [List.mapM_cons, bind_eq_error] at h
    rcases h with hx | ⟨_, -, h⟩
    · exact ⟨x, List.mem_cons_self, hx⟩
    · rcases bind_eq_error.mp h with hxs | ⟨_, -, hpure⟩
      · obtain ⟨y, hy, hf⟩ := ih hxs
        exact ⟨y, List.mem_cons_of_mem _ hy, hf⟩
      · cases hpure

/-- What a traversal collects are results of its elements. -/
theorem mem_of_mapM {f : α → Except ε β} {xs : List α} {ys : List β} {y : β}
    (h : xs.mapM f = .ok ys) (hy : y ∈ ys) : ∃ x ∈ xs, f x = .ok y := by
  induction xs generalizing ys with
  | nil =>
    cases h
    cases hy
  | cons x xs ih =>
    simp only [List.mapM_cons, bind_eq_ok, pure_eq_ok] at h
    obtain ⟨z, hz, zs, hzs, rfl⟩ := h
    rcases List.mem_cons.mp hy with rfl | hy
    · exact ⟨x, List.mem_cons_self, hz⟩
    · obtain ⟨x', hx', hf⟩ := ih hzs hy
      exact ⟨x', List.mem_cons_of_mem _ hx', hf⟩

/-- A fold fails with the error of one of its steps. -/
theorem foldlM_error {f : β → α → Except ε β} {xs : List α} {s : β} {e : ε}
    (h : xs.foldlM f s = .error e) : ∃ t, ∃ x ∈ xs, f t x = .error e := by
  induction xs generalizing s with
  | nil => cases h
  | cons x xs ih =>
    rw [List.foldlM_cons, bind_eq_error] at h
    rcases h with hx | ⟨t, -, h⟩
    · exact ⟨s, x, List.mem_cons_self, hx⟩
    · obtain ⟨t, y, hy, hf⟩ := ih h
      exact ⟨t, y, List.mem_cons_of_mem _ hy, hf⟩

/-- If the computation fails, it is with a fault. -/
def OnlyFaults [HasFault ε] (x : Except ε α) : Prop :=
  ∀ e, x = .error e → ∃ f, e = HasFault.fault f

theorem onlyFaults_ok [HasFault ε] (a : α) : OnlyFaults (.ok a : Except ε α) := by
  intro e h
  cases h

theorem onlyFaults_fault [HasFault ε] (f : Fault) :
    OnlyFaults (.error (HasFault.fault f) : Except ε α) := by
  intro e h
  cases h
  exact ⟨f, rfl⟩

theorem onlyFaults_bind [HasFault ε] {x : Except ε α} {f : α → Except ε β} (hx : OnlyFaults x)
    (hf : ∀ a, OnlyFaults (f a)) : OnlyFaults (x >>= f) := by
  intro e h
  rcases bind_eq_error.mp h with h | ⟨a, -, h⟩
  · exact hx e h
  · exact hf a e h

/-- If the computation fails, a value did not fit. -/
def OnlyOverflows [HasFault ε] (x : Except ε α) : Prop :=
  ∀ e, x = .error e → e = HasFault.fault .overflow

theorem onlyOverflows_ok [HasFault ε] (a : α) : OnlyOverflows (.ok a : Except ε α) := by
  intro e h
  cases h

/-- The second half only has to be looked at for what the first returns. -/
theorem onlyOverflows_bind [HasFault ε] {x : Except ε α} {f : α → Except ε β}
    (hx : OnlyOverflows x) (hf : ∀ a, x = .ok a → OnlyOverflows (f a)) :
    OnlyOverflows (x >>= f) := by
  intro e h
  rcases bind_eq_error.mp h with h | ⟨a, ha, h⟩
  · exact hx e h
  · exact hf a ha e h

theorem toOption_eq_some {x : Except ε α} {a : α} : x.toOption = some a ↔ x = .ok a := by
  cases x with
  | error e => simp [Except.toOption]
  | ok b => simp [Except.toOption]

/-- A result with a decidable property, by evaluation. -/
theorem exists_ok_of_any {x : Except ε α} {p : α → Prop} [DecidablePred p]
    (h : x.toOption.any (fun a => decide (p a)) = true) : ∃ a, x = .ok a ∧ p a := by
  cases x with
  | error e => cases h
  | ok a => exact ⟨a, rfl, of_decide_eq_true h⟩

/-- Running a fold of fallible steps over a concatenation runs both parts in turn. -/
theorem foldlM_append_eq_ok {f : β → α → Except ε β} {xs ys : List α} {s t : β} :
    (xs ++ ys).foldlM f s = .ok t ↔ ∃ u, xs.foldlM f s = .ok u ∧ ys.foldlM f u = .ok t := by
  rw [List.foldlM_append]
  exact bind_eq_ok

end WyndLend.CosmWasm
