import WyndLend.CosmWasm.Decimal

/-!
# Interest curves

A curve maps the utilisation of a market to a yearly rate. `ValidatedInterest`
can only be built from a curve whose breakpoint lies strictly between zero and
one, so evaluating it divides by nothing that is zero.
-/

namespace WyndLend.Utils

open CosmWasm

inductive Interest where
  /-- `base` is charged at 0% utilisation, `slope` multiplies the utilisation. -/
  | linear (base slope : Decimal)
  /-- Two linear pieces with a breakpoint at the optimal utilisation: `slope1` is
  charged on top of `base` at the breakpoint, `slope2` on top of both at 100%. -/
  | piecewiseLinear (base slope1 slope2 optimalUtilisation : Decimal)
  deriving DecidableEq

/-- The breakpoint must be within the (0, 1) range. -/
def Interest.Valid : Interest → Prop
  | .linear _ _ => True
  | .piecewiseLinear _ _ _ optimal => optimal ≠ Decimal.zero ∧ optimal < Decimal.one

instance : DecidablePred Interest.Valid := fun i =>
  match i with
  | .linear _ _ => inferInstanceAs (Decidable True)
  | .piecewiseLinear _ _ _ _ => inferInstanceAs (Decidable (_ ∧ _))

/-- A curve together with the guarantee that it makes sense. -/
structure ValidatedInterest where
  inner : Interest
  valid : inner.Valid
  deriving DecidableEq

inductive InterestError where
  | invalidOptimalUtilisation (optimal : Decimal)
  deriving DecidableEq

def Interest.validate : Interest → Except InterestError ValidatedInterest
  | .linear base slope => .ok ⟨.linear base slope, trivial⟩
  | .piecewiseLinear base slope1 slope2 optimal =>
    if h : optimal = Decimal.zero ∨ Decimal.one ≤ optimal then
      .error (.invalidOptimalUtilisation optimal)
    else
      .ok ⟨.piecewiseLinear base slope1 slope2 optimal, not_or.mp h |>.imp id not_le.mp⟩

@[simp] theorem Interest.validate_eq_ok {i : Interest} {v : ValidatedInterest} :
    i.validate = .ok v ↔ v.inner = i := by
  obtain ⟨inner, valid⟩ := v
  cases i with
  | linear base slope =>
    exact ⟨fun h => by cases h; rfl, fun h => by cases h; rfl⟩
  | piecewiseLinear base slope1 slope2 optimal =>
    rw [validate]
    split_ifs with h
    · refine ⟨nofun, ?_⟩
      rintro rfl
      exact absurd h (not_or.mpr (valid.imp id not_le.mpr))
    · exact ⟨fun h => by cases h; rfl, fun h => by cases h; rfl⟩

/-- `calculate_interest_rate`. The reciprocals are unwrapped. -/
def ValidatedInterest.calculateInterestRate {ε : Type} [HasFault ε] (i : ValidatedInterest)
    (utilisation : Decimal) : Except ε Decimal :=
  match i.inner with
  | .linear base slope => do
    base.add (← slope.mul utilisation)
  | .piecewiseLinear base slope1 slope2 optimal =>
    if utilisation < optimal then do
      let inverse ← okOr optimal.inv (HasFault.fault .unwrap)
      base.add (← slope1.mul (← utilisation.mul inverse))
    else do
      let start ← base.add slope1
      let excess ← utilisation.sub optimal
      let inverse ← okOr (← Decimal.one.sub optimal).inv (HasFault.fault .unwrap)
      start.add (← slope2.mul (← excess.mul inverse))

end WyndLend.Utils
