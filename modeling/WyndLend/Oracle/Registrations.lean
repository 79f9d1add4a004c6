import WyndLend.Oracle.Contract
import Mathlib.Data.Sym.Sym2

/-!
# The pools that the oracle knows

A pool is stored under its two denoms in ascending order, so a pair has no order. Whatever
anybody sends, the pool of a pair is the one of the controller's last registration of it.
-/

namespace WyndLend.Oracle

open CosmWasm Utils

variable {SamplePeriod : Type} {s : State SamplePeriod} {controller multiHop : Addr} {startAge : ℕ}
  {samplePeriod : SamplePeriod} {x y : Token}

/-- The sorted tuple stands for the unordered pair. -/
theorem sortedTuple_eq_iff {α : Type} [LinearOrder α] {a b c d : α} :
    sortedTuple a b = sortedTuple c d ↔ s(a, b) = s(c, d) := by
  unfold sortedTuple
  rw [Sym2.eq_iff]
  split_ifs <;> grind

/-- A `RegisterPool` message of anyone. -/
structure Registration where
  sender : Addr
  pairContract : Addr
  denom1 : Token
  denom2 : Token

/-- A message that fails leaves no trace. -/
def State.receive (s : State SamplePeriod) (r : Registration) : State SamplePeriod :=
  (registerPool s r.sender r.pairContract r.denom1 r.denom2).toOption.getD s

/-- The message is the controller's, and about these two denoms. -/
def Registration.Counts (controller : Addr) (pair : Sym2 String) (r : Registration) : Prop :=
  r.sender = controller ∧ s(r.denom1.denom, r.denom2.denom) = pair

instance (controller : Addr) (pair : Sym2 String) :
    DecidablePred (Registration.Counts controller pair) := fun _ =>
  inferInstanceAs (Decidable (_ ∧ _))

theorem receive_config (r : Registration) : (s.receive r).config = s.config := by
  by_cases h : r.sender = s.config.controller
  · simp [State.receive, registerPool, ensure, h, Except.toOption, bind, Except.bind, pure,
      Except.pure]
  · simp [State.receive, registerPool, ensure, h, Except.toOption, bind, Except.bind]

/-- Only a message that counts is seen in the pool of a pair. -/
theorem receive_pool (r : Registration) :
    (s.receive r).pools.mayLoad (sortedTuple x.denom y.denom) =
      if r.Counts s.config.controller s(x.denom, y.denom) then some r.pairContract
      else s.pools.mayLoad (sortedTuple x.denom y.denom) := by
  by_cases h : r.sender = s.config.controller
  · have hstep : (s.receive r).pools =
        s.pools.save (sortedTuple r.denom1.denom r.denom2.denom) r.pairContract := by
      simp [State.receive, registerPool, ensure, h, Except.toOption, bind, Except.bind, pure,
        Except.pure]
    simp only [hstep, Map.mayLoad_save, sortedTuple_eq_iff, h, true_and, Registration.Counts]
    simp only [eq_comm]
  · simp [Registration.Counts, State.receive, registerPool, ensure, h, Except.toOption, bind,
      Except.bind]

theorem receive_pools (rs : List Registration) :
    (rs.foldl State.receive s).pools.mayLoad (sortedTuple x.denom y.denom) =
      ((rs.filter fun r => r.Counts s.config.controller s(x.denom, y.denom)).getLast?.map
        Registration.pairContract).or (s.pools.mayLoad (sortedTuple x.denom y.denom)) := by
  induction rs generalizing s with
  | nil => rfl
  | cons r rs ih =>
    rw [List.foldl_cons, ih, receive_config, receive_pool, List.filter_cons]
    by_cases h : r.Counts s.config.controller s(x.denom, y.denom)
    · simp only [h, if_true, decide_true, List.getLast?_cons]
      cases (rs.filter fun r => r.Counts s.config.controller s(x.denom, y.denom)).getLast? <;> rfl
    · simp [h]

/-- After any messages the oracle answers for a pair, in either order, with the pool that the
controller registered last for these two denoms, and with an error when there is none. -/
theorem poolAddress_replay (rs : List Registration) (x y : Token) :
    Query.poolAddress
        (rs.foldl State.receive (instantiate controller multiHop startAge samplePeriod)) x y =
      okOr ((rs.filter fun r => r.Counts controller s(x.denom, y.denom)).getLast?.map
        Registration.pairContract) (.noPool x y) := by
  unfold Query.poolAddress
  rw [receive_pools]
  simp only [instantiate, Map.mayLoad_empty, Option.or_none]
  rfl

end WyndLend.Oracle
