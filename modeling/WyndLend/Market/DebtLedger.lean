import WyndLend.CosmWasm.Run
import WyndLend.Market.State

/-!
# The debt ledger over whole runs

What each operation of the ledger does, and when the total of the points stays
the sum of the accounts' points. A decrease runs its closure on the total and on
the account; the two runs take the same branch as long as the account owes the
points it pays, and a larger payment is taken from the total in full.
-/

namespace WyndLend.Market.Debt

open CosmWasm Utils

variable {l l' : Ledger} {account : Addr} {amount : Uint128}

theorem points_save (info : DebtInfo) (m : Map Addr Uint128) (a b : Addr) (v : Uint128) :
    (⟨info, m.save a v⟩ : Ledger).points b = if b = a then v else (m.mayLoad b).getD 0 := by
  unfold Ledger.points
  rw [Map.mayLoad_save]
  split_ifs <;> rfl

/-- Saving an account's points changes the sum by the difference. -/
theorem sumPoints_save (l : Ledger) (info : DebtInfo) (a : Addr) (v : Uint128) :
    (⟨info, l.debt.save a v⟩ : Ledger).sumPoints + (l.points a).val = l.sumPoints + v.val := by
  have h := Map.sum_save Uint128.val l.debt a v
  unfold Ledger.sumPoints Ledger.points
  cases hl : l.debt.mayLoad a with
  | none => simpa [hl] using h
  | some w => simpa [hl] using h

theorem points_le_sumPoints (l : Ledger) (a : Addr) : (l.points a).val ≤ l.sumPoints := by
  have h := Map.le_sum Uint128.val l.debt a
  unfold Ledger.sumPoints Ledger.points
  cases hl : l.debt.mayLoad a with
  | none => simp
  | some w => simpa [hl] using h

theorem rebase_spec {ratio : Decimal} (h : rebase l ratio = .ok l') :
    ∃ m : Decimal, m.atomics.val = l.info.multiplier.atomics.val * ratio.atomics.val / fractional ∧
      l' = ⟨⟨l.info.totalPoints, m⟩, l.debt⟩ := by
  simp only [rebase, bind_eq_ok, Decimal.mul_eq_ok, pure_eq_ok] at h
  obtain ⟨m, hm, rfl⟩ := h
  exact ⟨m, hm, rfl⟩

/-- An increase adds the same points to the total and to the account. -/
theorem increase_spec (h : increase l account amount = .ok l') :
    (amount = 0 ∧ l' = l) ∨ ∃ points t p : Uint128,
      baseToToken amount l.info.multiplier = .ok (ε := Error) points ∧
      t.val = l.info.totalPoints.val + points.val ∧
      p.val = (l.points account).val + points.val ∧
      l' = ⟨⟨t, l.info.multiplier⟩, l.debt.save account p⟩ := by
  unfold increase at h
  split_ifs at h with h0
  · cases h
    exact .inl ⟨h0, rfl⟩
  · simp only [changeAmount, bind_eq_ok, pure_eq_ok, Uint128.add_eq_ok] at h
    obtain ⟨_, ⟨_, ⟨points, hp, t, ht, rfl⟩, _, ⟨points', hp', p, hp'', rfl⟩, rfl⟩, rfl⟩ := h
    cases hp.symm.trans hp'
    exact .inr ⟨points, t, p, hp, ht, hp'', rfl⟩

/-- The closure of `decrease` takes the points off, stopping at zero. -/
theorem decreaseChange_spec {old new surplus surplus' : Uint128} {m : Decimal}
    (h : decreaseChange amount old m surplus = .ok (new, surplus')) :
    ∃ points : Uint128, baseToToken amount m = .ok (ε := Error) points ∧
      new.val = old.val - points.val := by
  simp only [decreaseChange, bind_eq_ok] at h
  obtain ⟨points, hp, h⟩ := h
  refine ⟨points, hp, ?_⟩
  split_ifs at h with hle
  · simp only [bind_eq_ok, pure_eq_ok] at h
    obtain ⟨_, _, _, _, h⟩ := h
    cases h
    rw [Uint128.le_def] at hle
    simp only [Uint128.val_zero]
    omega
  · simp only [bind_eq_ok, Uint128.sub_eq_ok, pure_eq_ok] at h
    obtain ⟨_, hs, h⟩ := h
    cases h
    omega

/-- A decrease takes the same points off the total and off the account, each
stopping at zero on its own. -/
theorem decrease_spec {surplus : Uint128} (h : decrease l account amount = .ok (l', surplus)) :
    (amount = 0 ∧ l' = l ∧ surplus = 0) ∨ ∃ points t p : Uint128,
      baseToToken amount l.info.multiplier = .ok (ε := Error) points ∧
      t.val = l.info.totalPoints.val - points.val ∧
      p.val = (l.points account).val - points.val ∧
      l' = ⟨⟨t, l.info.multiplier⟩, l.debt.save account p⟩ := by
  unfold decrease at h
  split_ifs at h with h0
  · cases h
    exact .inl ⟨h0, rfl, rfl⟩
  · simp only [changeAmount, bind_eq_ok, pure_eq_ok] at h
    obtain ⟨⟨t, s⟩, ht, ⟨p, s'⟩, hp, h⟩ := h
    cases h
    obtain ⟨points, hpts, ht⟩ := decreaseChange_spec ht
    obtain ⟨points', hpts', hp⟩ := decreaseChange_spec hp
    cases hpts.symm.trans hpts'
    exact .inr ⟨points, t, p, hpts, ht, hp, rfl⟩

/-! ## The total is the sum -/

/-- The invariant of the ledger. -/
def Balanced (l : Ledger) : Prop := l.info.totalPoints.val = l.sumPoints

theorem init_balanced : Balanced init := rfl

theorem rebase_balanced {ratio : Decimal} (hb : Balanced l) (h : rebase l ratio = .ok l') :
    Balanced l' := by
  obtain ⟨m, -, rfl⟩ := rebase_spec h
  exact hb

theorem increase_balanced (hb : Balanced l) (h : increase l account amount = .ok l') :
    Balanced l' := by
  unfold Balanced at *
  obtain ⟨-, rfl⟩ | ⟨points, t, p, -, ht, hp, rfl⟩ := increase_spec h
  · exact hb
  · have hs := sumPoints_save l ⟨t, l.info.multiplier⟩ account p
    dsimp only
    omega

/-- The payment does not exceed what the account owes, in points, unless the
account is the only one that owes anything. -/
def Covered (l : Ledger) (account : Addr) (amount : Uint128) : Prop :=
  amount.val * fractional / l.info.multiplier.atomics.val ≤ (l.points account).val ∨
    l.points account = l.info.totalPoints

/-- A decrease keeps the total the sum exactly when the payment is covered. -/
theorem decrease_balanced_iff {surplus : Uint128} (hb : Balanced l)
    (h : decrease l account amount = .ok (l', surplus)) :
    Balanced l' ↔ Covered l account amount := by
  unfold Balanced Covered at *
  have hle := points_le_sumPoints l account
  obtain ⟨rfl, rfl, -⟩ | ⟨points, t, p, hpts, ht, hp, rfl⟩ := decrease_spec h
  · simpa using hb
  · rw [(baseToToken_eq_ok.mp hpts).2.symm, Uint128.ext_iff]
    have hs := sumPoints_save l ⟨t, l.info.multiplier⟩ account p
    dsimp only
    omega

/-! ## Runs -/

instance (l : Ledger) (account : Addr) (amount : Uint128) : Decidable (Covered l account amount) :=
  inferInstanceAs (Decidable (_ ∨ _))

/-- The operations that messages of the market perform on the ledger. -/
inductive Op where
  | increase (recipient : Addr) (baseAmount : Uint128)
  | decrease (account : Addr) (baseAmount : Uint128)
  | rebase (ratio : Decimal)

/-- One operation; the surplus of a decrease is paid out by the caller. -/
def step : Op → Ledger → Except Error Ledger
  | .increase recipient amount, l => increase l recipient amount
  | .decrease account amount, l => do
    let (l, _) ← decrease l account amount
    return l
  | .rebase ratio, l => rebase l ratio

/-- Every decrease of the run is covered. -/
def StepCovered (l : Ledger) : Op → Prop
  | .decrease account amount => Covered l account amount
  | _ => True

instance (l : Ledger) : DecidablePred (StepCovered l) := fun op =>
  match op with
  | .decrease account amount => inferInstanceAs (Decidable (Covered l account amount))
  | .increase _ _ => inferInstanceAs (Decidable True)
  | .rebase _ => inferInstanceAs (Decidable True)

theorem step_balanced {op : Op} (hb : Balanced l) (hc : StepCovered l op)
    (h : step op l = .ok l') : Balanced l' := by
  cases op with
  | increase recipient amount => exact increase_balanced hb h
  | decrease account amount =>
    simp only [step, bind_eq_ok, pure_eq_ok] at h
    obtain ⟨⟨l₁, surplus⟩, hd, rfl⟩ := h
    exact (decrease_balanced_iff hb hd).mpr hc
  | rebase ratio => exact rebase_balanced hb h

/-- In every run from `init` whose decreases are covered, the total number of
points is the sum over all accounts of their points. -/
theorem totalPoints_eq_sumPoints {ops : List Op} (h : Run step StepCovered init ops l) :
    l.info.totalPoints.val = l.sumPoints :=
  h.invariant init_balanced fun _ _ _ hb hc hs => step_balanced hb hc hs

/-- The condition of the theorem is met by a run with two debtors, one of whom
pays a part and the other all of what they owe. -/
theorem totalPoints_eq_sumPoints_example : ∃ l, Run step StepCovered init
    [.increase "alice" 100, .increase "bob" 1000, .rebase ⟨1_100_000_000_000_000_000⟩,
      .decrease "alice" 110, .decrease "bob" 500] l ∧
    l.info.totalPoints.val = l.sumPoints := by
  obtain ⟨l, hl, -⟩ : ∃ l, Run step StepCovered init
      [.increase "alice" 100, .increase "bob" 1000, .rebase ⟨1_100_000_000_000_000_000⟩,
        .decrease "alice" 110, .decrease "bob" 500] l ∧ True := exists_run_of_runAll (by decide)
  exact ⟨l, hl, totalPoints_eq_sumPoints hl⟩

/-- Alice owes 100 and Bob 1000. Alice pays 200: her debt ends at zero, but the
total falls by 200 and no longer covers what Bob owes. -/
theorem overpayment_unbalances : ∃ l, Run step (fun _ _ => True) init
    [.increase "alice" 100, .increase "bob" 1000, .decrease "alice" 200] l ∧
    l.info.totalPoints.val ≠ l.sumPoints :=
  exists_run_of_runAll (by decide)

end WyndLend.Market.Debt
