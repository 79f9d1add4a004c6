import WyndLend.Market.Solvency

/-!
# Debt within the claims

`calculateInterest` subtracts the debt from the ctoken base supply and aborts when
the debt is larger, and from then on every message and every credit query of the
market aborts with it. Nothing but the cash limits what is paid out, so tokens that
were sent to the market can be borrowed above the supply, and close to full
utilisation the truncations of a charge alone carry the debt over it.
-/

namespace WyndLend.Market

open CosmWasm Utils Rebasing

/-- The messages of lending, with `Repay`. -/
def ExecuteMsg.trades (msg : ExecuteMsg) : Bool :=
  match msg.plain with
  | .repay => true
  | _ => msg.lends

/-- The market tokens that a message asks to be paid out. -/
def ExecuteMsg.taken : ExecuteMsg → ℕ
  | .withdraw amount | .borrow amount => amount.val
  | _ => 0

namespace System

variable {env : Env} {info : MessageInfo} {msg : ExecuteMsg} {init sys sys' mid : System}
  {entered : List Addr} {tx : Tx} {txs : List Tx}

/-- What is taken out fits between the debt and the claims, and when interest is pending
on a debt, two more units, the rate and a fraction of the supply fit there as well. -/
def Headroom (env : Env) (sys : System) (taken : ℕ) : Prop :=
  match pendingRate env sys with
  | none => sys.owed + taken ≤ sys.claims
  | some rate => (sys.pool.debt = 0 ∧ taken ≤ sys.claims) ∨
      (sys.owed + taken + 2) * fractional + rate.atomics.val + sys.claims + sys.pool.supply ≤
        sys.claims * fractional

/-- A step that takes out no more than there is headroom for. -/
def Restrained (sys : System) (tx : Tx) : Prop :=
  match tx.action with
  | .execute _ msg => msg.trades = true ∧ Headroom tx.env sys msg.taken
  | .ctoken sender _ => sender ≠ sys.ctoken.controller
  | .donate _ => True

/-- What fits before a settlement still fits after it. -/
theorem settled_room {taken : ℕ} (hroom : Headroom env sys taken) (h : settle env sys = .ok mid) :
    mid.pool.Room fractional taken := by
  obtain ⟨hpool, hrate⟩ := settle_pool h
  rw [hpool, settled]
  unfold Headroom at hroom
  cases hp : pendingRate env sys with
  | none =>
    rw [hp] at hroom
    exact hroom
  | some rate =>
    rw [hp] at hroom
    refine Pool.Room.mint ?_
    rcases hroom with ⟨h0, hle⟩ | hroom
    · exact Pool.Room.accrue_of_no_debt _ fractional_pos h0 hle _ _
    · exact Pool.Room.accrue _ fractional_pos (hrate rate hp).2 hroom

theorem outcome_room (ht : msg.trades = true) (hroom : Headroom env sys msg.taken)
    (h : Outcome env info sys msg sys' entered) : sys'.pool.Room fractional 0 := by
  cases h with
  | deposit _ _ _ _ hs ha =>
    rw [apply_deposit ha]
    exact (settled_room hroom hs).weaken.mint
  | withdraw hm _ _ hs ha =>
    obtain ⟨-, hpoints, -, hpool⟩ := apply_withdraw ha
    rw [hm] at hroom
    rw [hpool]
    exact ((settled_room hroom hs).burn hpoints).pay
  | borrow hm _ hs ha =>
    obtain ⟨-, -, hpool⟩ := apply_borrow ha
    rw [hm] at hroom
    rw [hpool]
    exact (settled_room hroom hs).lend.pay
  | repay _ _ _ hs ha =>
    obtain ⟨back, -, hpool⟩ := apply_repay ha
    rw [hpool]
    exact (settled_room hroom hs).weaken.redeem.pay
  | repayTo _ _ _ _ _ _ hs ha =>
    rw [apply_repayTo ha]
    exact (settled_room hroom hs).weaken.redeem
  | transferFrom _ _ hs _ _ _ ha =>
    rw [apply_transferFrom ha]
    exact (settled_room hroom hs).weaken
  | adjust hadj =>
    cases hadj <;> simp [ExecuteMsg.trades, ExecuteMsg.lends, ExecuteMsg.plain] at ht
  | rates hm => simp [ExecuteMsg.trades, ExecuteMsg.lends, ExecuteMsg.plain, hm] at ht
  | send hm => simp [ExecuteMsg.trades, ExecuteMsg.lends, ExecuteMsg.plain, hm] at ht
  | swap hm => simp [ExecuteMsg.trades, ExecuteMsg.lends, ExecuteMsg.plain, hm] at ht

theorem step_room (hi : sys.pool.Room fractional 0) (hg : Restrained sys tx)
    (h : step tx sys = .ok sys') : sys'.pool.Room fractional 0 := by
  obtain ⟨env, action⟩ := tx
  cases action with
  | execute info msg =>
    simp only [step, bind_eq_ok, pure_eq_ok] at h
    obtain ⟨⟨_, entered⟩, h, rfl⟩ := h
    obtain ⟨funds, holdings, -, hcredit, hout⟩ := execute_outcome h
    obtain ⟨ht, hroom⟩ := hg
    refine outcome_room ht ?_ hout
    unfold Headroom owed claims at hroom ⊢
    rw [credited_pendingRate env hcredit, credited_pool hcredit]
    exact hroom
  | ctoken sender msg =>
    rw [executeCtoken_pool h hg]
    exact hi
  | donate amount =>
    rw [donate_pool h]
    exact hi.receive

/-- In a run from instantiation whose payouts fit into the headroom, the debt stays within
the ctoken base supply, and the subtraction of `calculateInterest` succeeds. -/
theorem debt_le_claims {sender address ctokenContract : Addr} {time : ℕ} {m : InstantiateMsg}
    (hi : instantiate sender address ctokenContract time m = .ok init)
    (h : Run step Restrained init txs sys) :
    sys.owed ≤ sys.claims ∧ ∀ supplied borrowed multiplier,
      sys.ctoken.totalSupplyBase = .ok (ε := Market.Error) supplied →
      Debt.total sys.market.debt = .ok (borrowed, multiplier) →
      borrowed ≤ supplied ∧ ∃ balance, supplied.sub borrowed = .ok (ε := Market.Error) balance := by
  obtain ⟨hsupply, hdebt, -⟩ := instantiate_pool hi
  have hle : sys.owed ≤ sys.claims := by
    refine h.invariant (I := fun sys => sys.pool.Room fractional 0) ?_
      fun _ _ _ hu hg hs => step_room hu hg hs
    simp [Pool.Room, Pool.owed, Pool.claims, toBase, hsupply, hdebt]
  refine ⟨hle, ?_⟩
  intro supplied borrowed multiplier hs hb
  have hs := totalSupplyBase_eq_ok.mp hs
  have hb := (debtTotal_eq_ok.mp hb).1
  have hval : borrowed.val ≤ supplied.val := by rwa [hs, hb]
  refine ⟨hval, ⟨supplied.val - borrowed.val, lt_of_le_of_lt (Nat.sub_le _ _) supplied.isLt⟩, ?_⟩
  exact Uint128.sub_eq_ok.mpr (Nat.sub_add_cancel hval)

instance (env : Env) (sys : System) (taken : ℕ) : Decidable (Headroom env sys taken) :=
  match h : pendingRate env sys with
  | none => decidable_of_iff (sys.owed + taken ≤ sys.claims) (by rw [Headroom, h])
  | some rate => decidable_of_iff ((sys.pool.debt = 0 ∧ taken ≤ sys.claims) ∨
      (sys.owed + taken + 2) * fractional + rate.atomics.val + sys.claims + sys.pool.supply ≤
        sys.claims * fractional) (by rw [Headroom, h])

instance (sys : System) : DecidablePred (Restrained sys) := fun tx =>
  match tx with
  | ⟨_, .execute _ _⟩ => inferInstanceAs (Decidable (_ ∧ Headroom _ _ _))
  | ⟨_, .ctoken _ _⟩ => inferInstanceAs (Decidable (_ ≠ _))
  | ⟨_, .donate _⟩ => inferInstanceAs (Decidable True)

/-- Half of the deposits are borrowed, and a year later a part is withdrawn. -/
theorem debt_le_claims_example : ∃ init sys, sample = .ok init ∧ Run step Restrained init
    [sampleTx 0 "lender" 2000 .deposit, ⟨sampleEnv 0, .donate 50⟩,
      sampleTx 0 "bob" 0 (.borrow 1000), sampleTx 31_536_000 "lender" 0 (.withdraw 500)] sys ∧
    sys.owed ≤ sys.claims := by
  obtain ⟨init, sys, hi, h, -⟩ : ∃ init sys, sample = .ok init ∧ Run step Restrained init
      [sampleTx 0 "lender" 2000 .deposit, ⟨sampleEnv 0, .donate 50⟩,
        sampleTx 0 "bob" 0 (.borrow 1000), sampleTx 31_536_000 "lender" 0 (.withdraw 500)] sys ∧
      True := exists_run_of_start (by decide)
  exact ⟨init, sys, hi, h, (debt_le_claims hi h).1⟩

/-- Tokens that were sent to the market are lent out above the supply, and a year later
nobody can deposit. -/
theorem donation_lent_out : ∃ init sys, sample = .ok init ∧ Run step Ordered init
    [sampleTx 0 "lender" 100 .deposit, ⟨sampleEnv 0, .donate 50⟩,
      sampleTx 0 "bob" 0 (.borrow 150)] sys ∧
    (sys.claims ≠ 0 ∧ ¬ sys.owed ≤ sys.claims ∧
      (step (sampleTx 31_536_000 "lender" 10 .deposit) sys).toOption.isNone = true) :=
  exists_run_of_start (by decide)

/-- Truncation alone does the same at full utilisation: of 7 tokens all are lent at 30%,
and after a year 9 are owed to lenders who can claim 8. -/
example : ∃ init sys, sample = .ok init ∧ Run step Ordered init
    [sampleTx 0 "lender" 7 .deposit, sampleTx 0 "bob" 0 (.borrow 7),
      sampleTx 31_536_000 "agency" 0 (.transferFrom "lender" "carol" 1 Decimal.one)] sys ∧
    (sys.claims = 8 ∧ sys.owed = 9) :=
  exists_run_of_start (by decide)

end System

end WyndLend.Market
