import WyndLend.Market.Books

/-!
# Repayments and what they send back

The closure of `decrease` runs on the total and then on the account, and both runs
write the same surplus. If only the run on the total finds fewer points than the
payment, its surplus is sent back although the account's debt falls by the payment.
That takes a total below the account's own points, as an overpayment leaves behind.
-/

namespace WyndLend.Market

open CosmWasm Utils Rebasing

/-- What a payment may do to a debt: it falls by no more than the tokens that are kept,
and no more is sent back than what the debt does not use up. -/
structure Honoured (before after paid surplus : ℕ) : Prop where
  fall : before + surplus ≤ after + paid
  surplus : surplus + min paid before ≤ paid

namespace Debt

variable {l l' : Ledger} {account : Addr} {amount surplus : Uint128}

/-- The base debt of the account: `Debt.of` as a number. -/
def Ledger.owedBy (l : Ledger) (account : Addr) : ℕ :=
  toBase fractional (l.points account).val l.info.multiplier.atomics.val

/-- The points that a payment is converted to. -/
def Ledger.paidPoints (l : Ledger) (amount : Uint128) : ℕ :=
  toPoints fractional amount.val l.info.multiplier.atomics.val

/-- The surplus is written by a run that finds no more points than the payment. -/
theorem decreaseChange_surplus {old new captured : Uint128} {m : Decimal}
    (h : decreaseChange amount old m captured = .ok (new, surplus)) :
    let points := toPoints fractional amount.val m.atomics.val
    0 < m.atomics.val ∧ new.val = old.val - points ∧
      surplus.val = if old.val ≤ points then toBase fractional (points - old.val) m.atomics.val
        else captured.val := by
  simp only [decreaseChange, bind_eq_ok] at h
  obtain ⟨points, hp, h⟩ := h
  obtain ⟨hm, hp⟩ := baseToToken_eq_ok.mp hp
  intro paid
  have hpaid : points.val = paid := hp
  refine ⟨Nat.pos_of_ne_zero hm, ?_⟩
  split_ifs at h with hle
  · simp only [bind_eq_ok, Uint128.sub_eq_ok, tokenToBase_eq_ok, pure_eq_ok, Prod.mk.injEq] at h
    obtain ⟨left, hleft, _, hback, rfl, rfl⟩ := h
    rw [Uint128.le_def] at hle
    have hleft : left.val = paid - old.val := by omega
    rw [if_pos (by omega), hback, hleft]
    refine ⟨?_, rfl⟩
    simp only [Uint128.val_zero]
    omega
  · simp only [bind_eq_ok, Uint128.sub_eq_ok, pure_eq_ok, Prod.mk.injEq] at h
    obtain ⟨_, hsub, rfl, rfl⟩ := h
    rw [Uint128.le_def] at hle
    rw [if_neg (by omega)]
    exact ⟨by omega, rfl⟩

/-- What a decrease does to the account, and what it returns: the surplus over the
account's points, or over the total if the account has more points than are paid. -/
theorem decrease_surplus (h : decrease l account amount = .ok (l', surplus)) (h0 : amount ≠ 0) :
    0 < l.info.multiplier.atomics.val ∧
    l'.owedBy account = toBase fractional ((l.points account).val - l.paidPoints amount)
      l.info.multiplier.atomics.val ∧
    surplus.val = toBase fractional
      (l.paidPoints amount - if (l.points account).val ≤ l.paidPoints amount
        then (l.points account).val else l.info.totalPoints.val) l.info.multiplier.atomics.val := by
  unfold decrease at h
  rw [if_neg h0] at h
  simp only [changeAmount, bind_eq_ok, pure_eq_ok] at h
  obtain ⟨⟨t, s⟩, ht, ⟨p, s'⟩, hp, h⟩ := h
  cases h
  obtain ⟨hm, -, ht⟩ := decreaseChange_surplus ht
  obtain ⟨-, hp, hs⟩ := decreaseChange_surplus hp
  refine ⟨hm, ?_, ?_⟩
  · unfold Ledger.owedBy
    rw [points_save, if_pos rfl, hp]
    rfl
  · rw [hs]
    unfold Ledger.paidPoints
    split_ifs with hown
    · rfl
    · rw [ht]
      split_ifs with htotal
      · rfl
      · have hnone : toPoints fractional amount.val l.info.multiplier.atomics.val -
            l.info.totalPoints.val = 0 := by omega
        rw [hnone, toBase, Nat.zero_mul, Nat.zero_div]
        rfl

/-- The payment covers the account's points, or exceeds the recorded total by less than
one base token. -/
def WithinTotal (l : Ledger) (account : Addr) (amount : Uint128) : Prop :=
  (l.points account).val ≤ l.paidPoints amount ∨
    toBase fractional (l.paidPoints amount - l.info.totalPoints.val)
      l.info.multiplier.atomics.val = 0

instance (l : Ledger) (account : Addr) (amount : Uint128) :
    Decidable (WithinTotal l account amount) :=
  inferInstanceAs (Decidable (_ ∨ _))

/-- As long as the total is the sum of the points, a payment that leaves the account
with points leaves the total with points. -/
theorem withinTotal_of_balanced (hb : Balanced l) : WithinTotal l account amount := by
  by_cases h : (l.points account).val ≤ l.paidPoints amount
  · exact .inl h
  · right
    have hle := points_le_sumPoints l account
    unfold Balanced at hb
    have hnone : l.paidPoints amount - l.info.totalPoints.val = 0 := by omega
    rw [hnone, toBase, Nat.zero_mul, Nat.zero_div]

theorem decrease_honoured_iff (h : decrease l account amount = .ok (l', surplus)) :
    Honoured (l.owedBy account) (l'.owedBy account) amount.val surplus.val ↔
      WithinTotal l account amount := by
  by_cases h0 : amount = 0
  · subst h0
    cases h
    have hnone : l.paidPoints 0 - l.info.totalPoints.val = 0 := by
      simp [Ledger.paidPoints, toPoints]
    refine iff_of_true ⟨le_rfl, ?_⟩ (.inr ?_)
    · simp
    · rw [hnone, toBase, Nat.zero_mul, Nat.zero_div]
  obtain ⟨hm, hafter, hback⟩ := decrease_surplus h h0
  have hpaid : toBase fractional (l.paidPoints amount) l.info.multiplier.atomics.val ≤ amount.val :=
    toBase_toPoints_le _ _ _
  unfold WithinTotal
  by_cases hown : (l.points account).val ≤ l.paidPoints amount
  · -- The account's own run wrote the surplus: debt and surplus share the payment.
    have hsplit := toBase_add_le fractional (l.points account).val
      (l.paidPoints amount - (l.points account).val) l.info.multiplier.atomics.val
    rw [Nat.add_sub_cancel' hown] at hsplit
    rw [if_pos hown] at hback
    have hbefore : toBase fractional (l.points account).val l.info.multiplier.atomics.val =
      l.owedBy account := rfl
    exact iff_of_true ⟨by omega, by omega⟩ (.inl hown)
  · -- The account keeps points and owed at least the payment.
    rw [if_neg hown] at hback
    have howed : amount.val ≤ l.owedBy account :=
      le_toBase_of_toPoints_lt fractional_pos hm (Nat.lt_of_not_le hown)
    have hfall := toBase_add_toPoints_le fractional
      ((l.points account).val - l.paidPoints amount) amount.val l.info.multiplier.atomics.val
    have hpoints : (l.points account).val - l.paidPoints amount +
        toPoints fractional amount.val l.info.multiplier.atomics.val =
          (l.points account).val := Nat.sub_add_cancel (Nat.le_of_not_le hown)
    rw [hpoints] at hfall
    have hbefore : toBase fractional (l.points account).val l.info.multiplier.atomics.val =
      l.owedBy account := rfl
    constructor
    · rintro ⟨-, hsurplus⟩
      right
      omega
    · rintro (hle | hzero)
      · exact absurd hle hown
      · exact ⟨by omega, by omega⟩

end Debt

namespace System

variable {env : Env} {info : MessageInfo} {msg : ExecuteMsg} {start sys sys' mid : System}
  {tx : Tx} {txs : List Tx} {account : Addr} {amount : Uint128}

/-- The transaction is a repayment, and no charge period is pending. -/
inductive Repays (sys : System) : Tx → Addr → Uint128 → Prop where
  | repay {env info msg coin} (plain : msg.plain = .repay)
    (brought : incoming info msg = .ok coin)
    (idle : epochsPassed sys.market.config env.time = .ok 0) :
    Repays sys ⟨env, .execute info msg⟩ (origin info msg) coin.amount

/-- The market keeps tokens for the debt that a repayment takes off; what it does not keep
is the surplus that it sends back. -/
def TokensKept (sys : System) (tx : Tx) : Prop :=
  ∀ account paid, Repays sys tx account paid → ∀ sys', step tx sys = .ok sys' →
    ∃ surplus, sys'.cash.val + surplus = sys.cash.val + paid.val ∧
      Honoured (sys.market.debt.owedBy account) (sys'.market.debt.owedBy account) paid.val surplus

/-- A repayment is within the total. -/
def RepaysWithin (sys : System) (tx : Tx) : Prop :=
  ∀ account paid, Repays sys tx account paid → Debt.WithinTotal sys.market.debt account paid

/-- With nothing pending a settlement leaves the ledgers and the cash alone. -/
theorem settle_idle (h : settle env sys = .ok mid)
    (hn : epochsPassed sys.market.config env.time = .ok 0) :
    mid.market.debt = sys.market.debt ∧ mid.cash = sys.cash := by
  obtain ⟨n, u, hn', hu, hmid, hcase⟩ := settle_spec h
  cases hn.symm.trans hn'
  have hcash : mid.cash = sys.cash := by rw [hmid]
  cases u with
  | none => exact ⟨hcase.1, hcash⟩
  | some u =>
    obtain ⟨h0, -⟩ := calculateInterest_spec hu
    exact absurd rfl h0

/-- A repayment decreases the debt, and the market keeps what was brought less the surplus. -/
theorem repay_step {paid : Uint128} (hr : Repays sys tx account paid)
    (h : step tx sys = .ok sys') : ∃ surplus,
      Debt.decrease sys.market.debt account paid = .ok (sys'.market.debt, surplus) ∧
      sys'.cash.val + surplus.val = sys.cash.val + paid.val := by
  obtain @⟨env, info, msg, coin, hplain, hbrought, hidle⟩ := hr
  simp only [step, bind_eq_ok, pure_eq_ok] at h
  obtain ⟨⟨_, entered⟩, h, rfl⟩ := h
  obtain ⟨funds, ⟨ctoken, cash⟩, hfunds, hcredit, hout⟩ := execute_outcome h
  obtain ⟨rfl, hcash⟩ := Holdings.receive_eq_ok.mp hcredit
  cases hout with
  | @repay coin' mid _ _ hc hd hs ha =>
    cases hbrought.symm.trans hc
    have hreceived := received_eq hc hd hfunds
    obtain ⟨hdebt, hmid⟩ := settle_idle hs hidle
    cases applied_of_apply ha with
    | repay hdec hpay =>
      rw [hdebt] at hdec
      refine ⟨_, hdec, ?_⟩
      dsimp only at hpay hcash hmid ⊢
      rw [hpay, hmid, hcash, hreceived]
  | _ => grind [ExecuteMsg.plain]

theorem tokensKept_iff (h : step tx sys = .ok sys') : TokensKept sys tx ↔ RepaysWithin sys tx := by
  constructor
  · intro hkept account paid hr
    obtain ⟨surplus, hdec, hcash⟩ := repay_step hr h
    obtain ⟨back, hback, hhon⟩ := hkept account paid hr sys' h
    have hsame : back = surplus.val := by omega
    rw [hsame] at hhon
    exact (Debt.decrease_honoured_iff hdec).mp hhon
  · intro hwithin account paid hr sys'' h'
    obtain ⟨surplus, hdec, hcash⟩ := repay_step hr h'
    exact ⟨surplus.val, hcash, (Debt.decrease_honoured_iff hdec).mpr (hwithin account paid hr)⟩

/-- The repayments of a run all keep their tokens exactly when each is within the total
that it finds. -/
theorem repay_keeps_tokens_iff :
    Run step TokensKept start txs sys ↔ Run step RepaysWithin start txs sys :=
  Run.guard_iff fun _ _ _ h => tokensKept_iff h

instance (sys : System) (tx : Tx) : Decidable (RepaysWithin sys tx) :=
  match tx with
  | ⟨env, .execute info msg⟩ =>
    match hc : incoming info msg with
    | .error _ => .isTrue (by rintro _ _ ⟨_, hbrought, _⟩; rw [hc] at hbrought; cases hbrought)
    | .ok coin => decidable_of_iff (msg.plain = .repay →
        epochsPassed sys.market.config env.time = .ok 0 →
          Debt.WithinTotal sys.market.debt (origin info msg) coin.amount) (by
      constructor
      · rintro h _ _ ⟨hplain, hbrought, hidle⟩
        cases hc.symm.trans hbrought
        exact h hplain hidle
      · intro h hplain hidle
        exact h _ _ ⟨hplain, hc, hidle⟩)
  | ⟨_, .ctoken _ _⟩ => .isTrue (by rintro _ _ ⟨⟩)
  | ⟨_, .donate _⟩ => .isTrue (by rintro _ _ ⟨⟩)

/-- Two debtors borrow, one repays a part, and after a year's interest the other repays
more than is owed. -/
theorem repay_keeps_tokens_iff_example : ∃ init sys, sample = .ok init ∧
    Run step TokensKept init [sampleTx 0 "lender" 2000 .deposit,
      sampleTx 0 "alice" 0 (.borrow 100), sampleTx 0 "bob" 0 (.borrow 1000),
      sampleTx 0 "alice" 40 .repay, sampleTx 31_536_000 "carol" 1 .deposit,
      sampleTx 31_536_000 "alice" 100 .repay] sys := by
  obtain ⟨init, sys, hi, h, -⟩ : ∃ init sys, sample = .ok init ∧
      Run step RepaysWithin init [sampleTx 0 "lender" 2000 .deposit,
        sampleTx 0 "alice" 0 (.borrow 100), sampleTx 0 "bob" 0 (.borrow 1000),
        sampleTx 0 "alice" 40 .repay, sampleTx 31_536_000 "carol" 1 .deposit,
        sampleTx 31_536_000 "alice" 100 .repay] sys ∧ True := exists_run_of_start (by decide)
  exact ⟨init, sys, hi, repay_keeps_tokens_iff.mpr h⟩

/-- Alice owes 100, repays 1100 and gets 1000 back, which leaves a total of zero while Bob
owes 1000. Then Bob repays 500: all of it is sent back, and his debt falls to 500. -/
theorem surplus_repays_debt : ∃ init sys sys', sample = .ok init ∧
    Run step Ordered init [sampleTx 0 "lender" 2000 .deposit, sampleTx 0 "alice" 0 (.borrow 100),
      sampleTx 0 "bob" 0 (.borrow 1000), sampleTx 0 "alice" 1100 .repay] sys ∧
    step (sampleTx 0 "bob" 500 .repay) sys = .ok sys' ∧
    (sys'.cash = sys.cash ∧ sys.market.debt.owedBy "bob" = 1000 ∧
      sys'.market.debt.owedBy "bob" = 500) ∧
    ¬ TokensKept sys (sampleTx 0 "bob" 500 .repay) := by
  obtain ⟨init, sys, hi, hrun, hnot, hstep⟩ : ∃ init sys, sample = .ok init ∧
      Run step Ordered init [sampleTx 0 "lender" 2000 .deposit,
        sampleTx 0 "alice" 0 (.borrow 100), sampleTx 0 "bob" 0 (.borrow 1000),
        sampleTx 0 "alice" 1100 .repay] sys ∧
      (¬ RepaysWithin sys (sampleTx 0 "bob" 500 .repay) ∧
        (step (sampleTx 0 "bob" 500 .repay) sys).toOption.any (fun sys' =>
          decide (sys'.cash = sys.cash ∧ sys.market.debt.owedBy "bob" = 1000 ∧
            sys'.market.debt.owedBy "bob" = 500)) = true) :=
    exists_run_of_start (by decide)
  obtain ⟨sys', hs, hnumbers⟩ := exists_ok_of_any hstep
  exact ⟨init, sys, sys', hi, hrun, hs, hnumbers, fun hkept => hnot ((tokensKept_iff hs).mp hkept)⟩

end System

end WyndLend.Market
