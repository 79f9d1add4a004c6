import WyndLend.Ctoken.Rewards

/-!
# Reward solvency

The ctoken contract together with the reward tokens it holds. They arrive from
outside, and leave only when a holder withdraws. What all holders have earned,
with the points kept for the next distribution, is exactly what was distributed,
so in whole coins the holders are owed no more than the contract holds.
-/

namespace WyndLend.Ctoken

open CosmWasm Utils Rewards Finsupp

namespace State

variable (s : State)

/-- The accounts with an entry in the contract's storage. -/
def accounts : Finset Addr := s.balances.keys.toFinset ∪ s.withdrawAdjustment.keys.toFinset

variable {s} {holder : Addr}

theorem adjustment_eq_default (h : holder ∉ s.accounts) : s.adjustment holder = default := by
  rw [accounts, Finset.mem_union, not_or, List.mem_toFinset, List.mem_toFinset] at h
  unfold adjustment Map.mayLoad
  rw [AList.lookup_eq_none.mpr h.2]
  rfl

/-- Every other account has earned nothing. -/
theorem points_eq_zero (h : holder ∉ s.accounts) : s.points holder = 0 := by
  have hadjustment := adjustment_eq_default h
  rw [accounts, Finset.mem_union, not_or, List.mem_toFinset, List.mem_toFinset] at h
  unfold points balance Map.mayLoad
  rw [hadjustment, AList.lookup_eq_none.mpr h.1, Option.getD_none, Uint128.val_zero,
    Nat.cast_zero, mul_zero, zero_add]
  rfl

variable (s)

/-- What each account has withdrawn. -/
noncomputable def withdrawn : Addr →₀ ℤ :=
  s.withdrawAdjustment.tally fun adjustment => adjustment.withdrawnFunds.val

theorem withdrawn_apply (holder : Addr) :
    s.withdrawn holder = (s.adjustment holder).withdrawnFunds.val := by
  change (s.withdrawAdjustment.mayLoad holder).elim 0 _ = _
  unfold adjustment
  cases s.withdrawAdjustment.mayLoad holder <;> rfl

end State

/-- A function that is zero off a set sums to its degree over the set. -/
theorem sum_eq_degree {f : Addr →₀ ℤ} (accounts : Finset Addr)
    (h : ∀ a ∉ accounts, f a = 0) : ∑ a ∈ accounts, f a = f.degree := by
  rw [degree_apply]
  refine (Finset.sum_subset ?_ fun a _ ha => notMem_support_iff.mp ha).symm
  intro a ha
  by_contra hmem
  exact mem_support_iff.mp ha (h a hmem)

variable {s s' : State} {self account : Addr} {call : Call} {msgs : List Message}

/-! ## The books of the distribution -/

theorem Shift.withdrawn_eq {diff : ℤ} (h : Shift s account diff s') :
    s'.withdrawn = s.withdrawn := by
  ext holder
  rw [State.withdrawn_apply, State.withdrawn_apply, h.withdrawn holder]

theorem increment_of_eq {msg : ExecuteMsg} (h : s'.distribution = s.distribution) :
    increment s s' msg = 0 := by
  unfold increment
  split
  · rw [h, Nat.sub_self]
  · rfl

/-- A call leaves the books alone, distributes what has come in, or pays a holder. -/
theorem Outcome.books (h : Outcome call.querier self call.sender s call.msg s' msgs)
    (fit : NativeFits self s call) :
    (s'.distribution = s.distribution ∧ s'.withdrawn = s.withdrawn ∧
      ∀ coin holder, Message.sendTokens coin holder ∉ msgs) ∨
    (∃ amount : ℕ, msgs = [] ∧ s'.withdrawn = s.withdrawn ∧
      amount + s.distribution.withdrawableTotal.val =
        (call.querier.balance s.distribution.denom self).val ∧
      increment s s' call.msg * s.totalSupply.val + s'.distribution.pointsLeftover.val =
        amount * pointsScale.val + s.distribution.pointsLeftover.val ∧
      s'.distribution.distributedTotal.val = s.distribution.distributedTotal.val + amount ∧
      s'.distribution.withdrawableTotal.val = s.distribution.withdrawableTotal.val + amount) ∨
    (∃ coin : Coin, call.msg = .withdrawFunds ∧ msgs = [.sendTokens coin call.sender] ∧
      s'.withdrawn.degree = s.withdrawn.degree + coin.amount.val ∧
      s'.distribution.pointsLeftover = s.distribution.pointsLeftover ∧
      s'.distribution.distributedTotal = s.distribution.distributedTotal ∧
      s'.distribution.withdrawableTotal.val + coin.amount.val =
        s.distribution.withdrawableTotal.val) := by
  obtain ⟨sender, msg, querier⟩ := call
  dsimp only at h ⊢
  cases h with
  | transferred _ _ taken given silent =>
    exact .inl ⟨given.distribution.trans taken.distribution,
      given.withdrawn_eq.trans taken.withdrawn_eq, silent⟩
  | minted _ _ _ given _ => exact .inl ⟨given.distribution, given.withdrawn_eq, by simp⟩
  | burned _ _ _ taken _ => exact .inl ⟨taken.distribution, taken.withdrawn_eq, by simp⟩
  | rebased | idle => exact .inl ⟨rfl, rfl, by simp⟩
  | distributed amount_eq points_eq _ _ perToken leftover total withdrawable =>
    obtain ⟨hamount, hpoints⟩ := distribute_exact (fit _ rfl)
    rw [← amount_eq] at hamount hpoints
    rw [← points_eq] at hpoints
    refine .inr (.inl ⟨_, rfl, rfl, hamount, ?_, total, withdrawable⟩)
    unfold increment
    dsimp only
    rw [perToken, leftover, Nat.add_sub_cancel_left, Nat.div_add_mod', hpoints]
  | @withdrew coin w t _ withdrawn rest =>
    refine .inr (.inr ⟨coin, rfl, rfl, ?_, rfl, rfl, rest⟩)
    have hold := s.withdrawn_apply sender
    unfold State.withdrawn at hold ⊢
    dsimp only
    rw [Map.tally_save, map_add, degree_single, hold, withdrawn, Nat.cast_add,
      add_sub_cancel_left]

theorem degree_weight (hs : SupplyIsSum s) : s.accumulator.weight.degree = s.totalSupply.val := by
  rw [hs]
  exact Map.degree_tally Uint128.val s.balances

/-- The points of all accounts after a call: a distribution gives its increment
to the whole supply. -/
theorem Outcome.degree_earned
    (h : Outcome call.querier self call.sender s call.msg s' msgs) (fit : NativeFits self s call)
    (hs : SupplyIsSum s) : s'.accumulator.earned.degree =
      s.accumulator.earned.degree + increment s s' call.msg * s.totalSupply.val := by
  rw [h.earned fit, map_add, map_zsmul, smul_eq_mul, degree_weight hs]

/-! ## The contract and its funds -/

/-- The contract with the reward tokens it holds. -/
structure Vault where
  token : State
  funds : Uint128

namespace Vault

inductive Input where
  /-- Reward tokens arrive. -/
  | receive (amount : Uint128)
  /-- A call, with the controller's answer about what is transferable. -/
  | call (sender : Addr) (msg : ExecuteMsg) (transferable : Except Error Uint128)

/-- The contract asks for its own balance of the reward token only. -/
def querier (v : Vault) (transferable : Except Error Uint128) : Querier where
  transferableAmount _ _ _ := transferable
  balance _ _ := v.funds

/-- Deliver a message; tokens that the contract sends to itself stay. -/
def pay (self : Addr) (funds : Uint128) : Message → Except Error Uint128
  | .sendTokens coin recipient => do
    let rest ← funds.sub coin.amount
    return if recipient = self then funds else rest
  | .receive .. => return funds

def step (self : Addr) : Input → Vault → Except Error Vault
  | .receive amount, v => return { v with funds := ← v.funds.add amount }
  | .call sender msg transferable, v => do
    let (token, msgs) ← execute (v.querier transferable) self sender msg v.token
    return ⟨token, ← msgs.foldlM (pay self) v.funds⟩

/-- No arithmetic and no cast wraps. -/
def Fits (self : Addr) (v : Vault) : Input → Prop
  | .receive _ => True
  | .call sender msg transferable => NativeFits self v.token ⟨sender, msg, v.querier transferable⟩

instance (self : Addr) (v : Vault) (input : Input) : Decidable (Fits self v input) :=
  match input with
  | .receive _ => .isTrue trivial
  | .call sender msg transferable =>
    inferInstanceAs (Decidable (NativeFits self v.token ⟨sender, msg, v.querier transferable⟩))

structure Solvent (v : Vault) : Prop where
  supply : SupplyIsSum v.token
  settled : ∀ holder, Settled v.token holder
  /-- What was distributed was earned, or waits for the next distribution. -/
  conserved : v.token.accumulator.earned.degree + v.token.distribution.pointsLeftover.val =
    pointsScale.val * v.token.distribution.distributedTotal.val
  /-- What was distributed was withdrawn, or may be. -/
  outstanding : v.token.distribution.withdrawableTotal.val + v.token.withdrawn.degree =
    v.token.distribution.distributedTotal.val
  funded : v.token.distribution.withdrawableTotal ≤ v.funds

variable {v v' : Vault} {self : Addr} {s' : State} {call : Call} {msgs : List Message}

theorem pay_silent {funds funds' : Uint128}
    (h : ∀ coin holder, Message.sendTokens coin holder ∉ msgs)
    (hpay : msgs.foldlM (pay self) funds = .ok funds') : funds' = funds := by
  induction msgs with
  | nil => cases hpay; rfl
  | cons msg msgs ih =>
    cases msg with
    | sendTokens coin holder => exact absurd List.mem_cons_self (h coin holder)
    | receive contract sender amount =>
      exact ih (fun coin holder hmem => h coin holder (List.mem_cons_of_mem _ hmem)) hpay

theorem pay_spec {coin : Coin} {holder : Addr} {funds funds' : Uint128}
    (h : [Message.sendTokens coin holder].foldlM (pay self) funds = .ok funds') :
    coin.amount.val ≤ funds.val ∧ funds.val ≤ funds'.val + coin.amount.val := by
  simp only [List.foldlM_cons, List.foldlM_nil, bind_eq_ok, pure_eq_ok, pay,
    Uint128.sub_eq_ok] at h
  obtain ⟨_, ⟨rest, hrest, rfl⟩, rfl⟩ := h
  split_ifs <;> omega

theorem step_receive_eq_ok {amount : Uint128} : step self (.receive amount) v = .ok v' ↔
    v'.token = v.token ∧ v'.funds.val = v.funds.val + amount.val := by
  simp only [step, bind_eq_ok, Uint128.add_eq_ok, pure_eq_ok]
  constructor
  · rintro ⟨funds, hfunds, rfl⟩
    exact ⟨rfl, hfunds⟩
  · rintro ⟨htoken, hfunds⟩
    exact ⟨v'.funds, hfunds, by rw [← htoken]⟩

theorem step_call_eq_ok {sender : Addr} {msg : ExecuteMsg} {transferable : Except Error Uint128} :
    step self (.call sender msg transferable) v = .ok v' ↔ ∃ msgs,
      execute (v.querier transferable) self sender msg v.token = .ok (v'.token, msgs) ∧
        msgs.foldlM (pay self) v.funds = .ok v'.funds := by
  simp only [step, bind_eq_ok, pure_eq_ok, Prod.exists]
  constructor
  · rintro ⟨token, msgs, h, funds, hpay, rfl⟩
    exact ⟨msgs, h, hpay⟩
  · rintro ⟨msgs, h, hpay⟩
    exact ⟨v'.token, msgs, h, v'.funds, hpay, rfl⟩

theorem step_call {sender : Addr} {msg : ExecuteMsg} {transferable : Except Error Uint128}
    (h : step self (.call sender msg transferable) v = .ok v')
    (fit : Fits self v (.call sender msg transferable)) :
    ∃ call msgs, Outcome call.querier self call.sender v.token call.msg v'.token msgs ∧
      NativeFits self v.token call ∧
      (∀ denom address, call.querier.balance denom address = v.funds) ∧
      msgs.foldlM (pay self) v.funds = .ok v'.funds := by
  obtain ⟨msgs, hexec, hpay⟩ := step_call_eq_ok.mp h
  exact ⟨⟨sender, msg, v.querier transferable⟩, msgs, execute_outcome hexec, fit,
    fun _ _ => rfl, hpay⟩

theorem step_solvent {input : Input} (h : step self input v = .ok v') (fit : Fits self v input)
    (hv : Solvent v) : Solvent v' := by
  obtain ⟨hsupply, hsettled, hconserved, houtstanding, hfunded⟩ := hv
  rw [Uint128.le_def] at hfunded
  cases input with
  | receive amount =>
    obtain ⟨htoken, hfunds⟩ := step_receive_eq_ok.mp h
    rw [← htoken] at hsupply hsettled hconserved houtstanding hfunded
    refine ⟨hsupply, hsettled, hconserved, houtstanding, Uint128.le_def.mpr ?_⟩
    omega
  | call sender msg transferable =>
    obtain ⟨call, msgs, hout, fit, hbalance, hpay⟩ := step_call h fit
    have hearned := hout.degree_earned fit hsupply
    have hsupply' := hout.supplyIsSum hsupply
    have hsettled' := fun holder => hout.settled fit (hsettled holder)
    rcases hout.books fit with ⟨hd, hw, hsilent⟩ | ⟨amount, rfl, hw, hamount, hpoints, htotal,
      hwithdrawable⟩ | ⟨coin, hmsg, rfl, hw, hleft, htotal, hrest⟩
    · refine ⟨hsupply', hsettled', ?_, ?_, ?_⟩
      · rw [hearned, increment_of_eq hd, hd, Nat.cast_zero, zero_mul, add_zero]
        exact hconserved
      · rw [hw, hd]
        exact houtstanding
      · rw [hd, pay_silent hsilent hpay]
        exact Uint128.le_def.mpr hfunded
    · have hfunds := pay_silent (by simp) hpay
      refine ⟨hsupply', hsettled', ?_, ?_, Uint128.le_def.mpr ?_⟩
      · rw [hearned, htotal]
        zify at hpoints
        push_cast
        linarith
      · rw [hw, htotal, hwithdrawable]
        push_cast
        linarith
      · rw [hbalance] at hamount
        rw [hfunds]
        omega
    · obtain ⟨hle, hfunds⟩ := pay_spec hpay
      refine ⟨hsupply', hsettled', ?_, ?_, Uint128.le_def.mpr ?_⟩
      · rw [hearned, hleft, htotal, increment_of_ne (by rw [hmsg]; decide), Nat.cast_zero,
          zero_mul, add_zero]
        exact hconserved
      · rw [hw, htotal]
        omega
      · omega

/-! ## What the holders are owed -/

/-- Whole coins owed to any accounts are at most what may be withdrawn. -/
theorem Solvent.owed_le (hv : Solvent v) (accounts : Finset Addr) :
    ∑ a ∈ accounts, (v.token.points a / pointsScale.val - v.token.withdrawn a) ≤
      v.token.distribution.withdrawableTotal.val := by
  have hscale : (0 : ℤ) < pointsScale.val := by decide
  have hpos : ∀ a, 0 ≤ v.token.points a / pointsScale.val - v.token.withdrawn a := by
    intro a
    rw [State.withdrawn_apply]
    exact sub_nonneg.mpr (hv.settled a).2
  have hearned : v.token.accumulator.earned.degree / pointsScale.val ≤
      v.token.distribution.distributedTotal.val := by
    refine Int.ediv_le_of_le_mul hscale ?_
    have := hv.conserved
    rw [mul_comm]
    omega
  have hwithdrawn : ∑ a ∈ accounts ∪ v.token.accounts, v.token.withdrawn a =
      v.token.withdrawn.degree := by
    refine sum_eq_degree _ fun a ha => ?_
    rw [State.withdrawn_apply,
      State.adjustment_eq_default fun h => ha (Finset.mem_union_right _ h)]
    rfl
  have hcoins := sum_div_le_degree_div hscale
    (fun a => v.token.earned_apply a ▸ (hv.settled a).1) (accounts ∪ v.token.accounts)
  calc ∑ a ∈ accounts, (v.token.points a / pointsScale.val - v.token.withdrawn a)
      ≤ ∑ a ∈ accounts ∪ v.token.accounts,
          (v.token.points a / pointsScale.val - v.token.withdrawn a) := by
        refine Finset.sum_le_sum_of_subset_of_nonneg Finset.subset_union_left ?_
        intro a _ _
        exact hpos a
    _ = ∑ a ∈ accounts ∪ v.token.accounts, v.token.accumulator.earned a / pointsScale.val -
          v.token.withdrawn.degree := by
        rw [Finset.sum_sub_distrib, hwithdrawn]
        simp only [State.earned_apply]
    _ ≤ v.token.distribution.withdrawableTotal.val := by
        have := hv.outstanding
        omega

/-- The points of all accounts, with those kept for later, are what was distributed. -/
theorem Solvent.sum_points (hv : Solvent v) :
    ∑ a ∈ v.token.accounts, v.token.points a + v.token.distribution.pointsLeftover.val =
      pointsScale.val * v.token.distribution.distributedTotal.val := by
  rw [← hv.conserved, ← sum_eq_degree v.token.accounts]
  · simp only [State.earned_apply]
  · intro a ha
    rw [State.earned_apply, State.points_eq_zero ha]

theorem Solvent.sum_withdrawn (hv : Solvent v) :
    v.token.distribution.withdrawableTotal.val +
        ∑ a ∈ v.token.accounts, (v.token.adjustment a).withdrawnFunds.val =
      v.token.distribution.distributedTotal.val := by
  have hout := hv.outstanding
  rw [← sum_eq_degree v.token.accounts] at hout
  · simp only [State.withdrawn_apply] at hout
    exact_mod_cast hout
  · intro a ha
    rw [State.withdrawn_apply, State.adjustment_eq_default ha]
    rfl

/-- All that holders may withdraw together is at most what may be withdrawn in total. -/
theorem Solvent.sum_owed (hv : Solvent v) {accounts : Finset Addr} {owed : Addr → Coin}
    (h : ∀ a ∈ accounts, v.token.points a < 2 ^ 128 ∧
      withdrawableFunds v.token a = .ok (owed a)) :
    ∑ a ∈ accounts, (owed a).amount.val ≤ v.token.distribution.withdrawableTotal.val := by
  have hle := hv.owed_le accounts
  have hsum : ∑ a ∈ accounts, (v.token.points a / pointsScale.val - v.token.withdrawn a) =
      ∑ a ∈ accounts, ((owed a).amount.val : ℤ) := by
    refine Finset.sum_congr rfl fun a ha => ?_
    obtain ⟨hlt, hfunds⟩ := h a ha
    obtain ⟨-, hamount⟩ := ((hv.settled a).withdrawableFunds_eq_ok hlt).mp hfunds
    rw [← hamount, State.withdrawn_apply, add_sub_cancel_left]
  rw [hsum] at hle
  exact_mod_cast hle

theorem withdrawFunds_of {s : State} {holder : Addr} {coin : Coin} {w t : Uint128}
    (h : withdrawableFunds s holder = .ok coin) (hne : coin.amount ≠ 0)
    (hw : w.val = (s.adjustment holder).withdrawnFunds.val + coin.amount.val)
    (ht : t.val + coin.amount.val = s.distribution.withdrawableTotal.val) :
    withdrawFunds holder s = .ok ({ s with
      withdrawAdjustment :=
        s.withdrawAdjustment.save holder { s.adjustment holder with withdrawnFunds := w }
      distribution := { s.distribution with withdrawableTotal := t } },
      [.sendTokens coin holder]) := by
  simp only [withdrawFunds, h, bind_eq_ok]
  refine ⟨coin, rfl, ?_⟩
  rw [if_neg hne]
  simp only [bind_eq_ok, pure_eq_ok, Uint128.add_eq_ok, Uint128.sub_eq_ok]
  exact ⟨w, hw, t, ht, rfl⟩

theorem Solvent.amount_le (hv : Solvent v) {holder : Addr} {coin : Coin}
    (hlt : v.token.points holder < 2 ^ 128) (h : withdrawableFunds v.token holder = .ok coin) :
    coin.amount ≤ v.token.distribution.withdrawableTotal := by
  obtain ⟨-, hamount⟩ := ((hv.settled holder).withdrawableFunds_eq_ok hlt).mp h
  have hle := hv.owed_le {holder}
  rw [Finset.sum_singleton, State.withdrawn_apply] at hle
  exact Uint128.le_def.mpr (by omega)

/-- Every holder can be paid. -/
theorem Solvent.withdraw (hv : Solvent v) {holder : Addr} {coin : Coin}
    (hlt : v.token.points holder < 2 ^ 128) (h : withdrawableFunds v.token holder = .ok coin)
    (transferable : Except Error Uint128) :
    ∃ v', step self (.call holder .withdrawFunds transferable) v = .ok v' := by
  obtain ⟨-, hamount⟩ := ((hv.settled holder).withdrawableFunds_eq_ok hlt).mp h
  have hquot : v.token.points holder / pointsScale.val ≤ v.token.points holder :=
    Int.ediv_le_self _ (hv.settled holder).1
  have hle := Uint128.le_def.mp (hv.amount_le hlt h)
  have hfunded := Uint128.le_def.mp hv.funded
  by_cases hzero : coin.amount = 0
  · have hpay : ([] : List Message).foldlM (pay self) v.funds = .ok v.funds := rfl
    refine ⟨v, step_call_eq_ok.mpr ⟨_, ?_, hpay⟩⟩
    simp only [execute, withdrawFunds, h, bind_eq_ok]
    exact ⟨coin, rfl, if_pos hzero⟩
  · obtain ⟨w, hw⟩ : ∃ w : Uint128,
        w.val = (v.token.adjustment holder).withdrawnFunds.val + coin.amount.val :=
      ⟨⟨_, by omega⟩, rfl⟩
    obtain ⟨t, ht⟩ : ∃ t : Uint128,
        t.val + coin.amount.val = v.token.distribution.withdrawableTotal.val :=
      ⟨v.token.distribution.withdrawableTotal.saturatingSub coin.amount, Nat.sub_add_cancel hle⟩
    obtain ⟨rest, hrest⟩ : ∃ rest : Uint128, rest.val + coin.amount.val = v.funds.val :=
      ⟨v.funds.saturatingSub coin.amount, Nat.sub_add_cancel (hle.trans hfunded)⟩
    obtain ⟨funds, hpay⟩ : ∃ funds,
        [Message.sendTokens coin holder].foldlM (pay self) v.funds = .ok funds := by
      refine ⟨if holder = self then v.funds else rest, ?_⟩
      simp only [List.foldlM_cons, List.foldlM_nil, bind_eq_ok, pure_eq_ok, pay,
        Uint128.sub_eq_ok]
      exact ⟨_, ⟨rest, hrest, rfl⟩, rfl⟩
    exact ⟨⟨_, funds⟩, step_call_eq_ok.mpr ⟨_, withdrawFunds_of h hzero hw ht, hpay⟩⟩

theorem solvent_instantiate (controller : Addr) (denom : Token) (funds : Uint128) :
    Solvent ⟨instantiate controller denom, funds⟩ where
  supply := supplyIsSum_instantiate controller denom
  settled := settled_instantiate controller denom
  conserved := by
    have hzero : (instantiate controller denom).accumulator.earned = 0 := by
      ext holder
      rw [State.earned_apply]
      rfl
    rw [hzero]
    rfl
  outstanding := by
    have hzero : (instantiate controller denom).withdrawn = 0 := by
      ext holder
      rw [State.withdrawn_apply]
      rfl
    rw [hzero]
    rfl
  funded := Nat.zero_le _

/-- In every run in which nothing wraps, all points add up to what was distributed; what
all holders may withdraw is at most `withdrawable_total`, which is what was
distributed less what was withdrawn and which the contract holds; and every
holder whose points fit in 128 bits is owed them in whole coins and is paid. -/
theorem rewards_solvent {controller : Addr} {denom : Token} {funds : Uint128}
    {inputs : List Input}
    (h : Run (step self) (Fits self) ⟨instantiate controller denom, funds⟩ inputs v) :
    let s := v.token
    let d := s.distribution
    (∑ a ∈ s.accounts, (d.pointsPerToken.val * (s.balance a).val +
        (s.adjustment a).pointsCorrection.val : ℤ) + d.pointsLeftover.val =
      pointsScale.val * d.distributedTotal.val) ∧
    (d.withdrawableTotal.val + ∑ a ∈ s.accounts, (s.adjustment a).withdrawnFunds.val =
      d.distributedTotal.val) ∧
    d.withdrawableTotal ≤ v.funds ∧
    (∀ (accounts : Finset Addr) (owed : Addr → Coin),
      (∀ a ∈ accounts, s.points a < 2 ^ 128 ∧ withdrawableFunds s a = .ok (owed a)) →
      ∑ a ∈ accounts, (owed a).amount.val ≤ d.withdrawableTotal.val) ∧
    ∀ holder, s.points holder < 2 ^ 128 →
      ∃ coin, withdrawableFunds s holder = .ok coin ∧
        ((s.adjustment holder).withdrawnFunds.val + coin.amount.val : ℤ) =
          s.points holder / pointsScale.val ∧
        coin.amount ≤ d.withdrawableTotal ∧
        ∀ transferable, ∃ v', step self (.call holder .withdrawFunds transferable) v = .ok v' := by
  intro s d
  have hv : Solvent v := by
    refine h.invariant (solvent_instantiate controller denom funds) ?_
    intro u input w hu fit hstep
    exact step_solvent hstep fit hu
  refine ⟨hv.sum_points, hv.sum_withdrawn, hv.funded, fun _ _ => hv.sum_owed, ?_⟩
  intro holder hlt
  obtain ⟨coin, hcoin⟩ := exists_withdrawableFunds v.token holder
  exact ⟨coin, hcoin, (((hv.settled holder).withdrawableFunds_eq_ok hlt).mp hcoin).2,
    hv.amount_le hlt hcoin, hv.withdraw hlt hcoin⟩

/-- Two distributions that do not divide evenly, with a transfer and a withdrawal
between them. -/
def sampleInputs : List Input :=
  [.call "market" (.mint "alice" 7) (.ok 0), .receive 10, .call "carol" .distribute (.ok 0),
   .call "alice" (.transfer "bob" 3) (.ok 7), .call "alice" .withdrawFunds (.ok 0),
   .receive 5, .call "carol" .distribute (.ok 0)]

/-- Alice may withdraw three more coins and Bob two, of the six that are left. -/
theorem rewards_solvent_example : ∃ v,
    Run (step "token") (Fits "token") ⟨instantiate "market" (.native "juno"), 0⟩ sampleInputs v ∧
      v.token.distribution.withdrawableTotal = 6 ∧
      withdrawableFunds v.token "alice" = .ok ⟨.native "juno", 3⟩ ∧
      withdrawableFunds v.token "bob" = .ok ⟨.native "juno", 2⟩ ∧
      ∃ v', step "token" (.call "bob" .withdrawFunds (.ok 0)) v = .ok v' := by
  obtain ⟨v, hrun, htotal, halice, hbob, hlt⟩ : ∃ v,
      Run (step "token") (Fits "token") ⟨instantiate "market" (.native "juno"), 0⟩ sampleInputs v ∧
        v.token.distribution.withdrawableTotal = 6 ∧
        (withdrawableFunds v.token "alice").toOption = some ⟨.native "juno", 3⟩ ∧
        (withdrawableFunds v.token "bob").toOption = some ⟨.native "juno", 2⟩ ∧
        v.token.points "bob" < 2 ^ 128 :=
    exists_run_of_runAll (by decide +kernel)
  obtain ⟨-, -, -, -, hpaid⟩ := rewards_solvent hrun
  obtain ⟨coin, -, -, -, hstep⟩ := hpaid "bob" hlt
  exact ⟨v, hrun, htotal, toOption_eq_some.mp halice, toOption_eq_some.mp hbob, hstep _⟩

end Vault

end WyndLend.Ctoken
