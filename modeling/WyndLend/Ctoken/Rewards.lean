import WyndLend.Ctoken.Supply
import WyndLend.CosmWasm.Tally
import WyndLend.Rewards.Accumulator

/-!
# Lazy reward accounting

The contract books a distribution in `points_per_token` only, and corrects for
every change of a balance. As long as the native arithmetic of the release build does
not wrap, this is a reward accumulator, so a holder's points are what an eager ledger
would have booked for it at each distribution.
-/

namespace WyndLend.Ctoken

open CosmWasm Utils Rewards

namespace State

variable (s : State)

/-- The points a holder has earned: `ppt * balance + points_correction`. -/
def points (holder : Addr) : ℤ :=
  s.distribution.pointsPerToken.val * (s.balance holder).val +
    (s.adjustment holder).pointsCorrection.val

/-- The reward accumulator the state stands for. -/
noncomputable def accumulator : Accumulator Addr where
  perUnit := s.distribution.pointsPerToken.val
  weight := s.balances.tally fun balance => balance.val
  correction := s.withdrawAdjustment.tally fun adjustment => adjustment.pointsCorrection.val

theorem weight_apply (holder : Addr) : s.accumulator.weight holder = (s.balance holder).val := by
  change (s.balances.mayLoad holder).elim 0 _ = _
  unfold balance
  cases s.balances.mayLoad holder <;> rfl

theorem correction_apply (holder : Addr) :
    s.accumulator.correction holder = (s.adjustment holder).pointsCorrection.val := by
  change (s.withdrawAdjustment.mayLoad holder).elim 0 _ = _
  unfold adjustment
  cases s.withdrawAdjustment.mayLoad holder <;> rfl

theorem earned_apply (holder : Addr) : s.accumulator.earned holder = s.points holder := by
  rw [Accumulator.earned_apply, weight_apply, correction_apply]
  rfl

end State

/-! ## Native arithmetic -/

/-- `points_correction - ppt as i128 * diff` with `diff` cast from `amount`: the casts keep
their values, and what is computed stays in range. -/
def CorrectionInRange (ppt amount : Uint128) (correction diff : ℤ) : Prop :=
  ppt.val < 2 ^ 127 ∧ amount.val < 2 ^ 127 ∧ InI128 (ppt.val * diff) ∧
    InI128 (correction - ppt.val * diff)

/-- All native arithmetic of the operation stays in the range of its type. A
transfer corrects the sender first; the recipient may be the same account. -/
def NativeInRange (s : State) : Operation → Prop
  | .mint recipient amount =>
    CorrectionInRange s.distribution.pointsPerToken amount
      (s.adjustment recipient).pointsCorrection.val amount.val
  | .burnFrom owner amount =>
    CorrectionInRange s.distribution.pointsPerToken amount
      (s.adjustment owner).pointsCorrection.val (-amount.val)
  | .transfer sender recipient amount =>
    let ppt := s.distribution.pointsPerToken
    let taken := (s.adjustment sender).pointsCorrection.val - ppt.val * -amount.val
    CorrectionInRange ppt amount (s.adjustment sender).pointsCorrection.val (-amount.val) ∧
      CorrectionInRange ppt amount
        (if recipient = sender then taken else (s.adjustment recipient).pointsCorrection.val)
        amount.val
  | .distribute balance =>
    s.distribution.withdrawableTotal ≤ balance ∧
      (balance.val - s.distribution.withdrawableTotal.val) * pointsScale.val +
        s.distribution.pointsLeftover.val < 2 ^ 128
  | .withdrawFunds owner =>
    s.distribution.pointsPerToken.val * (s.balance owner).val < 2 ^ 127 ∧
      InI128 (s.points owner) ∧ 0 ≤ s.points owner ∧
      (s.adjustment owner).withdrawnFunds.val ≤ s.points owner / pointsScale.val

instance (ppt amount : Uint128) (correction diff : ℤ) :
    Decidable (CorrectionInRange ppt amount correction diff) :=
  inferInstanceAs (Decidable (_ ∧ _))

instance (s : State) : DecidablePred (NativeInRange s) := fun op =>
  match op with
  | .mint .. | .burnFrom .. => inferInstanceAs (Decidable (CorrectionInRange _ _ _ _))
  | .transfer .. | .distribute _ | .withdrawFunds _ => inferInstanceAs (Decidable (_ ∧ _))

/-- No arithmetic and no cast of a call wraps. -/
def NativeFits (self : Addr) (s : State) (call : Call) : Prop :=
  ∀ op ∈ call.msg.operation call.querier self call.sender s, NativeInRange s op

instance (self : Addr) (s : State) (call : Call) : Decidable (NativeFits self s call) :=
  inferInstanceAs (Decidable (∀ op ∈ _, _))

/-- What a distribution computes from the balance it finds. -/
theorem distribute_exact {s : State} {balance : Uint128}
    (h : NativeInRange s (.distribute balance)) :
    let amount := balance.wrappingSub s.distribution.withdrawableTotal
    amount.val + s.distribution.withdrawableTotal.val = balance.val ∧
      ((amount.wrappingMul pointsScale).wrappingAdd s.distribution.pointsLeftover).val =
        amount.val * pointsScale.val + s.distribution.pointsLeftover.val := by
  obtain ⟨hle, hlt⟩ := h
  have hamount := Uint128.wrappingSub_of_le hle
  rw [← hamount, Nat.add_sub_cancel] at hlt
  have hmul := Uint128.wrappingMul_of_lt ((Nat.le_add_right _ _).trans_lt hlt)
  refine ⟨hamount, ?_⟩
  rw [← hmul] at hlt ⊢
  exact Uint128.wrappingAdd_of_lt hlt

variable {s s' : State} {self holder account : Addr} {call : Call} {diff : ℤ}

/-! ## The eager ledger -/

/-- By how much a call raises the points per token. -/
def increment (s s' : State) : ExecuteMsg → ℕ
  | .distribute => s'.distribution.pointsPerToken.val - s.distribution.pointsPerToken.val
  | _ => 0

/-- What an eager ledger books for a holder: the increment of every distribution
for each token held at that moment. -/
def eagerPoints (self holder : Addr) : State → List Call → ℕ
  | _, [] => 0
  | s, call :: calls =>
    let s' := deliver self s call
    increment s s' call.msg * (s.balance holder).val + eagerPoints self holder s' calls

theorem eagerPoints_concat (calls : List Call) (call : Call) (s : State) :
    eagerPoints self holder s (calls ++ [call]) = eagerPoints self holder s calls +
      increment (calls.foldl (deliver self) s)
        (deliver self (calls.foldl (deliver self) s) call) call.msg *
          ((calls.foldl (deliver self) s).balance holder).val := by
  induction calls generalizing s with
  | nil => exact Nat.add_comm _ _
  | cons first calls ih =>
    rw [List.cons_append, eagerPoints, eagerPoints, ih, ← Nat.add_assoc]
    rfl

/-! ## Calls as operations of the accumulator -/

theorem Shift.adjustment (h : Shift s account diff s') (holder : Addr) : s'.adjustment holder =
    if holder = account then
      { s.adjustment account with
        pointsCorrection := .wrap ((s.adjustment account).pointsCorrection.val -
          s.distribution.pointsPerToken.val * diff) }
    else s.adjustment holder := by
  obtain ⟨b, c, -, rfl, rfl⟩ := h
  simp only [State.adjustment, Map.mayLoad_save]
  split_ifs <;> rfl

/-- A shift in range is a change of weight. -/
theorem Shift.accumulator (h : Shift s account diff s')
    (hin : InI128 ((s.adjustment account).pointsCorrection.val -
      s.distribution.pointsPerToken.val * diff)) :
    s'.accumulator = s.accumulator.change account diff := by
  obtain ⟨b, c, hb, rfl, rfl⟩ := h
  have hweight := s.weight_apply account
  have hcorrection := s.correction_apply account
  unfold State.accumulator at hweight hcorrection ⊢
  unfold Accumulator.change
  dsimp only at hweight hcorrection ⊢
  rw [Map.tally_save, Map.tally_save, hweight, hcorrection, hb, Int128.val_wrap_of_in hin,
    add_sub_cancel_left, sub_sub_cancel_left, Finsupp.single_neg, ← sub_eq_add_neg]

theorem accumulator_withdrawn {w : Uint128} {t : Uint128} :
    State.accumulator { s with
      withdrawAdjustment :=
        s.withdrawAdjustment.save account { s.adjustment account with withdrawnFunds := w }
      distribution := { s.distribution with withdrawableTotal := t } } = s.accumulator := by
  have hcorrection := s.correction_apply account
  unfold State.accumulator at hcorrection ⊢
  dsimp only at hcorrection ⊢
  rw [Map.tally_save, hcorrection, sub_self, Finsupp.single_zero, add_zero]

theorem increment_of_ne {msg : ExecuteMsg} (h : msg ≠ .distribute) : increment s s' msg = 0 := by
  cases msg <;> first | rfl | exact absurd rfl h

/-- Only distributions book anything. -/
theorem Outcome.earned_of_ne {msgs : List Message}
    (h : Outcome call.querier self call.sender s call.msg s' msgs) (fit : NativeFits self s call)
    (hne : call.msg ≠ .distribute) : s'.accumulator.earned = s.accumulator.earned := by
  obtain ⟨sender, msg, querier⟩ := call
  dsimp only at h hne
  cases h with
  | transferred _ operation taken given _ =>
    obtain ⟨⟨-, -, -, htaken⟩, -, -, -, hgiven⟩ := fit _ operation
    rw [given.accumulator ?_, Accumulator.earned_change, taken.accumulator htaken,
      Accumulator.earned_change]
    -- The recipient is corrected after the sender, who may be the same account.
    rw [taken.adjustment, taken.distribution]
    split_ifs with heq
    · rw [if_pos heq] at hgiven
      dsimp only
      rwa [Int128.val_wrap_of_in htaken]
    · rwa [if_neg heq] at hgiven
  | minted _ operation _ given _ =>
    exact (congrArg Accumulator.earned (given.accumulator (fit _ operation).2.2.2)).trans
      (Accumulator.earned_change _ _ _)
  | burned _ operation _ taken _ =>
    exact (congrArg Accumulator.earned (taken.accumulator (fit _ operation).2.2.2)).trans
      (Accumulator.earned_change _ _ _)
  | rebased | idle => rfl
  | distributed => exact absurd rfl hne
  | withdrew => rw [accumulator_withdrawn]

/-- Every call books its increment for each token, and nothing else. -/
theorem Outcome.earned {msgs : List Message}
    (h : Outcome call.querier self call.sender s call.msg s' msgs) (fit : NativeFits self s call) :
    s'.accumulator.earned =
      s.accumulator.earned + (increment s s' call.msg : ℤ) • s.accumulator.weight := by
  by_cases hmsg : call.msg = .distribute
  · rw [← Accumulator.earned_share]
    refine congrArg Accumulator.earned ?_
    rw [hmsg] at h ⊢
    unfold State.accumulator Accumulator.share increment
    cases h with
    | transferred kind => exact kind.elim
    | minted _ operation | burned _ operation => cases operation
    | idle => rw [Nat.sub_self, Nat.cast_zero, add_zero]
    | distributed _ _ _ _ perToken =>
      dsimp only
      rw [perToken, Nat.add_sub_cancel_left, Nat.cast_add]
  · rw [h.earned_of_ne fit hmsg, increment_of_ne hmsg, Nat.cast_zero, zero_smul, add_zero]

theorem Outcome.points {msgs : List Message}
    (h : Outcome call.querier self call.sender s call.msg s' msgs) (fit : NativeFits self s call)
    (holder : Addr) : s'.points holder =
      s.points holder + increment s s' call.msg * (s.balance holder).val := by
  rw [← State.earned_apply, h.earned fit, Finsupp.add_apply, Finsupp.smul_apply,
    State.earned_apply, State.weight_apply, smul_eq_mul]

/-! ## Withdrawing -/

/-- What a holder's points are worth in whole coins, withdrawn or not. -/
def entitled (s : State) (holder : Addr) : ℕ :=
  (Uint128.wrap (s.points holder)).val / pointsScale.val

/-- Whatever wraps on the way, what is computed is right modulo `2 ^ 128`. -/
theorem withdrawableFunds_eq_ok {coin : Coin} : withdrawableFunds s holder = .ok coin ↔
    coin.denom = s.distribution.denom ∧
      coin.amount = .wrap (entitled s holder - (s.adjustment holder).withdrawnFunds.val) := by
  have hpoints : ((s.distribution.pointsPerToken.wrappingMul (s.balance holder)).asI128.add
      (s.adjustment holder).pointsCorrection).asU128 = .wrap (s.points holder) := by
    refine Uint128.wrap_eq_wrap ((Int128.val_wrap_modEq _).trans (Int.ModEq.add_right _ ?_))
    exact (Uint128.val_asI128_modEq _).trans (Uint128.val_wrap_modEq _)
  have hscale : pointsScale ≠ 0 := by decide
  simp only [withdrawableFunds, bind_eq_ok, pure_eq_ok, Uint128.div_eq_ok, hpoints]
  constructor
  · rintro ⟨a, ⟨-, ha⟩, rfl⟩
    refine ⟨rfl, ?_⟩
    unfold entitled
    rw [← ha]
    rfl
  · rintro ⟨hdenom, hamount⟩
    obtain ⟨a, ha⟩ := Uint128.exists_val
      ((Nat.div_le_self (Uint128.wrap (s.points holder)).val pointsScale.val).trans_lt
        (Uint128.wrap (s.points holder)).isLt)
    refine ⟨a, ⟨hscale, ha⟩, ?_⟩
    obtain ⟨denom, amount⟩ := coin
    dsimp only at hdenom hamount
    subst hdenom hamount
    unfold entitled
    rw [← ha]
    rfl

/-- No holder has withdrawn more than it has earned. -/
def Settled (s : State) (holder : Addr) : Prop :=
  0 ≤ s.points holder ∧
    (s.adjustment holder).withdrawnFunds.val ≤ s.points holder / pointsScale.val

theorem entitled_eq (hpos : 0 ≤ s.points holder) (hlt : s.points holder < 2 ^ 128) :
    (entitled s holder : ℤ) = s.points holder / pointsScale.val := by
  unfold entitled
  rw [Int.natCast_ediv, Uint128.val_wrap_of_lt hpos hlt]

/-- A holder is owed its points in whole coins, less what it has withdrawn. -/
theorem Settled.withdrawableFunds_eq_ok {coin : Coin} (hs : Settled s holder)
    (hlt : s.points holder < 2 ^ 128) : withdrawableFunds s holder = .ok coin ↔
      coin.denom = s.distribution.denom ∧
      ((s.adjustment holder).withdrawnFunds.val + coin.amount.val : ℤ) =
        s.points holder / pointsScale.val := by
  obtain ⟨hpos, hle⟩ := hs
  have hquot : s.points holder / pointsScale.val ≤ s.points holder := Int.ediv_le_self _ hpos
  have hval := Uint128.val_wrap_of_lt
    (n := entitled s holder - (s.adjustment holder).withdrawnFunds.val)
    (by rw [entitled_eq hpos hlt]; omega) (by rw [entitled_eq hpos hlt]; omega)
  rw [entitled_eq hpos hlt] at hval
  rw [Ctoken.withdrawableFunds_eq_ok, entitled_eq hpos hlt]
  refine and_congr_right fun _ => ?_
  constructor
  · intro hamount
    rw [hamount, hval]
    omega
  · intro hamount
    refine Uint128.ext ?_
    zify
    omega

theorem exists_withdrawableFunds (s : State) (holder : Addr) :
    ∃ coin, withdrawableFunds s holder = .ok coin :=
  ⟨⟨_, _⟩, withdrawableFunds_eq_ok.mpr ⟨rfl, rfl⟩⟩

theorem Shift.withdrawn (h : Shift s account diff s') (holder : Addr) :
    (s'.adjustment holder).withdrawnFunds = (s.adjustment holder).withdrawnFunds := by
  rw [h.adjustment]
  split_ifs with heq
  · rw [heq]
  · rfl

/-- Only a withdrawal of its own adds to what a holder has withdrawn. -/
theorem Outcome.withdrawn {msgs : List Message}
    (h : Outcome call.querier self call.sender s call.msg s' msgs) (holder : Addr) :
    (s'.adjustment holder).withdrawnFunds = (s.adjustment holder).withdrawnFunds ∨
      call.msg = .withdrawFunds ∧ holder = call.sender ∧
        ∃ coin : Coin, withdrawableFunds s holder = .ok coin ∧
          (s'.adjustment holder).withdrawnFunds.val =
            (s.adjustment holder).withdrawnFunds.val + coin.amount.val := by
  obtain ⟨sender, msg, querier⟩ := call
  dsimp only at h ⊢
  cases h with
  | transferred _ _ taken given _ =>
    exact .inl ((given.withdrawn holder).trans (taken.withdrawn holder))
  | minted _ _ _ given _ => exact .inl (given.withdrawn holder)
  | burned _ _ _ taken _ => exact .inl (taken.withdrawn holder)
  | rebased | idle | distributed => exact .inl rfl
  | withdrew funds withdrawn _ =>
    by_cases heq : holder = sender
    · subst heq
      refine .inr ⟨rfl, rfl, _, funds, ?_⟩
      simp only [State.adjustment, Map.mayLoad_save_self]
      exact withdrawn
    · refine .inl ?_
      simp only [State.adjustment, Map.mayLoad_save_ne _ _ heq]

/-- What a holder has withdrawn stays backed while its points grow, if a withdrawal of its
own finds points that fit. -/
theorem Settled.step {msgs : List Message} (hs : Settled s holder)
    (h : Outcome call.querier self call.sender s call.msg s' msgs)
    (hmono : s.points holder ≤ s'.points holder)
    (hlt : call.msg = .withdrawFunds → holder = call.sender → s.points holder < 2 ^ 128) :
    Settled s' holder := by
  have hdiv : s.points holder / pointsScale.val ≤ s'.points holder / pointsScale.val :=
    Int.ediv_le_ediv (by decide) hmono
  refine ⟨hs.1.trans hmono, ?_⟩
  rcases h.withdrawn holder with hw | ⟨hmsg, hsender, coin, hcoin, hw⟩
  · rw [hw]
    exact hs.2.trans hdiv
  · obtain ⟨-, hamount⟩ := (hs.withdrawableFunds_eq_ok (hlt hmsg hsender)).mp hcoin
    rw [hw, Nat.cast_add, hamount]
    exact hdiv

theorem Outcome.settled {msgs : List Message}
    (h : Outcome call.querier self call.sender s call.msg s' msgs) (fit : NativeFits self s call)
    (hs : Settled s holder) : Settled s' holder := by
  refine hs.step h ?_ fun hmsg hsender => ?_
  · rw [h.points fit holder]
    exact le_add_of_nonneg_right (by positivity)
  · obtain ⟨-, hin, -⟩ := fit (.withdrawFunds call.sender) (by rw [hmsg]; rfl)
    rw [hsender]
    exact hin.2.trans (by norm_num)

theorem points_instantiate (controller : Addr) (denom : Token) (holder : Addr) :
    (instantiate controller denom).points holder = 0 := rfl

theorem settled_instantiate (controller : Addr) (denom : Token) (holder : Addr) :
    Settled (instantiate controller denom) holder := by
  refine ⟨le_rfl, ?_⟩
  rw [points_instantiate, Int.zero_ediv]
  exact le_rfl

variable {controller : Addr} {denom : Token} {calls : List Call} {t : State}

theorem run_settled (h : Run (step self) (NativeFits self) (instantiate controller denom) calls t)
    (holder : Addr) : Settled t holder := by
  refine h.invariant (I := fun s => Settled s holder) (settled_instantiate _ _ _) ?_
  intro u call v hu fit hstep
  obtain ⟨msgs, hout⟩ := step_outcome hstep
  exact hout.settled fit hu

theorem run_points (h : Run (step self) (NativeFits self) (instantiate controller denom) calls t)
    (holder : Addr) :
    t.points holder = eagerPoints self holder (instantiate controller denom) calls := by
  induction h with
  | nil => rfl
  | snoc hrun fit hstep ih =>
    obtain ⟨msgs, hout⟩ := step_outcome hstep
    rw [hout.points fit, ih, eagerPoints_concat, foldl_deliver hrun, deliver_of_step hstep]
    push_cast
    rfl

/-- Lazy accounting is eager accounting: in every run in which nothing wraps a holder's
points are what every distribution paid for the tokens it held then, and what it
has withdrawn and may withdraw are these points in whole coins. -/
theorem lazy_eq_eager
    (h : Run (step self) (NativeFits self) (instantiate controller denom) calls t)
    (holder : Addr) :
    let earned := eagerPoints self holder (instantiate controller denom) calls
    (t.distribution.pointsPerToken.val * (t.balance holder).val +
      (t.adjustment holder).pointsCorrection.val : ℤ) = earned ∧
    (earned < 2 ^ 128 → ∃ funds,
      withdrawableFunds t holder = .ok funds ∧
      (t.adjustment holder).withdrawnFunds.val + funds.amount.val =
        earned / pointsScale.val) := by
  intro earned
  have hpoints : t.points holder = earned := run_points h holder
  refine ⟨hpoints, fun hlt => ?_⟩
  obtain ⟨funds, hfunds⟩ := exists_withdrawableFunds t holder
  obtain ⟨-, hamount⟩ :=
    ((run_settled h holder).withdrawableFunds_eq_ok (by rw [hpoints]; exact_mod_cast hlt)).mp hfunds
  refine ⟨funds, hfunds, ?_⟩
  rw [hpoints] at hamount
  exact_mod_cast hamount

/-- A chain on which every transfer is allowed and the contract holds `funds`
reward tokens. -/
def sampleQuerier (funds : Uint128) : Querier where
  transferableAmount _ _ _ := .ok ⟨2 ^ 128 - 1, by decide⟩
  balance _ _ := funds

/-- Two distributions with a transfer between them, and a withdrawal. -/
def sampleCalls : List Call :=
  [⟨"market", .mint "alice" 100_000, sampleQuerier 0⟩,
   ⟨"carol", .distribute, sampleQuerier 10⟩,
   ⟨"alice", .transfer "bob" 30_000, sampleQuerier 10⟩,
   ⟨"carol", .distribute, sampleQuerier 31⟩,
   ⟨"alice", .withdrawFunds, sampleQuerier 31⟩]

/-- Alice earned all of the first 10 and seven tenths of the next 21. -/
theorem lazy_eq_eager_example :
    ∃ t, Run (step "token") (NativeFits "token") (instantiate "market" (.native "juno"))
        sampleCalls t ∧
      eagerPoints "token" "alice" (instantiate "market" (.native "juno")) sampleCalls =
        24 * pointsScale.val + 2_800_000_000 ∧
      (t.distribution.pointsPerToken.val * (t.balance "alice").val +
        (t.adjustment "alice").pointsCorrection.val : ℤ) =
          eagerPoints "token" "alice" (instantiate "market" (.native "juno")) sampleCalls ∧
      ∃ funds, withdrawableFunds t "alice" = .ok funds ∧
        (t.adjustment "alice").withdrawnFunds.val + funds.amount.val = 24 := by
  obtain ⟨t, hrun, -⟩ : ∃ t, Run (step "token") (NativeFits "token")
      (instantiate "market" (.native "juno")) sampleCalls t ∧ True :=
    exists_run_of_runAll (by decide +kernel)
  have hearned : eagerPoints "token" "alice" (instantiate "market" (.native "juno")) sampleCalls =
      24 * pointsScale.val + 2_800_000_000 := by decide +kernel
  obtain ⟨hpoints, hfunds⟩ := lazy_eq_eager hrun "alice"
  rw [hearned] at hfunds
  exact ⟨t, hrun, hearned, hpoints, hfunds (by decide)⟩

end WyndLend.Ctoken
