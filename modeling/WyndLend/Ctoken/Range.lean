import WyndLend.Ctoken.Payout

/-!
# The range of the reward arithmetic

A distribution over a small supply makes the points per token large, and tokens minted
later are multiplied by it: the native arithmetic leaves its range although the supply,
the balances and the rewards are moderate. It stays in range as long as all tokens
together are worth fewer than `2 ^ 127` points.

In the release build what leaves the range wraps. The points of a holder are then right
modulo `2 ^ 128` only, which is enough: as long as the rewards themselves fit, every
holder gets what an eager ledger would have booked for it.
-/

namespace WyndLend.Ctoken

open CosmWasm Utils Rewards

variable {s s' : State} {earned : Addr →₀ ℤ} {self account : Addr} {call : Call}
  {msgs : List Message}

/-! ## Points when arithmetic wraps -/

/-- The state stands for the ledger `earned`: the points of each account are right up to
what wraps, and nobody has withdrawn more than it has earned. -/
structure Booked (s : State) (earned : Addr →₀ ℤ) : Prop where
  nonneg : ∀ a, 0 ≤ earned a
  conserved : earned.degree + s.distribution.pointsLeftover.val =
    pointsScale.val * s.distribution.distributedTotal.val
  perToken : s.distribution.pointsPerToken.val + s.distribution.pointsLeftover.val ≤
    pointsScale.val * s.distribution.distributedTotal.val
  points : ∀ a, s.points a ≡ earned a [ZMOD 2 ^ 128]
  withdrawn : ∀ a, (s.adjustment a).withdrawnFunds.val ≤ earned a / pointsScale.val

/-- The rewards distributed so far fit in 128 bits as points. -/
def RewardsFit (s : State) : Prop := pointsScale.val * s.distribution.distributedTotal.val < 2 ^ 128

instance (s : State) : Decidable (RewardsFit s) := inferInstanceAs (Decidable (_ < _))

/-- A shift books nothing. -/
theorem Shift.points_modEq {diff : ℤ} (h : Shift s account diff s') (a : Addr) :
    s'.points a ≡ s.points a [ZMOD 2 ^ 128] := by
  unfold State.points
  rw [h.distribution, h.balance, h.adjustment]
  split_ifs with heq
  · subst heq
    refine ((Int128.val_wrap_modEq _).add_left _).trans ?_
    rw [mul_add, add_assoc, add_sub_cancel]
  · rw [add_zero]

/-- Calls that keep the distribution and all that is withdrawn keep the ledger. -/
theorem Booked.keep (hb : Booked s earned) (hd : s'.distribution = s.distribution)
    (hp : ∀ a, s'.points a ≡ s.points a [ZMOD 2 ^ 128])
    (hw : ∀ a, (s'.adjustment a).withdrawnFunds = (s.adjustment a).withdrawnFunds) :
    Booked s' earned where
  nonneg := hb.nonneg
  conserved := hd ▸ hb.conserved
  perToken := hd ▸ hb.perToken
  points a := (hp a).trans (hb.points a)
  withdrawn a := hw a ▸ hb.withdrawn a

theorem Booked.earned_le (hb : Booked s earned) (a : Addr) :
    earned a ≤ pointsScale.val * s.distribution.distributedTotal.val := by
  have hle := sum_le_degree hb.nonneg {a}
  rw [Finset.sum_singleton] at hle
  have hconserved := hb.conserved
  omega

theorem Booked.entitled_eq (hb : Booked s earned) (hr : RewardsFit s) (a : Addr) :
    (entitled s a : ℤ) = earned a / pointsScale.val := by
  have hle := hb.earned_le a
  unfold RewardsFit at hr
  unfold entitled
  rw [Int.natCast_ediv, Uint128.wrap_eq_wrap (hb.points a),
    Uint128.val_wrap_of_lt (hb.nonneg a) (by omega)]

/-- What a holder has withdrawn and may withdraw is all that it has earned. -/
theorem Booked.total_eq {coin : Coin} (hb : Booked s earned) (hr : RewardsFit s) {a : Addr}
    (h : withdrawableFunds s a = .ok coin) :
    ((s.adjustment a).withdrawnFunds.val + coin.amount.val : ℤ) = earned a / pointsScale.val := by
  have hle := hb.withdrawn a
  have hlt : earned a / pointsScale.val < 2 ^ 128 := by
    have hquot : earned a / pointsScale.val ≤ earned a := Int.ediv_le_self _ (hb.nonneg a)
    have hearned := hb.earned_le a
    unfold RewardsFit at hr
    omega
  rw [(withdrawableFunds_eq_ok.mp h).2, hb.entitled_eq hr, Uint128.val_wrap_of_lt] <;> omega

/-- A distribution books its increment for every token held. -/
theorem Booked.share (hb : Booked s earned) (hs : SupplyIsSum s) {d : Distribution}
    {amount points : Uint128} (hr : pointsScale.val * d.distributedTotal.val < 2 ^ 128)
    (hpoints : points = (amount.wrappingMul pointsScale).wrappingAdd s.distribution.pointsLeftover)
    (hsupply : s.totalSupply ≠ 0)
    (hppt : d.pointsPerToken.val =
      s.distribution.pointsPerToken.val + points.val / s.totalSupply.val)
    (hleft : d.pointsLeftover.val = points.val % s.totalSupply.val)
    (htotal : d.distributedTotal.val = s.distribution.distributedTotal.val + amount.val) :
    Booked { s with distribution := d }
      (earned + (points.val / s.totalSupply.val : ℕ) • s.accumulator.weight) := by
  have hconserved := hb.conserved
  have hperToken := hb.perToken
  have hdegree : 0 ≤ earned.degree := Finset.sum_nonneg fun a _ => hb.nonneg a
  have hscaled : pointsScale.val * d.distributedTotal.val =
      pointsScale.val * s.distribution.distributedTotal.val + amount.val * pointsScale.val := by
    rw [htotal, Nat.mul_add, Nat.mul_comm amount.val]
  have hexact : points.val = amount.val * pointsScale.val + s.distribution.pointsLeftover.val := by
    have hmul : (amount.wrappingMul pointsScale).val = amount.val * pointsScale.val :=
      Uint128.wrappingMul_of_lt (by omega)
    rw [hpoints, ← hmul]
    exact Uint128.wrappingAdd_of_lt (by omega)
  have hsplit := Nat.div_add_mod' points.val s.totalSupply.val
  have hle : points.val / s.totalSupply.val ≤
      points.val / s.totalSupply.val * s.totalSupply.val :=
    Nat.le_mul_of_pos_right _ (Uint128.val_pos.mpr hsupply)
  have hearned : ∀ a, (earned + (points.val / s.totalSupply.val) • s.accumulator.weight) a =
      earned a + (points.val / s.totalSupply.val : ℕ) * (s.balance a).val := fun a => by
    rw [Finsupp.add_apply, Finsupp.smul_apply, s.weight_apply, nsmul_eq_mul]
  have hmono : ∀ a, earned a ≤
      (earned + (points.val / s.totalSupply.val) • s.accumulator.weight) a := fun a => by
    rw [hearned]
    exact le_add_of_nonneg_right (by positivity)
  refine ⟨fun a => (hb.nonneg a).trans (hmono a), ?_, ?_, fun a => ?_, fun a => ?_⟩
  · rw [map_add, map_nsmul, degree_weight hs, hleft, nsmul_eq_mul]
    have hbooked : ((points.val / s.totalSupply.val : ℕ) * s.totalSupply.val +
        (points.val % s.totalSupply.val : ℕ) : ℤ) =
          amount.val * pointsScale.val + s.distribution.pointsLeftover.val := by
      exact_mod_cast hsplit.trans hexact
    zify at hscaled
    linarith
  · dsimp only
    omega
  · rw [hearned]
    have hraised : State.points { s with distribution := d } a =
        s.points a + (points.val / s.totalSupply.val : ℕ) * (s.balance a).val := by
      unfold State.points
      dsimp only [State.balance, State.adjustment]
      rw [hppt]
      push_cast
      ring
    rw [hraised]
    exact (hb.points a).add_right _
  · exact (hb.withdrawn a).trans (Int.ediv_le_ediv (by decide) (hmono a))

/-- Whatever wraps in a call, it books its increment for every token, and nothing else. -/
theorem Outcome.booked (h : Outcome call.querier self call.sender s call.msg s' msgs)
    (hs : SupplyIsSum s) (hr : RewardsFit s') (hb : Booked s earned) :
    Booked s' (earned + increment s s' call.msg • s.accumulator.weight) := by
  obtain ⟨sender, msg, querier⟩ := call
  dsimp only at h ⊢
  cases h with
  | transferred kind _ taken given _ =>
    rw [increment_of_ne (by rintro rfl; exact kind), zero_nsmul, add_zero]
    exact hb.keep (given.distribution.trans taken.distribution)
      (fun a => (given.points_modEq a).trans (taken.points_modEq a))
      fun a => (given.withdrawn a).trans (taken.withdrawn a)
  | minted _ operation _ given _ =>
    rw [increment_of_ne (by rintro rfl; cases operation), zero_nsmul, add_zero]
    exact hb.keep given.distribution given.points_modEq given.withdrawn
  | burned _ operation _ taken _ =>
    rw [increment_of_ne (by rintro rfl; cases operation), zero_nsmul, add_zero]
    exact hb.keep taken.distribution taken.points_modEq taken.withdrawn
  | rebased =>
    rw [increment_of_ne (by rintro ⟨⟩), zero_nsmul, add_zero]
    exact hb.keep rfl (fun _ => rfl) fun _ => rfl
  | idle =>
    rw [increment_of_eq rfl, zero_nsmul, add_zero]
    exact hb
  | distributed _ hpoints hsupply _ hppt hleft htotal _ =>
    rw [increment, hppt, Nat.add_sub_cancel_left]
    exact hb.share hs hr hpoints hsupply hppt hleft htotal
  | withdrew funds withdrawn _ =>
    rw [increment_of_ne (by rintro ⟨⟩), zero_nsmul, add_zero]
    have htotal := hb.total_eq hr funds
    refine ⟨hb.nonneg, hb.conserved, hb.perToken, fun a => ?_, fun a => ?_⟩
    · refine Eq.trans (congrArg (· % _) ?_) (hb.points a)
      unfold State.points State.adjustment
      by_cases ha : a = sender
      · subst ha
        rw [Map.mayLoad_save_self]
        rfl
      · rw [Map.mayLoad_save_ne _ _ ha]
        rfl
    · by_cases ha : a = sender
      · subst ha
        unfold State.adjustment
        rw [Map.mayLoad_save_self, Option.getD_some, withdrawn]
        push_cast
        exact htotal.le
      · unfold State.adjustment
        rw [Map.mayLoad_save_ne _ _ ha]
        exact hb.withdrawn a

/-- The total distributed never falls. -/
theorem Outcome.distributedTotal_le
    (h : Outcome call.querier self call.sender s call.msg s' msgs) :
    s.distribution.distributedTotal.val ≤ s'.distribution.distributedTotal.val := by
  obtain ⟨sender, msg, querier⟩ := call
  cases h with
  | transferred _ _ taken given _ => rw [given.distribution, taken.distribution]
  | minted _ _ _ given _ => exact (congrArg (·.distributedTotal.val) given.distribution).ge
  | burned _ _ _ taken _ => exact (congrArg (·.distributedTotal.val) taken.distribution).ge
  | rebased | idle | withdrew => exact le_rfl
  | distributed _ _ _ _ _ _ total _ => exact total ▸ Nat.le_add_right _ _

variable {controller : Addr} {denom : Token} {calls : List Call} {guard : State → Call → Prop}

/-- Whatever has wrapped in a run, it stands for the eager ledger. -/
theorem exists_booked (h : Run (step self) guard (instantiate controller denom) calls s)
    (hr : RewardsFit s) : ∃ earned, Booked s earned ∧
      ∀ a, earned a = eagerPoints self a (instantiate controller denom) calls := by
  induction h with
  | nil =>
    refine ⟨0, ⟨fun _ => le_rfl, rfl, Nat.zero_le _, fun _ => Int.ModEq.refl _, fun _ => ?_⟩,
      fun _ => rfl⟩
    exact (settled_instantiate controller denom _).2
  | snoc hrun _ hstep ih =>
    obtain ⟨msgs, hout⟩ := step_outcome hstep
    have hbefore := (Nat.mul_le_mul_left pointsScale.val hout.distributedTotal_le).trans_lt hr
    obtain ⟨earned, hb, heager⟩ := ih hbefore
    refine ⟨_, hout.booked (run_supplyIsSum hrun) hr hb, fun a => ?_⟩
    rw [Finsupp.add_apply, Finsupp.smul_apply, State.weight_apply, heager, eagerPoints_concat,
      foldl_deliver hrun, deliver_of_step hstep, nsmul_eq_mul]
    push_cast
    rfl

/-- Wrapped arithmetic takes nothing from anyone: in every run, as long as the rewards
distributed fit in 128 bits as points, what a holder has withdrawn and may withdraw is what
every distribution paid for the tokens it held then, in whole coins. -/
theorem wrapping_pays_all
    (h : Run (step self) (fun _ _ => True) (instantiate controller denom) calls s)
    (hr : RewardsFit s) (holder : Addr) : ∃ funds, withdrawableFunds s holder = .ok funds ∧
      (s.adjustment holder).withdrawnFunds.val + funds.amount.val =
        eagerPoints self holder (instantiate controller denom) calls / pointsScale.val := by
  obtain ⟨earned, hb, heager⟩ := exists_booked h hr
  obtain ⟨funds, hfunds⟩ := exists_withdrawableFunds s holder
  refine ⟨funds, hfunds, ?_⟩
  have htotal := hb.total_eq hr hfunds
  rw [heager] at htotal
  exact_mod_cast htotal

/-- One base token is deposited and a quintillion of rewards is distributed to it. The points
of the next deposit leave the range. -/
def hugeShare : List Call :=
  [⟨"market", .mint "alice" 100_000, sampleQuerier 0⟩,
   ⟨"carol", .distribute, sampleQuerier 1_000_000_000_000_000_000⟩]

/-- Bob's deposit wraps, and so does his withdrawal of what he then earns. -/
def wrappingCalls : List Call := hugeShare ++
  [⟨"market", .mint "bob" 300_000_000_000_000_000, sampleQuerier 1_000_000_000_000_000_000⟩,
   ⟨"carol", .distribute, sampleQuerier 2_000_000_000_000_000_000⟩,
   ⟨"bob", .withdrawFunds, sampleQuerier 2_000_000_000_000_000_000⟩]

theorem wrapping_pays_all_example : ∃ s,
    Run (step "token") (fun _ _ => True) (instantiate "market" (.native "juno")) wrappingCalls s ∧
      eagerPoints "token" "bob" (instantiate "market" (.native "juno")) wrappingCalls =
        999_999_999_975_000_000 * pointsScale.val ∧
      s.points "bob" = 999_999_999_975_000_000 * pointsScale.val + 35 * 2 ^ 128 ∧
      ∃ funds, withdrawableFunds s "bob" = .ok funds ∧
        (s.adjustment "bob").withdrawnFunds.val + funds.amount.val = 999_999_999_975_000_000 := by
  obtain ⟨s, hrun, hr, hpoints⟩ : ∃ s, Run (step "token") (fun _ _ => True)
      (instantiate "market" (.native "juno")) wrappingCalls s ∧ RewardsFit s ∧
        s.points "bob" = 999_999_999_975_000_000 * pointsScale.val + 35 * 2 ^ 128 :=
    exists_run_of_runAll (by decide +kernel)
  have hearned : eagerPoints "token" "bob" (instantiate "market" (.native "juno")) wrappingCalls =
      999_999_999_975_000_000 * pointsScale.val := by decide +kernel
  obtain ⟨funds, hfunds, htotal⟩ := wrapping_pays_all hrun hr "bob"
  rw [hearned] at htotal
  exact ⟨s, hrun, hearned, hpoints, funds, hfunds, htotal⟩

/-! ## The range -/

/-- The supply, every balance and the points ever distributed fit in 126 bits. -/
structure Small (s : State) : Prop where
  supply : s.totalSupply.val < 2 ^ 126
  balances : ∀ account, (s.balance account).val < 2 ^ 126
  distributed : pointsScale.val * s.distribution.distributedTotal.val < 2 ^ 126

/-- A token operation whose amount fits in 126 bits, and which the account has. -/
def Operation.Requested (s : State) : Operation → Prop
  | .mint _ amount => amount.val < 2 ^ 126
  | .burnFrom owner amount => amount ≤ s.balance owner
  | .transfer sender _ amount => amount ≤ s.balance sender
  | .distribute _ => False
  | .withdrawFunds _ => True

/-- The tokens that the operation creates. -/
def Operation.minted : Operation → ℕ
  | .mint _ amount => amount.val
  | _ => 0

/-- All tokens together, with those to be created, are worth fewer than `2 ^ 127` points. -/
def WorthFits (s : State) (op : Operation) : Prop :=
  s.distribution.pointsPerToken.val * (s.totalSupply.val + op.minted) < 2 ^ 127

/-- An account whose tokens are worth few points has exactly the points it has earned. -/
theorem Booked.points_eq (hb : Booked s earned) (hs : Small s)
    (hworth : s.distribution.pointsPerToken.val * (s.balance account).val < 2 ^ 127) :
    s.points account = earned account := by
  have hge := (s.adjustment account).pointsCorrection.isGe
  have hlt := (s.adjustment account).pointsCorrection.isLt
  have hpos := hb.nonneg account
  have hle := hb.earned_le account
  have hd := hs.distributed
  have hheld : (0 : ℤ) ≤ s.distribution.pointsPerToken.val * (s.balance account).val := by
    positivity
  obtain ⟨k, hk⟩ := (hb.points account).dvd
  unfold State.points at hk ⊢
  zify at hworth
  omega

/-- Points are corrected in range if the tokens that move and those held afterwards are worth
few points. -/
theorem correctionInRange {amount : Uint128} {diff : ℤ} {balance : ℕ}
    (hppt : s.distribution.pointsPerToken.val < 2 ^ 127) (hamount : amount.val < 2 ^ 127)
    (hdiff : diff = amount.val ∨ diff = -amount.val)
    (hpoints : 0 ≤ s.points account ∧ s.points account < 2 ^ 126)
    (hbalance : (balance : ℤ) = (s.balance account).val + diff)
    (hmoved : s.distribution.pointsPerToken.val * amount.val < 2 ^ 127)
    (hheld : s.distribution.pointsPerToken.val * balance < 2 ^ 127) :
    CorrectionInRange s.distribution.pointsPerToken amount
      (s.adjustment account).pointsCorrection.val diff := by
  have hafter : ((s.adjustment account).pointsCorrection.val -
      s.distribution.pointsPerToken.val * diff : ℤ) =
        s.points account - s.distribution.pointsPerToken.val * balance := by
    rw [hbalance]
    unfold State.points
    ring
  have hmoved_nonneg : (0 : ℤ) ≤ s.distribution.pointsPerToken.val * amount.val := by positivity
  have hheld_nonneg : (0 : ℤ) ≤ s.distribution.pointsPerToken.val * balance := by positivity
  zify at hmoved hheld
  refine ⟨hppt, hamount, ?_, ?_⟩
  · unfold InI128
    rcases hdiff with rfl | rfl
    · omega
    · rw [mul_neg]
      omega
  · rw [hafter]
    unfold InI128
    omega

/-- Two accounts together have no more than the supply. -/
theorem SupplyIsSum.balance_add_le (hs : SupplyIsSum s) {first second : Addr}
    (hne : first ≠ second) :
    (s.balance first).val + (s.balance second).val ≤ s.totalSupply.val := by
  have hle := sum_le_degree (f := s.accumulator.weight) (fun a => ?_) {first, second}
  · rw [Finset.sum_pair hne, degree_weight hs, State.weight_apply, State.weight_apply] at hle
    exact_mod_cast hle
  · rw [State.weight_apply]
    positivity

theorem Small.of_reachable
    (h : Run (step self) (fun _ _ => True) (instantiate controller denom) calls s)
    (hsupply : s.totalSupply.val < 2 ^ 126)
    (hd : pointsScale.val * s.distribution.distributedTotal.val < 2 ^ 126) : Small s where
  supply := hsupply
  balances a := (Uint128.le_def.mp ((run_supplyIsSum h).balance_le a)).trans_lt hsupply
  distributed := hd

end WyndLend.Ctoken
