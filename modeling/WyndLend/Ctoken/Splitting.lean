import WyndLend.Ctoken.Payout

/-!
# Splitting a reward

`Distribute` takes for new rewards whatever the contract holds above `withdrawable_total`,
and carries over the points that do not divide. Between two distributions holders may
withdraw, which lowers both numbers alike. However a reward is split into distributions, the
ledger ends up as after a single one.
-/

namespace WyndLend.Ctoken

open CosmWasm Utils Rewards

/-- The points per token and those that are left over. -/
def Distribution.carry (d : Distribution) : Carry := ⟨d.pointsPerToken.val, d.pointsLeftover.val⟩

variable {s s' : State} {self holder : Addr} {q : Querier} {msgs : List Message}

/-- A distribution shares its amount, with the leftover, among the tokens. -/
theorem distribute_carry (h : distribute q self s = .ok s')
    (hin : NativeInRange s (.distribute (q.balance s.distribution.denom self))) :
    s.totalSupply ≠ 0 ∧ ∃ (amount : Uint128) (d : Distribution),
      s' = { s with distribution := d } ∧ d.denom = s.distribution.denom ∧
      amount.val + s.distribution.withdrawableTotal.val =
        (q.balance s.distribution.denom self).val ∧
      d.carry = s.distribution.carry.share s.totalSupply.val (amount.val * pointsScale.val) ∧
      d.distributedTotal.val = s.distribution.distributedTotal.val + amount.val := by
  obtain ⟨hamount, hpoints⟩ := distribute_exact hin
  simp only [distribute, bind_eq_ok, ensure_eq_ok] at h
  obtain ⟨-, hsupply, h⟩ := h
  refine ⟨hsupply, (q.balance s.distribution.denom self).wrappingSub
    s.distribution.withdrawableTotal, ?_⟩
  split_ifs at h with hzero
  · cases h
    exact ⟨s.distribution, rfl, rfl, hamount, by simp [hzero], by simp [hzero]⟩
  · simp only [bind_eq_ok, pure_eq_ok, Uint128.add_eq_ok, Uint128.div_eq_ok,
      Uint128.rem_eq_ok] at h
    obtain ⟨inc, ⟨-, hinc⟩, left, ⟨-, hleft⟩, ppt, hppt, total, htotal, withdrawable, -, rfl⟩ := h
    refine ⟨_, rfl, rfl, hamount, ?_, htotal⟩
    have hne := Nat.mul_ne_zero (mt Uint128.val_eq_zero.mp hzero)
      (show pointsScale.val ≠ 0 by decide)
    unfold Carry.share Distribution.carry
    rw [if_neg hne, hppt, hinc, hleft, hpoints]

/-! ## Rewards and withdrawals -/

namespace Vault

/-- Reward tokens arrive and are distributed, in the range of the points, or a holder
withdraws. -/
def Rewarding (v : Vault) : Input → Prop
  | .receive _ => True
  | .call _ msg _ =>
    msg = .distribute ∧ NativeInRange v.token (.distribute v.funds) ∨ msg = .withdrawFunds

instance (v : Vault) : DecidablePred (Rewarding v) := fun input =>
  match input with
  | .receive _ => .isTrue trivial
  | .call _ _ _ => inferInstanceAs (Decidable (_ ∨ _))

/-- The amount that a call distributes: what the contract holds above `withdrawable_total`. -/
def distributes (v : Vault) : Input → List ℕ
  | .call _ .distribute _ => [v.funds.val - v.token.distribution.withdrawableTotal.val]
  | _ => []

/-- The contract with its funds, and the amounts distributed so far. -/
structure Split where
  vault : Vault
  amounts : List ℕ

namespace Split

def step (self : Addr) (input : Input) (c : Split) : Except Error Split := do
  let vault ← Vault.step self input c.vault
  return ⟨vault, c.amounts ++ distributes c.vault input⟩

/-- What rewards and withdrawals keep of the state `s`, and what `amounts` make of it. -/
structure Shared (s : State) (amounts : List ℕ) (t : State) : Prop where
  supply : t.totalSupply = s.totalSupply
  balances : t.balances = s.balances
  correction : ∀ holder,
    (t.adjustment holder).pointsCorrection = (s.adjustment holder).pointsCorrection
  carry : t.distribution.carry =
    s.distribution.carry.share s.totalSupply.val (amounts.sum * pointsScale.val)
  total : t.distribution.distributedTotal.val = s.distribution.distributedTotal.val + amounts.sum

theorem Shared.start (s : State) : Shared s [] s :=
  ⟨rfl, rfl, fun _ => rfl, by simp, rfl⟩

variable {v w : Vault} {t : State} {amounts : List ℕ} {transferable : Except Error Uint128}

theorem Shared.distribute (h : Shared s amounts v.token)
    (hd : Ctoken.distribute (v.querier transferable) self v.token = .ok t)
    (hin : NativeInRange v.token (.distribute v.funds)) :
    Shared s (amounts ++ [v.funds.val - v.token.distribution.withdrawableTotal.val]) t := by
  obtain ⟨hne, amount, d, rfl, -, hamount, hcarry, htotal⟩ := distribute_carry hd hin
  have hfunds : amount.val + v.token.distribution.withdrawableTotal.val = v.funds.val := hamount
  rw [← hfunds, Nat.add_sub_cancel]
  refine ⟨h.supply, h.balances, h.correction, ?_, ?_⟩
  · rw [hcarry, h.carry, h.supply, Carry.share_share, List.sum_append, List.sum_singleton,
      Nat.add_mul]
    exact Uint128.val_pos.mpr (h.supply ▸ hne)
  · rw [htotal, h.total, List.sum_append, List.sum_singleton, Nat.add_assoc]

theorem Shared.withdrawFunds (h : Shared s amounts v.token)
    (hw : Ctoken.withdrawFunds holder v.token = .ok (t, msgs)) : Shared s amounts t := by
  have hout : Outcome (v.querier (.ok 0)) holder holder v.token .withdrawFunds t msgs :=
    withdrawFunds_outcome hw
  cases hout with
  | transferred kind => exact kind.elim
  | minted _ operation | burned _ operation => cases operation
  | idle => exact h
  | withdrew =>
    refine ⟨h.supply, h.balances, fun other => ?_, h.carry, h.total⟩
    rw [← h.correction other]
    simp only [State.adjustment, Map.mayLoad_save]
    split_ifs with heq
    · rw [heq]
      rfl
    · rfl

/-- A step adds what it distributes to the amounts and shares it. -/
theorem step_shared {input : Input} (h : Vault.step self input v = .ok w) (hr : Rewarding v input)
    (hs : Shared s amounts v.token) : Shared s (amounts ++ distributes v input) w.token := by
  cases input with
  | receive amount =>
    rw [(step_receive_eq_ok.mp h).1]
    simpa only [distributes, List.append_nil] using hs
  | call sender msg transferable =>
    obtain ⟨msgs, h, -⟩ := step_call_eq_ok.mp h
    rcases hr with ⟨rfl, hin⟩ | rfl
    · simp only [execute, bind_eq_ok, pure_eq_ok, Prod.mk.injEq] at h
      obtain ⟨t, h, rfl, -⟩ := h
      exact hs.distribute h hin
    · simp only [distributes, List.append_nil]
      exact hs.withdrawFunds h

theorem run_shared {inputs : List Input}
    (h : Run (step self) (fun c => Rewarding c.vault) ⟨v, []⟩ inputs ⟨w, amounts⟩) :
    Shared v.token amounts w.token := by
  refine h.invariant (I := fun c => Shared v.token c.amounts c.vault.token)
    (Shared.start v.token) ?_
  intro c input c' hs hr hstep
  simp only [step, bind_eq_ok, pure_eq_ok] at hstep
  obtain ⟨u, hstep, rfl⟩ := hstep
  exact step_shared hstep hr hs

/-! ## What the holders get -/

/-- Points are never taken away. -/
theorem Shared.perToken_le (h : Shared s amounts t) :
    s.distribution.pointsPerToken.val ≤ t.distribution.pointsPerToken.val := by
  have hle := s.distribution.carry.perUnit_le_share s.totalSupply.val
    (amounts.sum * pointsScale.val)
  rw [← h.carry] at hle
  exact hle

theorem Shared.balance (h : Shared s amounts t) (holder : Addr) :
    t.balance holder = s.balance holder := by
  unfold State.balance
  rw [h.balances]

theorem Shared.points_le (h : Shared s amounts t) (holder : Addr) :
    s.points holder ≤ t.points holder := by
  unfold State.points
  rw [h.balance, h.correction]
  have hle := h.perToken_le
  gcongr

theorem step_settled {input : Input} (h : Vault.step self input v = .ok w)
    (hr : Rewarding v input) (hs : Settled v.token holder) (hlt : v.token.points holder < 2 ^ 128) :
    Settled w.token holder := by
  have hpoints := (step_shared h hr (Shared.start v.token)).points_le holder
  cases input with
  | receive amount =>
    rw [(step_receive_eq_ok.mp h).1]
    exact hs
  | call sender msg transferable =>
    obtain ⟨msgs, h, -⟩ := step_call_eq_ok.mp h
    let call : Call := ⟨sender, msg, v.querier transferable⟩
    have hout : Outcome call.querier self call.sender v.token call.msg w.token msgs :=
      execute_outcome h
    exact hs.step hout hpoints fun _ _ => hlt

/-- A holder whose points fit in the end has not withdrawn more than it has earned. -/
theorem run_settled {inputs : List Input}
    (h : Run (step self) (fun c => Rewarding c.vault) ⟨v, []⟩ inputs ⟨w, amounts⟩)
    (hs : Settled v.token holder) : w.token.points holder < 2 ^ 128 → Settled w.token holder := by
  refine h.invariant
    (I := fun c => c.vault.token.points holder < 2 ^ 128 → Settled c.vault.token holder)
    (fun _ => hs) ?_
  intro c input c' hc hr hstep hlt
  simp only [step, bind_eq_ok, pure_eq_ok] at hstep
  obtain ⟨u, hstep, rfl⟩ := hstep
  have hle := ((step_shared hstep hr (Shared.start c.vault.token)).points_le holder).trans_lt hlt
  exact step_settled hstep hr (hc hle) hle

/-! ## The whole at once -/

variable {u : State} {w₁ : Vault} {inputs inputs₁ : List Input}

theorem Shared.carry_eq (h : Shared s amounts t) (h₁ : Shared s [amounts.sum] u) :
    t.distribution.carry = u.distribution.carry := by
  rw [h.carry, h₁.carry, List.sum_singleton]

theorem Shared.perToken_eq (h : Shared s amounts t) (h₁ : Shared s [amounts.sum] u) :
    t.distribution.pointsPerToken = u.distribution.pointsPerToken :=
  Uint128.ext (congrArg Carry.perUnit (h.carry_eq h₁))

theorem Shared.points_eq (h : Shared s amounts t) (h₁ : Shared s [amounts.sum] u)
    (holder : Addr) : t.points holder = u.points holder := by
  unfold State.points
  rw [h.perToken_eq h₁, h.balance, h₁.balance, h.correction, h₁.correction]

/-- What was withdrawn and may be withdrawn is what the holder's points are worth, modulo
`2 ^ 128`. -/
theorem withdrawn_add_modEq {coin : Coin} (h : withdrawableFunds t holder = .ok coin) :
    ((t.adjustment holder).withdrawnFunds.val + coin.amount.val : ℤ) ≡ entitled t holder
      [ZMOD 2 ^ 128] := by
  rw [(withdrawableFunds_eq_ok.mp h).2]
  refine ((Int.ModEq.refl _).add (Uint128.val_wrap_modEq _)).trans ?_
  rw [add_sub_cancel]

/-- However the reward is split, the ledger and every holder's total are as after one
distribution of the whole. -/
theorem split_reward
    (h : Run (step self) (fun c => Rewarding c.vault) ⟨v, []⟩ inputs ⟨w, amounts⟩)
    (h₁ : Run (step self) (fun c => Rewarding c.vault) ⟨v, []⟩ inputs₁ ⟨w₁, [amounts.sum]⟩) :
    w.token.distribution.pointsPerToken = w₁.token.distribution.pointsPerToken ∧
    w.token.distribution.pointsLeftover = w₁.token.distribution.pointsLeftover ∧
    w.token.distribution.distributedTotal = w₁.token.distribution.distributedTotal ∧
    ∀ holder coin coin₁, withdrawableFunds w.token holder = .ok coin →
      withdrawableFunds w₁.token holder = .ok coin₁ →
      let total := (w.token.adjustment holder).withdrawnFunds.val + coin.amount.val
      let total₁ := (w₁.token.adjustment holder).withdrawnFunds.val + coin₁.amount.val
      (total < 2 ^ 128 → total₁ < 2 ^ 128 → total = total₁) ∧
      (Settled v.token holder → w.token.points holder < 2 ^ 128 → total = total₁) := by
  have hw := run_shared h
  have hw₁ := run_shared h₁
  have htotal : w.token.distribution.distributedTotal.val =
      w₁.token.distribution.distributedTotal.val := by
    rw [hw.total, hw₁.total, List.sum_singleton]
  refine ⟨hw.perToken_eq hw₁, Uint128.ext (congrArg Carry.leftover (hw.carry_eq hw₁)),
    Uint128.ext htotal, fun holder coin coin₁ hcoin hcoin₁ => ?_⟩
  have hpoints := hw.points_eq hw₁ holder
  intro total total₁
  refine ⟨fun hlt hlt₁ => ?_, fun hs hlt => ?_⟩
  · have hentitled : entitled w.token holder = entitled w₁.token holder := by
      unfold entitled
      rw [hpoints]
    have hmod := withdrawn_add_modEq hcoin
    rw [hentitled] at hmod
    have hmod : total ≡ total₁ [MOD 2 ^ 128] :=
      Int.natCast_modEq_iff.mp (by exact_mod_cast hmod.trans (withdrawn_add_modEq hcoin₁).symm)
    exact hmod.eq_of_lt_of_lt hlt hlt₁
  · obtain ⟨-, hsum⟩ := ((run_settled h hs hlt).withdrawableFunds_eq_ok hlt).mp hcoin
    rw [hpoints] at hsum hlt
    obtain ⟨-, hsum₁⟩ := ((run_settled h₁ hs hlt).withdrawableFunds_eq_ok hlt).mp hcoin₁
    exact_mod_cast hsum.trans hsum₁.symm

/-- Three members hold 7, 11 and 13 ctokens. -/
def sampleVault : Vault where
  token :=
    { instantiate "controller" (.native "reward") with
      totalSupply := 31
      balances := ((Map.save ∅ "member1" 7).save "member2" 11).save "member3" 13 }
  funds := 0

def sampleParts : List Input :=
  [.receive 100, .call "member4" .distribute (.ok 0), .call "member2" .withdrawFunds (.ok 0),
   .receive 3_000, .call "member4" .distribute (.ok 0)]

/-- The second member withdraws between two distributions and gets 1100 in total. -/
theorem split_reward_example : ∃ w w₁ : Vault,
    Run (step "token") (fun c => Rewarding c.vault) ⟨sampleVault, []⟩ sampleParts
      ⟨w, [100, 3_000]⟩ ∧
    Run (step "token") (fun c => Rewarding c.vault) ⟨sampleVault, []⟩
      [.receive 3_100, .call "member4" .distribute (.ok 0)] ⟨w₁, [3_100]⟩ ∧
    w.token.distribution.pointsPerToken = w₁.token.distribution.pointsPerToken ∧
    (w.token.adjustment "member2").withdrawnFunds = 35 ∧
    ∃ coin coin₁, withdrawableFunds w.token "member2" = .ok coin ∧
      withdrawableFunds w₁.token "member2" = .ok coin₁ ∧
      coin₁.amount = 1_100 ∧ 35 + coin.amount.val = coin₁.amount.val := by
  obtain ⟨⟨w, amounts⟩, hrun, hamounts, hwithdrawn, hcoin⟩ : ∃ c : Split,
      Run (step "token") (fun c => Rewarding c.vault) ⟨sampleVault, []⟩ sampleParts c ∧
        c.amounts = [100, 3_000] ∧
        (c.vault.token.adjustment "member2").withdrawnFunds = 35 ∧
        (withdrawableFunds c.vault.token "member2").toOption =
          some ⟨.native "reward", 1_065⟩ :=
    exists_run_of_runAll (by decide +kernel)
  obtain ⟨⟨w₁, amounts₁⟩, hrun₁, hamounts₁, hwithdrawn₁, hcoin₁⟩ : ∃ c : Split,
      Run (step "token") (fun c => Rewarding c.vault) ⟨sampleVault, []⟩
          [.receive 3_100, .call "member4" .distribute (.ok 0)] c ∧
        c.amounts = [3_100] ∧
        (c.vault.token.adjustment "member2").withdrawnFunds = 0 ∧
        (withdrawableFunds c.vault.token "member2").toOption =
          some ⟨.native "reward", 1_100⟩ :=
    exists_run_of_runAll (by decide +kernel)
  dsimp only at hamounts hamounts₁ hwithdrawn hwithdrawn₁ hcoin hcoin₁
  subst hamounts hamounts₁
  rw [toOption_eq_some] at hcoin hcoin₁
  obtain ⟨hppt, -, -, hholder⟩ := split_reward hrun hrun₁
  have htotal := (hholder "member2" _ _ hcoin hcoin₁).1
  rw [hwithdrawn, hwithdrawn₁] at htotal
  refine ⟨w, w₁, hrun, hrun₁, hppt, hwithdrawn, _, _, hcoin, hcoin₁, rfl, ?_⟩
  exact (htotal (by decide) (by decide)).trans (Nat.zero_add _)

end Split

end Vault

end WyndLend.Ctoken
