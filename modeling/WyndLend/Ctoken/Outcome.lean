import WyndLend.Ctoken.Effects
import WyndLend.CosmWasm.Run

/-!
# What a call of the ctoken contract amounts to

Balances only change through `Shift`: one balance moves by an amount of tokens
and its points correction by the points of that amount. A call is a few shifts,
a rebase, or one step of the reward ledger.
-/

namespace WyndLend.Ctoken

open CosmWasm Utils

/-- A message to the contract, with the answers it gets from the rest of the chain. -/
structure Call where
  sender : Addr
  msg : ExecuteMsg
  querier : Querier

/-- The state after a successful call. -/
def step (self : Addr) (call : Call) (s : State) : Except Error State :=
  return (← execute call.querier self call.sender call.msg s).1

/-- A call that fails leaves no trace. -/
def deliver (self : Addr) (s : State) (call : Call) : State :=
  match step self call s with
  | .ok s' => s'
  | .error _ => s

theorem deliver_of_step {self : Addr} {call : Call} {s s' : State}
    (h : step self call s = .ok s') : deliver self s call = s' := by
  unfold deliver
  rw [h]

/-- Along a run every call succeeds, so delivering them leads to the same state. -/
theorem foldl_deliver {self : Addr} {guard : State → Call → Prop} {s t : State}
    {calls : List Call} (h : Run (step self) guard s calls t) :
    calls.foldl (deliver self) s = t := by
  induction h with
  | nil => rfl
  | snoc _ _ hs ih => rw [List.foldl_concat, ih, deliver_of_step hs]

def ExecuteMsg.IsTransfer : ExecuteMsg → Prop
  | .transfer .. | .transferFrom .. | .transferBaseFrom .. | .send .. => True
  | _ => False

/-- What a message computes with points, amounts in raw tokens. -/
inductive Operation where
  | mint (recipient : Addr) (amount : Uint128)
  | burnFrom (owner : Addr) (amount : Uint128)
  | transfer (sender recipient : Addr) (amount : Uint128)
  /-- The contract finds so many reward tokens in its account. -/
  | distribute (balance : Uint128)
  | withdrawFunds (owner : Addr)

/-- The operation that a message of `sender` asks for, unless it has no amount. -/
def ExecuteMsg.operation (q : Querier) (self sender : Addr) (s : State) :
    ExecuteMsg → Option Operation
  | .transfer recipient amount | .send recipient amount => some (.transfer sender recipient amount)
  | .transferFrom source recipient amount => some (.transfer source recipient amount)
  | .transferBaseFrom source recipient amount =>
    (baseToToken amount s.multiplier : Except Error _).toOption.map (.transfer source recipient)
  | .mint recipient amount => some (.mint recipient amount)
  | .mintBase recipient amount =>
    (baseToToken amount s.multiplier : Except Error _).toOption.map (.mint recipient)
  | .burnFrom owner amount => some (.burnFrom owner amount)
  | .burnBaseFrom owner amount =>
    (baseToToken amount s.multiplier : Except Error _).toOption.map (.burnFrom owner)
  | .rebase _ => none
  | .distribute => some (.distribute (q.balance s.distribution.denom self))
  | .withdrawFunds => some (.withdrawFunds sender)

/-- The balance of `account` moves by `diff` tokens and its correction by their points, as
far as these fit. -/
def Shift (s : State) (account : Addr) (diff : ℤ) (s' : State) : Prop :=
  ∃ (b : Uint128) (c : Int128), (b.val : ℤ) = (s.balance account).val + diff ∧
    c = .wrap ((s.adjustment account).pointsCorrection.val -
      s.distribution.pointsPerToken.val * diff) ∧
    s' = { s with
      balances := s.balances.save account b
      withdrawAdjustment :=
        s.withdrawAdjustment.save account { s.adjustment account with pointsCorrection := c } }

variable {s s' : State} {caller account sender recipient owner : Addr} {amount : Uint128}

/-- Casts and products may wrap before the difference does; it comes to the same. -/
theorem applyPointsCorrection_eq_ok {ppt : Uint128} {cast : Int128} {diff : ℤ}
    (hcast : cast.val ≡ diff [ZMOD 2 ^ 128]) :
    applyPointsCorrection s account ppt cast = .ok s' ↔
      { s with
        withdrawAdjustment := s.withdrawAdjustment.save account
          { s.adjustment account with
            pointsCorrection :=
              .wrap ((s.adjustment account).pointsCorrection.val - ppt.val * diff) } } = s' := by
  have hshift : (ppt.asI128.mul cast).val ≡ ppt.val * diff [ZMOD 2 ^ 128] :=
    (Int128.val_wrap_modEq _).trans ((Uint128.val_asI128_modEq ppt).mul hcast)
  have hcorrection : (s.adjustment account).pointsCorrection.sub (ppt.asI128.mul cast) =
      .wrap ((s.adjustment account).pointsCorrection.val - ppt.val * diff) :=
    Int128.wrap_eq_wrap ((Int.ModEq.refl _).sub hshift)
  simp only [applyPointsCorrection, pure_eq_ok, hcorrection]

theorem shift_of_debit {s₁ : State} (h : debit s account amount = .ok s₁)
    (h' : applyPointsCorrection s₁ account s.distribution.pointsPerToken amount.asI128.neg =
      .ok s') : Shift s account (-amount.val) s' := by
  obtain ⟨rest, hrest, rfl⟩ := debit_spec h
  exact ⟨rest, _, by omega, rfl,
    ((applyPointsCorrection_eq_ok (Uint128.val_neg_asI128_modEq amount)).mp h').symm⟩

theorem shift_of_credit {s₁ : State} (h : credit s account amount = .ok s₁)
    (h' : applyPointsCorrection s₁ account s.distribution.pointsPerToken amount.asI128 =
      .ok s') : Shift s account amount.val s' := by
  obtain ⟨b, hb, rfl⟩ := credit_spec h
  exact ⟨b, _, by omega, rfl,
    ((applyPointsCorrection_eq_ok (Uint128.val_asI128_modEq amount)).mp h').symm⟩

theorem transferTokens_shifts (h : transferTokens s sender recipient amount = .ok s') :
    amount ≠ 0 ∧ ∃ s₁, Shift s sender (-amount.val) s₁ ∧ Shift s₁ recipient amount.val s' := by
  simp only [transferTokens, bind_eq_ok, ensure_eq_ok] at h
  obtain ⟨-, ha, s₁, h₁, s₂, h₂, s₃, h₃, h₄⟩ := h
  have hdebit := shift_of_debit h₁ h₂
  refine ⟨ha, s₂, hdebit, ?_⟩
  obtain ⟨b, c, -, -, rfl⟩ := hdebit
  exact shift_of_credit h₃ h₄

theorem mint_shift (h : mint caller s recipient amount = .ok s') :
    caller = s.controller ∧ amount ≠ 0 ∧ ∃ (s₁ : State) (t : Uint128),
      Shift s recipient amount.val s₁ ∧ t.val = s.totalSupply.val + amount.val ∧
      s' = { s₁ with totalSupply := t } := by
  simp only [mint, bind_eq_ok, ensure_eq_ok, Uint128.add_eq_ok, pure_eq_ok] at h
  obtain ⟨-, hc, -, ha, s₁, h₁, s₂, h₂, t, ht, rfl⟩ := h
  have hshift := shift_of_credit h₁ h₂
  refine ⟨hc, ha, s₂, t, hshift, ?_, rfl⟩
  obtain ⟨b, c, -, -, rfl⟩ := hshift
  exact ht

theorem burnFrom_shift (h : burnFrom caller s owner amount = .ok s') :
    caller = s.controller ∧ amount ≠ 0 ∧ ∃ (s₁ : State) (t : Uint128),
      Shift s owner (-amount.val) s₁ ∧ t.val + amount.val = s.totalSupply.val ∧
      s' = { s₁ with totalSupply := t } := by
  simp only [burnFrom, bind_eq_ok, ensure_eq_ok, mapError_eq_ok, Uint128.sub_eq_ok,
    pure_eq_ok] at h
  obtain ⟨-, hc, -, ha, s₁, h₁, s₂, h₂, t, ht, rfl⟩ := h
  have hshift := shift_of_debit h₁ h₂
  refine ⟨hc, ha, s₂, t, hshift, ?_, rfl⟩
  obtain ⟨b, c, -, -, rfl⟩ := hshift
  exact ht

/-- What a successful call did. -/
inductive Outcome (q : Querier) (self sender : Addr) (s : State) :
    ExecuteMsg → State → List Message → Prop where
  | transferred {msg source recipient amount s₁ s' msgs} (kind : msg.IsTransfer)
    (operation : msg.operation q self sender s = some (.transfer source recipient amount))
    (taken : Shift s source (-amount.val) s₁)
    (given : Shift s₁ recipient amount.val s')
    (silent : ∀ coin holder, Message.sendTokens coin holder ∉ msgs) :
    Outcome q self sender s msg s' msgs
  | minted {msg recipient amount s₁ t} (caller : sender = s.controller)
    (operation : msg.operation q self sender s = some (.mint recipient amount))
    (kind : ¬ msg.IsTransfer)
    (given : Shift s recipient amount.val s₁)
    (supply : t.val = s.totalSupply.val + amount.val) :
    Outcome q self sender s msg { s₁ with totalSupply := t } []
  | burned {msg owner amount s₁ t} (caller : sender = s.controller)
    (operation : msg.operation q self sender s = some (.burnFrom owner amount))
    (kind : ¬ msg.IsTransfer)
    (taken : Shift s owner (-amount.val) s₁)
    (supply : t.val + amount.val = s.totalSupply.val) :
    Outcome q self sender s msg { s₁ with totalSupply := t } []
  | rebased {ratio m} (caller : sender = s.controller) :
    Outcome q self sender s (.rebase ratio) { s with multiplier := m } []
  /-- A distribution of nothing, or a withdrawal of nothing. -/
  | idle {msg} (kind : msg = .distribute ∨ msg = .withdrawFunds) :
    Outcome q self sender s msg s []
  | distributed {amount points : Uint128} {d : Distribution}
    (amount_eq : amount =
      (q.balance s.distribution.denom self).wrappingSub s.distribution.withdrawableTotal)
    (points_eq : points =
      (amount.wrappingMul pointsScale).wrappingAdd s.distribution.pointsLeftover)
    (holders : s.totalSupply ≠ 0)
    (denom : d.denom = s.distribution.denom)
    (perToken : d.pointsPerToken.val =
      s.distribution.pointsPerToken.val + points.val / s.totalSupply.val)
    (leftover : d.pointsLeftover.val = points.val % s.totalSupply.val)
    (total : d.distributedTotal.val = s.distribution.distributedTotal.val + amount.val)
    (withdrawable : d.withdrawableTotal.val =
      s.distribution.withdrawableTotal.val + amount.val) :
    Outcome q self sender s .distribute { s with distribution := d } []
  | withdrew {coin : Coin} {w t : Uint128} (funds : withdrawableFunds s sender = .ok coin)
    (withdrawn : w.val = (s.adjustment sender).withdrawnFunds.val + coin.amount.val)
    (rest : t.val + coin.amount.val = s.distribution.withdrawableTotal.val) :
    Outcome q self sender s .withdrawFunds
      { s with
        withdrawAdjustment :=
          s.withdrawAdjustment.save sender { s.adjustment sender with withdrawnFunds := w }
        distribution := { s.distribution with withdrawableTotal := t } }
      [.sendTokens coin sender]

theorem distribute_outcome {q : Querier} {self : Addr} (h : distribute q self s = .ok s') :
    Outcome q self sender s .distribute s' [] := by
  simp only [distribute, bind_eq_ok, ensure_eq_ok] at h
  obtain ⟨-, hsupply, h⟩ := h
  split_ifs at h
  · cases h
    exact .idle (.inl rfl)
  · simp only [bind_eq_ok, pure_eq_ok, Uint128.add_eq_ok, Uint128.div_eq_ok,
      Uint128.rem_eq_ok] at h
    obtain ⟨inc, ⟨-, hinc⟩, left, ⟨-, hleft⟩, ppt, hppt, total, htotal, withdrawable,
      hwithdrawable, rfl⟩ := h
    refine .distributed rfl rfl hsupply rfl ?_ hleft htotal hwithdrawable
    rw [hppt, hinc]

theorem withdrawFunds_outcome {q : Querier} {self : Addr} {msgs : List Message}
    (h : withdrawFunds sender s = .ok (s', msgs)) :
    Outcome q self sender s .withdrawFunds s' msgs := by
  simp only [withdrawFunds, bind_eq_ok] at h
  obtain ⟨coin, hcoin, h⟩ := h
  split_ifs at h
  · cases h
    exact .idle (.inr rfl)
  · simp only [bind_eq_ok, pure_eq_ok, Uint128.add_eq_ok, Uint128.sub_eq_ok] at h
    obtain ⟨w, hw, t, ht, h⟩ := h
    cases h
    exact .withdrew hcoin hw ht

theorem execute_outcome {q : Querier} {self : Addr} {msg : ExecuteMsg} {msgs : List Message}
    (h : execute q self sender msg s = .ok (s', msgs)) : Outcome q self sender s msg s' msgs := by
  cases msg <;> simp only [execute, bind_eq_ok, pure_eq_ok, Prod.mk.injEq] at h
  case transfer recipient amount =>
    obtain ⟨_, h, rfl, rfl⟩ := h
    simp only [transfer, bind_eq_ok] at h
    obtain ⟨-, -, h⟩ := h
    obtain ⟨-, s₁, htaken, hgiven⟩ := transferTokens_shifts h
    exact .transferred trivial rfl htaken hgiven (by simp)
  case send contract amount =>
    obtain ⟨_, h, rfl, rfl⟩ := h
    simp only [transfer, bind_eq_ok] at h
    obtain ⟨-, -, h⟩ := h
    obtain ⟨-, s₁, htaken, hgiven⟩ := transferTokens_shifts h
    exact .transferred trivial rfl htaken hgiven (by simp)
  case transferFrom source recipient amount =>
    obtain ⟨_, h, rfl, rfl⟩ := h
    obtain ⟨-, s₁, htaken, hgiven⟩ := transferTokens_shifts (transferFrom_spec h).2
    exact .transferred trivial rfl htaken hgiven (by simp)
  case transferBaseFrom source recipient amount =>
    obtain ⟨_, h, rfl, rfl⟩ := h
    obtain ⟨-, tokens, htokens, h⟩ := transferBaseFrom_spec h
    obtain ⟨-, s₁, htaken, hgiven⟩ := transferTokens_shifts h
    exact .transferred trivial (by simp [ExecuteMsg.operation, htokens, Except.toOption]) htaken
      hgiven (by simp)
  case mint recipient amount =>
    obtain ⟨_, h, rfl, rfl⟩ := h
    obtain ⟨hc, -, s₁, t, hgiven, ht, rfl⟩ := mint_shift h
    exact .minted hc rfl not_false hgiven ht
  case mintBase recipient amount =>
    obtain ⟨_, h, rfl, rfl⟩ := h
    obtain ⟨tokens, htokens, h⟩ := mintBase_spec h
    obtain ⟨hc, -, s₁, t, hgiven, ht, rfl⟩ := mint_shift h
    exact .minted hc (by simp [ExecuteMsg.operation, htokens, Except.toOption]) not_false hgiven ht
  case burnFrom owner amount =>
    obtain ⟨_, h, rfl, rfl⟩ := h
    obtain ⟨hc, -, s₁, t, htaken, ht, rfl⟩ := burnFrom_shift h
    exact .burned hc rfl not_false htaken ht
  case burnBaseFrom owner amount =>
    obtain ⟨_, h, rfl, rfl⟩ := h
    obtain ⟨tokens, htokens, h⟩ := burnBaseFrom_spec h
    obtain ⟨hc, -, s₁, t, htaken, ht, rfl⟩ := burnFrom_shift h
    exact .burned hc (by simp [ExecuteMsg.operation, htokens, Except.toOption]) not_false htaken ht
  case rebase ratio =>
    obtain ⟨_, h, rfl, rfl⟩ := h
    obtain ⟨hc, m, -, rfl⟩ := rebase_spec h
    exact .rebased hc
  case distribute =>
    obtain ⟨_, h, rfl, rfl⟩ := h
    exact distribute_outcome h
  case withdrawFunds => exact withdrawFunds_outcome h

theorem step_outcome {self : Addr} {call : Call} (h : step self call s = .ok s') :
    ∃ msgs, Outcome call.querier self call.sender s call.msg s' msgs := by
  simp only [step, bind_eq_ok, pure_eq_ok] at h
  obtain ⟨⟨u, msgs⟩, h, rfl⟩ := h
  exact ⟨msgs, execute_outcome h⟩

end WyndLend.Ctoken
