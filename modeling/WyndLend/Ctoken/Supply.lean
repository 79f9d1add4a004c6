import WyndLend.Ctoken.Outcome

/-!
# The supply is the sum of the balances

A shift moves the sum of all balances by the same amount as the one balance, a
transfer is two opposite shifts, and minting and burning move the supply along.
-/

namespace WyndLend.Ctoken

open CosmWasm Utils

variable {s s' : State} {self account : Addr} {diff : ℤ}

theorem State.elim_balance (s : State) (account : Addr) :
    (s.balances.mayLoad account).elim 0 Uint128.val = (s.balance account).val := by
  unfold State.balance
  cases s.balances.mayLoad account <;> rfl

namespace Shift

variable (h : Shift s account diff s')

include h

theorem totalSupply : s'.totalSupply = s.totalSupply := by
  obtain ⟨b, c, -, -, rfl⟩ := h
  rfl

theorem multiplier : s'.multiplier = s.multiplier := by
  obtain ⟨b, c, -, -, rfl⟩ := h
  rfl

theorem controller : s'.controller = s.controller := by
  obtain ⟨b, c, -, -, rfl⟩ := h
  rfl

theorem distribution : s'.distribution = s.distribution := by
  obtain ⟨b, c, -, -, rfl⟩ := h
  rfl

theorem balance (holder : Addr) : ((s'.balance holder).val : ℤ) =
    (s.balance holder).val + if holder = account then diff else 0 := by
  obtain ⟨b, c, hb, -, rfl⟩ := h
  simp only [State.balance, Map.mayLoad_save]
  split_ifs with heq
  · subst heq
    exact hb
  · exact (add_zero _).symm

theorem sum_balances :
    (s'.balances.sum Uint128.val : ℤ) = s.balances.sum Uint128.val + diff := by
  obtain ⟨b, c, hb, -, rfl⟩ := h
  have hsum := Map.sum_save Uint128.val s.balances account b
  rw [State.elim_balance] at hsum
  dsimp only
  omega

end Shift

/-- The total supply is the sum of all balances. -/
def SupplyIsSum (s : State) : Prop := s.totalSupply.val = s.balances.sum Uint128.val

theorem SupplyIsSum.balance_le (h : SupplyIsSum s) (account : Addr) :
    s.balance account ≤ s.totalSupply := by
  have hle := Map.le_sum Uint128.val s.balances account
  rw [State.elim_balance] at hle
  exact hle.trans h.ge

/-- The controller burns whatever the owner has; the points never stand in its way. -/
theorem burnFrom_succeeds_iff {caller owner : Addr} {amount : Uint128} (hs : SupplyIsSum s) :
    (∃ s', burnFrom caller s owner amount = .ok s') ↔
      caller = s.controller ∧ amount ≠ 0 ∧ amount ≤ s.balance owner := by
  constructor
  · rintro ⟨s', h⟩
    obtain ⟨hc, ha, b, -, -, hb, -⟩ := burnFrom_spec h
    exact ⟨hc, ha, Uint128.le_def.mpr (Nat.le.intro ((Nat.add_comm _ _).trans hb))⟩
  · rintro ⟨hc, ha, hle⟩
    obtain ⟨rest, hrest⟩ := Uint128.exists_rest hle
    obtain ⟨supply, hleft⟩ := Uint128.exists_rest (hle.trans (hs.balance_le owner))
    simp only [burnFrom, bind_eq_ok, ensure_eq_ok, debit, mapError_eq_ok, Uint128.sub_eq_ok,
      applyPointsCorrection, pure_eq_ok]
    exact ⟨_, (), hc, (), ha, _, ⟨rest, hrest, rfl⟩, _, rfl, supply, hleft, rfl⟩

/-- Two opposite shifts leave the sum alone, also when they are of one account. -/
theorem transfer_supply {s₁ : State} {source recipient : Addr}
    (h : Shift s source (-diff) s₁) (h' : Shift s₁ recipient diff s') :
    s'.totalSupply = s.totalSupply ∧
      s'.balances.sum Uint128.val = s.balances.sum Uint128.val := by
  have hsum := h.sum_balances
  have hsum' := h'.sum_balances
  refine ⟨h'.totalSupply.trans h.totalSupply, ?_⟩
  omega

theorem Outcome.supplyIsSum {q : Querier} {sender : Addr} {msg : ExecuteMsg}
    {msgs : List Message} (h : Outcome q self sender s msg s' msgs) (hs : SupplyIsSum s) :
    SupplyIsSum s' := by
  unfold SupplyIsSum at hs ⊢
  cases h with
  | transferred _ _ taken given _ =>
    obtain ⟨hsupply, hsum⟩ := transfer_supply taken given
    rw [hsupply, hsum, hs]
  | minted _ _ _ given supply =>
    have hsum := given.sum_balances
    dsimp only
    omega
  | burned _ _ _ taken supply =>
    have hsum := taken.sum_balances
    dsimp only
    omega
  | rebased | idle | distributed | withdrew => exact hs

theorem step_supplyIsSum {call : Call} (h : step self call s = .ok s') (hs : SupplyIsSum s) :
    SupplyIsSum s' := by
  obtain ⟨msgs, h⟩ := step_outcome h
  exact h.supplyIsSum hs

theorem deliver_supplyIsSum (call : Call) (hs : SupplyIsSum s) :
    SupplyIsSum (deliver self s call) := by
  unfold deliver
  split
  · next h => exact step_supplyIsSum h hs
  · exact hs

theorem supplyIsSum_instantiate (controller : Addr) (denom : Token) :
    SupplyIsSum (instantiate controller denom) := rfl

theorem run_supplyIsSum {guard : State → Call → Prop} {controller : Addr} {denom : Token}
    {calls : List Call} (h : Run (step self) guard (instantiate controller denom) calls s) :
    SupplyIsSum s := by
  refine h.invariant (supplyIsSum_instantiate controller denom) ?_
  intro u call v hu _ hstep
  exact step_supplyIsSum hstep hu

theorem foldl_supplyIsSum (calls : List Call) (hs : SupplyIsSum s) :
    SupplyIsSum (calls.foldl (deliver self) s) := by
  induction calls generalizing s with
  | nil => exact hs
  | cons call calls ih => exact ih (deliver_supplyIsSum call hs)

theorem deliver_transfer {call : Call} (h : call.msg.IsTransfer) :
    (deliver self s call).totalSupply = s.totalSupply := by
  unfold deliver
  split
  · next hstep =>
    obtain ⟨msgs, hout⟩ := step_outcome hstep
    cases hmsg : call.msg <;> rw [hmsg] at h hout <;> try exact h.elim
    all_goals
      cases hout with
      | transferred _ _ taken given _ => exact (transfer_supply taken given).1
      | minted _ _ kind _ _ | burned _ _ kind _ _ => exact absurd trivial kind
      | idle kind => rfl
  · rfl

/-- Whatever anyone calls, also when calls fail, the supply is the sum of the
balances, no balance exceeds it, and transfers leave it alone. -/
theorem totalSupply_eq_sum_balances (self controller : Addr) (denom : Token)
    (calls : List Call) :
    let s := calls.foldl (deliver self) (instantiate controller denom)
    s.totalSupply.val = s.balances.sum Uint128.val ∧
      (∀ account, s.balance account ≤ s.totalSupply) ∧
      ∀ call : Call, call.msg.IsTransfer →
        (deliver self s call).totalSupply = s.totalSupply := by
  have h : SupplyIsSum (calls.foldl (deliver self) (instantiate controller denom)) :=
    foldl_supplyIsSum calls (supplyIsSum_instantiate controller denom)
  exact ⟨h, h.balance_le, fun _ => deliver_transfer⟩

end WyndLend.Ctoken
