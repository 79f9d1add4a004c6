import WyndLend.Ctoken.Payout

/-!
# The funds that the contract reports

`DistributedFunds` and `UndistributedFunds` are a matter of what arrives and of when it is
distributed: holders mint, move, burn and withdraw without any effect on the two answers,
also where the arithmetic of their points wraps.
-/

namespace WyndLend.Ctoken

open CosmWasm Utils

namespace Query

/-- Handler for `QueryMsg::DistributedFunds`. -/
def distributedFunds (s : State) : Coin :=
  s.distribution.denom.amount s.distribution.distributedTotal

/-- Handler for `QueryMsg::UndistributedFunds`. -/
def undistributedFunds (q : Querier) (self : Addr) (s : State) : Except Error Coin := do
  let distribution := s.distribution
  let balance := q.balance distribution.denom self
  return distribution.denom.amount (balance.wrappingSub distribution.withdrawableTotal)

end Query

/-! ## A distribution and all other calls -/

variable {q : Querier} {self sender : Addr} {s s' : State} {msg : ExecuteMsg}
  {msgs : List Message}

/-- A distribution adds all that was undistributed to both totals. -/
theorem distribute_funds (h : distribute q self s = .ok s')
    (hfunded : s.distribution.withdrawableTotal ≤ q.balance s.distribution.denom self) :
    ∃ amount : Uint128,
      amount.val + s.distribution.withdrawableTotal.val =
        (q.balance s.distribution.denom self).val ∧
      s'.distribution.denom = s.distribution.denom ∧
      s'.distribution.distributedTotal.val = s.distribution.distributedTotal.val + amount.val ∧
      s'.distribution.withdrawableTotal.val =
        s.distribution.withdrawableTotal.val + amount.val := by
  simp only [distribute, bind_eq_ok] at h
  obtain ⟨_, -, h⟩ := h
  refine ⟨_, Uint128.wrappingSub_of_le hfunded, ?_⟩
  split_ifs at h with h0
  · cases h
    simp [h0]
  · simp only [bind_eq_ok, pure_eq_ok, Uint128.add_eq_ok] at h
    obtain ⟨_, -, _, -, _, -, total, htotal, withdrawable, hwithdrawable, rfl⟩ := h
    exact ⟨rfl, htotal, hwithdrawable⟩

/-- Any other call leaves the totals alone, or takes what it pays out of the second one. -/
theorem Outcome.funds (h : Outcome q self sender s msg s' msgs) (hmsg : msg ≠ .distribute) :
    s'.distribution.denom = s.distribution.denom ∧
    s'.distribution.distributedTotal = s.distribution.distributedTotal ∧
    ((s'.distribution.withdrawableTotal = s.distribution.withdrawableTotal ∧
        ∀ coin holder, Message.sendTokens coin holder ∉ msgs) ∨
      ∃ coin : Coin, msgs = [.sendTokens coin sender] ∧
        s'.distribution.withdrawableTotal.val + coin.amount.val =
          s.distribution.withdrawableTotal.val) := by
  cases h with
  | transferred _ _ taken given silent =>
    have hd := given.distribution.trans taken.distribution
    exact ⟨by rw [hd], by rw [hd], .inl ⟨by rw [hd], silent⟩⟩
  | minted _ _ _ given _ =>
    have hd := given.distribution
    exact ⟨congrArg _ hd, congrArg _ hd, .inl ⟨congrArg _ hd, by simp⟩⟩
  | burned _ _ _ taken _ =>
    have hd := taken.distribution
    exact ⟨congrArg _ hd, congrArg _ hd, .inl ⟨congrArg _ hd, by simp⟩⟩
  | rebased | idle => exact ⟨rfl, rfl, .inl ⟨rfl, by simp⟩⟩
  | distributed => exact absurd rfl hmsg
  | withdrew _ _ rest => exact ⟨rfl, rfl, .inr ⟨_, rfl, rest⟩⟩

/-! ## Along a run -/

namespace Vault

variable {v v' : Vault} {input : Input} {inputs : List Input} {controller : Addr} {denom : Token}
  {funds : Uint128}

/-- What has been distributed, and what waits to be. -/
structure Reported where
  distributed : ℕ
  undistributed : ℕ
  deriving DecidableEq

/-- Arrivals wait for the next distribution; nothing else counts. -/
def Reported.next (r : Reported) : Input → Reported
  | .receive amount => { r with undistributed := r.undistributed + amount.val }
  | .call _ .distribute _ => ⟨r.distributed + r.undistributed, 0⟩
  | .call .. => r

/-- The contract does not call itself. -/
def ByOthers (self : Addr) (_ : Vault) : Input → Prop
  | .receive _ => True
  | .call sender _ _ => sender ≠ self

instance (self : Addr) (v : Vault) (input : Input) : Decidable (ByOthers self v input) :=
  match input with
  | .receive _ => .isTrue trivial
  | .call sender _ _ => inferInstanceAs (Decidable (sender ≠ self))

/-- The contract holds what may be withdrawn and what waits to be distributed. -/
structure Reports (denom : Token) (v : Vault) (r : Reported) : Prop where
  denom : v.token.distribution.denom = denom
  distributed : v.token.distribution.distributedTotal.val = r.distributed
  undistributed : v.token.distribution.withdrawableTotal.val + r.undistributed = v.funds.val

theorem step_reports {r : Reported} (hi : Reports denom v r) (hg : ByOthers self v input)
    (h : step self input v = .ok v') : Reports denom v' (r.next input) := by
  obtain ⟨hdenom, hdistributed, hundistributed⟩ := hi
  cases input with
  | receive amount =>
    obtain ⟨htoken, hfunds⟩ := step_receive_eq_ok.mp h
    refine ⟨htoken ▸ hdenom, htoken ▸ hdistributed, ?_⟩
    simp only [htoken, hfunds, ← hundistributed, Reported.next]
    omega
  | call sender msg transferable =>
    obtain ⟨msgs, hexecute, hpay⟩ := step_call_eq_ok.mp h
    by_cases hmsg : msg = .distribute
    · subst hmsg
      simp only [execute, bind_eq_ok, pure_eq_ok, Prod.mk.injEq] at hexecute
      obtain ⟨_, hd, rfl, rfl⟩ := hexecute
      have hle : v.token.distribution.withdrawableTotal ≤ v.funds :=
        Uint128.le_def.mpr (Nat.le.intro hundistributed)
      obtain ⟨amount, hamount, hsame, htotal, hwithdrawable⟩ := distribute_funds hd hle
      have hamount : amount.val + v.token.distribution.withdrawableTotal.val = v.funds.val :=
        hamount
      have hfunds := pay_silent (by simp) hpay
      refine ⟨hsame.trans hdenom, ?_, ?_⟩
      · simp only [Reported.next]
        omega
      · simp only [hfunds, Reported.next]
        omega
    · have hnext : r.next (.call sender msg transferable) = r := by
        cases msg <;> first | rfl | exact absurd rfl hmsg
      obtain ⟨hsame, htotal, hcase⟩ := (execute_outcome hexecute).funds hmsg
      rw [hnext]
      refine ⟨hsame.trans hdenom, htotal ▸ hdistributed, ?_⟩
      rcases hcase with ⟨hwithdrawable, hsilent⟩ | ⟨coin, rfl, hrest⟩
      · rw [hwithdrawable, pay_silent hsilent hpay]
        exact hundistributed
      · -- the holder is not the contract, so that the coins are gone
        have hne : sender ≠ self := hg
        simp only [List.foldlM_cons, List.foldlM_nil, bind_eq_ok, pure_eq_ok, pay, if_neg hne,
          Uint128.sub_eq_ok] at hpay
        obtain ⟨_, ⟨rest, hpaid, rfl⟩, rfl⟩ := hpay
        omega

/-- What has arrived over the inputs. -/
def arrived (inputs : List Input) : ℕ :=
  (inputs.map fun
    | .receive amount => amount.val
    | .call .. => 0).sum

/-- Nothing that has arrived is lost, it only waits or has been distributed. -/
theorem foldl_next_total (r : Reported) :
    (inputs.foldl Reported.next r).distributed + (inputs.foldl Reported.next r).undistributed =
      r.distributed + r.undistributed + arrived inputs := by
  induction inputs generalizing r with
  | nil => simp [arrived]
  | cons input inputs ih =>
    rw [List.foldl_cons, ih]
    cases input with
    | receive amount => simp only [Reported.next, arrived, List.map_cons, List.sum_cons]; omega
    | call _ msg _ => cases msg <;> simp [Reported.next, arrived]

/-- Whatever the holders do, and also where their points wrap: in every run the two queries
answer with what the arrivals and the distributions alone amount to, in the distributed
token, and together they account for all that has ever arrived. -/
theorem funds_replay (transferable : Except Error Uint128)
    (h : Run (step self) (ByOthers self) ⟨instantiate controller denom, funds⟩ inputs v) :
    let r := inputs.foldl Reported.next ⟨0, funds.val⟩
    (∃ amount : Uint128, Query.distributedFunds v.token = denom.amount amount ∧
      amount.val = r.distributed) ∧
    (∃ amount : Uint128, Query.undistributedFunds (v.querier transferable) self v.token =
      .ok (denom.amount amount) ∧ amount.val = r.undistributed) ∧
    r.distributed + r.undistributed = funds.val + arrived inputs := by
  intro r
  have hr : Reports denom v r := by
    refine h.invariant_list (I := fun is v =>
      Reports denom v (is.foldl Reported.next ⟨0, funds.val⟩)) ⟨rfl, rfl, Nat.zero_add _⟩ ?_
    intro is u input w hi hg hs
    rw [List.foldl_concat]
    exact step_reports hi hg hs
  refine ⟨⟨v.token.distribution.distributedTotal, ?_, hr.distributed⟩, ?_, ?_⟩
  · rw [Query.distributedFunds, hr.denom]
  · have hle : v.token.distribution.withdrawableTotal ≤ v.funds :=
      Uint128.le_def.mpr (Nat.le.intro hr.undistributed)
    have hamount := Uint128.wrappingSub_of_le hle
    have hundistributed := hr.undistributed
    refine ⟨v.funds.wrappingSub v.token.distribution.withdrawableTotal, ?_, by omega⟩
    simp only [Query.undistributedFunds, pure_eq_ok, hr.denom]
    rfl
  · have htotal : r.distributed + r.undistributed = 0 + funds.val + arrived inputs :=
      foldl_next_total ⟨0, funds.val⟩
    simpa using htotal

/-- Fifteen coins have arrived; after a second distribution all of them are distributed, and
two more wait when they arrive. -/
theorem funds_replay_example : ∃ v,
    Run (step "token") (ByOthers "token") ⟨instantiate "market" (.native "juno"), 0⟩
      (sampleInputs ++ [.receive 2]) v ∧
    Query.distributedFunds v.token = ⟨.native "juno", 15⟩ ∧
    Query.undistributedFunds (v.querier (.ok 0)) "token" v.token = .ok ⟨.native "juno", 2⟩ := by
  obtain ⟨v, hrun, -⟩ : ∃ v, Run (step "token") (ByOthers "token")
      ⟨instantiate "market" (.native "juno"), 0⟩ (sampleInputs ++ [.receive 2]) v ∧ True :=
    exists_run_of_runAll (by decide +kernel)
  obtain ⟨⟨total, htotal, hd⟩, ⟨rest, hrest, hu⟩, -⟩ := funds_replay (.ok 0) hrun
  obtain rfl : total = 15 := Uint128.ext hd
  obtain rfl : rest = 2 := Uint128.ext hu
  exact ⟨v, hrun, htotal, hrest⟩

end Vault

end WyndLend.Ctoken
