import WyndLend.Platform.Outcome

/-!
# The credit agency spends nothing of its own

The platform does not track what the credit agency holds and takes it to own whatever it
sends. Here its balances are tracked: they are credited with what comes with a message and
with what a market sends it, and a transaction fails if they do not cover a repayment. The
two machines have the same runs, and in none of them does a balance of the credit agency fall.
-/

namespace WyndLend

open CosmWasm Utils CreditAgency

/-! ## Balances -/

/-- How much of every token an account holds. -/
abbrev Funds := Token → ℕ

namespace Funds

variable {funds more : Funds} {coin : Coin} {coins : List Coin}

def credit (funds : Funds) (coin : Coin) : Funds :=
  Function.update funds coin.denom (funds coin.denom + coin.amount.val)

/-- What is left when the coin is paid. -/
def debit (funds : Funds) (coin : Coin) : Option Funds :=
  if coin.amount.val ≤ funds coin.denom then
    some (Function.update funds coin.denom (funds coin.denom - coin.amount.val))
  else none

theorem le_credit (funds : Funds) (coin : Coin) : funds ≤ funds.credit coin := by
  intro token
  unfold credit
  by_cases h : token = coin.denom
  · subst h
    simp
  · simp [h]

theorem le_credits (funds : Funds) (coins : List Coin) : funds ≤ coins.foldl credit funds := by
  induction coins generalizing funds with
  | nil => exact le_rfl
  | cons coin coins ih => exact (le_credit funds coin).trans (ih _)

theorem credit_mono (h : funds ≤ more) : funds.credit coin ≤ more.credit coin := by
  intro token
  have htoken := h token
  unfold credit
  by_cases heq : token = coin.denom
  · subst heq
    simpa using htoken
  · simpa [heq] using htoken

/-- What was received can be paid. -/
theorem debit_of_credit_le (h : funds.credit coin ≤ more) :
    ∃ left, more.debit coin = some left ∧ funds ≤ left := by
  have hcoin : funds coin.denom + coin.amount.val ≤ more coin.denom := by
    simpa [credit] using h coin.denom
  refine ⟨_, if_pos (by omega), ?_⟩
  intro token
  by_cases heq : token = coin.denom
  · subst heq
    rw [Function.update_self]
    exact Nat.le_sub_of_add_le hcoin
  · simpa [credit, heq] using h token

end Funds

/-! ## The platform with the credit agency's balances -/

namespace Market

/-- What a message pays to the account. -/
def Message.paidTo (account : Addr) : Message → Option Coin
  | .send token recipient amount => if recipient = account then some ⟨token, amount⟩ else none
  | _ => none

/-- The messages that the market sends when it handles one. -/
def System.outbox (env : Env) (info : MessageInfo) (msg : ExecuteMsg) (sys : System) :
    List Message :=
  match received sys.market.config.marketToken info msg >>= sys.receive with
  | .ok holdings =>
    let before : System := { sys with toHoldings := holdings }
    match Market.execute (before.querier env) env.time info msg sys.market with
    | .ok (_, msgs) => msgs
    | .error _ => []
  | .error _ => []

/-- `SwapWithdrawFrom` pays what was bought to the credit agency, on every route. -/
theorem System.outbox_swap {env : Env} {sys sys' : System} {sender account : Addr} {buy : Coin}
    {sellLimit : Uint128} {entered : List Addr}
    (h : execute env ⟨sender, []⟩ (.swapWithdrawFrom account buy sellLimit) sys =
      .ok (sys', entered)) :
    (outbox env ⟨sender, []⟩ (.swapWithdrawFrom account buy sellLimit) sys).filterMap
      (Message.paidTo sender) = [buy] := by
  simp only [execute, bind_eq_ok, mapError_eq_ok] at h
  obtain ⟨funds, hfunds, holdings, hreceived, ⟨market, msgs⟩, hexecute, -⟩ := h
  have hcredited : received sys.market.config.marketToken ⟨sender, []⟩
      (.swapWithdrawFrom account buy sellLimit) >>= sys.receive = .ok holdings :=
    bind_eq_ok.mpr ⟨funds, hfunds, hreceived⟩
  unfold outbox
  rw [hcredited]
  dsimp only
  rw [hexecute]
  dsimp only
  obtain ⟨-, -, ⟨-, rfl⟩ | ⟨-, estimate, tokens, multiHop, -, -, -, rfl⟩⟩ :=
    swapWithdrawFrom_spec hexecute
  · simp [Message.paidTo]
  · simp [Message.paidTo, List.filterMap_cons]

end Market

namespace Platform

/-- A platform and what its credit agency holds. -/
structure Funded where
  platform : Platform
  funds : Funds

namespace Funded

inductive Error where
  | platform (e : Platform.Error)
  | insufficientFunds (token : Token)

/-- The coins that come with a message to the credit agency. -/
def attached (info : Market.MessageInfo) (msg : CreditAgency.ExecuteMsg) : List Coin :=
  info.funds.map (fun c => ⟨.native c.1, c.2⟩) ++
    match msg with
    | .receive _ amount _ _ => [⟨.cw20 info.sender, amount⟩]
    | _ => []

/-- What the credit agency is paid on the delivery of its message. The other calls of a
market pay it nothing. -/
def proceeds (env : Env) (p : Platform) : CreditAgency.Message → List Coin
  | .swapWithdrawFrom market account buy =>
    match p.markets.mayLoad market with
    | some sys => (sys.outbox (p.marketEnv env) ⟨p.address, []⟩
        (.swapWithdrawFrom account buy env.sellLimit)).filterMap (Market.Message.paidTo p.address)
    | none => []
  | _ => []

/-- What the credit agency pays with its message. -/
def pay (funds : Funds) : CreditAgency.Message → Except Error Funds
  | .repayTo _ coin _ => okOr (funds.debit coin) (.insufficientFunds coin.denom)
  | _ => .ok funds

def deliver (env : Env) (s : Funded) (m : CreditAgency.Message) : Except Error Funded := do
  let funds ← pay s.funds m
  let platform ← (s.platform.deliver env m).mapError .platform
  return ⟨platform, (proceeds env s.platform m).foldl Funds.credit funds⟩

def step (tx : Tx) (s : Funded) : Except Error Funded :=
  match tx.action with
  | .agency info msg => do
    let (agency, msgs) ← (CreditAgency.execute (s.platform.querier tx.env) info msg
      s.platform.agency).mapError fun e => .platform (.agency e)
    msgs.foldlM (deliver tx.env)
      ⟨{ s.platform with agency }, (attached info msg).foldl Funds.credit s.funds⟩
  | .market .. | .ctoken .. | .donate .. => do
    let platform ← (s.platform.step tx).mapError .platform
    return ⟨platform, s.funds⟩

variable {env : Env} {tx : Tx} {txs : List Tx} {p p' : Platform} {s s' : Funded} {funds : Funds}
  {msgs : List CreditAgency.Message}

/-! ## Without the balances -/

theorem deliver_platform {m : CreditAgency.Message} (h : deliver env s m = .ok s') :
    s.platform.deliver env m = .ok s'.platform := by
  simp only [deliver, bind_eq_ok, mapError_eq_ok, pure_eq_ok] at h
  obtain ⟨_, -, _, hp, rfl⟩ := h
  exact hp

theorem deliverAll_platform (h : msgs.foldlM (deliver env) s = .ok s') :
    s.platform.deliverAll env msgs = .ok s'.platform := by
  induction msgs generalizing s with
  | nil =>
    cases h
    rfl
  | cons m msgs ih =>
    obtain ⟨mid, hm, h⟩ := bind_eq_ok.mp h
    exact bind_eq_ok.mpr ⟨_, deliver_platform hm, ih h⟩

theorem step_platform (h : step tx s = .ok s') : s.platform.step tx = .ok s'.platform := by
  obtain ⟨env, action⟩ := tx
  cases action with
  | agency info msg =>
    simp only [step, bind_eq_ok, mapError_eq_ok] at h
    obtain ⟨result, he, hd⟩ := h
    simp only [Platform.step, bind_eq_ok, mapError_eq_ok]
    exact ⟨result, he, deliverAll_platform hd⟩
  | market | ctoken | donate =>
    simp only [step, bind_eq_ok, mapError_eq_ok, pure_eq_ok] at h
    obtain ⟨_, hp, rfl⟩ := h
    exact hp

/-! ## With the balances -/

theorem deliver_funded {m : CreditAgency.Message} (h : p.deliver env m = .ok p')
    (hm : pay funds m = .ok funds) :
    ∃ funds', deliver env ⟨p, funds⟩ m = .ok ⟨p', funds'⟩ ∧ funds ≤ funds' := by
  refine ⟨_, ?_, Funds.le_credits funds (proceeds env p m)⟩
  simp only [deliver, hm, bind_eq_ok, mapError_eq_ok, pure_eq_ok]
  exact ⟨funds, rfl, p', h, rfl⟩

theorem deliverAll_funded (h : p.deliverAll env msgs = .ok p')
    (hm : ∀ m ∈ msgs, ∀ funds, pay funds m = .ok funds) :
    ∃ funds', msgs.foldlM (deliver env) ⟨p, funds⟩ = .ok ⟨p', funds'⟩ ∧ funds ≤ funds' := by
  induction msgs generalizing p funds with
  | nil =>
    cases h
    exact ⟨funds, rfl, le_rfl⟩
  | cons m msgs ih =>
    obtain ⟨mid, hmid, h⟩ := bind_eq_ok.mp h
    obtain ⟨more, hdelivered, hle⟩ := deliver_funded hmid (hm m List.mem_cons_self funds)
    obtain ⟨last, hrest, hle'⟩ := ih h fun m' hm' => hm m' (List.mem_cons_of_mem _ hm')
    exact ⟨last, bind_eq_ok.mpr ⟨_, hdelivered, hrest⟩, hle.trans hle'⟩

/-- A repayment succeeds with the coin in hand. -/
theorem repayTo_funded {market account : Addr} {coin : Coin} {more : Funds}
    (h : p.deliver env (.repayTo market coin account) = .ok p') (hle : funds.credit coin ≤ more) :
    ∃ funds', deliver env ⟨p, more⟩ (.repayTo market coin account) = .ok ⟨p', funds'⟩ ∧
      funds ≤ funds' := by
  obtain ⟨left, hleft, hkept⟩ := Funds.debit_of_credit_le hle
  refine ⟨left, ?_, hkept⟩
  simp only [deliver, pay, hleft, okOr, bind_eq_ok, mapError_eq_ok, pure_eq_ok]
  exact ⟨left, rfl, p', h, rfl⟩

/-- The market that sells collateral pays the credit agency what it is to repay. -/
theorem swap_funded {market account : Addr} {buy : Coin}
    (h : p.deliver env (.swapWithdrawFrom market account buy) = .ok p') :
    deliver env ⟨p, funds⟩ (.swapWithdrawFrom market account buy) =
      .ok ⟨p', funds.credit buy⟩ := by
  obtain ⟨sys, sys', entered, found, hs, -⟩ := executeMarket_spec h
  have hproceeds : proceeds env p (.swapWithdrawFrom market account buy) = [buy] := by
    simp only [proceeds, found]
    exact Market.System.outbox_swap hs
  simp only [deliver, pay, bind_eq_ok, mapError_eq_ok, pure_eq_ok]
  refine ⟨_, rfl, p', h, ?_⟩
  rw [hproceeds]
  rfl

/-- A liquidation repays with the coins that came with it. -/
theorem liquidation_funded {q : CreditAgency.Querier} {agency : State} {sender account : Addr}
    {coins : Coin} {token : Token} {more : Funds}
    (hl : Liquidation q agency sender account coins token msgs)
    (h : p.deliverAll env msgs = .ok p') (hle : funds.credit coins ≤ more) :
    ∃ funds', msgs.foldlM (deliver env) ⟨p, more⟩ = .ok ⟨p', funds'⟩ ∧ funds ≤ funds' := by
  cases hl
  obtain ⟨mid, hrepaid, hrest⟩ := bind_eq_ok.mp h
  obtain ⟨left, hdelivered, hkept⟩ := repayTo_funded hrepaid hle
  obtain ⟨last, hlast, hgrown⟩ := deliverAll_funded hrest (by simp [pay])
  exact ⟨last, bind_eq_ok.mpr ⟨_, hdelivered, hlast⟩, hkept.trans hgrown⟩

/-- Whatever the credit agency holds, its balances cover every transaction and do not fall. -/
theorem step_funded (h : p.step tx = .ok p') :
    ∃ funds', step tx ⟨p, funds⟩ = .ok ⟨p', funds'⟩ ∧ funds ≤ funds' := by
  obtain ⟨env, action⟩ := tx
  cases action with
  | agency info msg =>
    simp only [Platform.step, bind_eq_ok, mapError_eq_ok] at h
    obtain ⟨⟨agency, msgs⟩, he, hd⟩ := h
    have hattached := Funds.le_credits funds (attached info msg)
    suffices hdelivered : ∃ funds', msgs.foldlM (deliver env) ⟨{ p with agency },
        (attached info msg).foldl Funds.credit funds⟩ = .ok ⟨p', funds'⟩ ∧ funds ≤ funds' by
      obtain ⟨last, hlast, hle⟩ := hdelivered
      refine ⟨last, ?_, hle⟩
      simp only [step, bind_eq_ok, mapError_eq_ok]
      exact ⟨_, he, hlast⟩
    have hfree : (∀ m ∈ msgs, ∀ funds, pay funds m = .ok funds) → ∃ funds',
        msgs.foldlM (deliver env) ⟨{ p with agency },
          (attached info msg).foldl Funds.credit funds⟩ = .ok ⟨p', funds'⟩ ∧ funds ≤ funds' := by
      intro hm
      obtain ⟨last, hlast, hle⟩ := deliverAll_funded hd hm
      exact ⟨last, hlast, hattached.trans hle⟩
    cases execute_response he with
    | created | entered | exited | idAdjusted | migrated => exact hfree (by simp [pay])
    | commonTokenAdjusted =>
      refine hfree fun m hm => ?_
      obtain ⟨market, -, rfl⟩ := List.mem_map.mp hm
      exact fun _ => rfl
    | liquidated hfunds liquidation =>
      refine liquidation_funded liquidation hd ?_
      simp [attached, hfunds]
    | received liquidation =>
      refine liquidation_funded liquidation hd ?_
      simp only [attached, List.foldl_append, List.foldl_cons, List.foldl_nil]
      exact Funds.credit_mono (Funds.le_credits _ _)
    | repaid =>
      obtain ⟨mid, hswap, hrest⟩ := bind_eq_ok.mp hd
      obtain ⟨last, hrepaid, hnil⟩ := bind_eq_ok.mp hrest
      cases hnil
      obtain ⟨left, hleft, hkept⟩ := repayTo_funded hrepaid (Funds.credit_mono hattached)
      exact ⟨left, bind_eq_ok.mpr ⟨_, swap_funded hswap, bind_eq_ok.mpr ⟨_, hleft, rfl⟩⟩, hkept⟩
  | market | ctoken | donate =>
    refine ⟨funds, ?_, le_rfl⟩
    simp only [step, bind_eq_ok, mapError_eq_ok, pure_eq_ok]
    exact ⟨p', h, rfl⟩

/-! ## Runs -/

/-- The machine with the balances of the credit agency has the runs of the one without, and
in none of them does a balance fall. -/
theorem funded_runs_iff {guard : Platform → Tx → Prop} :
    (Run Platform.step guard p txs p' ↔
      ∃ funds', Run step (fun s tx => guard s.platform tx) ⟨p, funds⟩ txs ⟨p', funds'⟩) ∧
    ∀ funds', Run step (fun s tx => guard s.platform tx) ⟨p, funds⟩ txs ⟨p', funds'⟩ →
      funds ≤ funds' := by
  have hdown : ∀ s t : Funded, Run step (fun s tx => guard s.platform tx) s txs t →
      Run Platform.step guard s.platform txs t.platform := by
    intro s t h
    have hsimulated : ∃ p, Run Platform.step guard s.platform txs p ∧ p = t.platform := by
      refine h.simulate (R := fun s p => p = s.platform) rfl ?_
      rintro a _ i a' rfl hg hs
      exact ⟨hg, _, step_platform hs, rfl⟩
    obtain ⟨_, hrun, rfl⟩ := hsimulated
    exact hrun
  have hup : Run Platform.step guard p txs p' → ∃ funds',
      Run step (fun s tx => guard s.platform tx) ⟨p, funds⟩ txs ⟨p', funds'⟩ ∧
        funds ≤ funds' := by
    intro h
    have hsimulated : ∃ s, Run step (fun s tx => guard s.platform tx) ⟨p, funds⟩ txs s ∧
        s.platform = p' ∧ funds ≤ s.funds := by
      refine h.simulate (R := fun p (s : Funded) => s.platform = p ∧ funds ≤ s.funds)
        ⟨rfl, le_rfl⟩ ?_
      rintro _ ⟨a, held⟩ i a' ⟨rfl, hle⟩ hg hs
      obtain ⟨more, hmore, hgrown⟩ : ∃ more, step i ⟨a, held⟩ = .ok ⟨a', more⟩ ∧ held ≤ more :=
        step_funded hs
      exact ⟨hg, _, hmore, rfl, hle.trans hgrown⟩
    obtain ⟨⟨_, last⟩, hrun, rfl, hle⟩ := hsimulated
    exact ⟨last, hrun, hle⟩
  refine ⟨⟨fun h => ?_, fun ⟨_, h⟩ => hdown _ _ h⟩, fun funds' h => ?_⟩
  · obtain ⟨last, hrun, -⟩ := hup h
    exact ⟨last, hrun⟩
  · obtain ⟨last, hrun, hle⟩ := hup (hdown _ _ h)
    cases h.unique hrun
    exact hle

end Funded

end Platform

end WyndLend
