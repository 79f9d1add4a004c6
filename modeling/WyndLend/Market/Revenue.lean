import WyndLend.Market.Clock
import WyndLend.Market.Isolation
import WyndLend.Market.Positions

/-!
# What the governance contract earns

A message that settles mints ctokens for the governance contract: the reserve that `Reserve`
has announced for its block. Over a whole run this is all that the contract earns, and it is
there as long as the contract does not spend it.
-/

namespace WyndLend

open CosmWasm Utils Rebasing

/-! ## Ctokens that change hands -/

namespace Ctoken

variable {s s' : State} {caller sender recipient owner : Addr} {amount : Uint128}

/-- Ctokens leave `source` only and come to `target` only, and keep their worth. -/
structure Flow (s : State) (source target : Option Addr) (s' : State) : Prop where
  multiplier : s'.multiplier = s.multiplier
  kept : ∀ account, source ≠ some account → (s.balance account).val ≤ (s'.balance account).val
  same : ∀ account, source ≠ some account → target ≠ some account →
    (s'.balance account).val = (s.balance account).val

theorem Flow.idle {source target : Option Addr} (h : s'.balances = s.balances)
    (hm : s'.multiplier = s.multiplier) : Flow s source target s' := by
  have hbalance : ∀ account, s'.balance account = s.balance account := by
    intro account
    rw [State.balance, State.balance, h]
  refine ⟨hm, ?_, ?_⟩
  · intro account _
    rw [hbalance]
  · intro account _ _
    rw [hbalance]

theorem mintBase_flow (h : mintBase caller s recipient amount = .ok s') :
    Flow s none (some recipient) s' := by
  obtain ⟨tokens, -, hmint⟩ := mintBase_spec h
  obtain ⟨-, -, s₁, t, hshift, -, rfl⟩ := mint_shift hmint
  refine ⟨hshift.multiplier, ?_, ?_⟩
  all_goals intro account
  all_goals have hbalance : ((s₁.balance account).val : ℤ) = _ := hshift.balance account
  all_goals simp only [State.balance] at hbalance ⊢
  all_goals grind

theorem burnFrom_flow (h : burnFrom caller s owner amount = .ok s') :
    Flow s (some owner) none s' := by
  obtain ⟨-, -, s₁, t, hshift, -, rfl⟩ := burnFrom_shift h
  have hother : ∀ account, some owner ≠ some account →
      (s₁.balance account).val = (s.balance account).val := by
    intro account hne
    have hbalance := hshift.balance account
    rw [if_neg fun heq => hne (congrArg some heq.symm)] at hbalance
    omega
  exact ⟨hshift.multiplier, fun account hne => (hother account hne).ge,
    fun account hne _ => hother account hne⟩

theorem transferTokens_flow (h : transferTokens s sender recipient amount = .ok s') :
    Flow s (some sender) (some recipient) s' := by
  obtain ⟨-, s₁, htaken, hgiven⟩ := transferTokens_shifts h
  refine ⟨hgiven.multiplier.trans htaken.multiplier, ?_, ?_⟩
  all_goals intro account
  all_goals have hfirst := htaken.balance account
  all_goals have hsecond := hgiven.balance account
  all_goals grind

end Ctoken

namespace Market

/-- The messages that begin with a settlement. -/
def ExecuteMsg.settles (msg : ExecuteMsg) : Bool :=
  match msg.plain with
  | .deposit | .withdraw _ | .borrow _ | .repay | .repayTo _ | .transferFrom .. => true
  | .adjustInterestRates _ => true
  | _ => false

/-- The account to which a message gives ctokens, beside the governance contract. -/
def ExecuteMsg.recipient (info : MessageInfo) (msg : ExecuteMsg) : Option Addr :=
  match msg.plain with
  | .deposit => some (origin info msg)
  | .transferFrom _ destination _ _ => some destination
  | _ => none

namespace System

variable {env : Env} {info : MessageInfo} {msg : ExecuteMsg} {sys sys' mid : System}
  {entered : List Addr} {account : Addr} {tx : Tx} {txs more : List Tx}

/-! ## Settlements and operations -/

/-- The reserve that `Reserve` reports in a block, in ctokens of the given worth. -/
def announced (env : Env) (sys : System) (multiplier : Decimal) : ℕ :=
  match Query.reserve (sys.querier env) sys.market env.time with
  | .ok reserve => toPoints fractional reserve.val multiplier.atomics.val
  | .error _ => 0

/-- The ctokens that a settlement mints for the governance contract are those announced. -/
theorem settle_announced (h : settle env sys = .ok mid) :
    (mid.ctoken.balance sys.market.config.governanceContract).val =
      (sys.ctoken.balance sys.market.config.governanceContract).val +
        announced env sys mid.ctoken.multiplier := by
  obtain ⟨n, u, hn, hu, -, hcase⟩ := settle_spec h
  have hreserve : Query.reserve (sys.querier env) sys.market env.time =
      .ok ((u.map InterestUpdate.reserve).getD 0) := by
    simp only [Query.reserve, bind_eq_ok, pure_eq_ok]
    exact ⟨n, hn, u, hu, rfl⟩
  rw [announced, hreserve]
  cases u with
  | none => simp [hcase.2, toPoints]
  | some u =>
    obtain ⟨-, ratio, ct, -, hrebase, hmint⟩ := hcase
    obtain ⟨-, m, -, rfl⟩ := Ctoken.rebase_spec hrebase
    split_ifs at hmint with h0
    · simp [hmint, h0, toPoints, Ctoken.State.balance]
    · obtain ⟨tokens, htokens, hmint⟩ := Ctoken.mintBase_spec hmint
      obtain ⟨-, -, s₁, t, hshift, -, hmid⟩ := Ctoken.mint_shift hmint
      have hbalance := hshift.balance sys.market.config.governanceContract
      rw [if_pos rfl, (baseToToken_eq_ok.mp htokens).2] at hbalance
      have hmultiplier := hshift.multiplier
      simp only [hmid, Ctoken.State.balance, Option.map_some, Option.getD_some, toPoints,
        hmultiplier] at hbalance ⊢
      exact_mod_cast hbalance

/-- The account to which an operation gives ctokens. -/
def Op.recipient : Op → Option Addr
  | .deposit account _ => some account
  | .transferFrom _ destination _ => some destination
  | .withdraw .. | .borrow .. | .repay .. | .repayTo .. => none

theorem apply_flow {op : Op} (h : op.apply mid = .ok sys') :
    Ctoken.Flow mid.ctoken op.holder op.recipient sys'.ctoken := by
  cases applied_of_apply h with
  | deposit minted => exact Ctoken.mintBase_flow minted
  | withdraw burned _ =>
    obtain ⟨_, -, hburn⟩ := Ctoken.burnBaseFrom_spec burned
    exact Ctoken.burnFrom_flow hburn
  | borrow | repay | repayTo => exact .idle rfl rfl
  | transferFrom moved =>
    obtain ⟨-, _, -, htransfer⟩ := Ctoken.transferBaseFrom_spec moved
    exact Ctoken.transferTokens_flow htransfer

/-! ## Messages -/

/-- The account earns `fee` ctokens, unless it spends some, and nothing else, unless someone
gives it more. -/
structure Earns (source target : Option Addr) (account : Addr) (fee : ℕ) (sys sys' : System) :
    Prop where
  least : source ≠ some account →
    (sys.ctoken.balance account).val + fee ≤ (sys'.ctoken.balance account).val
  exact : source ≠ some account → target ≠ some account →
    (sys'.ctoken.balance account).val = (sys.ctoken.balance account).val + fee

theorem earns_flow {source target : Option Addr}
    (h : Ctoken.Flow sys.ctoken source target sys'.ctoken) :
    Earns source target account 0 sys sys' :=
  ⟨h.kept account, h.same account⟩

theorem earns_settled {source target : Option Addr} (hs : settle env sys = .ok mid)
    (h : Ctoken.Flow mid.ctoken source target sys'.ctoken) :
    Earns source target sys.market.config.governanceContract
      (announced env sys sys'.ctoken.multiplier) sys sys' := by
  have hgain := settle_announced hs
  rw [h.multiplier]
  refine ⟨?_, ?_⟩
  · intro hsource
    rw [← hgain]
    exact h.kept _ hsource
  · intro hsource htarget
    rw [← hgain]
    exact h.same _ hsource htarget

/-- The ctokens that a message mints for the governance contract, at the worth that it leaves. -/
def fee (env : Env) (msg : ExecuteMsg) (sys sys' : System) : ℕ :=
  if msg.settles then announced env sys sys'.ctoken.multiplier else 0

theorem outcome_earns (h : Outcome env info sys msg sys' entered) :
    Earns (msg.holder info) (msg.recipient info) sys.market.config.governanceContract
      (fee env msg sys sys') sys sys' := by
  unfold ExecuteMsg.holder ExecuteMsg.recipient fee ExecuteMsg.settles
  cases h with
  | deposit hm _ _ _ hs ha | repay hm _ _ hs ha | repayTo hm _ _ _ _ _ hs ha =>
    rw [hm]
    exact earns_settled hs (apply_flow ha)
  | withdraw hm _ _ hs ha | borrow hm _ hs ha | transferFrom hm _ hs _ _ _ ha =>
    subst hm
    exact earns_settled hs (apply_flow ha)
  | adjust hadj => cases hadj <;> exact earns_flow (.idle rfl rfl)
  | rates hm _ _ hs =>
    subst hm
    exact earns_settled hs (.idle rfl rfl)
  | send hm _ _ hpaid =>
    subst hm
    obtain ⟨hct, -⟩ := Holdings.pay_eq_ok.mp hpaid
    exact earns_flow (.idle (by rw [hct]) (by rw [hct]))
  | swap hm _ _ _ _ _ hburned hpaid =>
    subst hm
    obtain ⟨hct, -⟩ := Holdings.pay_eq_ok.mp hpaid
    obtain ⟨ct, hburn, rfl⟩ := Holdings.callCtoken_burnFrom.mp hburned
    refine earns_flow ?_
    dsimp only
    rw [hct]
    exact Ctoken.burnFrom_flow hburn

theorem execute_earns (h : execute env info msg sys = .ok (sys', entered)) :
    Earns (msg.holder info) (msg.recipient info) sys.market.config.governanceContract
      (fee env msg sys sys') sys sys' ∧
      sys'.market.config.governanceContract = sys.market.config.governanceContract := by
  obtain ⟨_, ⟨ctoken, cash⟩, -, hcredit, hout⟩ := execute_outcome h
  obtain ⟨rfl, -⟩ := Holdings.receive_eq_ok.mp hcredit
  obtain ⟨hleast, hexact⟩ := outcome_earns hout
  have hgovernance := outcome_config hout (f := Config.governanceContract) (fun _ _ => rfl)
    (fun _ _ => rfl) (fun _ hadj => by cases hadj <;> rfl)
  exact ⟨⟨hleast, hexact⟩, hgovernance⟩

/-! ## Transactions -/

/-- The account whose ctokens a transaction takes, and the one to which it gives some. -/
def Action.source : Action → Option Addr
  | .execute info msg => msg.holder info
  | .ctoken sender (.transfer ..) | .ctoken sender (.send ..) => some sender
  | .ctoken .. | .donate _ => none

def Action.target : Action → Option Addr
  | .execute info msg => msg.recipient info
  | .ctoken _ (.transfer recipient _) | .ctoken _ (.send recipient _) => some recipient
  | .ctoken .. | .donate _ => none

/-- What the transaction mints for the governance contract. -/
def Tx.fee (tx : Tx) (sys sys' : System) : ℕ :=
  match tx.action with
  | .execute _ msg => System.fee tx.env msg sys sys'
  | .ctoken .. | .donate _ => 0

/-- The governance contract spends none of its ctokens, and nobody but the market passes for
the controller of the ctokens. -/
def Unspent (sys : System) (tx : Tx) : Prop :=
  tx.action.source ≠ some sys.market.config.governanceContract ∧
    match tx.action with
    | .ctoken sender _ => sender ≠ sys.ctoken.controller
    | .execute .. | .donate _ => True

theorem step_earns (hg : Unspent sys tx) (h : step tx sys = .ok sys') :
    Earns tx.action.source tx.action.target sys.market.config.governanceContract
      (tx.fee sys sys') sys sys' ∧
      sys'.market.config.governanceContract = sys.market.config.governanceContract := by
  obtain ⟨env, action⟩ := tx
  obtain ⟨-, hcontroller⟩ := hg
  cases step_transition h with
  | executed action executed =>
    dsimp only at action
    subst action
    exact execute_earns executed
  | ctoken action executed =>
    dsimp only at action
    subst action
    refine ⟨earns_flow ?_, rfl⟩
    rcases Ctoken.execute_public executed hcontroller with
      ⟨recipient, amount, rfl | rfl, hmoved⟩ | ⟨d, w, rfl⟩
    · exact Ctoken.transferTokens_flow hmoved
    · exact Ctoken.transferTokens_flow hmoved
    · exact .idle rfl rfl
  | donated action credited =>
    dsimp only at action
    subst action
    obtain ⟨hct, -⟩ := Holdings.receive_eq_ok.mp credited
    exact ⟨earns_flow (.idle (by rw [hct]) (by rw [hct])), rfl⟩

/-! ## Runs -/

/-- What the transactions in order mint for the governance contract. -/
def revenue : List Tx → System → ℕ
  | [], _ => 0
  | tx :: txs, sys =>
    match step tx sys with
    | .ok sys' => tx.fee sys sys' + revenue txs sys'
    | .error _ => 0

theorem revenue_cons (h : step tx sys = .ok sys') :
    revenue (tx :: txs) sys = tx.fee sys sys' + revenue txs sys' := by
  rw [revenue, h]

theorem revenue_append {guard : System → Tx → Prop} (h : Run step guard sys txs sys') :
    revenue (txs ++ more) sys = revenue txs sys + revenue more sys' := by
  induction h generalizing more with
  | nil => simp [revenue]
  | snoc _ _ hs ih =>
    rw [List.append_assoc, ih, ih, List.singleton_append, revenue_cons hs, revenue_cons hs]
    simp [revenue, Nat.add_assoc]

/-- A governance contract that does not spend its ctokens has what it had and what `Reserve`
announced before every settlement, and nothing else if nobody gives it ctokens. -/
theorem revenue_kept (h : Run step Unspent sys txs sys') :
    let gov := sys.market.config.governanceContract
    (sys.ctoken.balance gov).val + revenue txs sys ≤ (sys'.ctoken.balance gov).val ∧
      ((∀ tx ∈ txs, tx.action.target ≠ some gov) →
        (sys'.ctoken.balance gov).val = (sys.ctoken.balance gov).val + revenue txs sys) := by
  intro gov
  suffices hsame : sys'.market.config.governanceContract = gov ∧
      (sys.ctoken.balance gov).val + revenue txs sys ≤ (sys'.ctoken.balance gov).val ∧
      ((∀ tx ∈ txs, tx.action.target ≠ some gov) →
        (sys'.ctoken.balance gov).val = (sys.ctoken.balance gov).val + revenue txs sys) from
    hsame.2
  induction h with
  | nil => simp [revenue, gov]
  | @snoc mid last done tx hrun hg hs ih =>
    obtain ⟨hgovernance, hleast, hexact⟩ := ih
    obtain ⟨hearns, hkept⟩ := step_earns hg hs
    have hunspent := hg.1
    rw [hgovernance] at hearns hkept hunspent
    have htotal : revenue (done ++ [tx]) sys = revenue done sys + tx.fee mid last := by
      rw [revenue_append hrun, revenue_cons hs]
      simp [revenue]
    refine ⟨hkept, ?_, ?_⟩
    · have hstep := hearns.least hunspent
      omega
    · intro htargets
      have hstep := hearns.exact hunspent (htargets _ (by simp))
      have hbefore := hexact fun tx htx => htargets tx (List.mem_append_left _ htx)
      omega

instance (sys : System) : DecidablePred (Unspent sys) := fun tx =>
  match tx with
  | ⟨_, .execute _ _⟩ => inferInstanceAs (Decidable (_ ≠ _ ∧ True))
  | ⟨_, .ctoken _ _⟩ => inferInstanceAs (Decidable (_ ≠ _ ∧ _ ≠ _))
  | ⟨_, .donate _⟩ => inferInstanceAs (Decidable (_ ≠ _ ∧ True))

/-- After a year the governance contract changes the interest rates, and Bob repays a part. -/
def sampleCharges : List Tx :=
  [sampleTx 0 "lender" 2000 .deposit, sampleTx 0 "bob" 0 (.borrow 1000),
    sampleTx 31_536_000 "governance" 0
      (.adjustInterestRates (.linear ⟨100_000_000_000_000_000⟩ ⟨300_000_000_000_000_000⟩)),
    sampleTx 31_536_000 "bob" 100 .repay]

/-- The governance contract has a share of the interest that either message charges. -/
theorem revenue_kept_example : ∃ init sys, sample = .ok init ∧
    Run step Unspent init sampleCharges sys ∧
    (sys.ctoken.balance "governance").val = 8_551_750 := by
  obtain ⟨init, sys, hi, hrun, hgovernance, hbalance, hrevenue⟩ : ∃ init sys, sample = .ok init ∧
      Run step Unspent init sampleCharges sys ∧
      init.market.config.governanceContract = "governance" ∧
      (init.ctoken.balance "governance").val = 0 ∧ revenue sampleCharges init = 8_551_750 :=
    exists_run_of_start (by decide +kernel)
  refine ⟨init, sys, hi, hrun, ?_⟩
  obtain ⟨-, hexact⟩ := revenue_kept hrun
  rw [hgovernance] at hexact
  rw [hexact (by decide), hbalance, hrevenue]

end System

end Market

end WyndLend
