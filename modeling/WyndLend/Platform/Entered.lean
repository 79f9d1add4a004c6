import WyndLend.Platform.Governance
import WyndLend.Platform.Liquidation

/-!
# Why an account is in a market

The markets that an account has entered are a matter of its own history: it deposited there,
borrowed there or liquidated somebody for the collateral there, and has not left since. The
one other way in is an `EnterMarket` that somebody sends to the credit agency themselves.
-/

namespace WyndLend

open CosmWasm Utils CreditAgency

namespace Market

/-- The account that the message makes enter the market. -/
def ExecuteMsg.entrant (info : MessageInfo) (msg : ExecuteMsg) : Option Addr :=
  match msg.plain with
  | .deposit => some (origin info msg)
  | .borrow _ => some info.sender
  | .transferFrom _ destination _ _ => some destination
  | _ => none

theorem System.outcome_entered {env : Env} {info : MessageInfo} {msg : ExecuteMsg}
    {sys sys' : System} {entered : List Addr} (h : Outcome env info sys msg sys' entered) :
    entered = (msg.entrant info).toList := by
  unfold ExecuteMsg.entrant
  cases h with
  | deposit hm | repay hm | repayTo hm =>
    rw [hm]
    rfl
  | withdraw hm | borrow hm | transferFrom hm | rates hm | send hm | swap hm =>
    subst hm
    rfl
  | adjust hadj => cases hadj <;> rfl

theorem System.execute_entered {env : Env} {info : MessageInfo} {msg : ExecuteMsg}
    {sys sys' : System} {entered : List Addr} (h : execute env info msg sys = .ok (sys', entered)) :
    entered = (msg.entrant info).toList := by
  obtain ⟨_, _, -, -, hout⟩ := execute_outcome h
  exact outcome_entered hout

end Market

namespace Platform

variable {env : Env} {tx : Tx} {txs : List Tx} {p p' : Platform}
  {account market called address : Addr} {info : Market.MessageInfo} {msg : Market.ExecuteMsg}
  {msgs : List CreditAgency.Message} {config : Config} {guard : Platform → Tx → Prop}

/-! ## Messages -/

theorem executeMarket_entered (h : executeMarket env called info msg p = .ok p') :
    market ∈ p'.agency.entered account ↔
      (called = market ∧ msg.entrant info = some account) ∨
        market ∈ p.agency.entered account := by
  obtain ⟨sys, sys', entered, -, hs, rfl⟩ := executeMarket_spec h
  rw [mem_entered_update, Market.System.execute_entered hs, Option.mem_toList]
  grind

/-- The market that a message of the credit agency makes an account enter. -/
def entrant : CreditAgency.Message → Option (Addr × Addr)
  | .transferFrom market _ destination _ _ => some (market, destination)
  | _ => none

theorem deliver_entered {m : CreditAgency.Message} (h : deliver env p m = .ok p') :
    market ∈ p'.agency.entered account ↔
      entrant m = some (market, account) ∨ market ∈ p.agency.entered account := by
  cases m with
  | instantiateMarket id _ m =>
    obtain ⟨-, sys, token, -, -, rfl⟩ := instantiateMarket_spec h
    simp [entrant, State.entered]
  | repayTo debtMarket coin debtor =>
    rw [deliver, repayTo] at h
    split at h
    · rw [executeMarket_entered h]
      simp [entrant, Market.ExecuteMsg.entrant, Market.ExecuteMsg.plain]
    · rw [executeMarket_entered h]
      simp [entrant, Market.ExecuteMsg.entrant, Market.ExecuteMsg.plain]
  | transferFrom | swapWithdrawFrom | adjustCommonToken =>
    rw [executeMarket_entered h]
    simp [entrant, Market.ExecuteMsg.entrant, Market.ExecuteMsg.plain]
  | migrate market _ isotonicTokenId =>
    simp only [deliver, Platform.migrate, bind_eq_ok, find_eq_ok, pure_eq_ok] at h
    obtain ⟨sys, -, rfl⟩ := h
    rw [mem_entered_update]
    simp [entrant]

theorem deliverAll_entered (h : deliverAll env msgs p = .ok p') :
    market ∈ p'.agency.entered account ↔
      (∃ m ∈ msgs, entrant m = some (market, account)) ∨ market ∈ p.agency.entered account := by
  induction msgs generalizing p with
  | nil =>
    cases h
    simp
  | cons m msgs ih =>
    obtain ⟨q, hq, h⟩ := bind_eq_ok.mp h
    rw [ih h, deliver_entered hq]
    grind

theorem liquidation_entered {q : CreditAgency.Querier} {s : State} {sender debtor : Addr}
    {coins : Coin} {token : Token} (h : Liquidation q s sender debtor coins token msgs) :
    (∃ m ∈ msgs, entrant m = some (market, account)) ↔
      sender = account ∧ Query.market s token = .ok market := by
  cases h with
  | mk _ _ _ _ collateral _ => simp [entrant, collateral, and_comm]

/-! ## Transactions -/

/-- The transaction makes the account enter the market: by a message to the market, as the
liquidator who gets its collateral, or by a message to the credit agency in the market's name. -/
def Enters (p : Platform) (account market : Addr) : Action → Prop
  | .market address info msg => address = market ∧ msg.entrant info = some account
  | .agency info (.liquidate _ token) =>
    info.sender = account ∧ Query.market p.agency token = .ok market
  | .agency _ (.receive sender _ _ token) =>
    sender = account ∧ Query.market p.agency token = .ok market
  | .agency info (.enterMarket entering) => info.sender = market ∧ entering = account
  | _ => False

/-- The account leaves the market. -/
def Exits (account market : Addr) : Action → Prop
  | .agency info (.exitMarket left) => info.sender = account ∧ left = market
  | _ => False

/-- A transaction makes an account enter or leave as it says, and nothing else does. -/
theorem step_entered (h : step tx p = .ok p') :
    market ∈ p'.agency.entered account ↔ Enters p account market tx.action ∨
      market ∈ p.agency.entered account ∧ ¬ Exits account market tx.action := by
  obtain ⟨env, action⟩ := tx
  cases action with
  | agency info msg =>
    simp only [step, bind_eq_ok, mapError_eq_ok] at h
    obtain ⟨⟨agency, msgs⟩, he, hd⟩ := h
    rw [deliverAll_entered hd]
    cases msg with
    | createMarket cfg =>
      obtain ⟨-, rfl, rfl⟩ := createMarket_eq he
      simp [entrant, Enters, Exits, State.entered, State.reserve]
    | liquidate debtor token =>
      rw [CreditAgency.execute] at he
      split at he
      · obtain ⟨rfl, hl⟩ := liquidate_spec he
        rw [liquidation_entered hl]
        simp [Enters, Exits]
      · cases he
    | receive sender amount debtor token =>
      obtain ⟨rfl, hl⟩ := liquidate_spec he
      rw [liquidation_entered hl]
      simp [Enters, Exits]
    | enterMarket entering =>
      cases he
      dsimp only
      rw [mem_entered_enterMarket]
      simp only [Enters, Exits]
      grind
    | exitMarket left =>
      obtain ⟨-, -, -, rfl, rfl⟩ := exitMarket_spec he
      dsimp only
      rw [entered_save]
      split_ifs with hself
      · subst hself
        simp [Enters, Exits, BTreeSet.mem_remove, and_comm, eq_comm]
      · simp [Enters, Exits, Ne.symm hself]
    | repayWithCollateral =>
      obtain ⟨rfl, _, _, rfl⟩ := repayWithCollateral_spec he
      simp [entrant, Enters, Exits]
    | adjustMarketId | adjustTokenId =>
      obtain ⟨-, rfl, rfl⟩ := adjustIds_eq he
      simp [Enters, Exits, State.entered]
    | adjustCommonToken =>
      obtain ⟨-, rfl, rfl⟩ := adjustCommonToken_eq he
      simp [entrant, Enters, Exits, State.entered]
    | migrateMarket =>
      obtain ⟨-, rfl, rfl⟩ := migrateMarket_eq he
      simp [entrant, Enters, Exits]
  | market address info msg =>
    have hs : executeMarket env address info msg p = .ok p' := h
    rw [executeMarket_entered hs]
    simp [Enters, Exits]
  | ctoken address sender msg | donate address amount =>
    simp only [step, bind_eq_ok, pure_eq_ok] at h
    obtain ⟨_, -, _, -, rfl⟩ := h
    rw [mem_entered_update]
    simp [Enters, Exits]

/-! ## Runs -/

/-- An account is in a market if and only if some transaction made it enter and it has not
left since. -/
theorem entered_iff_history {address : Addr}
    (h : Run step guard (start address config) txs p) :
    market ∈ p.agency.entered account ↔ ∃ before tx after reached, txs = before ++ tx :: after ∧
      Run step guard (start address config) before reached ∧
      Enters reached account market tx.action ∧
      ∀ later ∈ after, ¬ Exits account market later.action := by
  have hnone : market ∉ (start address config).agency.entered account := List.not_mem_nil
  refine h.last_iff (P := fun p => market ∈ p.agency.entered account) hnone ?_
  intro _ _ _ hs
  exact step_entered hs

/-- Carol is in the atom market because she liquidated Bob. -/
theorem entered_iff_history_example : ∃ p, Run step (fun _ _ => True)
      (start "agency" sampleConfig)
      (sampleCollateral Decimal.one ⟨600_000_000_000_000_000⟩ Decimal.zero 1_000 ++
        [sampleBorrow (sampleEnv "" "" Decimal.one) 500,
          sampleLiquidation (sampleEnv "" "" ⟨750_000_000_000_000_000⟩),
          ⟨sampleEnv "" "" Decimal.one, .agency ⟨"lender", []⟩ (.exitMarket "usd market")⟩]) p ∧
    "atom market" ∈ p.agency.entered "carol" := by
  obtain ⟨reached, hrun, hmarket, hrest⟩ : ∃ reached, Run step (fun _ _ => True)
      (start "agency" sampleConfig)
      (sampleCollateral Decimal.one ⟨600_000_000_000_000_000⟩ Decimal.zero 1_000 ++
        [sampleBorrow (sampleEnv "" "" Decimal.one) 500]) reached ∧
      (Query.market reached.agency (.native "atom")).toOption = some "atom market" ∧
      (runAll step (fun _ _ => True) [sampleLiquidation (sampleEnv "" "" ⟨750_000_000_000_000_000⟩),
        ⟨sampleEnv "" "" Decimal.one, .agency ⟨"lender", []⟩ (.exitMarket "usd market")⟩]
        reached).isSome = true := exists_run_of_runAll (by decide +kernel)
  obtain ⟨p, hp⟩ := Option.isSome_iff_exists.mp hrest
  have hall := hrun.trans (run_of_runAll hp)
  rw [List.append_assoc] at hall
  refine ⟨p, hall, (entered_iff_history hall).mpr ?_⟩
  refine ⟨_, _, _, reached, (List.append_assoc _ [_] _).symm, hrun, ?_, ?_⟩
  · exact ⟨rfl, toOption_eq_some.mp hmarket⟩
  · intro later hlater
    rw [List.mem_singleton.mp hlater]
    simp [Exits]

end Platform

end WyndLend
