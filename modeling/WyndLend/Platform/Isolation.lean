import WyndLend.Market.Isolation
import WyndLend.Platform.Safety

/-!
# Isolation of accounts

Across the whole platform an account only loses ctokens by its own withdrawals,
transfers and repayments with collateral, and is only relieved of debt by its own
repayments; or it is liquidated. The calls that the credit agency may make on the
ctokens and debts of others are made on behalf of the sender, or of the account that
a liquidation names.
-/

namespace WyndLend

open CosmWasm Utils

/-! ## What the credit agency calls for -/

namespace CreditAgency

/-- The account on whose ctokens or debt a market is called. -/
def Message.account : Message → Option Addr
  | .repayTo _ _ account | .transferFrom _ account _ _ _ | .swapWithdrawFrom _ account _ =>
    some account
  | .instantiateMarket .. | .adjustCommonToken .. | .migrate .. => none

/-- The account whose positions a message to the agency may reduce: the one that a
liquidation names, or the sender. -/
def ExecuteMsg.account (info : Market.MessageInfo) : ExecuteMsg → Option Addr
  | .liquidate account _ | .receive _ _ account _ => some account
  | .repayWithCollateral .. => some info.sender
  | _ => none

variable {q : Querier} {info : Market.MessageInfo} {msg : ExecuteMsg} {s s' : State}
  {msgs : List Message}

/-- The messages in a response are on nobody's account but that of the message. -/
theorem execute_account (h : execute q info msg s = .ok (s', msgs)) :
    ∀ m ∈ msgs, m.account = none ∨ m.account = msg.account info := by
  intro m hm
  cases execute_response h with
  | created | migrated =>
    cases List.mem_singleton.mp hm
    exact .inl rfl
  | liquidated _ liquidation | received liquidation =>
    cases liquidation
    rcases List.mem_pair.mp hm with rfl | rfl <;> exact .inr rfl
  | repaid => rcases List.mem_pair.mp hm with rfl | rfl <;> exact .inr rfl
  | entered | exited | idAdjusted => exact absurd hm List.not_mem_nil
  | commonTokenAdjusted =>
    obtain ⟨market, -, rfl⟩ := List.mem_map.mp hm
    exact .inl rfl

end CreditAgency

namespace Platform

open CreditAgency

/-! ## What an account does to itself -/

/-- The action takes ctokens from the account: its own withdrawal, transfer or repayment
with collateral, or its liquidation. -/
inductive Action.Spends : Action → Addr → Prop where
  | withdraw {market info amount} : Spends (.market market info (.withdraw amount)) info.sender
  | transfer {market sender recipient amount} :
    Spends (.ctoken market sender (.transfer recipient amount)) sender
  | send {market sender contract amount} :
    Spends (.ctoken market sender (.send contract amount)) sender
  | repayWithCollateral {info maxCollateral amountToRepay} :
    Spends (.agency info (.repayWithCollateral maxCollateral amountToRepay)) info.sender
  | liquidate {info account collateralDenom} :
    Spends (.agency info (.liquidate account collateralDenom)) account
  | receive {info sender amount account collateralDenom} :
    Spends (.agency info (.receive sender amount account collateralDenom)) account

/-- The action pays the account's debt: its own repayment, with collateral or without, or
its liquidation. -/
inductive Action.Repays : Action → Addr → Prop where
  | repay {market info msg} (plain : Market.ExecuteMsg.plain msg = .repay) :
    Repays (.market market info msg) (Market.origin info msg)
  | repayWithCollateral {info maxCollateral amountToRepay} :
    Repays (.agency info (.repayWithCollateral maxCollateral amountToRepay)) info.sender
  | liquidate {info account collateralDenom} :
    Repays (.agency info (.liquidate account collateralDenom)) account
  | receive {info sender amount account collateralDenom} :
    Repays (.agency info (.receive sender amount account collateralDenom)) account

variable {env : Env} {tx : Tx} {txs : List Tx} {p p' p'' : Platform}
  {market account address : Addr} {sys sys' : Market.System} {info : Market.MessageInfo}
  {msg : Market.ExecuteMsg} {entered : List Addr} {msgs : List CreditAgency.Message}
  {config : CreditAgency.Config} {f : Market.System → ℕ × ℕ}

/-! ## Positions that do not shrink -/

/-- Every market stays, and `f` of it does not decrease. -/
def Keeps (f : Market.System → ℕ × ℕ) (p p' : Platform) : Prop :=
  ∀ market sys, p.markets.mayLoad market = some sys →
    ∃ sys', p'.markets.mayLoad market = some sys' ∧ f sys ≤ f sys'

theorem Keeps.trans (h : Keeps f p p') (h' : Keeps f p' p'') : Keeps f p p'' := by
  intro market sys hf
  obtain ⟨sys', hf', hle⟩ := h market sys hf
  obtain ⟨sys'', hf'', hle'⟩ := h' market sys' hf'
  exact ⟨sys'', hf'', hle.trans hle'⟩

theorem keeps_of_markets (h : p'.markets = p.markets) : Keeps f p p' := fun market sys hf =>
  ⟨sys, by rw [h]; exact hf, le_rfl⟩

theorem keeps_update (found : p.markets.mayLoad market = some sys) (hle : f sys ≤ f sys') :
    Keeps f p (p.update market sys' entered) := by
  intro m s hs
  by_cases hm : m = market
  · subst hm
    cases found.symm.trans hs
    exact ⟨sys', Map.mayLoad_save_self _ _ _, hle⟩
  · exact ⟨s, (Map.mayLoad_save_ne _ _ hm).trans hs, le_rfl⟩

/-- What the account holds of a market's ctokens, and what it owes there. -/
def held (account : Addr) (sys : Market.System) : ℕ × ℕ := sys.ctoken.holding account

def owes (account : Addr) (sys : Market.System) : ℕ × ℕ := sys.market.debt.liability account

theorem executeMarket_keeps (account : Addr)
    (h : executeMarket env market info msg p = .ok p') :
    (msg.holder info ≠ some account → Keeps (held account) p p') ∧
      (msg.debtor info ≠ some account → Keeps (owes account) p p') := by
  obtain ⟨sys, sys', entered, hf, he, rfl⟩ := executeMarket_spec h
  obtain ⟨hheld, howed⟩ := Market.System.execute_holding account he
  exact ⟨fun hne => keeps_update hf (hheld hne), fun hne => keeps_update hf (howed hne)⟩

/-- A call reduces no positions but those it is about. -/
theorem deliver_keeps {m : CreditAgency.Message} (h : deliver env p m = .ok p')
    (hne : m.account ≠ some account) :
    Keeps (held account) p p' ∧ Keeps (owes account) p p' := by
  have hnobody : (none : Option Addr) ≠ some account := (Option.some_ne_none _).symm
  cases m with
  | instantiateMarket replyId codeId msg =>
    obtain ⟨hfresh, sys, token, -, -, rfl⟩ := instantiateMarket_spec h
    have hsave : ∀ f : Market.System → ℕ × ℕ, Keeps f p { p with
        agency := { p.agency with
          markets := p.agency.markets.save token (.ready env.newMarket) }
        markets := p.markets.save env.newMarket sys } := by
      intro f market s hs
      refine ⟨s, (Map.mayLoad_save_ne _ _ ?_).trans hs, le_rfl⟩
      rintro rfl
      rw [hfresh] at hs
      cases hs
    exact ⟨hsave _, hsave _⟩
  | repayTo market coin debtor =>
    rw [deliver, repayTo] at h
    split at h
    · obtain ⟨hheld, howed⟩ := executeMarket_keeps account h
      exact ⟨hheld hnobody, howed hne⟩
    · obtain ⟨hheld, howed⟩ := executeMarket_keeps account h
      exact ⟨hheld hnobody, howed hne⟩
  | transferFrom =>
    obtain ⟨hheld, howed⟩ := executeMarket_keeps account h
    exact ⟨hheld hne, howed hnobody⟩
  | swapWithdrawFrom =>
    obtain ⟨hheld, howed⟩ := executeMarket_keeps account h
    exact ⟨hheld hne, howed hnobody⟩
  | adjustCommonToken =>
    obtain ⟨hheld, howed⟩ := executeMarket_keeps account h
    exact ⟨hheld hnobody, howed hnobody⟩
  | migrate market _ isotonicTokenId =>
    simp only [deliver, Platform.migrate, bind_eq_ok, find_eq_ok, pure_eq_ok] at h
    obtain ⟨sys, hf, rfl⟩ := h
    refine ⟨keeps_update hf le_rfl, keeps_update hf (le_of_eq ?_)⟩
    unfold owes
    rw [(Market.migrate_frame sys.market isotonicTokenId).1]

theorem deliverAll_keeps (h : deliverAll env msgs p = .ok p')
    (hne : ∀ m ∈ msgs, m.account ≠ some account) :
    Keeps (held account) p p' ∧ Keeps (owes account) p p' := by
  refine deliverAll_preserve (I := fun q => Keeps (held account) p q ∧ Keeps (owes account) p q) h
    ⟨keeps_of_markets rfl, keeps_of_markets rfl⟩ ?_
  rintro m hm q q' ⟨hheld, howed⟩ hq
  obtain ⟨hheld', howed'⟩ := deliver_keeps hq (hne m hm)
  exact ⟨hheld.trans hheld', howed.trans howed'⟩

/-! ## Whose address is whose -/

/-- Messages in the name of the credit agency or of a market come from nobody else. -/
def Genuine (p : Platform) (tx : Tx) : Prop :=
  match tx.action with
  | .market _ info msg => Market.origin info msg ≠ p.address
  | .ctoken market sender _ => sender ≠ market
  | _ => True

instance (p : Platform) (tx : Tx) : Decidable (Genuine p tx) :=
  match tx with
  | ⟨_, .market _ info msg⟩ => inferInstanceAs (Decidable (Market.origin info msg ≠ p.address))
  | ⟨_, .ctoken market sender _⟩ => inferInstanceAs (Decidable (sender ≠ market))
  | ⟨_, .agency ..⟩ | ⟨_, .donate ..⟩ => .isTrue trivial

/-- Every market controls its ctokens. -/
def Controlled (p : Platform) : Prop :=
  ∀ market sys, p.markets.mayLoad market = some sys → sys.ctoken.controller = market

theorem lasting_controlled : Lasting fun market sys => sys.ctoken.controller = market where
  created h := by
    simp only [Market.System.instantiate, bind_eq_ok, pure_eq_ok] at h
    obtain ⟨_, -, rfl⟩ := h
    rfl
  stepped h hi := (Market.System.step_controller h).trans hi
  migrated _ hi := hi

theorem run_controlled {guard : Platform → Tx → Prop}
    (h : Run step guard (start address config) txs p) : Controlled p :=
  fun _ _ found => lasting_controlled.run h found

/-! ## Steps and runs -/

theorem Action.Repays.plain_of_market (h : (Action.market market info msg).Repays account) :
    msg.plain = .repay := by
  cases h with
  | repay plain => exact plain

theorem spends_and_repays {m : CreditAgency.ExecuteMsg} (h : m.account info = some account) :
    (Action.agency info m).Spends account ∧ (Action.agency info m).Repays account := by
  cases m with
  | liquidate =>
    cases h
    exact ⟨.liquidate, .liquidate⟩
  | receive =>
    cases h
    exact ⟨.receive, .receive⟩
  | repayWithCollateral =>
    cases h
    exact ⟨.repayWithCollateral, .repayWithCollateral⟩
  | createMarket | enterMarket | exitMarket | adjustMarketId | adjustTokenId | adjustCommonToken
  | migrateMarket => cases h

/-- The agency's own step and all calls that it makes. -/
theorem executeAgency_keeps {q : Querier} {m : CreditAgency.ExecuteMsg} {agency : State}
    (he : CreditAgency.execute q info m p.agency = .ok (agency, msgs))
    (hd : deliverAll env msgs { p with agency } = .ok p') (hne : m.account info ≠ some account) :
    Keeps (held account) p p' ∧ Keeps (owes account) p p' := by
  have hothers : ∀ m' ∈ msgs, m'.account ≠ some account := by
    intro m' hm' heq
    rcases execute_account he m' hm' with hnone | hsame
    · rw [hnone] at heq
      cases heq
    · exact hne (hsame.symm.trans heq)
  obtain ⟨hheld, howed⟩ := deliverAll_keeps hd hothers
  have hsame : ∀ f, Keeps f p { p with agency } := fun f => keeps_of_markets rfl
  exact ⟨(hsame _).trans hheld, (hsame _).trans howed⟩

theorem step_keeps (account : Addr) (hl : Linked p) (hc : Controlled p) (hg : Genuine p tx)
    (h : step tx p = .ok p') :
    (¬ tx.action.Spends account → Keeps (held account) p p') ∧
      (¬ tx.action.Repays account → Keeps (owes account) p p') := by
  obtain ⟨env, action⟩ := tx
  cases action with
  | agency info msg =>
    simp only [step, bind_eq_ok, mapError_eq_ok] at h
    obtain ⟨⟨agency, msgs⟩, he, hd⟩ := h
    refine ⟨?_, ?_⟩
    · intro hno
      exact (executeAgency_keeps he hd fun heq => hno (spends_and_repays heq).1).1
    · intro hno
      exact (executeAgency_keeps he hd fun heq => hno (spends_and_repays heq).2).2
  | market address info msg =>
    obtain ⟨sys, sys', entered, hf, he, -⟩ := executeMarket_spec h
    obtain ⟨hheld, howed⟩ := executeMarket_keeps account h
    have hsender : Market.origin info msg ≠ sys.market.config.creditAgency := by
      rw [hl.creditAgency address sys hf]
      exact hg
    obtain ⟨hholder, hdebtor⟩ := Market.System.execute_own account he hsender
    refine ⟨fun hno => hheld fun heq => hno ?_, fun hno => howed fun heq => hno ?_⟩
    · obtain ⟨⟨amount, rfl⟩, rfl⟩ := hholder heq
      exact .withdraw
    · obtain ⟨hplain, rfl⟩ := hdebtor heq
      exact .repay hplain
  | ctoken market sender msg =>
    simp only [step, bind_eq_ok, find_eq_ok, mapError_eq_ok, pure_eq_ok,
      Market.System.executeCtoken] at h
    obtain ⟨sys, hf, _, ⟨_, he, rfl⟩, rfl⟩ := h
    refine ⟨?_, fun _ => keeps_update hf le_rfl⟩
    intro hno
    have hcontroller : sender ≠ sys.ctoken.controller := by
      rw [hc market sys hf]
      exact hg
    refine keeps_update hf (Ctoken.execute_holding he hcontroller ?_)
    rintro hmoves rfl
    cases msg with
    | transfer => exact hno .transfer
    | send => exact hno .send
    | _ => exact hmoves.elim
  | donate market amount =>
    simp only [step, Market.System.step, bind_eq_ok, find_eq_ok, mapError_eq_ok, pure_eq_ok,
      Market.Holdings.receive_eq_ok] at h
    obtain ⟨sys, hf, _, ⟨holdings, ⟨hct, -⟩, rfl⟩, rfl⟩ := h
    refine ⟨fun _ => keeps_update hf ?_, fun _ => keeps_update hf le_rfl⟩
    unfold held
    rw [hct]

/-- No market disappears. -/
theorem step_found (h : step tx p = .ok p') (hf : ∃ sys, p.markets.mayLoad market = some sys) :
    ∃ sys', p'.markets.mayLoad market = some sys' := by
  cases step_effect h with
  | market | held | created => exact exists_save hf
  | entered | exited => exact hf
  | called _ calls =>
    refine calls_preserve (I := fun q => ∃ sys, q.markets.mayLoad market = some sys) calls hf ?_
    intro q q' hq hcall
    cases hcall <;> exact exists_save hq

/-- In every state that a run reaches, a step lowers nobody's base balance of ctokens but
that of an account that spends them or is liquidated, and nobody's base debt but that of
an account that repays or is liquidated. -/
theorem accounts_isolated (h : Run step Genuine (start address config) txs p)
    (hg : Genuine p tx) (hs : step tx p = .ok p') (hf : p.markets.mayLoad market = some sys) :
    ∃ sys', p'.markets.mayLoad market = some sys' ∧ ∀ account,
      (¬ tx.action.Spends account → sys.ctoken.inBase account ≤ sys'.ctoken.inBase account) ∧
      (¬ tx.action.Repays account →
        sys.market.debt.owedBy account ≤ sys'.market.debt.owedBy account) := by
  obtain ⟨sys', hf'⟩ := step_found hs ⟨sys, hf⟩
  refine ⟨sys', hf', ?_⟩
  intro account
  obtain ⟨hheld, howed⟩ := step_keeps account (run_linked h) (run_controlled h) hg hs
  refine ⟨?_, ?_⟩
  · intro hno
    obtain ⟨s, hs', hle⟩ := hheld hno market sys hf
    cases hf'.symm.trans hs'
    exact Ctoken.inBase_mono hle
  · intro hno
    obtain ⟨s, hs', hle⟩ := howed hno market sys hf
    cases hf'.symm.trans hs'
    exact Market.Debt.owedBy_mono hle

/-- A year later, when Bob owes interest on 20 dollars, Carol deposits one. -/
def sampleDeposit : Tx :=
  ⟨sampleYear 1, .market "usd market" ⟨"carol", [("usd", 1)]⟩ .deposit⟩

/-- The deposit charges the interest: what the lender holds and what Bob owes do not fall. -/
theorem accounts_isolated_example : ∃ p p' sys sys', Run step Genuine (start "agency" sampleConfig)
      (sampleCollateral Decimal.one sampleHalf ⟨100_000_000_000_000_000⟩ 40 ++
        [sampleBorrow (sampleYear 0) 20]) p ∧
    step sampleDeposit p = .ok p' ∧
    (p.markets.mayLoad "usd market" = some sys ∧ sys.market.debt.owedBy "bob" = 20) ∧
    p'.markets.mayLoad "usd market" = some sys' ∧
    sys.ctoken.inBase "lender" ≤ sys'.ctoken.inBase "lender" ∧
    sys.market.debt.owedBy "bob" ≤ sys'.market.debt.owedBy "bob" := by
  obtain ⟨p, hrun, ⟨sys, hf, howed⟩, hgenuine, hsteps⟩ : ∃ p,
      Run step Genuine (start "agency" sampleConfig)
        (sampleCollateral Decimal.one sampleHalf ⟨100_000_000_000_000_000⟩ 40 ++
          [sampleBorrow (sampleYear 0) 20]) p ∧
      (∃ sys ∈ p.markets.mayLoad "usd market", sys.market.debt.owedBy "bob" = 20) ∧
      Genuine p sampleDeposit ∧ (step sampleDeposit p).toOption.any (fun _ => decide True) = true :=
    exists_run_of_runAll (by decide +kernel)
  obtain ⟨p', hs, -⟩ := exists_ok_of_any hsteps
  obtain ⟨sys', hf', hkeep⟩ := accounts_isolated hrun hgenuine hs hf
  refine ⟨p, p', sys, sys', hrun, hs, ⟨hf, howed⟩, hf', (hkeep "lender").1 ?_, (hkeep "bob").2 ?_⟩
  · intro hspends
    cases hspends
  · intro hrepays
    cases hrepays.plain_of_market

end Platform

end WyndLend
