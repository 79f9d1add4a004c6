import WyndLend.Interleaving.Access
import WyndLend.Platform.Deleveraging
import WyndLend.Platform.Entered
import WyndLend.Platform.Reordering

/-!
# Footprints of transactions

What a transaction reads of the platform and what it writes, part by part: the registry of
the credit agency, the markets that an account has entered, and each market. A credit check
reads the markets that the account has entered and no others, so a market that is out of
order stands in the way of nobody who keeps away from it, and transactions commute as long
as none of them writes what the other one reads.
-/

namespace WyndLend

open CosmWasm Utils Interleaving

/-- The sender's transferable amount and the balance to distribute are all that the ctoken
contract asks for. -/
theorem Ctoken.execute_heard {q q' : Ctoken.Querier} {self sender : Addr}
    {msg : Ctoken.ExecuteMsg} {s : Ctoken.State} (hbalance : q.balance = q'.balance)
    (htransferable : ∀ controller, q.transferableAmount controller self sender =
      q'.transferableAmount controller self sender) :
    Ctoken.execute q self sender msg s = Ctoken.execute q' self sender msg s := by
  cases msg with
  | transfer | send =>
    simp only [Ctoken.execute, Ctoken.transfer, Ctoken.canTransfer, htransferable]
  | distribute => simp only [Ctoken.execute, Ctoken.distribute, hbalance]
  | _ => rfl

/-! ## What the credit agency does, whatever accounts have entered -/

namespace CreditAgency

variable {q q' : Querier} {s t : State} {info : Market.MessageInfo} {msg : ExecuteMsg}
  {msgs : List Message} {sender account market : Addr} {coins : Coin} {token : Token}
  {em : Map Addr (BTreeSet Addr)}

/-- Governance does not ask for credit. -/
theorem execute_governs_with (hg : msg.Governs) (h : execute q info msg s = .ok (t, msgs)) :
    execute q' info msg { s with enteredMarkets := em } =
      .ok ({ t with enteredMarkets := em }, msgs) := by
  cases msg with
  | createMarket cfg =>
    simp only [execute, createMarket, bind_eq_ok, ensure_eq_ok] at h ⊢
    obtain ⟨-, hs, -, hr, h⟩ := h
    refine ⟨(), hs, (), hr, ?_⟩
    split at h
    · cases h
    · cases h
    · simp only [bind_eq_ok, ensure_eq_ok] at h ⊢
      obtain ⟨-, hid, h⟩ := h
      cases h
      exact ⟨(), hid, rfl⟩
  | adjustMarketId id | adjustTokenId id =>
    obtain ⟨hs, rfl, rfl⟩ := adjustIds_eq h
    simp [execute, Restricted.adjustMarketId, Restricted.adjustTokenId, Restricted.adjust, hs,
      ensure]
  | adjustCommonToken token =>
    obtain ⟨hs, rfl, rfl⟩ := adjustCommonToken_eq h
    simp [execute, Restricted.adjustCommonToken, Restricted.adjust, hs, ensure]
  | migrateMarket contract isotonicTokenId =>
    simp only [execute, Restricted.migrateMarket, bind_eq_ok, ensure_eq_ok] at h ⊢
    obtain ⟨-, hs, -, hf, h⟩ := h
    cases h
    exact ⟨(), hs, (), hf, rfl⟩
  | liquidate | enterMarket | exitMarket | repayWithCollateral | receive => exact hg.elim

theorem entered_save_with {markets : BTreeSet Addr} {other : Addr} :
    State.entered { s with enteredMarkets := em.save account markets } other =
      if other = account then markets else State.entered { s with enteredMarkets := em } other := by
  unfold State.entered
  rw [Map.mayLoad_save]
  split_ifs <;> rfl

/-- All that a credit check of the account hears is the same. -/
structure Hears (q q' : Querier) (s : State) (em : Map Addr (BTreeSet Addr)) (account : Addr) :
    Prop where
  entered : State.entered { s with enteredMarkets := em } account = s.entered account
  creditLine : ∀ market ∈ s.entered account, q'.creditLine market = q.creditLine market

theorem creditLines_eq {markets : List Addr}
    (h : ∀ market ∈ markets, q'.creditLine market = q.creditLine market) :
    Query.creditLines q' token account markets = Query.creditLines q token account markets := by
  unfold Query.creditLines
  induction markets with
  | nil => rfl
  | cons market markets ih =>
    have hhead : Query.creditLine q' token account market =
        Query.creditLine q token account market := by
      unfold Query.creditLine
      rw [h market List.mem_cons_self]
    rw [List.mapM_cons, List.mapM_cons, hhead, ih fun m hm => h m (List.mem_cons_of_mem _ hm)]

theorem Hears.total (h : Hears q q' s em account) :
    Query.totalCreditLine q' { s with enteredMarkets := em } account =
      Query.totalCreditLine q s account := by
  unfold Query.totalCreditLine
  rw [h.entered, creditLines_eq h.creditLine]

theorem liquidate_of_liquidation (h : Liquidation q s sender account coins token msgs) :
    liquidate q s sender account coins token = .ok (s, msgs) := by
  cases h with
  | mk total excess debt rate collateral worth =>
    simp only [liquidate, bind_eq_ok, ensure_eq_ok, mapError_eq_ok,
      CreditLineResponse.validate_eq_ok]
    exact ⟨_, total, _, rfl, (), excess, _, debt, _, rate, _, collateral, _, worth, rfl⟩

theorem liquidate_with (hh : Hears q q' s em account)
    (hprice : ∀ market, Query.market s coins.denom = .ok market →
      q'.priceMarketLocalPerCommon market = q.priceMarketLocalPerCommon market)
    (h : liquidate q s sender account coins token = .ok (t, msgs)) :
    t = s ∧ liquidate q' { s with enteredMarkets := em } sender account coins token =
      .ok ({ s with enteredMarkets := em }, msgs) := by
  obtain ⟨rfl, hl⟩ := liquidate_spec h
  refine ⟨rfl, liquidate_of_liquidation ?_⟩
  cases hl with
  | mk total excess debt rate collateral worth =>
    exact .mk (hh.total.trans total) excess debt ((hprice _ debt).trans rate) collateral worth

theorem exitMarket_with (hh : Hears q q' s em sender)
    (h : exitMarket q s sender market = .ok (t, msgs)) :
    exitMarket q' { s with enteredMarkets := em } sender market =
      .ok ({ s with enteredMarkets := em.save sender ((s.entered sender).remove market) }, msgs) :=
    by
  obtain ⟨hm, ⟨response, hr, hd⟩, ⟨values, reduced, hv, hsum, hle⟩, -, rfl⟩ := exitMarket_spec h
  have hothers : Query.creditLines q' s.config.commonToken sender
      ((s.entered sender).remove market).toList = .ok values := by
    refine (creditLines_eq fun m hm => ?_).trans hv
    exact hh.creditLine m (BTreeSet.mem_remove.mp hm).2
  simp only [exitMarket, bind_eq_ok, ensure_eq_ok, hh.entered, hh.creditLine market hm]
  exact ⟨(), hm, response, hr, (), hd, values, hothers, reduced, hsum, (), hle, rfl⟩

theorem repayWithCollateral_with {maxCollateral amountToRepay : Coin}
    (hh : Hears q q' s em sender)
    (hprice : ∀ market ∈ s.entered sender,
      q'.priceMarketLocalPerCommon market = q.priceMarketLocalPerCommon market ∧
        q'.configuration market = q.configuration market)
    (h : repayWithCollateral q s sender maxCollateral amountToRepay = .ok (t, msgs)) :
    t = s ∧ repayWithCollateral q' { s with enteredMarkets := em } sender maxCollateral
      amountToRepay = .ok ({ s with enteredMarkets := em }, msgs) := by
  simp only [repayWithCollateral, bind_eq_ok, ensure_eq_ok] at h ⊢
  obtain ⟨collateralMarket, hc, debtMarket, hd, -, hcIn, -, hdIn, total, htotal, cfg, hcfg, sold,
    hsold, collateral, hcollateral, owed, howed, h⟩ := h
  obtain ⟨hcPrice, hcConfig⟩ := hprice _ hcIn
  have hrest := h
  obtain ⟨_, -, _, -, _, -, _, -, -, -, h⟩ := h
  cases h
  refine ⟨rfl, collateralMarket, hc, debtMarket, hd, (), hh.entered ▸ hcIn, (), hh.entered ▸ hdIn,
    total, hh.total.trans htotal, cfg, hcConfig.trans hcfg, sold, hcPrice.trans hsold, collateral,
    hcollateral, owed, (hprice _ hdIn).1.trans howed, ?_⟩
  obtain ⟨repaid, hrepaid, credit, hcredit, line, hline, left, hleft, -, hle, -⟩ := hrest
  exact ⟨repaid, hrepaid, credit, hcredit, line, hline, left, hleft, (), hle, rfl⟩

end CreditAgency

namespace Platform

open CreditAgency

variable {env : Env} {tx : Tx} {p p' q : Platform}
  {market account : Addr} {sys : Market.System} {entered : List Addr}
  {info : Market.MessageInfo} {msgs : List CreditAgency.Message}

/-! ## Parts of the platform -/

inductive Part where
  | registry
  | entered (account : Addr)
  | market (address : Addr)
  deriving DecidableEq

inductive View where
  | registry (address : Addr) (agency : State)
  | entered (markets : BTreeSet Addr)
  | market (sys : Option Market.System)

/-- The registry is the credit agency with its configuration, but for the entered markets. -/
def view : Part → Platform → View
  | .registry, p => .registry p.address { p.agency with enteredMarkets := ∅ }
  | .entered account, p => .entered (p.agency.entered account)
  | .market address, p => .market (p.markets.mayLoad address)

/-- The account whose credit is checked. -/
def Action.asks : Action → Option Addr
  | .market _ info msg => if msg.asksCredit then some info.sender else none
  | .ctoken _ sender msg => if msg.asksCredit then some sender else none
  | .donate .. => none
  | .agency info msg =>
    match msg with
    | .liquidate account _ | .receive _ _ account _ => some account
    | .exitMarket _ | .repayWithCollateral .. => some info.sender
    | _ => none

/-- The registered markets of the tokens. -/
def marketsOf (p : Platform) (tokens : List Token) : List Part :=
  tokens.filterMap fun token => (Query.market p.agency token).toOption.map .market

/-- The parts that a transaction may change. -/
def writes (tx : Tx) (p : Platform) : List Part :=
  match tx.action with
  | .market market info msg => .market market :: (msg.entrant info).toList.map .entered
  | .ctoken market _ _ | .donate market _ => [.market market]
  | .agency info msg =>
    match msg with
    | .createMarket _ => [.registry, .market tx.env.newMarket]
    | .liquidate _ token =>
      .entered info.sender :: p.marketsOf (token :: info.funds.map fun c => .native c.1)
    | .receive sender _ _ token =>
      .entered sender :: p.marketsOf [token, .cw20 info.sender]
    | .enterMarket account => [.entered account]
    | .exitMarket _ => [.entered info.sender]
    | .repayWithCollateral maxCollateral amountToRepay =>
      p.marketsOf [maxCollateral.denom, amountToRepay.denom]
    | .adjustMarketId _ | .adjustTokenId _ => [.registry]
    | .adjustCommonToken _ =>
      .registry :: (p.agency.markets.range.filterMap fun e => e.2.toAddr).map .market
    | .migrateMarket contract _ => [.market contract]

/-- What a credit check of the account reads. -/
def credit (p : Platform) (account : Addr) : List Part :=
  .entered account :: (p.agency.entered account).toList.map .market

/-- The parts that a transaction looks at. -/
def reads (tx : Tx) (p : Platform) : List Part :=
  .registry :: writes tx p ++ tx.action.asks.toList.flatMap p.credit

/-! ## States that look the same -/

variable {parts : Set Part}

theorem view_registry (h : view .registry p = view .registry q) :
    ∃ em markets, q = ⟨p.address, { p.agency with enteredMarkets := em }, markets⟩ := by
  obtain ⟨address, ⟨config, replyIds, nextReplyId, registry, em⟩, markets⟩ := q
  simp only [view, View.registry.injEq, State.mk.injEq] at h
  obtain ⟨rfl, rfl, rfl, rfl, rfl, -⟩ := h
  exact ⟨em, markets, rfl⟩

theorem view_entered (h : view (.entered account) p = view (.entered account) q) :
    p.agency.entered account = q.agency.entered account := View.entered.inj h

theorem view_market (h : view (.market market) p = view (.market market) q) :
    p.markets.mayLoad market = q.markets.mayLoad market := View.market.inj h

theorem querier_eq (h : view (.market market) p = view (.market market) q) :
    (q.querier env).creditLine market = (p.querier env).creditLine market ∧
      (q.querier env).priceMarketLocalPerCommon market =
        (p.querier env).priceMarketLocalPerCommon market ∧
      (q.querier env).configuration market = (p.querier env).configuration market := by
  dsimp only [querier]
  rw [view_market h]
  exact ⟨rfl, rfl, rfl⟩

theorem hears {em : Map Addr (BTreeSet Addr)} {markets : Map Addr Market.System}
    (h : AgreeOn view parts p ⟨p.address, { p.agency with enteredMarkets := em }, markets⟩)
    (hsub : ∀ k ∈ p.credit account, k ∈ parts) :
    Hears (p.querier env)
      (querier ⟨p.address, { p.agency with enteredMarkets := em }, markets⟩ env) p.agency em
      account where
  entered := (view_entered (h _ (hsub _ List.mem_cons_self))).symm
  creditLine _ hm :=
    (querier_eq (h _ (hsub _ (List.mem_cons_of_mem _ (List.mem_map_of_mem hm))))).1

/-! ## Markets -/

theorem entered_update {other : Addr} : (p.update market sys entered).agency.entered other =
    if other ∈ entered then (p.agency.entered other).insert market else p.agency.entered other := by
  refine BTreeSet.ext (List.Pairwise.eq_of_mem_iff (BTreeSet.sorted _) (BTreeSet.sorted _) ?_)
  intro m
  have hm : m ∈ (p.update market sys entered).agency.entered other ↔ _ := mem_entered_update
  rw [← BTreeSet.mem_def, ← BTreeSet.mem_def, hm]
  split_ifs with ho <;> simp [ho]

theorem view_update_registry : view .registry (p.update market sys entered) = view .registry p := by
  have hagency : (p.update market sys entered).agency = _ := update_agency
  have hview := congrArg
    (fun agency : State => View.registry p.address { agency with enteredMarkets := ∅ }) hagency
  exact hview

/-- The same update of states that look the same. -/
theorem agree_update (h : AgreeOn view parts p q) :
    AgreeOn view parts (p.update market sys entered) (q.update market sys entered) := by
  intro k hk
  have hsame := h k hk
  cases k with
  | registry => rw [view_update_registry, view_update_registry, hsame]
  | entered other =>
    simp only [view, entered_update, view_entered hsame]
  | market other =>
    have hother := view_market hsame
    simp only [view, update, Map.mayLoad_save, hother]

theorem update_frame (entered : List Addr) :
    AgreeOn view {k | k ∈ Part.market market :: entered.map Part.entered}ᶜ p
      (p.update market sys entered) := by
  intro k hk
  cases k with
  | registry => exact view_update_registry.symm
  | entered other =>
    have ho : other ∉ entered := by
      intro ho
      exact hk (List.mem_cons_of_mem _ (List.mem_map_of_mem ho))
    simp only [view, entered_update, if_neg ho]
  | market other =>
    have ho : other ≠ market := by
      rintro rfl
      exact hk List.mem_cons_self
    simp only [view, update, Map.mayLoad_save_ne _ _ ho]

/-- A market that is asked for credit hears about the sender alone. -/
def askedEnv (p : Platform) (env : Env) (sender : Addr) : Market.Env :=
  env.market fun creditAgency _ => (p.marketEnv env).totalCreditLine creditAgency sender

theorem execute_asked {msg : Market.ExecuteMsg} :
    sys.execute (p.marketEnv env) info msg = sys.execute (p.askedEnv env info.sender) info msg := by
  cases msg with
  | receive sender amount msg => cases msg <;> rfl
  | _ => rfl

theorem transferableAmount_asked {controller token sender : Addr} :
    (sys.ctokenQuerier (p.marketEnv env)).transferableAmount controller token sender =
      (sys.ctokenQuerier (p.askedEnv env sender)).transferableAmount controller token sender :=
  rfl

theorem executeCtoken_asked {sender : Addr} {msg : Ctoken.ExecuteMsg} :
    sys.executeCtoken (p.marketEnv env) sender msg =
      sys.executeCtoken (p.askedEnv env sender) sender msg := by
  have hbalance : (sys.ctokenQuerier (p.marketEnv env)).balance =
      (sys.ctokenQuerier (p.askedEnv env sender)).balance := rfl
  have htime : (p.askedEnv env sender).time = (p.marketEnv env).time := rfl
  unfold Market.System.executeCtoken
  rw [Ctoken.execute_heard hbalance fun _ => transferableAmount_asked, htime]

theorem askedEnv_eq (h : AgreeOn view parts p q) (hregistry : .registry ∈ parts)
    (hsub : ∀ k ∈ p.credit account, k ∈ parts) :
    q.askedEnv env account = p.askedEnv env account := by
  obtain ⟨em, markets, rfl⟩ := view_registry (h _ hregistry)
  unfold askedEnv marketEnv totalCreditLine
  dsimp only [Env.market]
  rw [(hears h hsub).total]

/-- What a market does for an account that it asks about, or for anyone if it does not ask. -/
theorem executeMarket_follow {msg : Market.ExecuteMsg} (h : AgreeOn view parts p q)
    (hregistry : .registry ∈ parts) (hmarket : .market market ∈ parts)
    (hasks : msg.asksCredit = true → ∀ k ∈ p.credit info.sender, k ∈ parts)
    (hs : executeMarket env market info msg p = .ok p') :
    ∃ q', executeMarket env market info msg q = .ok q' ∧ AgreeOn view parts p' q' := by
  obtain ⟨sys, sys', entered, found, he, rfl⟩ := executeMarket_spec hs
  have hsame : sys.execute (q.marketEnv env) info msg = sys.execute (p.marketEnv env) info msg := by
    cases hask : msg.asksCredit with
    | false => rw [execute_leaf hask, execute_leaf hask]
    | true => rw [execute_asked, execute_asked, askedEnv_eq h hregistry (hasks hask)]
  refine ⟨q.update market sys' entered, ?_, agree_update h⟩
  simp only [executeMarket, bind_eq_ok, find_eq_ok, mapError_eq_ok, pure_eq_ok]
  exact ⟨sys, (view_market (h _ hmarket)).symm.trans found, _, hsame.trans he, rfl⟩

theorem executeMarket_frame {msg : Market.ExecuteMsg}
    (hs : executeMarket env market info msg p = .ok p') :
    AgreeOn view {k | k ∈ Part.market market :: (msg.entrant info).toList.map Part.entered}ᶜ p
      p' := by
  obtain ⟨sys, sys', entered, -, he, rfl⟩ := executeMarket_spec hs
  rw [← Market.System.execute_entered he]
  exact update_frame _

/-! ## Messages of the credit agency -/

/-- The parts that the delivery of a message may change. -/
def touched (env : Env) : CreditAgency.Message → List Part
  | .instantiateMarket .. => [.registry, .market env.newMarket]
  | .transferFrom market _ destination _ _ => [.market market, .entered destination]
  | .repayTo market _ _ | .swapWithdrawFrom market _ _ | .adjustCommonToken market _
  | .migrate market _ _ => [.market market]

theorem deliver_follow {m : CreditAgency.Message} (h : AgreeOn view parts p q)
    (hregistry : .registry ∈ parts) (hsub : ∀ k ∈ touched env m, k ∈ parts)
    (hs : deliver env p m = .ok p') :
    ∃ q', deliver env q m = .ok q' ∧ AgreeOn view parts p' q' := by
  obtain ⟨em, markets, hq⟩ := view_registry (h _ hregistry)
  cases m with
  | instantiateMarket replyId codeId msg =>
    obtain ⟨fresh, sys, token, hi, hid, rfl⟩ := instantiateMarket_spec hs
    have hfresh : q.markets.mayLoad env.newMarket = none :=
      (view_market (h _ (hsub _ (by simp [touched])))).symm.trans fresh
    refine ⟨{ q with
      agency := { q.agency with markets := q.agency.markets.save token (.ready env.newMarket) }
      markets := q.markets.save env.newMarket sys }, ?_, ?_⟩
    · subst hq
      simp only [deliver, instantiateMarket, CreditAgency.reply, bind_eq_ok, ensure_eq_ok,
        mapError_eq_ok, okOr_eq_ok, pure_eq_ok]
      exact ⟨(), by rw [hfresh]; rfl, sys, hi, _, ⟨token, hid, rfl⟩, rfl⟩
    · intro k hk
      have hsame := h k hk
      cases k with
      | registry =>
        subst hq
        rfl
      | entered other => exact hsame
      | market other =>
        have hother := view_market hsame
        simp only [view, Map.mayLoad_save, hother]
  | repayTo market coin debtor =>
    have haddress : q.address = p.address := by rw [hq]
    rw [deliver, repayTo] at hs ⊢
    rw [haddress]
    split at hs
    · exact executeMarket_follow h hregistry (hsub _ List.mem_cons_self) (by simp
        [Market.ExecuteMsg.asksCredit]) hs
    · exact executeMarket_follow h hregistry (hsub _ List.mem_cons_self) (by simp
        [Market.ExecuteMsg.asksCredit]) hs
  | transferFrom | swapWithdrawFrom | adjustCommonToken =>
    have haddress : q.address = p.address := by rw [hq]
    rw [deliver] at hs ⊢
    rw [haddress]
    exact executeMarket_follow h hregistry (hsub _ List.mem_cons_self) (by simp
      [Market.ExecuteMsg.asksCredit]) hs
  | migrate market _ isotonicTokenId =>
    simp only [deliver, Platform.migrate, bind_eq_ok, find_eq_ok, pure_eq_ok] at hs ⊢
    obtain ⟨sys, found, rfl⟩ := hs
    have hmarket := view_market (h _ (hsub _ List.mem_cons_self))
    exact ⟨_, ⟨sys, hmarket.symm.trans found, rfl⟩, agree_update h⟩

theorem deliver_frame {m : CreditAgency.Message} (hs : deliver env p m = .ok p') :
    AgreeOn view {k | k ∈ touched env m}ᶜ p p' := by
  cases m with
  | instantiateMarket replyId codeId msg =>
    obtain ⟨-, sys, token, -, -, rfl⟩ := instantiateMarket_spec hs
    intro k hk
    cases k with
    | registry => exact absurd (by simp [touched]) hk
    | entered other => rfl
    | market other =>
      have ho : other ≠ env.newMarket := by
        rintro rfl
        exact hk (by simp [touched])
      simp only [view, Map.mayLoad_save_ne _ _ ho]
  | repayTo market coin debtor =>
    rw [deliver, repayTo] at hs
    split at hs
    · exact executeMarket_frame hs
    · exact executeMarket_frame hs
  | transferFrom | swapWithdrawFrom | adjustCommonToken => exact executeMarket_frame hs
  | migrate market _ isotonicTokenId =>
    simp only [deliver, Platform.migrate, bind_eq_ok, find_eq_ok, pure_eq_ok] at hs
    obtain ⟨sys, -, rfl⟩ := hs
    exact update_frame []

theorem deliverAll_follow (h : AgreeOn view parts p q) (hregistry : .registry ∈ parts)
    (hsub : ∀ m ∈ msgs, ∀ k ∈ touched env m, k ∈ parts)
    (hs : deliverAll env msgs p = .ok p') :
    ∃ q', deliverAll env msgs q = .ok q' ∧ AgreeOn view parts p' q' := by
  induction msgs generalizing p q with
  | nil =>
    cases hs
    exact ⟨q, rfl, h⟩
  | cons m msgs ih =>
    obtain ⟨u, hu, hs⟩ := bind_eq_ok.mp hs
    obtain ⟨v, hv, hsame⟩ := deliver_follow h hregistry (hsub m List.mem_cons_self) hu
    obtain ⟨q', hq', hsame'⟩ := ih hsame (fun m' hm' => hsub m' (List.mem_cons_of_mem _ hm')) hs
    exact ⟨q', bind_eq_ok.mpr ⟨v, hv, hq'⟩, hsame'⟩

theorem deliverAll_frame (hsub : ∀ m ∈ msgs, ∀ k ∈ touched env m, k ∈ parts)
    (hs : deliverAll env msgs p = .ok p') : AgreeOn view partsᶜ p p' := by
  refine deliverAll_preserve (I := fun q => AgreeOn view partsᶜ p q) hs (.refl p) ?_
  intro m hm u v hu hv
  exact hu.trans ((deliver_frame hv).mono fun k hk hmem => hk (hsub m hm k hmem))

/-! ## Transactions -/

theorem mem_marketsOf {tokens : List Token} : .market market ∈ p.marketsOf tokens ↔
    ∃ token ∈ tokens, Query.market p.agency token = .ok market := by
  simp [marketsOf, toOption_eq_some]

/-- The credit agency writes what it says itself, and so do the messages that it sends. -/
theorem execute_writes {msg : ExecuteMsg} {agency : State}
    (he : execute (p.querier env) info msg p.agency = .ok (agency, msgs)) :
    AgreeOn view {k | k ∈ writes ⟨env, .agency info msg⟩ p}ᶜ p { p with agency } ∧
      ∀ m ∈ msgs, ∀ k ∈ touched env m, k ∈ writes ⟨env, .agency info msg⟩ p := by
  cases msg with
  | createMarket cfg =>
    obtain ⟨-, rfl, rfl⟩ := createMarket_eq he
    refine ⟨?_, by simp [touched, writes]⟩
    intro k hk
    cases k with
    | registry => exact absurd (by simp [writes]) hk
    | entered | market => rfl
  | liquidate account token =>
    rw [execute] at he
    split at he
    · next denom amount hfunds =>
      obtain ⟨rfl, hl⟩ := liquidate_spec he
      refine ⟨.refl p, ?_⟩
      cases hl with
      | mk _ _ debt _ collateral _ =>
        simp [touched, writes, mem_marketsOf, hfunds, debt, collateral]
    · cases he
  | receive sender amount account token =>
    obtain ⟨rfl, hl⟩ := liquidate_spec he
    refine ⟨.refl p, ?_⟩
    cases hl with
    | mk _ _ debt _ collateral _ =>
      simp only at debt
      simp [touched, writes, mem_marketsOf, debt, collateral]
  | enterMarket account =>
    cases he
    refine ⟨?_, by simp⟩
    intro k hk
    cases k with
    | registry | market => rfl
    | entered other =>
      have ho : other ≠ account := by
        rintro rfl
        exact hk (by simp [writes])
      simp [view, entered_enterMarket, ho]
  | exitMarket market =>
    obtain ⟨-, -, -, rfl, rfl⟩ := exitMarket_spec he
    refine ⟨?_, by simp⟩
    intro k hk
    cases k with
    | registry | market => rfl
    | entered other =>
      have ho : other ≠ info.sender := by
        rintro rfl
        exact hk (by simp [writes])
      simp [view, entered_save, ho]
  | repayWithCollateral maxCollateral amountToRepay =>
    obtain ⟨rfl, hchecked⟩ := repayWithCollateral_checked he
    refine ⟨.refl p, ?_⟩
    cases hchecked with
    | mk collateral debt => simp [touched, writes, mem_marketsOf, collateral, debt]
  | adjustMarketId | adjustTokenId =>
    obtain ⟨-, rfl, rfl⟩ := adjustIds_eq he
    refine ⟨?_, by simp⟩
    intro k hk
    cases k with
    | registry => exact absurd (by simp [writes]) hk
    | entered | market => rfl
  | adjustCommonToken token =>
    obtain ⟨-, rfl, rfl⟩ := adjustCommonToken_eq he
    refine ⟨fun k hk => ?_, fun m hm k hk => ?_⟩
    · cases k with
      | registry => exact absurd (by simp [writes]) hk
      | entered | market => rfl
    · obtain ⟨market, hmarket, rfl⟩ := List.mem_map.mp hm
      rw [List.mem_singleton.mp hk]
      exact List.mem_cons_of_mem _ (List.mem_map_of_mem hmarket)
  | migrateMarket contract isotonicTokenId =>
    obtain ⟨-, rfl, rfl⟩ := migrateMarket_eq he
    exact ⟨.refl p, by simp [touched, writes]⟩

/-- The credit agency does the same in states that agree in what the transaction reads. -/
theorem execute_follow {msg : ExecuteMsg} {agency : State} (h : AgreeOn view parts p q)
    (hsub : ∀ k ∈ reads ⟨env, .agency info msg⟩ p, k ∈ parts)
    (he : execute (p.querier env) info msg p.agency = .ok (agency, msgs)) :
    ∃ agency', execute (q.querier env) info msg q.agency = .ok (agency', msgs) ∧
      AgreeOn view parts { p with agency } { q with agency := agency' } := by
  obtain ⟨em, markets, rfl⟩ := view_registry (h _ (hsub _ List.mem_cons_self))
  have hwrites : ∀ k ∈ writes ⟨env, .agency info msg⟩ p, k ∈ parts :=
    fun k hk => hsub k (List.mem_cons_of_mem _ (List.mem_append_left _ hk))
  have hcredit : ∀ account, Action.asks (.agency info msg) = some account →
      ∀ k ∈ p.credit account, k ∈ parts := by
    intro account ha k hk
    refine hsub k (List.mem_cons_of_mem _ (List.mem_append_right _ ?_))
    simpa [ha] using hk
  by_cases hg : msg.Governs
  · refine ⟨{ agency with enteredMarkets := em }, execute_governs_with hg he, ?_⟩
    have hem : agency.enteredMarkets = p.agency.enteredMarkets := by
      cases msg with
      | createMarket => exact (createMarket_eq he).2.1 ▸ rfl
      | adjustMarketId | adjustTokenId => exact (adjustIds_eq he).2.1 ▸ rfl
      | adjustCommonToken => exact (adjustCommonToken_eq he).2.1 ▸ rfl
      | migrateMarket => exact (migrateMarket_eq he).2.1 ▸ rfl
      | _ => exact hg.elim
    intro k hk
    have hsame := h k hk
    cases k with
    | registry => rfl
    | entered other =>
      simp only [view, State.entered, hem] at hsame ⊢
      exact hsame
    | market other => exact hsame
  · cases msg with
    | liquidate account token =>
      rw [execute] at he ⊢
      split at he
      · next denom amount hfunds =>
        obtain ⟨rfl, hl⟩ := liquidate_with (hears h (hcredit account rfl)) (fun market hm =>
          (querier_eq (h _ (hwrites _ (List.mem_cons_of_mem _ (mem_marketsOf.mpr
            ⟨.native denom, by simp [hfunds], hm⟩))))).2.1) he
        exact ⟨_, hl, h⟩
      · cases he
    | receive sender amount account token =>
      obtain ⟨rfl, hl⟩ := liquidate_with (hears h (hcredit account rfl)) (fun market hm =>
        (querier_eq (h _ (hwrites _ (List.mem_cons_of_mem _ (mem_marketsOf.mpr
          ⟨.cw20 info.sender, by simp, hm⟩))))).2.1) he
      exact ⟨_, hl, h⟩
    | enterMarket account =>
      cases he
      refine ⟨_, rfl, fun k hk => ?_⟩
      have hsame := h k hk
      cases k with
      | registry => rfl
      | entered other =>
        simp only [view, entered_enterMarket, View.entered.injEq]
        split_ifs with ho
        · rw [← ho, view_entered hsame]
        · exact view_entered hsame
      | market other => exact hsame
    | exitMarket market =>
      refine ⟨_, exitMarket_with (hears h (hcredit info.sender rfl)) he, fun k hk => ?_⟩
      obtain ⟨-, -, -, rfl, -⟩ := exitMarket_spec he
      have hsame := h k hk
      cases k with
      | registry => rfl
      | entered other =>
        simp only [view, entered_save_with, View.entered.injEq]
        split_ifs
        · rfl
        · exact view_entered hsame
      | market other => exact hsame
    | repayWithCollateral maxCollateral amountToRepay =>
      obtain ⟨rfl, hr⟩ := repayWithCollateral_with (hears h (hcredit info.sender rfl))
        (fun market hm => (querier_eq (h _ (hcredit info.sender rfl _
          (List.mem_cons_of_mem _ (List.mem_map_of_mem hm))))).2) he
      exact ⟨_, hr, h⟩
    | createMarket | adjustMarketId | adjustTokenId | adjustCommonToken | migrateMarket =>
      exact absurd trivial hg

theorem writes_eq (h : view .registry p = view .registry q) : writes tx q = writes tx p := by
  obtain ⟨em, markets, rfl⟩ := view_registry h
  rfl

theorem reads_eq (h : AgreeOn view {k | k ∈ reads tx p} p q) : reads tx q = reads tx p := by
  have hcredit : ∀ account ∈ tx.action.asks.toList, q.credit account = p.credit account := by
    intro account ha
    have hentered : Part.entered account ∈ reads tx p :=
      List.mem_cons_of_mem _ (List.mem_append_right _
        (List.mem_flatMap.mpr ⟨account, ha, List.mem_cons_self⟩))
    unfold credit
    rw [view_entered (h _ hentered)]
  unfold reads
  rw [writes_eq (h _ List.mem_cons_self), List.flatMap_congr hcredit]

/-- Transactions read and write what their footprints say. -/
theorem accesses : Accesses view (fun tx p p' => step tx p = .ok p')
    (fun tx p => {k | k ∈ reads tx p}) (fun tx p => {k | k ∈ writes tx p}) where
  subset hk := List.mem_cons_of_mem _ (List.mem_append_left _ hk)
  frame := by
    rintro ⟨env, action⟩ p p' hs
    cases action with
    | agency info msg =>
      simp only [step, bind_eq_ok, mapError_eq_ok] at hs
      obtain ⟨⟨agency, msgs⟩, he, hd⟩ := hs
      obtain ⟨hself, hmsgs⟩ := execute_writes he
      exact hself.trans (deliverAll_frame hmsgs hd)
    | market market info msg => exact executeMarket_frame hs
    | ctoken market sender msg | donate market amount =>
      simp only [step, bind_eq_ok, pure_eq_ok] at hs
      obtain ⟨_, -, _, -, rfl⟩ := hs
      exact update_frame []
  congr := by
    rintro ⟨env, action⟩ p p' q hs h
    have hregistry : Part.registry ∈ {k | k ∈ reads ⟨env, action⟩ p} := List.mem_cons_self
    cases action with
    | agency info msg =>
      simp only [step, bind_eq_ok, mapError_eq_ok] at hs ⊢
      obtain ⟨⟨agency, msgs⟩, he, hd⟩ := hs
      obtain ⟨agency', he', hsame⟩ := execute_follow h (fun _ hk => hk) he
      obtain ⟨q', hd', hsame'⟩ := deliverAll_follow hsame hregistry (fun m hm k hk =>
        List.mem_cons_of_mem _ (List.mem_append_left _ ((execute_writes he).2 m hm k hk))) hd
      exact ⟨q', ⟨_, he', hd'⟩, hsame'⟩
    | market market info msg =>
      refine executeMarket_follow h hregistry (by simp [reads, writes]) ?_ hs
      intro hasks k hk
      simp [reads, Action.asks, hasks, hk]
    | ctoken market sender msg =>
      simp only [step, bind_eq_ok, find_eq_ok, mapError_eq_ok, pure_eq_ok] at hs ⊢
      obtain ⟨sys, found, sys', he, rfl⟩ := hs
      have hmarket := view_market (h (.market market) (by simp [reads, writes]))
      refine ⟨_, ⟨sys, hmarket.symm.trans found, sys', ?_, rfl⟩, agree_update h⟩
      rw [← he]
      cases hask : msg.asksCredit with
      | false => rw [executeCtoken_leaf hask, executeCtoken_leaf hask]
      | true =>
        rw [executeCtoken_asked, executeCtoken_asked, askedEnv_eq h hregistry]
        intro k hk
        simp [reads, Action.asks, hask, hk]
    | donate market amount =>
      simp only [step, bind_eq_ok, find_eq_ok, mapError_eq_ok, pure_eq_ok] at hs ⊢
      obtain ⟨sys, found, sys', he, rfl⟩ := hs
      have hmarket := view_market (h (.market market) (by simp [reads, writes]))
      exact ⟨_, ⟨sys, hmarket.symm.trans found, sys', he, rfl⟩, agree_update h⟩
  reads_congr h := by
    rw [reads_eq h]
  writes_congr h := by
    rw [writes_eq (h _ List.mem_cons_self)]

end Platform

end WyndLend
