import WyndLend.CosmWasm.Run
import WyndLend.Platform.System
import Mathlib.Logic.Relation

/-!
# What a transaction of the platform amounts to

Either one market moves, or the credit agency moves and calls markets in turn. What
the calls preserve one by one, the transaction preserves.
-/

namespace WyndLend.Platform

open CosmWasm Utils CreditAgency

/-- The messages for which the credit agency calls a market. -/
def Calls (msg : Market.ExecuteMsg) : Prop := ∀ ratio, msg ≠ .adjustCollateralRatio ratio

/-- One call of a market on behalf of the credit agency. -/
inductive Call (env : Env) (p : Platform) : Platform → Prop where
  | execute {market sys sys' info msg entered} (found : p.markets.mayLoad market = some sys)
    (call : Calls msg) (executed : sys.execute (p.marketEnv env) info msg = .ok (sys', entered)) :
    Call env p (p.update market sys' entered)
  | migrate {market sys} {isotonicTokenId : Option ℕ}
    (found : p.markets.mayLoad market = some sys) :
    Call env p (p.update market { sys with market := Market.migrate sys.market isotonicTokenId } [])

/-- What a successful transaction did. -/
inductive Effect (tx : Tx) (p : Platform) : Platform → Prop where
  | market {market sys sys' info msg entered} (action : tx.action = .market market info msg)
    (found : p.markets.mayLoad market = some sys)
    (executed : sys.execute (p.marketEnv tx.env) info msg = .ok (sys', entered)) :
    Effect tx p (p.update market sys' entered)
  | held {market sys sys'} (found : p.markets.mayLoad market = some sys)
    (address : sys'.address = sys.address) (same : sys'.market = sys.market) :
    Effect tx p (p.update market sys' [])
  | created {cfg sys agency} (ratio : cfg.collateralRatio < p.agency.config.liquidationPrice)
    (fresh : p.markets.mayLoad tx.env.newMarket = none)
    (instantiated : Market.System.instantiate p.address tx.env.newMarket tx.env.newCtoken
      tx.env.time (p.agency.config.instantiateMsg cfg) = .ok sys)
    (ready : agency = { p.agency.reserve cfg.marketToken with
      markets := (p.agency.reserve cfg.marketToken).markets.save cfg.marketToken
        (.ready tx.env.newMarket) }) :
    Effect tx p { p with agency, markets := p.markets.save tx.env.newMarket sys }
  | entered {info : Market.MessageInfo} {account} :
    Effect tx p { p with agency := enterMarket p.agency info.sender account }
  | exited {info : Market.MessageInfo} {market agency}
    (action : tx.action = .agency info (.exitMarket market))
    (left : agency = { p.agency with
      enteredMarkets := p.agency.enteredMarkets.save info.sender
        ((p.agency.entered info.sender).remove market) }) :
    Effect tx p { p with agency }
  | called {config p'}
    (liquidationPrice : config.liquidationPrice = p.agency.config.liquidationPrice)
    (calls : Relation.ReflTransGen (Call tx.env) { p with agency := { p.agency with config } } p') :
    Effect tx p p'

variable {env : Env} {tx : Tx} {p p' : Platform} {market account : Addr} {sys sys' : Market.System}
  {info : Market.MessageInfo} {msg : Market.ExecuteMsg} {entered : List Addr}
  {msgs : List CreditAgency.Message}

theorem find_eq_ok : p.find market = .ok sys ↔ p.markets.mayLoad market = some sys := okOr_eq_ok

theorem executeMarket_spec (h : executeMarket env market info msg p = .ok p') :
    ∃ sys sys' entered, p.markets.mayLoad market = some sys ∧
      sys.execute (p.marketEnv env) info msg = .ok (sys', entered) ∧
      p' = p.update market sys' entered := by
  simp only [executeMarket, bind_eq_ok, find_eq_ok, mapError_eq_ok, pure_eq_ok] at h
  obtain ⟨sys, hf, ⟨sys', entered⟩, he, rfl⟩ := h
  exact ⟨sys, sys', entered, hf, he, rfl⟩

theorem call_of_execute (h : executeMarket env market info msg p = .ok p') (hc : Calls msg) :
    Call env p p' := by
  obtain ⟨sys, sys', entered, hf, he, rfl⟩ := executeMarket_spec h
  exact .execute hf hc he

/-- Everything but an instantiation is a call of one market. -/
theorem deliver_call {m : CreditAgency.Message} (h : deliver env p m = .ok p')
    (hm : instantiations [m] = []) : Call env p p' := by
  cases m with
  | instantiateMarket => cases hm
  | repayTo market coin account =>
    rw [deliver, repayTo] at h
    split at h
    · exact call_of_execute h nofun
    · exact call_of_execute h nofun
  | transferFrom => exact call_of_execute h nofun
  | swapWithdrawFrom => exact call_of_execute h nofun
  | adjustCommonToken => exact call_of_execute h nofun
  | migrate market _ isotonicTokenId =>
    simp only [deliver, Platform.migrate, bind_eq_ok, find_eq_ok, pure_eq_ok] at h
    obtain ⟨sys, hf, rfl⟩ := h
    exact .migrate hf

theorem instantiations_cons {m : CreditAgency.Message} (h : instantiations (m :: msgs) = []) :
    instantiations [m] = [] ∧ instantiations msgs = [] := by
  cases m with
  | instantiateMarket => cases h
  | repayTo | transferFrom | swapWithdrawFrom | adjustCommonToken | migrate => exact ⟨rfl, h⟩

theorem deliverAll_calls (h : deliverAll env msgs p = .ok p') (hm : instantiations msgs = []) :
    Relation.ReflTransGen (Call env) p p' := by
  induction msgs generalizing p with
  | nil =>
    cases h
    exact .refl
  | cons m msgs ih =>
    obtain ⟨hhead, htail⟩ := instantiations_cons hm
    obtain ⟨q, hq, h⟩ := bind_eq_ok.mp h
    exact .head (deliver_call hq hhead) (ih h htail)

/-- What one call preserves, a sequence of calls preserves. -/
theorem calls_preserve {I : Platform → Prop} (h : Relation.ReflTransGen (Call env) p p')
    (init : I p) (preserve : ∀ q q', I q → Call env q q' → I q') : I p' := by
  induction h with
  | refl => exact init
  | tail _ hcall ih => exact preserve _ _ ih hcall

/-- What every delivery preserves, all of them preserve. -/
theorem deliverAll_preserve {I : Platform → Prop} (h : deliverAll env msgs p = .ok p') (init : I p)
    (preserve : ∀ m ∈ msgs, ∀ q q', I q → deliver env q m = .ok q' → I q') : I p' := by
  induction msgs generalizing p with
  | nil =>
    cases h
    exact init
  | cons m msgs ih =>
    obtain ⟨q, hq, h⟩ := bind_eq_ok.mp h
    refine ih h (preserve m List.mem_cons_self p q init hq) ?_
    intro m' hm'
    exact preserve m' (List.mem_cons_of_mem _ hm')

theorem instantiateMarket_spec {id : ℕ} {m : Market.InstantiateMsg}
    (h : instantiateMarket env id m p = .ok p') :
    p.markets.mayLoad env.newMarket = none ∧ ∃ sys token,
      Market.System.instantiate p.address env.newMarket env.newCtoken env.time m = .ok sys ∧
      p.agency.replyIds.mayLoad id = some token ∧
      p' = { p with
        agency := { p.agency with
          markets := p.agency.markets.save token (.ready env.newMarket) }
        markets := p.markets.save env.newMarket sys } := by
  simp only [instantiateMarket, bind_eq_ok, ensure_eq_ok, mapError_eq_ok, pure_eq_ok,
    Option.isNone_iff_eq_none] at h
  obtain ⟨-, hfresh, sys, hs, agency, hr, rfl⟩ := h
  obtain ⟨token, ht, rfl⟩ := reply_spec hr
  exact ⟨hfresh, sys, token, hs, ht, rfl⟩

/-- Everything a successful transaction can do. -/
theorem step_effect (h : step tx p = .ok p') : Effect tx p p' := by
  obtain ⟨env, action⟩ := tx
  cases action with
  | agency info msg =>
    simp only [step, bind_eq_ok, mapError_eq_ok] at h
    obtain ⟨⟨agency, msgs⟩, he, hd⟩ := h
    cases CreditAgency.execute_outcome he with
    | created _ ratio =>
      obtain ⟨q, hq, hd⟩ := bind_eq_ok.mp hd
      cases hd
      obtain ⟨hfresh, sys, token, hs, ht, rfl⟩ := instantiateMarket_spec hq
      cases (Map.mayLoad_save_self _ _ _).symm.trans ht
      exact .created ratio hfresh hs rfl
    | entered =>
      cases hd
      exact .entered
    | exited =>
      cases hd
      exact .exited rfl rfl
    | forwarded _ hprice none => exact .called hprice (deliverAll_calls hd none)
  | market address info msg =>
    obtain ⟨sys, sys', entered, hf, he, rfl⟩ := executeMarket_spec h
    exact .market rfl hf he
  | ctoken market sender msg =>
    simp only [step, bind_eq_ok, find_eq_ok, mapError_eq_ok, pure_eq_ok,
      Market.System.executeCtoken] at h
    obtain ⟨sys, hf, _, ⟨_, _, rfl⟩, rfl⟩ := h
    exact .held hf rfl rfl
  | donate market amount =>
    simp only [step, Market.System.step, bind_eq_ok, find_eq_ok, mapError_eq_ok, pure_eq_ok] at h
    obtain ⟨sys, hf, _, ⟨_, _, rfl⟩, rfl⟩ := h
    exact .held hf rfl rfl

/-! ## Updates -/

/-- The platform with one market in a new state and the accounts entered by hand. -/
theorem mem_entered_update {other : Addr} :
    other ∈ (p.update market sys entered).agency.entered account ↔
      (account ∈ entered ∧ other = market) ∨ other ∈ p.agency.entered account := by
  unfold update
  dsimp only
  generalize p.agency = agency
  induction entered generalizing agency with
  | nil => simp
  | cons a entered ih =>
    rw [List.foldl_cons, ih, mem_entered_enterMarket, List.mem_cons]
    tauto

theorem update_registry : (p.update market sys entered).agency.config = p.agency.config ∧
    (p.update market sys entered).agency.markets = p.agency.markets := by
  unfold update
  dsimp only
  generalize p.agency = agency
  induction entered generalizing agency with
  | nil => exact ⟨rfl, rfl⟩
  | cons a entered ih => exact ih (enterMarket agency market a)

/-- A property of every market that has an entry survives an update of one of them. -/
theorem forall_save {P : Addr → Market.System → Prop} {markets : Map Addr Market.System}
    (hall : ∀ m s, markets.mayLoad m = some s → P m s) (hnew : P market sys) :
    ∀ m s, (markets.save market sys).mayLoad m = some s → P m s := by
  intro m s hs
  rw [Map.mayLoad_save] at hs
  split_ifs at hs with hm
  · cases hs
    exact hm ▸ hnew
  · exact hall m s hs

/-! ## Links -/

/-- Every market is registered in the contracts as the platform has it. -/
structure Linked (p : Platform) : Prop where
  address : ∀ market sys, p.markets.mayLoad market = some sys → sys.address = market
  creditAgency : ∀ market sys, p.markets.mayLoad market = some sys →
    sys.market.config.creditAgency = p.address
  ready : ∀ token market, p.agency.markets.mayLoad token = some (.ready market) →
    ∃ sys, p.markets.mayLoad market = some sys

/-- There is no market at the start. -/
theorem not_found_start {address : Addr} {config : Config} :
    (start address config).markets.mayLoad market ≠ some sys := by
  intro h
  cases (Map.mayLoad_empty market).symm.trans h

theorem linked_start {address : Addr} {config : Config} : Linked (start address config) := by
  refine ⟨fun _ _ h => absurd h not_found_start, fun _ _ h => absurd h not_found_start, ?_⟩
  intro token market h
  cases (Map.mayLoad_empty token).symm.trans h

/-- Saving a market keeps every address that has one. -/
theorem exists_save {markets : Map Addr Market.System} {m : Addr}
    (h : ∃ s, markets.mayLoad m = some s) : ∃ s, (markets.save market sys).mayLoad m = some s := by
  rw [Map.mayLoad_save]
  by_cases hm : m = market
  · exact ⟨sys, if_pos hm⟩
  · rwa [if_neg hm]

theorem linked_update (hl : Linked p) (found : p.markets.mayLoad market = some sys)
    (haddr : sys'.address = sys.address)
    (hagency : sys'.market.config.creditAgency = sys.market.config.creditAgency) :
    Linked (p.update market sys' entered) := by
  refine ⟨?_, ?_, ?_⟩
  · exact forall_save hl.address (haddr.trans (hl.address market sys found))
  · exact forall_save hl.creditAgency (hagency.trans (hl.creditAgency market sys found))
  · intro token m hm
    rw [update_registry.2] at hm
    exact exists_save (hl.ready token m hm)

theorem call_linked (hl : Linked p) (h : Call env p p') : Linked p' := by
  cases h with
  | execute found _ executed =>
    have hkeeps := Market.System.execute_keeps executed
    exact linked_update hl found hkeeps.address hkeeps.creditAgency
  | @migrate market sys isotonicTokenId found =>
    exact linked_update hl found rfl (Market.migrate_frame sys.market isotonicTokenId).2.1

theorem instantiate_spec {sender ctoken : Addr} {time : ℕ} {m : Market.InstantiateMsg}
    (h : Market.System.instantiate sender market ctoken time m = .ok sys) :
    sys.address = market ∧ sys.market.config.creditAgency = sender ∧
      sys.market.config.collateralRatio = m.collateralRatio ∧ ∀ account, ¬ sys.Owes account := by
  simp only [Market.System.instantiate, Market.instantiate, bind_eq_ok, mapError_eq_ok,
    ensure_eq_ok, pure_eq_ok] at h
  obtain ⟨_, ⟨_, -, -, -, rfl⟩, rfl⟩ := h
  exact ⟨rfl, rfl, rfl, fun account ho => ho rfl⟩

theorem step_linked (hl : Linked p) (h : step tx p = .ok p') : Linked p' := by
  cases step_effect h with
  | market _ found executed =>
    have hkeeps := Market.System.execute_keeps executed
    exact linked_update hl found hkeeps.address hkeeps.creditAgency
  | held found haddr hsame => exact linked_update hl found haddr (by rw [hsame])
  | created _ _ instantiated ready =>
    obtain ⟨haddr, hagency, -⟩ := instantiate_spec instantiated
    subst ready
    refine ⟨forall_save hl.address haddr, forall_save hl.creditAgency hagency, ?_⟩
    intro token m hm
    simp only [State.reserve, Map.mayLoad_save] at hm
    split_ifs at hm with ht
    · cases hm
      exact ⟨_, Map.mayLoad_save_self _ _ _⟩
    · exact exists_save (hl.ready token m hm)
  | entered => exact ⟨hl.address, hl.creditAgency, hl.ready⟩
  | exited _ left =>
    subst left
    exact ⟨hl.address, hl.creditAgency, hl.ready⟩
  | called _ calls =>
    exact calls_preserve calls ⟨hl.address, hl.creditAgency, hl.ready⟩ fun _ _ => call_linked

/-- The markets of a reachable platform are linked to it. -/
theorem run_linked {guard : Platform → Tx → Prop} {address : Addr} {config : Config} {txs : List Tx}
    (h : Run step guard (start address config) txs p) : Linked p :=
  h.invariant linked_start fun _ _ _ hl _ hs => step_linked hl hs

/-! ## What every market keeps -/

/-- A property that a market has from the start and that none of its transactions breaks. -/
structure Lasting (I : Addr → Market.System → Prop) : Prop where
  created : ∀ {sender market ctoken : Addr} {time : ℕ} {m : Market.InstantiateMsg}
    {sys : Market.System}, Market.System.instantiate sender market ctoken time m = .ok sys →
      I market sys
  stepped : ∀ {market : Addr} {tx : Market.System.Tx} {sys sys' : Market.System},
    Market.System.step tx sys = .ok sys' → I market sys → I market sys'
  migrated : ∀ {market : Addr} {sys : Market.System} (isotonicTokenId : Option ℕ),
    I market sys → I market { sys with market := Market.migrate sys.market isotonicTokenId }

namespace Lasting

variable {I : Addr → Market.System → Prop} (hI : Lasting I)

include hI

/-- A transaction of one market. -/
theorem update {mtx : Market.System.Tx}
    (hi : ∀ market sys, p.markets.mayLoad market = some sys → I market sys)
    (found : p.markets.mayLoad market = some sys) (h : Market.System.step mtx sys = .ok sys') :
    ∀ m s, (p.update market sys' entered).markets.mayLoad m = some s → I m s :=
  forall_save hi (hI.stepped h (hi market sys found))

theorem executeMarket (hi : ∀ market sys, p.markets.mayLoad market = some sys → I market sys)
    (h : executeMarket env market info msg p = .ok p') :
    ∀ m s, p'.markets.mayLoad m = some s → I m s := by
  obtain ⟨sys, sys', entered, hf, he, rfl⟩ := executeMarket_spec h
  have hstep : Market.System.step ⟨p.marketEnv env, .execute info msg⟩ sys = .ok sys' := by
    simp only [Market.System.step, he, bind_eq_ok, Except.ok.injEq, exists_eq_left', pure_eq_ok]
  exact hI.update hi hf hstep

theorem deliver {m : CreditAgency.Message}
    (hi : ∀ market sys, p.markets.mayLoad market = some sys → I market sys)
    (h : deliver env p m = .ok p') : ∀ m s, p'.markets.mayLoad m = some s → I m s := by
  cases m with
  | instantiateMarket replyId codeId msg =>
    obtain ⟨-, sys, token, hs, -, rfl⟩ := instantiateMarket_spec h
    exact forall_save hi (hI.created hs)
  | repayTo market coin debtor =>
    rw [Platform.deliver, repayTo] at h
    split at h
    · exact hI.executeMarket hi h
    · exact hI.executeMarket hi h
  | transferFrom | swapWithdrawFrom | adjustCommonToken => exact hI.executeMarket hi h
  | migrate market _ isotonicTokenId =>
    simp only [Platform.deliver, Platform.migrate, bind_eq_ok, find_eq_ok, pure_eq_ok] at h
    obtain ⟨sys, hf, rfl⟩ := h
    exact forall_save hi (hI.migrated isotonicTokenId (hi market sys hf))

theorem step (hi : ∀ market sys, p.markets.mayLoad market = some sys → I market sys)
    (h : step tx p = .ok p') : ∀ m s, p'.markets.mayLoad m = some s → I m s := by
  obtain ⟨env, action⟩ := tx
  cases action with
  | agency info msg =>
    simp only [Platform.step, bind_eq_ok, mapError_eq_ok] at h
    obtain ⟨⟨agency, msgs⟩, -, hd⟩ := h
    exact deliverAll_preserve hd (I := fun q => ∀ m s, q.markets.mayLoad m = some s → I m s) hi
      fun _ _ _ _ hq => hI.deliver hq
  | market address info msg => exact hI.executeMarket hi h
  | ctoken market sender msg =>
    simp only [Platform.step, bind_eq_ok, find_eq_ok, mapError_eq_ok, pure_eq_ok] at h
    obtain ⟨sys, hf, sys', he, rfl⟩ := h
    have hstep : Market.System.step ⟨p.marketEnv env, .ctoken sender msg⟩ sys = .ok sys' := he
    exact hI.update hi hf hstep
  | donate market amount =>
    simp only [Platform.step, bind_eq_ok, find_eq_ok, mapError_eq_ok, pure_eq_ok] at h
    obtain ⟨sys, hf, sys', he, rfl⟩ := h
    exact hI.update hi hf he

/-- Every market of a reachable platform has the property. -/
theorem run {guard : Platform → Tx → Prop} {address : Addr} {config : Config} {txs : List Tx}
    (h : Run Platform.step guard (start address config) txs p)
    (found : p.markets.mayLoad market = some sys) : I market sys := by
  have hall : ∀ m s, p.markets.mayLoad m = some s → I m s :=
    h.invariant (I := fun q => ∀ m s, q.markets.mayLoad m = some s → I m s)
      (fun _ _ hf => absurd hf not_found_start) fun _ _ _ hi _ hs => hI.step hi hs
  exact hall market sys found

end Lasting

end WyndLend.Platform
