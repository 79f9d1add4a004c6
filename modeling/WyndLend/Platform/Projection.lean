import WyndLend.Market.Migration
import WyndLend.Platform.Safety

/-!
# A market of the platform on its own

Users visit a market directly, and the credit agency visits markets on behalf of users.
What a market of the platform has become is what the visits to it, one after the other,
make of a market that stands alone; the other markets are no more than its environment.
-/

namespace WyndLend

open CosmWasm Utils

namespace Platform

open CreditAgency

/-! ## Visits -/

/-- A transaction of a market within a transaction of the platform. -/
structure Visit where
  market : Addr
  /-- The market as the visit finds it. -/
  found : Market.System
  tx : Market.System.Tx

def visit (p : Platform) (env : Env) (market : Addr) (action : Market.System.Action) :
    List Visit :=
  match p.markets.mayLoad market with
  | some sys => [⟨market, sys, ⟨p.marketEnv env, action⟩⟩]
  | none => []

/-- The visits that the delivery of a message of the credit agency makes. -/
def messageVisits (env : Env) (p : Platform) : CreditAgency.Message → List Visit
  | .instantiateMarket .. | .migrate .. => []
  | .repayTo market ⟨.native denom, amount⟩ account =>
    p.visit env market (.execute ⟨p.address, [(denom, amount)]⟩ (.repayTo account))
  | .repayTo market ⟨.cw20 contract, amount⟩ account =>
    p.visit env market (.execute ⟨contract, []⟩ (.receive p.address amount (.repayTo account)))
  | .transferFrom market source destination amount liquidationPrice =>
    p.visit env market
      (.execute ⟨p.address, []⟩ (.transferFrom source destination amount liquidationPrice))
  | .swapWithdrawFrom market account buy =>
    p.visit env market (.execute ⟨p.address, []⟩ (.swapWithdrawFrom account buy env.sellLimit))
  | .adjustCommonToken market newToken =>
    p.visit env market (.execute ⟨p.address, []⟩ (.adjustCommonToken newToken))

def messagesVisits (env : Env) : List CreditAgency.Message → Platform → List Visit
  | [], _ => []
  | m :: msgs, p => p.messageVisits env m ++
    match deliver env p m with
    | .ok q => messagesVisits env msgs q
    | .error _ => []

/-- The visits that a transaction makes, in order. -/
def visits (tx : Tx) (p : Platform) : List Visit :=
  match tx.action with
  | .agency info msg =>
    match CreditAgency.execute (p.querier tx.env) info msg p.agency with
    | .ok (agency, msgs) => messagesVisits tx.env msgs { p with agency }
    | .error _ => []
  | .market market info msg => p.visit tx.env market (.execute info msg)
  | .ctoken market sender msg => p.visit tx.env market (.ctoken sender msg)
  | .donate market amount => p.visit tx.env market (.donate amount)

/-- All visits of a sequence of transactions. -/
def history : List Tx → Platform → List Visit
  | [], _ => []
  | tx :: txs, p => visits tx p ++
    match step tx p with
    | .ok q => history txs q
    | .error _ => []

/-- The transactions of one market. -/
def transactionsOf (market : Addr) (vs : List Visit) : List Market.System.Tx :=
  vs.filterMap fun v => if v.market = market then some v.tx else none

variable {env : Env} {tx : Tx} {txs txs' : List Tx} {p p' q : Platform}
  {market account address : Addr} {sys sys' : Market.System} {info : Market.MessageInfo}
  {msg : Market.ExecuteMsg} {entered : List Addr} {msgs : List CreditAgency.Message}
  {config : CreditAgency.Config} {vs vs' : List Visit} {action : Market.System.Action}
  {G : Market.System → Market.System.Tx → Prop}

theorem visit_of_found (found : p.markets.mayLoad market = some sys) :
    p.visit env market action = [⟨market, sys, ⟨p.marketEnv env, action⟩⟩] := by
  simp only [visit, found]

@[simp] theorem transactionsOf_append :
    transactionsOf market (vs ++ vs') = transactionsOf market vs ++ transactionsOf market vs' :=
  List.filterMap_append

theorem transactionsOf_self {found : Market.System} {mtx : Market.System.Tx} :
    transactionsOf market [⟨market, found, mtx⟩] = [mtx] := by
  simp [transactionsOf]

theorem transactionsOf_eq_nil (h : ∀ v ∈ vs, v.market ≠ market) : transactionsOf market vs = [] :=
  List.filterMap_eq_nil_iff.mpr fun v hv => if_neg (h v hv)

/-! ## How markets evolve -/

/-- The guard does not look at the token id, which migrations change. -/
def Blind (G : Market.System → Market.System.Tx → Prop) : Prop :=
  ∀ sys mtx tokenId, G sys mtx → G (sys.relabel tokenId) mtx

/-- A market that was instantiated by the platform and made `mtxs` since. -/
def Grown (G : Market.System → Market.System.Tx → Prop) (address market : Addr)
    (mtxs : List Market.System.Tx) (sys : Market.System) : Prop :=
  ∃ ctoken time m init,
    Market.System.instantiate address market ctoken time m = .ok init ∧
    Run Market.System.step G init mtxs (sys.relabel m.tokenId)

/-- Along `vs` every market either made its visits or was instantiated before them. -/
structure Evolves (G : Market.System → Market.System.Tx → Prop) (vs : List Visit)
    (p p' : Platform) : Prop where
  address : p'.address = p.address
  kept : ∀ market sys, p.markets.mayLoad market = some sys →
    ∃ sys', p'.markets.mayLoad market = some sys'
  visited : ∀ v ∈ vs, ∃ sys', p'.markets.mayLoad v.market = some sys'
  grown : ∀ market sys', p'.markets.mayLoad market = some sys' →
    (∃ sys, p.markets.mayLoad market = some sys ∧ ∀ tokenId,
      Run Market.System.step G (sys.relabel tokenId) (transactionsOf market vs)
        (sys'.relabel tokenId)) ∨
    p.markets.mayLoad market = none ∧ Grown G p.address market (transactionsOf market vs) sys'

theorem Evolves.of_markets (haddress : p'.address = p.address) (hmarkets : p'.markets = p.markets) :
    Evolves G [] p p' where
  address := haddress
  kept market sys found := ⟨sys, by rw [hmarkets]; exact found⟩
  visited _ hv := absurd hv List.not_mem_nil
  grown market sys' found := .inl ⟨sys', by rw [← hmarkets]; exact found, fun _ => .nil _⟩

theorem Evolves.trans (h : Evolves G vs p p') (h' : Evolves G vs' p' q) :
    Evolves G (vs ++ vs') p q where
  address := h'.address.trans h.address
  kept market sys found := by
    obtain ⟨sys', found'⟩ := h.kept market sys found
    exact h'.kept market sys' found'
  visited v hv := by
    rcases List.mem_append.mp hv with hv | hv
    · obtain ⟨sys', found'⟩ := h.visited v hv
      exact h'.kept v.market sys' found'
    · exact h'.visited v hv
  grown market sys'' found'' := by
    rw [transactionsOf_append]
    rcases h'.grown market sys'' found'' with ⟨sys', found', hrun'⟩ | ⟨fresh', hgrown⟩
    · -- The market was there in between, so the runs are joined.
      rcases h.grown market sys' found' with ⟨sys, found, hrun⟩ | ⟨fresh, hgrown⟩
      · exact .inl ⟨sys, found, fun tokenId => (hrun tokenId).trans (hrun' tokenId)⟩
      · obtain ⟨ctoken, time, m, init, hi, hrun⟩ := hgrown
        exact .inr ⟨fresh, ctoken, time, m, init, hi, hrun.trans (hrun' m.tokenId)⟩
    · -- It was instantiated later, so nothing visited it before.
      have hnone : transactionsOf market vs = [] := by
        refine transactionsOf_eq_nil fun v hv heq => ?_
        obtain ⟨sys', found'⟩ := h.visited v hv
        rw [heq, fresh'] at found'
        cases found'
      have fresh : p.markets.mayLoad market = none := by
        cases hf : p.markets.mayLoad market with
        | none => rfl
        | some sys =>
          obtain ⟨sys', found'⟩ := h.kept market sys hf
          rw [fresh'] at found'
          cases found'
      rw [hnone, List.nil_append]
      rw [h.address] at hgrown
      exact .inr ⟨fresh, hgrown⟩

/-- One market moved from `sys` to `sys'`, and its runs under any token id are `mtxs`. -/
theorem Evolves.update {vs : List Visit} (found : p.markets.mayLoad market = some sys)
    (hvs : ∀ v ∈ vs, v.market = market)
    (hrun : ∀ tokenId, Run Market.System.step G (sys.relabel tokenId) (transactionsOf market vs)
      (sys'.relabel tokenId)) : Evolves G vs p (p.update market sys' entered) where
  address := rfl
  kept m s hs := exists_save ⟨s, hs⟩
  visited v hv := by
    rw [hvs v hv]
    exact ⟨sys', Map.mayLoad_save_self _ _ _⟩
  grown m s hs := by
    by_cases hm : m = market
    · subst hm
      cases (Map.mayLoad_save_self _ _ _).symm.trans hs
      exact .inl ⟨sys, found, hrun⟩
    · have hnone : transactionsOf m vs = [] :=
        transactionsOf_eq_nil fun v hv heq => hm (heq.symm.trans (hvs v hv))
      refine .inl ⟨s, (Map.mayLoad_save_ne _ _ hm).symm.trans hs, fun tokenId => ?_⟩
      rw [hnone]
      exact .nil _

section

variable (hG : Blind G)

include hG

theorem evolves_visit (found : p.markets.mayLoad market = some sys)
    (hg : ∀ v ∈ p.visit env market action, G v.found v.tx)
    (h : Market.System.step ⟨p.marketEnv env, action⟩ sys = .ok sys') :
    Evolves G (p.visit env market action) p (p.update market sys' entered) := by
  rw [visit_of_found found] at hg ⊢
  refine .update found (fun v hv => by rw [List.mem_singleton.mp hv]) fun tokenId => ?_
  rw [transactionsOf_self]
  have hguard := hG sys _ tokenId (hg _ (List.mem_singleton_self _))
  exact (Run.nil _).snoc hguard (Market.System.step_relabel _ h)

theorem evolves_executeMarket (hg : ∀ v ∈ p.visit env market (.execute info msg), G v.found v.tx)
    (h : executeMarket env market info msg p = .ok p') :
    Evolves G (p.visit env market (.execute info msg)) p p' := by
  obtain ⟨sys, sys', entered, found, he, rfl⟩ := executeMarket_spec h
  refine evolves_visit hG found hg ?_
  simp only [Market.System.step, he, bind_eq_ok, Except.ok.injEq, exists_eq_left', pure_eq_ok]

theorem evolves_deliver {m : CreditAgency.Message}
    (hg : ∀ v ∈ p.messageVisits env m, G v.found v.tx) (h : deliver env p m = .ok p') :
    Evolves G (p.messageVisits env m) p p' := by
  cases m with
  | instantiateMarket replyId codeId msg =>
    obtain ⟨fresh, sys, token, hi, -, rfl⟩ := instantiateMarket_spec h
    refine ⟨rfl, fun m s hs => exists_save ⟨s, hs⟩, fun _ hv => absurd hv List.not_mem_nil, ?_⟩
    intro m s hs
    by_cases hm : m = env.newMarket
    · subst hm
      cases (Map.mayLoad_save_self _ _ _).symm.trans hs
      refine .inr ⟨fresh, _, _, _, _, hi, ?_⟩
      have htoken : sys.relabel msg.tokenId = sys := by
        simp only [Market.System.instantiate, Market.instantiate, bind_eq_ok, mapError_eq_ok,
          ensure_eq_ok, pure_eq_ok] at hi
        obtain ⟨_, ⟨_, -, -, -, rfl⟩, rfl⟩ := hi
        rfl
      rw [htoken]
      exact .nil _
    · exact .inl ⟨s, (Map.mayLoad_save_ne _ _ hm).symm.trans hs, fun _ => .nil _⟩
  | repayTo market coin account =>
    obtain ⟨denom | contract, amount⟩ := coin
    · exact evolves_executeMarket hG hg h
    · exact evolves_executeMarket hG hg h
  | transferFrom | swapWithdrawFrom | adjustCommonToken => exact evolves_executeMarket hG hg h
  | migrate market _ isotonicTokenId =>
    simp only [deliver, Platform.migrate, bind_eq_ok, find_eq_ok, pure_eq_ok] at h
    obtain ⟨sys, found, rfl⟩ := h
    refine .update found (fun _ hv => absurd hv List.not_mem_nil) fun tokenId => ?_
    cases isotonicTokenId <;> exact .nil _

theorem evolves_deliverAll (hg : ∀ v ∈ messagesVisits env msgs p, G v.found v.tx)
    (h : deliverAll env msgs p = .ok p') : Evolves G (messagesVisits env msgs p) p p' := by
  induction msgs generalizing p with
  | nil =>
    cases h
    exact .of_markets rfl rfl
  | cons m msgs ih =>
    obtain ⟨q, hq, h⟩ := bind_eq_ok.mp h
    simp only [messagesVisits, hq, List.mem_append] at hg ⊢
    exact (evolves_deliver hG (fun v hv => hg v (.inl hv)) hq).trans
      (ih (fun v hv => hg v (.inr hv)) h)

/-- A transaction makes its visits and nothing else with the markets. -/
theorem evolves_step (hg : ∀ v ∈ visits tx p, G v.found v.tx) (h : step tx p = .ok p') :
    Evolves G (visits tx p) p p' := by
  obtain ⟨env, action⟩ := tx
  cases action with
  | agency info msg =>
    simp only [step, bind_eq_ok, mapError_eq_ok] at h
    obtain ⟨⟨agency, msgs⟩, he, hd⟩ := h
    simp only [visits, he] at hg ⊢
    have hsame : Evolves G [] p { p with agency } := .of_markets rfl rfl
    exact hsame.trans (evolves_deliverAll hG hg hd)
  | market market info msg => exact evolves_executeMarket hG hg h
  | ctoken market sender msg =>
    simp only [step, bind_eq_ok, find_eq_ok, mapError_eq_ok, pure_eq_ok] at h
    obtain ⟨sys, found, sys', he, rfl⟩ := h
    exact evolves_visit hG found hg he
  | donate market amount =>
    simp only [step, bind_eq_ok, find_eq_ok, mapError_eq_ok, pure_eq_ok] at h
    obtain ⟨sys, found, sys', he, rfl⟩ := h
    exact evolves_visit hG found hg he

end

/-! ## Runs -/

theorem history_append {guard : Platform → Tx → Prop} (h : Run step guard p txs q) :
    history (txs ++ txs') p = history txs p ++ history txs' q := by
  induction h generalizing txs' with
  | nil => rfl
  | snoc _ _ hs ih =>
    rw [List.append_assoc, ih, ih, List.append_assoc]
    simp only [List.singleton_append, history, hs, List.append_nil]

theorem evolves_run {guard : Platform → Tx → Prop} (hG : Blind G) (h : Run step guard p txs q)
    (hg : ∀ v ∈ history txs p, G v.found v.tx) : Evolves G (history txs p) p q := by
  induction h with
  | nil => exact .of_markets rfl rfl
  | @snoc u t is tx hrun hguard hs ih =>
    rw [history_append hrun] at hg ⊢
    simp only [history, hs, List.append_nil, List.mem_append] at hg ⊢
    exact (ih fun v hv => hg v (.inl hv)).trans (evolves_step hG (fun v hv => hg v (.inr hv)) hs)

/-- Every market of a reachable platform is what a market on its own becomes by the visits
made to it, in their order, up to the token id: any guard that the visits met is a guard of
that run, so what holds of all runs of a market holds of it. -/
theorem market_run {guard : Platform → Tx → Prop} (hG : Blind G)
    (h : Run step guard (start address config) txs p)
    (hg : ∀ v ∈ history txs (start address config), G v.found v.tx)
    (found : p.markets.mayLoad market = some sys) :
    ∃ ctoken time m init,
      Market.System.instantiate address market ctoken time m = .ok init ∧
      Run Market.System.step G init
        (transactionsOf market (history txs (start address config))) (sys.relabel m.tokenId) := by
  rcases (evolves_run hG h hg).grown market sys found with ⟨_, hf, -⟩ | ⟨-, hgrown⟩
  · exact absurd hf not_found_start
  · exact hgrown

/-- Whether blocks follow one another does not depend on the token id. -/
theorem blind_ordered : Blind Market.System.Ordered := fun _ _ _ h => h

/-- Bob borrows two dollars on his atom, the dollar market is migrated, and the atom loses
half of its value, so that Carol repays a dollar for him. -/
def sampleMigration : List Tx :=
  sampleCollateral sampleHalf ⟨600_000_000_000_000_000⟩ Decimal.zero 10 ++
    [sampleBorrow (sampleEnv "" "" sampleHalf) 2,
      ⟨sampleEnv "" "" sampleHalf, .agency ⟨"gov", []⟩ (.migrateMarket "usd market" (some 7))⟩,
      sampleLiquidation (sampleEnv "" "" ⟨250_000_000_000_000_000⟩)]

/-- The dollar market was visited by the lender, by Bob and by the credit agency. -/
theorem market_run_example : ∃ p sys ctoken time m init,
    Run step (fun _ _ => True) (start "agency" sampleConfig) sampleMigration p ∧
    p.markets.mayLoad "usd market" = some sys ∧ sys.market.config.tokenId = 7 ∧
    Market.System.instantiate "agency" "usd market" ctoken time m = .ok init ∧
    (transactionsOf "usd market" (history sampleMigration (start "agency" sampleConfig))).length =
      3 ∧
    Run Market.System.step Market.System.Ordered init
      (transactionsOf "usd market" (history sampleMigration (start "agency" sampleConfig)))
      (sys.relabel m.tokenId) := by
  obtain ⟨p, hrun, ⟨sys, found, htoken⟩, hvisits, hlength⟩ : ∃ p, Run step (fun _ _ => True)
      (start "agency" sampleConfig) sampleMigration p ∧
      (∃ sys ∈ p.markets.mayLoad "usd market", sys.market.config.tokenId = 7) ∧
      (∀ v ∈ history sampleMigration (start "agency" sampleConfig),
        Market.System.Ordered v.found v.tx) ∧
      (transactionsOf "usd market"
        (history sampleMigration (start "agency" sampleConfig))).length = 3 :=
    exists_run_of_runAll (by decide +kernel)
  obtain ⟨ctoken, time, m, init, hi, hmarket⟩ := market_run blind_ordered hrun hvisits found
  exact ⟨p, sys, ctoken, time, m, init, hrun, found, htoken, hi, hlength, hmarket⟩

end Platform

end WyndLend
