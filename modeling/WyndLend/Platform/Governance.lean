import WyndLend.Platform.Isolation
import WyndLend.Platform.Registry

/-!
# What governance decides

All that can be adjusted in the credit agency and in its markets, apart from the clocks of
the markets, is a machine of its own that only hears the governance contract. The platform
refines it: whatever anybody else sends, and whenever interest is charged, the machine
stands still.
-/

namespace WyndLend

open CosmWasm Utils

/-! ## The settings of a market -/

namespace Market

/-- The configuration without the clock. -/
def Config.settings (cfg : Config) : Config := { cfg with lastCharged := 0 }

/-- What an accepted message makes of the settings. -/
def ExecuteMsg.adjust : ExecuteMsg → Config → Config
  | .adjustCommonToken commonToken, cfg => { cfg with commonToken }
  | .adjustCollateralRatio collateralRatio, cfg => { cfg with collateralRatio }
  | .adjustReserveFactor reserveFactor, cfg => { cfg with reserveFactor }
  | .adjustPriceOracle priceOracle, cfg => { cfg with priceOracle }
  | .adjustMarketCap marketCap, cfg => { cfg with marketCap }
  | .adjustInterestRates curve, cfg =>
    if valid : curve.Valid then { cfg with rates := ⟨curve, valid⟩ } else cfg
  | _, cfg => cfg

/-- The messages that adjust something. -/
def ExecuteMsg.Adjusts : ExecuteMsg → Prop
  | .adjustCommonToken _ | .adjustCollateralRatio _ | .adjustReserveFactor _
  | .adjustPriceOracle _ | .adjustMarketCap _ | .adjustInterestRates _ => True
  | _ => False

theorem ExecuteMsg.adjust_of_not {msg : ExecuteMsg} (h : ¬ msg.Adjusts) (cfg : Config) :
    msg.adjust cfg = cfg := by
  cases msg <;> simp_all [ExecuteMsg.Adjusts, ExecuteMsg.adjust]

/-- What moves tokens adjusts nothing. -/
theorem ExecuteMsg.adjust_of_plain {msg plain : ExecuteMsg} (h : msg.plain = plain)
    (hplain : ¬ plain.Adjusts) (cfg : Config) : msg.adjust cfg = cfg := by
  subst h
  cases msg <;> simp_all [ExecuteMsg.Adjusts, ExecuteMsg.adjust, ExecuteMsg.plain]

namespace System

variable {env : Env} {info : MessageInfo} {msg : ExecuteMsg} {sys sys' mid : System}
  {entered : List Addr}

theorem settings_of_settle {op : Op} (hs : settle env sys = .ok mid)
    (ha : op.apply mid = .ok sys') : sys'.market.config.settings = sys.market.config.settings := by
  obtain ⟨_, -, hc, -⟩ := settle_frame hs
  rw [(apply_frame ha).1, hc]
  rfl

theorem outcome_settings (h : Outcome env info sys msg sys' entered) :
    sys'.market.config.settings = msg.adjust sys.market.config.settings := by
  cases h with
  | deposit hm _ _ _ hs ha | repay hm _ _ hs ha | repayTo hm _ _ _ _ _ hs ha =>
    rw [ExecuteMsg.adjust_of_plain hm (by simp [ExecuteMsg.Adjusts])]
    exact settings_of_settle hs ha
  | withdraw hm _ _ hs ha | borrow hm _ hs ha | transferFrom hm _ hs _ _ _ ha =>
    subst hm
    exact settings_of_settle hs ha
  | adjust hadj => cases hadj <;> rfl
  | @rates _ _ v hm _ hv hs =>
    subst hm hv
    simp [ExecuteMsg.adjust, v.valid, Config.settings]
  | send hm | swap hm =>
    subst hm
    rfl

/-- Only governance and the credit agency adjust anything. -/
theorem outcome_adjuster (h : Outcome env info sys msg sys' entered) (hadjusts : msg.Adjusts) :
    info.sender = sys.market.config.governanceContract ∨
      origin info msg = sys.market.config.creditAgency := by
  cases h with
  | adjust hadj =>
    cases hadj with
    | commonToken hs => exact .inr hs
    | collateralRatio hs | reserveFactor hs | priceOracle hs | marketCap hs => exact .inl hs.symm
  | rates _ hs => exact .inl hs.symm
  | deposit hm | withdraw hm | borrow hm | repay hm | repayTo hm | transferFrom hm | send hm
  | swap hm => cases msg <;> simp_all [ExecuteMsg.Adjusts, ExecuteMsg.plain]

theorem execute_settings (h : execute env info msg sys = .ok (sys', entered)) :
    sys'.market.config.settings = msg.adjust sys.market.config.settings := by
  obtain ⟨_, _, -, -, hout⟩ := execute_outcome h
  have hsettings := outcome_settings hout
  exact hsettings

theorem execute_adjuster (h : execute env info msg sys = .ok (sys', entered))
    (hadjusts : msg.Adjusts) : info.sender = sys.market.config.governanceContract ∨
      origin info msg = sys.market.config.creditAgency := by
  obtain ⟨_, _, -, -, hout⟩ := execute_outcome h
  have hadjuster := outcome_adjuster hout hadjusts
  exact hadjuster

end System

end Market

/-! ## The configuration of the credit agency -/

namespace CreditAgency

variable {q : Querier} {info : Market.MessageInfo} {msg : ExecuteMsg} {s s' : State}
  {msgs : List Message}

/-- The messages that only governance may send. -/
def ExecuteMsg.Governs : ExecuteMsg → Prop
  | .createMarket _ | .adjustMarketId _ | .adjustTokenId _ | .adjustCommonToken _
  | .migrateMarket .. => True
  | _ => False

/-- What an accepted message makes of the configuration. -/
def ExecuteMsg.adjust : ExecuteMsg → Config → Config
  | .adjustMarketId isotonicMarketId, config => { config with isotonicMarketId }
  | .adjustTokenId isotonicTokenId, config => { config with isotonicTokenId }
  | .adjustCommonToken commonToken, config => { config with commonToken }
  | _, config => config

/-- The messages that the credit agency sends on behalf of accounts. -/
def Message.Plain : Message → Prop
  | .repayTo .. | .transferFrom .. | .swapWithdrawFrom .. => True
  | _ => False

theorem createMarket_eq {sender : Addr} {cfg : MarketConfig}
    (h : createMarket s sender cfg = .ok (s', msgs)) :
    sender = s.config.govContract ∧ s' = s.reserve cfg.marketToken ∧
      msgs = [.instantiateMarket (s.nextReplyId + 1) s.config.isotonicMarketId
        (s.config.instantiateMsg cfg)] := by
  simp only [createMarket, bind_eq_ok, ensure_eq_ok] at h
  obtain ⟨-, hs, -, -, h⟩ := h
  split at h
  · cases h
  · cases h
  · obtain ⟨-, -, h⟩ := bind_eq_ok.mp h
    cases h
    exact ⟨hs, rfl, rfl⟩

theorem adjustCommonToken_eq {sender : Addr} {token : Token}
    (h : Restricted.adjustCommonToken s sender token = .ok (s', msgs)) :
    sender = s.config.govContract ∧
      s' = { s with config := { s.config with commonToken := token } } ∧
      msgs = (s.markets.range.filterMap fun e => e.2.toAddr).map fun market =>
        .adjustCommonToken market token := by
  simp only [Restricted.adjustCommonToken, Restricted.adjust, bind_eq_ok, ensure_eq_ok] at h
  obtain ⟨_, ⟨-, hs, ha⟩, h⟩ := h
  cases ha
  cases h
  exact ⟨hs.symm, rfl, rfl⟩

theorem migrateMarket_eq {sender contract : Addr} {isotonicTokenId : Option ℕ}
    (h : Restricted.migrateMarket s sender contract isotonicTokenId = .ok (s', msgs)) :
    sender = s.config.govContract ∧ s' = s ∧
      msgs = [.migrate contract s.config.isotonicMarketId isotonicTokenId] := by
  simp only [Restricted.migrateMarket, bind_eq_ok, ensure_eq_ok] at h
  obtain ⟨-, hs, -, -, h⟩ := h
  cases h
  exact ⟨hs.symm, rfl, rfl⟩

theorem adjustIds_eq {sender : Addr} {change : Config → Config}
    (h : (do return (← Restricted.adjust s sender change, ([] : List Message))) = .ok (s', msgs)) :
    sender = s.config.govContract ∧ s' = { s with config := change s.config } ∧ msgs = [] := by
  simp only [Restricted.adjust, bind_eq_ok, ensure_eq_ok] at h
  obtain ⟨_, ⟨-, hs, ha⟩, h⟩ := h
  cases ha
  cases h
  exact ⟨hs.symm, rfl, rfl⟩

/-- Only governance governs. -/
theorem execute_governs (h : execute q info msg s = .ok (s', msgs)) (hg : msg.Governs) :
    info.sender = s.config.govContract := by
  cases msg with
  | createMarket cfg => exact (createMarket_eq h).1
  | adjustMarketId id | adjustTokenId id => exact (adjustIds_eq h).1
  | adjustCommonToken token => exact (adjustCommonToken_eq h).1
  | migrateMarket contract isotonicTokenId => exact (migrateMarket_eq h).1
  | liquidate | enterMarket | exitMarket | repayWithCollateral | receive => exact hg.elim

/-- All other messages leave the configuration alone. -/
theorem execute_plain (h : execute q info msg s = .ok (s', msgs)) (hg : ¬ msg.Governs) :
    s'.config = s.config ∧ msg.adjust s.config = s.config ∧ ∀ m ∈ msgs, m.Plain := by
  cases msg with
  | createMarket | adjustMarketId | adjustTokenId | adjustCommonToken | migrateMarket =>
    exact absurd trivial hg
  | liquidate account collateralDenom =>
    rw [execute] at h
    split at h
    · obtain ⟨rfl, hl⟩ := liquidate_spec h
      cases hl
      simp [ExecuteMsg.adjust, Message.Plain]
    · cases h
  | receive sender amount account collateralDenom =>
    obtain ⟨rfl, hl⟩ := liquidate_spec h
    cases hl
    simp [ExecuteMsg.adjust, Message.Plain]
  | enterMarket account =>
    cases h
    simp [ExecuteMsg.adjust, enterMarket]
  | exitMarket market =>
    obtain ⟨-, -, -, rfl, rfl⟩ := exitMarket_spec h
    simp [ExecuteMsg.adjust]
  | repayWithCollateral maxCollateral amountToRepay =>
    obtain ⟨rfl, _, _, rfl⟩ := repayWithCollateral_spec h
    simp [ExecuteMsg.adjust, Message.Plain]

end CreditAgency

/-! ## The machine -/

/-- What governance has decided: about the credit agency, and about each market. -/
structure Governance where
  config : CreditAgency.Config
  settings : Addr → Option Market.Config

namespace Governance

/-- The settings of one market are replaced. -/
def tell (g : Governance) (market : Addr) (change : Market.Config → Market.Config) : Governance :=
  { g with settings := Function.update g.settings market ((g.settings market).map change) }

/-- The settings that a market is created with. -/
def initial (address : Addr) (config : CreditAgency.Config) (env : Platform.Env)
    (cfg : CreditAgency.MarketConfig) : Option Market.Config :=
  cfg.interestRate.validate.toOption.map fun rates =>
    { ctokenContract := env.newCtoken
      governanceContract := config.govContract
      tokenId := config.isotonicTokenId
      marketToken := cfg.marketToken
      marketCap := cfg.marketCap
      rates
      interestChargePeriod := cfg.interestChargePeriod
      lastCharged := 0
      commonToken := config.commonToken
      collateralRatio := cfg.collateralRatio
      borrowLimitRatio := config.borrowLimitRatio
      priceOracle := cfg.priceOracle
      creditAgency := address
      reserveFactor := cfg.reserveFactor }

/-- What a successful transaction of governance decides. -/
def step (address : Addr) (g : Governance) (tx : Platform.Tx) : Governance :=
  match tx.action with
  | .market market _ msg => g.tell market msg.adjust
  | .agency _ msg =>
    let g := { g with config := msg.adjust g.config }
    match msg with
    | .createMarket cfg =>
      { g with settings :=
          Function.update g.settings tx.env.newMarket (initial address g.config tx.env cfg) }
    | .adjustCommonToken commonToken =>
      { g with settings := fun m => (g.settings m).map fun cfg => { cfg with commonToken } }
    | .migrateMarket market (some tokenId) => g.tell market fun cfg => { cfg with tokenId }
    | _ => g
  | .ctoken .. | .donate .. => g

variable {g : Governance} {market : Addr} {change : Market.Config → Market.Config}

/-- A change that changes nothing may as well not be told. -/
theorem tell_of_eq (h : ∀ cfg, change cfg = cfg) : g.tell market change = g := by
  have hid : change = id := funext h
  simp [tell, hid]

end Governance

namespace Platform

open CreditAgency

variable {env : Env} {tx : Tx} {txs : List Tx} {p p' : Platform} {market address : Addr}
  {sys sys' : Market.System} {info : Market.MessageInfo} {msg : Market.ExecuteMsg}
  {entered : List Addr} {config : Config} {token : Token}

/-- Who sent the transaction; a transfer does not say. -/
def Tx.sender (tx : Tx) : Option Addr :=
  match tx.action with
  | .agency info _ | .market _ info _ => some info.sender
  | .ctoken _ sender _ => some sender
  | .donate .. => none

def governance (p : Platform) : Governance where
  config := p.agency.config
  settings m := (p.markets.mayLoad m).map fun sys => sys.market.config.settings

@[simp] theorem governance_settings (found : p.markets.mayLoad market = some sys) :
    p.governance.settings market = some sys.market.config.settings := by
  simp [governance, found]

/-! ## One market moves -/

theorem governance_update {change : Market.Config → Market.Config}
    (found : p.markets.mayLoad market = some sys)
    (h : sys'.market.config.settings = change sys.market.config.settings) :
    (p.update market sys' entered).governance = p.governance.tell market change := by
  unfold governance Governance.tell
  rw [update_registry.1]
  refine congrArg (Governance.mk _) (funext fun m => ?_)
  simp only [update, Map.mayLoad_save, Function.update_apply]
  split_ifs with hm
  · simp [found, h]
  · rfl

theorem executeMarket_governance (h : executeMarket env market info msg p = .ok p') :
    p'.governance = p.governance.tell market msg.adjust := by
  obtain ⟨sys, sys', entered, found, he, rfl⟩ := executeMarket_spec h
  exact governance_update found (Market.System.execute_settings he)

theorem executeMarket_kept (h : executeMarket env market info msg p = .ok p')
    (hm : ¬ msg.Adjusts) : p'.governance = p.governance :=
  (executeMarket_governance h).trans (Governance.tell_of_eq (Market.ExecuteMsg.adjust_of_not hm))

theorem deliver_kept {m : CreditAgency.Message} (hm : m.Plain) (h : deliver env p m = .ok p') :
    p'.governance = p.governance := by
  cases m with
  | repayTo market coin account =>
    rw [deliver, repayTo] at h
    split at h
    · exact executeMarket_kept h (by simp [Market.ExecuteMsg.Adjusts])
    · exact executeMarket_kept h (by simp [Market.ExecuteMsg.Adjusts])
  | transferFrom | swapWithdrawFrom =>
    exact executeMarket_kept h (by simp [Market.ExecuteMsg.Adjusts])
  | instantiateMarket | adjustCommonToken | migrate => exact hm.elim

/-! ## All markets are told -/

/-- The markets in the list, and only these, get the new common token. -/
theorem adjustAll_governance {told : List Addr}
    (h : deliverAll env (told.map fun m => .adjustCommonToken m token) p = .ok p') :
    p'.governance = { p.governance with
      settings := fun m =>
        if m ∈ told then (p.governance.settings m).map fun cfg => { cfg with commonToken := token }
        else p.governance.settings m } := by
  induction told generalizing p with
  | nil =>
    cases h
    simp
  | cons first told ih =>
    obtain ⟨q, hq, h⟩ := bind_eq_ok.mp h
    have hfirst : q.governance = p.governance.tell first _ := executeMarket_governance hq
    rw [ih h, hfirst]
    refine congrArg (Governance.mk _) (funext fun m => ?_)
    by_cases hm : m = first
    · subst hm
      simp only [Governance.tell, Function.update_self, List.mem_cons, true_or, if_true]
      -- telling a market twice is telling it once
      cases p.governance.settings m <;> simp [Market.ExecuteMsg.adjust]
    · simp [Governance.tell, hm]

/-! ## Transactions -/

theorem governance_agency (p : Platform) (agency : State) :
    governance { p with agency } = { p.governance with config := agency.config } := rfl

/-- The settings of a market right after its instantiation. -/
theorem initial_eq {cfg : MarketConfig}
    (h : Market.System.instantiate address env.newMarket env.newCtoken env.time
      (config.instantiateMsg cfg) = .ok sys) :
    Governance.initial address config env cfg = some sys.market.config.settings := by
  simp only [Market.System.instantiate, Market.instantiate, Config.instantiateMsg, bind_eq_ok,
    mapError_eq_ok, pure_eq_ok] at h
  obtain ⟨_, ⟨rates, hrates, -, -, rfl⟩, rfl⟩ := h
  simp only [Governance.initial, hrates, Except.toOption, Option.map_some]
  rfl

/-- The machine need not hear of what anybody may send. -/
theorem step_plain {q : Querier} {msg : CreditAgency.ExecuteMsg} {agency : State}
    {msgs : List CreditAgency.Message}
    (he : CreditAgency.execute q info msg p.agency = .ok (agency, msgs))
    (hd : deliverAll env msgs { p with agency } = .ok p') (hg : ¬ msg.Governs) :
    p'.governance = p.governance := by
  obtain ⟨hconfig, -, hplain⟩ := execute_plain he hg
  refine deliverAll_preserve (I := fun q => q.governance = p.governance) hd ?_
    fun m hm _ _ hi hq => (deliver_kept (hplain m hm) hq).trans hi
  rw [governance_agency, hconfig]
  rfl

/-- The platform refines the machine, step by step. -/
theorem step_governance (hi : Corresponds p.address config p) (h : step tx p = .ok p') :
    p'.governance = p.governance.step p.address tx := by
  obtain ⟨env, action⟩ := tx
  cases action with
  | agency info msg =>
    simp only [step, bind_eq_ok, mapError_eq_ok] at h
    obtain ⟨⟨agency, msgs⟩, he, hd⟩ := h
    cases msg with
    | createMarket cfg =>
      obtain ⟨-, rfl, rfl⟩ := createMarket_eq he
      obtain ⟨q, hq, hd⟩ := bind_eq_ok.mp hd
      cases hd
      obtain ⟨-, sys, token, hs, -, rfl⟩ := instantiateMarket_spec hq
      refine congrArg (Governance.mk _) (funext fun m => ?_)
      have hinitial := initial_eq hs
      dsimp only at hinitial ⊢
      simp only [Map.mayLoad_save, Function.update_apply]
      split_ifs with hm
      · rw [Option.map_some, ← hinitial]
        rfl
      · rfl
    | adjustMarketId | adjustTokenId =>
      obtain ⟨-, rfl, rfl⟩ := adjustIds_eq he
      cases hd
      rfl
    | adjustCommonToken token =>
      obtain ⟨-, rfl, rfl⟩ := adjustCommonToken_eq he
      rw [adjustAll_governance hd]
      refine congrArg (Governance.mk _) (funext fun m => ?_)
      -- The registry knows every market, so that none is left out.
      split_ifs with hm
      · rfl
      · cases found : p.markets.mayLoad m with
        | none => simp [governance, found]
        | some sys =>
          obtain ⟨t, ht⟩ := hi.registered m sys found
          have hentry : m ∈ p.agency.markets.range.filterMap fun e => e.2.toAddr :=
            List.mem_filterMap.mpr ⟨_, Map.mem_range.mpr ht, rfl⟩
          exact absurd hentry hm
    | migrateMarket contract isotonicTokenId =>
      obtain ⟨-, rfl, rfl⟩ := migrateMarket_eq he
      obtain ⟨q, hq, hd⟩ := bind_eq_ok.mp hd
      cases hd
      simp only [deliver, Platform.migrate, bind_eq_ok, find_eq_ok, pure_eq_ok] at hq
      obtain ⟨sys, found, rfl⟩ := hq
      cases isotonicTokenId with
      | none => exact (governance_update found rfl).trans (Governance.tell_of_eq fun _ => rfl)
      | some tokenId => exact governance_update found rfl
    | liquidate | enterMarket | exitMarket | repayWithCollateral | receive =>
      exact step_plain he hd fun hg => hg
  | market market info msg => exact executeMarket_governance h
  | ctoken market sender msg =>
    simp only [step, bind_eq_ok, find_eq_ok, mapError_eq_ok, pure_eq_ok,
      Market.System.executeCtoken] at h
    obtain ⟨sys, found, _, ⟨_, -, rfl⟩, rfl⟩ := h
    exact (governance_update found rfl).trans (Governance.tell_of_eq fun _ => rfl)
  | donate market amount =>
    simp only [step, Market.System.step, bind_eq_ok, find_eq_ok, mapError_eq_ok, pure_eq_ok] at h
    obtain ⟨sys, found, _, ⟨_, -, rfl⟩, rfl⟩ := h
    exact (governance_update found rfl).trans (Governance.tell_of_eq fun _ => rfl)

/-- Nobody else moves the machine. -/
theorem step_ungoverned (hi : Corresponds p.address config p)
    (hconfig : p.agency.config.govContract = config.govContract) (hg : Genuine p tx)
    (hs : tx.sender ≠ some config.govContract) (h : step tx p = .ok p') :
    p'.governance = p.governance := by
  obtain ⟨env, action⟩ := tx
  cases action with
  | agency info msg =>
    simp only [step, bind_eq_ok, mapError_eq_ok] at h
    obtain ⟨⟨agency, msgs⟩, he, hd⟩ := h
    refine step_plain he hd fun hgoverns => hs ?_
    rw [← hconfig, ← execute_governs he hgoverns]
    rfl
  | market market info msg =>
    refine executeMarket_kept h fun hadjusts => ?_
    obtain ⟨sys, sys', entered, found, he, rfl⟩ := executeMarket_spec h
    obtain ⟨token, ht⟩ := hi.registered market sys found
    obtain ⟨_, hfound, hidentity⟩ := hi.ready token market ht
    cases found.symm.trans hfound
    rcases Market.System.execute_adjuster he hadjusts with hsender | hagency
    · have hgov := congrArg Market.Identity.governanceContract hidentity
      exact hs (congrArg some (hsender.trans hgov))
    · have hcreditAgency := congrArg Market.Identity.creditAgency hidentity
      exact hg (hagency.trans hcreditAgency)
  | ctoken | donate => exact step_governance hi h

/-- In every state that a run reaches, all that is configured in the credit agency and in its
markets is what the transactions sent by governance have decided, in their order: no other
transaction and no charge of interest has any part in it. -/
theorem governance_replay (h : Run step Genuine (start address config) txs p) :
    p.governance =
      (txs.filter fun tx => tx.sender = some config.govContract).foldl (Governance.step address)
        ⟨config, fun _ => none⟩ := by
  induction h with
  | nil =>
    refine congrArg (Governance.mk _) (funext fun m => ?_)
    rw [start, Map.mayLoad_empty]
    rfl
  | @snoc u v is tx hrun hg hs ih =>
    obtain ⟨⟨haddress, hconfig⟩, hi⟩ := run_corresponds hrun
    subst haddress
    rw [List.filter_append, List.foldl_append, ← ih]
    by_cases hsender : tx.sender = some config.govContract
    · rw [List.filter_singleton, decide_eq_true hsender]
      exact step_governance hi hs
    · rw [List.filter_singleton, decide_eq_false hsender]
      exact step_ungoverned hi (by rw [hconfig]; rfl) hg hsender hs

/-- Bob borrows two dollars on his atom, governance migrates the dollar market and changes
the common token, and the lender charges a year's interest. -/
def sampleGoverned : List Tx :=
  sampleCollateral sampleHalf ⟨600_000_000_000_000_000⟩ Decimal.zero 10 ++
    [sampleBorrow (sampleEnv "" "" sampleHalf) 2,
      ⟨sampleEnv "" "" sampleHalf, .agency ⟨"gov", []⟩ (.migrateMarket "usd market" (some 7))⟩,
      ⟨sampleEnv "" "" sampleHalf, .agency ⟨"gov", []⟩ (.adjustCommonToken (.native "eur"))⟩,
      ⟨sampleYear 1, .market "usd market" ⟨"lender", [("usd", 1)]⟩ .deposit⟩]

/-- Governance sent half of these transactions, and the others decided nothing. -/
theorem governance_replay_example : ∃ p,
    Run step Genuine (start "agency" sampleConfig) sampleGoverned p ∧
    (sampleGoverned.filter fun tx => tx.sender = some "gov").length = 4 ∧
    (p.governance.settings "usd market").map Market.Config.tokenId = some 7 ∧
    p.governance =
      (sampleGoverned.filter fun tx => tx.sender = some "gov").foldl (Governance.step "agency")
        ⟨sampleConfig, fun _ => none⟩ := by
  obtain ⟨p, hrun, hlength, htoken⟩ : ∃ p,
      Run step Genuine (start "agency" sampleConfig) sampleGoverned p ∧
      (sampleGoverned.filter fun tx => tx.sender = some "gov").length = 4 ∧
      (p.governance.settings "usd market").map Market.Config.tokenId = some 7 :=
    exists_run_of_runAll (by decide +kernel)
  exact ⟨p, hrun, hlength, htoken, governance_replay hrun⟩

end Platform

end WyndLend
