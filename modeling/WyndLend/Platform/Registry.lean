import WyndLend.Market.Isolation
import WyndLend.Platform.Ratios

/-!
# The registry and the contracts

A market is instantiated under the credit agency's own parameters, and the reply stores
its address under its token. From then on nobody changes the token, the governance
contract or the reward token of a market, and nobody registers it again. The registry and
the instantiated markets therefore correspond one to one.
-/

namespace WyndLend

open CosmWasm Utils

/-! ## What a market is for good -/

namespace Market

/-- The parameters of a market and its ctokens that no message changes. -/
structure Identity where
  address : Addr
  /-- The controller of the ctokens. -/
  controller : Addr
  rewardToken : Token
  marketToken : Token
  creditAgency : Addr
  governanceContract : Addr
  borrowLimitRatio : Decimal
  deriving DecidableEq

namespace System

def identity (sys : System) : Identity where
  address := sys.address
  controller := sys.ctoken.controller
  rewardToken := sys.ctoken.distribution.denom
  marketToken := sys.market.config.marketToken
  creditAgency := sys.market.config.creditAgency
  governanceContract := sys.market.config.governanceContract
  borrowLimitRatio := sys.market.config.borrowLimitRatio

end System

end Market

namespace Ctoken

/-- The reward token is set once, as the controller is. -/
theorem execute_denom {q : Querier} {self sender : Addr} {msg : ExecuteMsg} {s s' : State}
    {msgs : List Message} (h : execute q self sender msg s = .ok (s', msgs)) :
    s'.distribution.denom = s.distribution.denom := by
  cases execute_outcome h with
  | transferred _ _ taken given _ => rw [given.distribution, taken.distribution]
  | minted _ _ _ given _ => exact congrArg _ given.distribution
  | burned _ _ _ taken _ => exact congrArg _ taken.distribution
  | distributed _ _ _ denom => exact denom
  | rebased | idle | withdrew => rfl

end Ctoken

namespace Market.System

variable {env : Env} {info : MessageInfo} {msg : ExecuteMsg} {sys sys' : System}
  {entered : List Addr}

theorem execute_identity (h : execute env info msg sys = .ok (sys', entered)) :
    sys'.identity = sys.identity := by
  have hctoken := execute_ctoken
    (I := fun s => s.controller = sys.ctoken.controller ∧
      s.distribution.denom = sys.ctoken.distribution.denom)
    (fun he hi => ⟨(Ctoken.execute_controller he).trans hi.1, (Ctoken.execute_denom he).trans hi.2⟩)
    h ⟨rfl, rfl⟩
  obtain ⟨_, holdings, -, -, hout⟩ := execute_outcome h
  have haddress := outcome_address hout
  have hconfig := outcome_config hout
    (f := fun cfg => (cfg.marketToken, cfg.creditAgency, cfg.governanceContract,
      cfg.borrowLimitRatio))
    (fun _ _ => rfl) (fun _ _ => rfl) fun _ hadj => by cases hadj <;> rfl
  simp only [Prod.mk.injEq] at hconfig
  obtain ⟨htoken, hagency, hgov, hlimit⟩ := hconfig
  simp only [identity, haddress, hctoken, htoken, hagency, hgov, hlimit]

/-- Nothing that happens to a market changes what it is. -/
theorem step_identity {tx : Tx} (h : step tx sys = .ok sys') : sys'.identity = sys.identity := by
  cases step_transition h with
  | executed _ executed => exact execute_identity executed
  | ctoken _ executed =>
    simp only [identity, Ctoken.execute_controller executed, Ctoken.execute_denom executed]
  | donated _ credited =>
    obtain ⟨hct, -⟩ := Holdings.receive_eq_ok.mp credited
    simp only [identity, hct]

theorem instantiate_identity {sender address ctoken : Addr} {time : ℕ} {m : InstantiateMsg}
    (h : instantiate sender address ctoken time m = .ok sys) :
    sys.identity = ⟨address, address, m.distributedToken, m.marketToken, sender, m.govContract,
      m.borrowLimitRatio⟩ := by
  simp only [instantiate, Market.instantiate, bind_eq_ok, mapError_eq_ok, ensure_eq_ok,
    pure_eq_ok] at h
  obtain ⟨_, ⟨_, -, -, -, rfl⟩, rfl⟩ := h
  rfl

end Market.System

/-! ## What the credit agency is for good -/

namespace CreditAgency

variable {q : Querier} {info : Market.MessageInfo} {msg : ExecuteMsg} {s s' : State}
  {msgs : List Message}

/-- The configuration with what governance may adjust taken from elsewhere. -/
def Config.adjusted (config other : Config) : Config :=
  { config with
    isotonicMarketId := other.isotonicMarketId
    isotonicTokenId := other.isotonicTokenId
    commonToken := other.commonToken }

/-- Governance adjusts the code ids and the common token, and nothing else. -/
theorem execute_config (h : execute q info msg s = .ok (s', msgs)) :
    s'.config = s.config.adjusted s'.config := by
  cases execute_response h <;> rfl

end CreditAgency

namespace Platform

open CreditAgency

variable {env : Env} {tx : Tx} {txs : List Tx} {p p' : Platform} {market address : Addr}
  {token : Token} {sys : Market.System} {config : Config}

theorem deliver_config {m : CreditAgency.Message} (h : deliver env p m = .ok p') :
    p'.agency.config = p.agency.config ∧ p'.address = p.address := by
  cases m with
  | instantiateMarket =>
    obtain ⟨-, _, _, -, -, rfl⟩ := instantiateMarket_spec h
    exact ⟨rfl, rfl⟩
  | repayTo market coin account =>
    rw [deliver, repayTo] at h
    split at h
    · obtain ⟨_, _, _, -, -, rfl⟩ := executeMarket_spec h
      exact ⟨update_registry.1, rfl⟩
    · obtain ⟨_, _, _, -, -, rfl⟩ := executeMarket_spec h
      exact ⟨update_registry.1, rfl⟩
  | transferFrom | swapWithdrawFrom | adjustCommonToken =>
    obtain ⟨_, _, _, -, -, rfl⟩ := executeMarket_spec h
    exact ⟨update_registry.1, rfl⟩
  | migrate =>
    simp only [deliver, Platform.migrate, bind_eq_ok, find_eq_ok, pure_eq_ok] at h
    obtain ⟨_, -, rfl⟩ := h
    exact ⟨update_registry.1, rfl⟩

theorem step_config (h : step tx p = .ok p') :
    p'.agency.config = p.agency.config.adjusted p'.agency.config ∧ p'.address = p.address := by
  have hsame : ∀ q : Platform, q.agency.config = p.agency.config →
      q.agency.config = p.agency.config.adjusted q.agency.config := fun q hq => by rw [hq]; rfl
  obtain ⟨env, action⟩ := tx
  cases action with
  | agency info msg =>
    simp only [step, bind_eq_ok, mapError_eq_ok] at h
    obtain ⟨⟨agency, msgs⟩, he, hd⟩ := h
    obtain ⟨hconfig, haddress⟩ := deliverAll_preserve
      (I := fun q => q.agency.config = agency.config ∧ q.address = p.address) hd ⟨rfl, rfl⟩
      fun _ _ _ _ hi hq => ⟨(deliver_config hq).1.trans hi.1, (deliver_config hq).2.trans hi.2⟩
    rw [hconfig]
    exact ⟨execute_config he, haddress⟩
  | market market info msg =>
    obtain ⟨_, _, _, -, -, rfl⟩ := executeMarket_spec h
    exact ⟨hsame _ update_registry.1, rfl⟩
  | ctoken | donate =>
    simp only [step, bind_eq_ok, pure_eq_ok] at h
    obtain ⟨_, -, _, -, rfl⟩ := h
    exact ⟨hsame _ update_registry.1, rfl⟩

/-! ## The registry -/

/-- What the market of a token is, given the parameters of the credit agency. -/
def identityOf (address : Addr) (config : Config) (token : Token) (market : Addr) :
    Market.Identity :=
  ⟨market, market, config.rewardToken, token, address, config.govContract, config.borrowLimitRatio⟩

/-- Every entry is the market of its token, and every market has an entry. -/
structure Corresponds (address : Addr) (config : Config) (p : Platform) : Prop where
  settled : ∀ token, p.agency.markets.mayLoad token ≠ some .instantiating
  ready : ∀ token market, p.agency.markets.mayLoad token = some (.ready market) →
    ∃ sys, p.markets.mayLoad market = some sys ∧
      sys.identity = identityOf address config token market
  registered : ∀ market sys, p.markets.mayLoad market = some sys →
    ∃ token, p.agency.markets.mayLoad token = some (.ready market)

namespace Corresponds

variable {sys' : Market.System} {entered : List Addr}

theorem start : Corresponds address config (start address config) where
  settled token h := by cases (Map.mayLoad_empty token).symm.trans h
  ready token market h := by cases (Map.mayLoad_empty token).symm.trans h
  registered _ _ h := absurd h not_found_start

/-- A market that moves stays the market of its token. -/
theorem update (hi : Corresponds address config p) (found : p.markets.mayLoad market = some sys)
    (hsame : sys'.identity = sys.identity) :
    Corresponds address config (p.update market sys' entered) where
  settled token := by
    rw [update_registry.2]
    exact hi.settled token
  ready token m h := by
    rw [update_registry.2] at h
    obtain ⟨s, hs, hidentity⟩ := hi.ready token m h
    by_cases hm : m = market
    · subst hm
      cases found.symm.trans hs
      exact ⟨sys', Map.mayLoad_save_self _ _ _, hsame.trans hidentity⟩
    · exact ⟨s, (Map.mayLoad_save_ne _ _ hm).trans hs, hidentity⟩
  registered m s hs := by
    rw [update_registry.2]
    by_cases hm : m = market
    · subst hm
      exact hi.registered m sys found
    · exact hi.registered m s ((Map.mayLoad_save_ne _ _ hm).symm.trans hs)

/-- The creation of a market adds its entry, for a token that had none. -/
theorem create {agency : State} {s : Market.System} (hi : Corresponds address config p)
    (vacant : p.agency.markets.mayLoad token = none)
    (fresh : p.markets.mayLoad market = none)
    (hmarkets : agency.markets = (p.agency.reserve token).markets.save token (.ready market))
    (hidentity : s.identity = identityOf address config token market) :
    Corresponds address config { p with agency, markets := p.markets.save market s } := by
  have hother : ∀ t, t ≠ token → agency.markets.mayLoad t = p.agency.markets.mayLoad t := by
    intro t ht
    rw [hmarkets, Map.mayLoad_save_ne _ _ ht]
    exact Map.mayLoad_save_ne _ _ ht
  have hself : agency.markets.mayLoad token = some (.ready market) := by
    rw [hmarkets]
    exact Map.mayLoad_save_self _ _ _
  refine ⟨?_, ?_, ?_⟩
  · intro t
    dsimp only
    by_cases ht : t = token
    · subst ht
      simp [hself]
    · rw [hother t ht]
      exact hi.settled t
  · intro t m h
    dsimp only at h
    by_cases ht : t = token
    · subst ht
      cases hself.symm.trans h
      exact ⟨s, Map.mayLoad_save_self _ _ _, hidentity⟩
    · rw [hother t ht] at h
      obtain ⟨s', hs', hsame⟩ := hi.ready t m h
      refine ⟨s', (Map.mayLoad_save_ne _ _ ?_).trans hs', hsame⟩
      rintro rfl
      cases fresh.symm.trans hs'
  · intro m s' hs'
    by_cases hm : m = market
    · subst hm
      exact ⟨token, hself⟩
    · obtain ⟨t, ht⟩ := hi.registered m s' ((Map.mayLoad_save_ne _ _ hm).symm.trans hs')
      refine ⟨t, (hother t ?_).trans ht⟩
      rintro rfl
      cases vacant.symm.trans ht

theorem call (hi : Corresponds address config p) (h : Call env p p') :
    Corresponds address config p' := by
  cases h with
  | execute found _ executed => exact hi.update found (Market.System.execute_identity executed)
  | @migrate market sys isotonicTokenId found =>
    refine hi.update found ?_
    cases isotonicTokenId <;> rfl

theorem step (hi : Corresponds address config p)
    (hagency : p.address = address ∧ p.agency.config = config.adjusted p.agency.config)
    (h : step tx p = .ok p') : Corresponds address config p' := by
  obtain ⟨env, action⟩ := tx
  cases action with
  | agency info msg =>
    simp only [Platform.step, bind_eq_ok, mapError_eq_ok] at h
    obtain ⟨⟨agency, msgs⟩, he, hd⟩ := h
    cases CreditAgency.execute_outcome he with
    | @created cfg _ _ vacant =>
      obtain ⟨q, hq, hd⟩ := bind_eq_ok.mp hd
      cases hd
      obtain ⟨fresh, s, t, hs, ht, rfl⟩ := instantiateMarket_spec hq
      cases (Map.mayLoad_save_self _ _ _).symm.trans ht
      refine hi.create vacant fresh rfl ?_
      rw [Market.System.instantiate_identity hs, hagency.1, hagency.2]
      rfl
    | entered =>
      cases hd
      exact ⟨hi.settled, hi.ready, hi.registered⟩
    | exited =>
      cases hd
      exact ⟨hi.settled, hi.ready, hi.registered⟩
    | forwarded _ _ none =>
      exact calls_preserve (deliverAll_calls hd none)
        ⟨hi.settled, hi.ready, hi.registered⟩ fun _ _ => call
  | market market info msg =>
    obtain ⟨sys, sys', entered, found, he, rfl⟩ := executeMarket_spec h
    exact hi.update found (Market.System.execute_identity he)
  | ctoken market sender msg =>
    simp only [Platform.step, bind_eq_ok, find_eq_ok, mapError_eq_ok, pure_eq_ok] at h
    obtain ⟨sys, found, sys', he, rfl⟩ := h
    have hstep : Market.System.step ⟨p.marketEnv env, .ctoken sender msg⟩ sys = .ok sys' := he
    exact hi.update found (Market.System.step_identity hstep)
  | donate market amount =>
    simp only [Platform.step, bind_eq_ok, find_eq_ok, mapError_eq_ok, pure_eq_ok] at h
    obtain ⟨sys, found, sys', he, rfl⟩ := h
    exact hi.update found (Market.System.step_identity he)

end Corresponds

/-- The credit agency is who it was at the start, and its registry corresponds. -/
theorem run_corresponds {guard : Platform → Tx → Prop}
    (h : Run step guard (start address config) txs p) :
    (p.address = address ∧ p.agency.config = config.adjusted p.agency.config) ∧
      Corresponds address config p := by
  refine h.invariant (I := fun q => (q.address = address ∧
    q.agency.config = config.adjusted q.agency.config) ∧ Corresponds address config q)
    ⟨⟨rfl, rfl⟩, .start⟩ ?_
  rintro u tx v ⟨⟨haddress, hconfig⟩, hi⟩ - hs
  obtain ⟨hconfig', haddress'⟩ := step_config hs
  refine ⟨⟨haddress'.trans haddress, ?_⟩, hi.step ⟨haddress, hconfig⟩ hs⟩
  rw [hconfig', hconfig]
  rfl

/-- In every state that a run reaches, the registry and the instantiated markets correspond
one to one, no creation is left half done, and each market still is what the credit agency
instantiated it as: of its token, with its own ctokens, the rewards and the governance of the
credit agency, whose own parameters are also the ones it started with. -/
theorem registry_corresponds {guard : Platform → Tx → Prop}
    (h : Run step guard (start address config) txs p) :
    p.agency.config = config.adjusted p.agency.config ∧
    (∀ token, p.agency.markets.mayLoad token ≠ some .instantiating) ∧
    (∀ token market, p.agency.markets.mayLoad token = some (.ready market) →
      ∃ sys, p.markets.mayLoad market = some sys ∧
        sys.identity = identityOf address config token market) ∧
    ∀ market sys, p.markets.mayLoad market = some sys →
      ∃! token, p.agency.markets.mayLoad token = some (.ready market) := by
  obtain ⟨⟨-, hconfig⟩, hi⟩ := run_corresponds h
  refine ⟨hconfig, hi.settled, hi.ready, ?_⟩
  intro market sys found
  obtain ⟨token, ht⟩ := hi.registered market sys found
  refine ⟨token, ht, ?_⟩
  intro token' ht'
  -- The market of a token knows its token.
  obtain ⟨s, hs, hidentity⟩ := hi.ready token market ht
  obtain ⟨s', hs', hidentity'⟩ := hi.ready token' market ht'
  cases hs.symm.trans hs'
  exact congrArg Market.Identity.marketToken (hidentity'.symm.trans hidentity)

/-- The atom market is that of atom alone, also after governance has adjusted it. -/
theorem registry_corresponds_example : ∃ p sys,
    Run step (fun _ _ => True) (start "agency" sampleConfig) (sampleTxs Decimal.one) p ∧
    p.markets.mayLoad "atom market" = some sys ∧
    sys.identity = identityOf "agency" sampleConfig (.native "atom") "atom market" ∧
    ∃! token, p.agency.markets.mayLoad token = some (.ready "atom market") := by
  obtain ⟨p, hrun, hready⟩ : ∃ p, Run step (fun _ _ => True) (start "agency" sampleConfig)
      (sampleTxs Decimal.one) p ∧
      p.agency.markets.mayLoad (.native "atom") = some (.ready "atom market") :=
    exists_run_of_runAll (by decide +kernel)
  obtain ⟨-, -, hmember, hunique⟩ := registry_corresponds hrun
  obtain ⟨sys, found, hidentity⟩ := hmember _ _ hready
  exact ⟨p, sys, hrun, found, hidentity, hunique _ sys found⟩

end Platform

end WyndLend
