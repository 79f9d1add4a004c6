import WyndLend.Market.CreditLine
import WyndLend.Platform.Ratios

/-!
# One common token

The credit agency and every market store the common token on their own. A market gets
the agency's when it is created, and when governance changes it, the agency tells every
market that is ready. Within that transaction the markets that are still to be told lag
behind; at its end there are none.
-/

namespace WyndLend.CreditAgency

open CosmWasm Utils

/-- Wherever the message carries a common token, it is this one. -/
def Message.Carries (token : Token) : Message → Prop
  | .instantiateMarket _ _ msg => msg.commonToken = token
  | .adjustCommonToken _ newToken => newToken = token
  | .repayTo .. | .transferFrom .. | .swapWithdrawFrom .. | .migrate .. => True

/-- The markets that the messages tell of a common token. -/
def told (msgs : List Message) : List Addr :=
  msgs.filterMap fun msg =>
    match msg with
    | .adjustCommonToken market _ => some market
    | _ => none

variable {q : Querier} {info : Market.MessageInfo} {msg : ExecuteMsg} {s s' : State}
  {msgs : List Message}

/-- What a message of the agency does to its common token: it stays, or every ready market
is told, and in either case the messages carry the one that is stored. -/
structure Passes (s s' : State) (msgs : List Message) : Prop where
  carries : ∀ m ∈ msgs, m.Carries s'.config.commonToken
  ready : ∀ token market, s'.markets.mayLoad token = some (.ready market) →
    s.markets.mayLoad token = some (.ready market)
  told : s'.config.commonToken = s.config.commonToken ∨
    ∀ market, s'.Registered market → market ∈ told msgs

theorem passes_of_forward {config : Config} {enteredMarkets : Map Addr (BTreeSet Addr)}
    (hc : config.commonToken = s.config.commonToken)
    (hm : ∀ m ∈ msgs, m.Carries s.config.commonToken) :
    Passes s { s with config, enteredMarkets } msgs :=
  ⟨fun m h => hc ▸ hm m h, fun _ _ h => h, .inl hc⟩

theorem execute_passes (h : execute q info msg s = .ok (s', msgs)) : Passes s s' msgs := by
  cases execute_response h with
  | created sender ratio vacant =>
    refine ⟨?_, ?_, .inl rfl⟩
    · intro m hm
      cases List.mem_singleton.mp hm
      rfl
    · intro token market hready
      rw [State.reserve, Map.mayLoad_save] at hready
      split_ifs at hready
      · cases hready
      · exact hready
  | liquidated _ liquidation | received liquidation =>
    cases liquidation
    refine passes_of_forward rfl ?_
    intro m hm
    rcases List.mem_pair.mp hm with rfl | rfl <;> trivial
  | repaid =>
    refine passes_of_forward rfl ?_
    intro m hm
    rcases List.mem_pair.mp hm with rfl | rfl <;> trivial
  | entered | exited | idAdjusted =>
    exact passes_of_forward rfl fun m hm => absurd hm List.not_mem_nil
  | commonTokenAdjusted =>
    refine ⟨?_, fun _ _ hready => hready, .inr ?_⟩
    · intro m hm
      obtain ⟨market, -, rfl⟩ := List.mem_map.mp hm
      rfl
    · rintro market ⟨token, hready⟩
      have hentry : market ∈ s.markets.range.filterMap fun e => e.2.toAddr :=
        List.mem_filterMap.mpr ⟨_, Map.mem_range.mpr hready, rfl⟩
      exact List.mem_filterMap.mpr ⟨_, List.mem_map_of_mem hentry, rfl⟩
  | migrated =>
    refine passes_of_forward rfl ?_
    intro m hm
    cases List.mem_singleton.mp hm
    trivial

end WyndLend.CreditAgency

namespace WyndLend.Platform

open CosmWasm Utils CreditAgency

variable {env : Env} {tx : Tx} {txs : List Tx} {p p' : Platform} {market account address : Addr}
  {sys sys' : Market.System} {info : Market.MessageInfo} {msg : Market.ExecuteMsg}
  {entered rest : List Addr} {msgs : List CreditAgency.Message} {config : CreditAgency.Config}

/-- Every ready market has the common token of the agency, except those in `rest`. -/
def AgreeExcept (p : Platform) (rest : List Addr) : Prop :=
  ∀ token market, p.agency.markets.mayLoad token = some (.ready market) →
    ∃ sys, p.markets.mayLoad market = some sys ∧
      (sys.market.config.commonToken = p.agency.config.commonToken ∨ market ∈ rest)

theorem agree_start : AgreeExcept (start address config) [] := by
  intro token market hready
  cases (Map.mayLoad_empty token).symm.trans hready

/-- One market in a new state, which lags behind only if it did and is still in `rest`. -/
theorem update_agree {rest' : List Addr} (hi : AgreeExcept p rest)
    (found : p.markets.mayLoad market = some sys)
    (hnew : sys.market.config.commonToken = p.agency.config.commonToken ∨ market ∈ rest →
      sys'.market.config.commonToken = p.agency.config.commonToken ∨ market ∈ rest')
    (hrest : ∀ m ∈ rest, m ≠ market → m ∈ rest') :
    AgreeExcept (p.update market sys' entered) rest' := by
  intro token m hready
  rw [update_registry.2] at hready
  obtain ⟨s, hs, hagree⟩ := hi token m hready
  rw [update_registry.1]
  by_cases hm : m = market
  · subst hm
    cases found.symm.trans hs
    exact ⟨sys', Map.mayLoad_save_self _ _ _, hnew hagree⟩
  · exact ⟨s, (Map.mayLoad_save_ne _ _ hm).trans hs, hagree.imp_right fun h => hrest m h hm⟩

/-- A market that keeps its common token. -/
theorem keep_agree (hi : AgreeExcept p rest) (found : p.markets.mayLoad market = some sys)
    (hsame : sys'.market.config.commonToken = sys.market.config.commonToken) :
    AgreeExcept (p.update market sys' entered) rest :=
  update_agree hi found (by rw [hsame]; exact id) fun _ h _ => h

theorem execute_agree (hi : AgreeExcept p rest) (h : executeMarket env market info msg p = .ok p')
    (hmsg : ∀ token, msg ≠ .adjustCommonToken token) :
    AgreeExcept p' rest ∧ p'.agency.config = p.agency.config := by
  obtain ⟨sys, sys', entered, hf, he, rfl⟩ := executeMarket_spec h
  exact ⟨keep_agree hi hf (Market.System.execute_commonToken he hmsg), update_registry.1⟩

theorem instantiate_commonToken {sender ctoken : Addr} {time : ℕ} {m : Market.InstantiateMsg}
    (h : Market.System.instantiate sender market ctoken time m = .ok sys) :
    sys.market.config.commonToken = m.commonToken := by
  simp only [Market.System.instantiate, Market.instantiate, bind_eq_ok, mapError_eq_ok,
    ensure_eq_ok, pure_eq_ok] at h
  obtain ⟨_, ⟨_, -, -, -, rfl⟩, rfl⟩ := h
  rfl

/-- Delivering a message that tells a market takes it off the list. -/
theorem deliver_agree {m : CreditAgency.Message} (h : deliver env p m = .ok p')
    (hm : m.Carries p.agency.config.commonToken) (hi : AgreeExcept p (told [m] ++ rest)) :
    AgreeExcept p' rest ∧ p'.agency.config = p.agency.config := by
  cases m with
  | instantiateMarket replyId codeId msg =>
    obtain ⟨hfresh, sys, token, hs, -, rfl⟩ := instantiateMarket_spec h
    refine ⟨?_, rfl⟩
    intro token' market hready
    dsimp only at hready ⊢
    rw [Map.mayLoad_save] at hready
    split_ifs at hready with htoken
    · cases hready
      exact ⟨sys, Map.mayLoad_save_self _ _ _, .inl ((instantiate_commonToken hs).trans hm)⟩
    · obtain ⟨s, hs', hagree⟩ := hi token' market hready
      refine ⟨s, (Map.mayLoad_save_ne _ _ ?_).trans hs', hagree⟩
      rintro rfl
      rw [hfresh] at hs'
      cases hs'
  | repayTo market coin account =>
    rw [deliver, repayTo] at h
    split at h
    · exact execute_agree hi h (by simp)
    · exact execute_agree hi h (by simp)
  | transferFrom => exact execute_agree hi h (by simp)
  | swapWithdrawFrom => exact execute_agree hi h (by simp)
  | adjustCommonToken market newToken =>
    obtain ⟨sys, sys', entered, hf, he, rfl⟩ := executeMarket_spec h
    obtain ⟨-, hnew⟩ := Market.System.execute_adjustCommonToken he
    refine ⟨update_agree hi hf (fun _ => .inl (hnew.trans hm)) ?_, update_registry.1⟩
    intro other hother hne
    rcases List.mem_cons.mp hother with heq | hother
    · exact absurd heq hne
    · exact hother
  | migrate market _ isotonicTokenId =>
    simp only [deliver, Platform.migrate, bind_eq_ok, find_eq_ok, pure_eq_ok] at h
    obtain ⟨sys, hf, rfl⟩ := h
    refine ⟨keep_agree hi hf ?_, update_registry.1⟩
    cases isotonicTokenId <;> rfl

/-- Once all messages are delivered, every market has been told. -/
theorem deliverAll_agree (h : deliverAll env msgs p = .ok p')
    (hm : ∀ m ∈ msgs, m.Carries p.agency.config.commonToken) (hi : AgreeExcept p (told msgs)) :
    AgreeExcept p' [] := by
  induction msgs generalizing p with
  | nil =>
    cases h
    exact hi
  | cons m msgs ih =>
    obtain ⟨q, hq, h⟩ := bind_eq_ok.mp h
    have hsplit : told ([m] ++ msgs) = told [m] ++ told msgs := by
      unfold told
      exact List.filterMap_append
    rw [← List.singleton_append, hsplit] at hi
    obtain ⟨hnext, hconfig⟩ := deliver_agree hq (hm m List.mem_cons_self) hi
    refine ih h ?_ hnext
    intro m' hm'
    rw [hconfig]
    exact hm m' (List.mem_cons_of_mem _ hm')

/-- Nobody but the credit agency sends messages under its address. -/
def Authentic (p : Platform) (tx : Tx) : Prop :=
  match tx.action with
  | .market _ info _ => info.sender ≠ p.address
  | _ => True

instance (p : Platform) (tx : Tx) : Decidable (Authentic p tx) :=
  match tx with
  | ⟨_, .market _ info _⟩ => inferInstanceAs (Decidable (info.sender ≠ p.address))
  | ⟨_, .agency ..⟩ | ⟨_, .ctoken ..⟩ | ⟨_, .donate ..⟩ => .isTrue trivial

theorem step_agree (hl : Linked p) (hi : AgreeExcept p []) (hg : Authentic p tx)
    (h : step tx p = .ok p') : AgreeExcept p' [] := by
  obtain ⟨env, action⟩ := tx
  cases action with
  | agency info msg =>
    simp only [step, bind_eq_ok, mapError_eq_ok] at h
    obtain ⟨⟨agency, msgs⟩, he, hd⟩ := h
    obtain ⟨hcarries, hready, htold⟩ := execute_passes he
    refine deliverAll_agree hd hcarries ?_
    intro token market hm
    obtain ⟨sys, hf, hagree⟩ := hi token market (hready token market hm)
    refine ⟨sys, hf, ?_⟩
    rcases htold with hsame | hall
    · exact .inl ((hagree.resolve_right List.not_mem_nil).trans hsame.symm)
    · exact .inr (hall market ⟨token, hm⟩)
  | market address info msg =>
    refine (execute_agree hi h ?_).1
    rintro token rfl
    -- Only the agency may do this, and it does not send the message from outside.
    obtain ⟨sys, sys', entered, hf, he, -⟩ := executeMarket_spec h
    obtain ⟨hsender, -⟩ := Market.System.execute_adjustCommonToken he
    exact hg (hsender.trans (hl.creditAgency address sys hf))
  | ctoken market sender msg =>
    simp only [step, bind_eq_ok, find_eq_ok, mapError_eq_ok, pure_eq_ok,
      Market.System.executeCtoken] at h
    obtain ⟨sys, hf, _, ⟨_, _, rfl⟩, rfl⟩ := h
    exact keep_agree hi hf rfl
  | donate market amount =>
    simp only [step, Market.System.step, bind_eq_ok, find_eq_ok, mapError_eq_ok, pure_eq_ok] at h
    obtain ⟨sys, hf, _, ⟨_, _, rfl⟩, rfl⟩ := h
    exact keep_agree hi hf rfl

/-! ## What the agency can fail with -/

/-- A registered market answers in the common token, or its query fails. -/
theorem creditLine_answers (env : Env) (account : Addr) (hi : AgreeExcept p [])
    (hr : p.agency.Registered market) :
    (p.querier env).creditLine market account = .error .querier ∨
      ∃ v : CreditLineValues, (p.querier env).creditLine market account =
        .ok (v.makeResponse p.agency.config.commonToken) := by
  obtain ⟨token, hready⟩ := hr
  obtain ⟨sys, hf, hagree⟩ := hi token market hready
  have hcommon := hagree.resolve_right List.not_mem_nil
  simp only [querier, hf]
  cases hline : Market.Query.creditLine (sys.querier env.leaf) sys.market env.time account with
  | error e => exact .inl rfl
  | ok response =>
    obtain ⟨v, rfl⟩ := Market.creditLine_denom hline
    exact .inr ⟨v, by rw [hcommon]; rfl⟩

theorem creditLines_error {markets : List Addr} {e : CreditAgency.Error} (hi : AgreeExcept p [])
    (hr : ∀ market ∈ markets, p.agency.Registered market)
    (h : Query.creditLines (p.querier env) p.agency.config.commonToken account markets =
      .error e) : e = .querier := by
  obtain ⟨market, hm, h⟩ := mapM_error h
  unfold Query.creditLine at h
  rcases creditLine_answers env account hi (hr market hm) with hq | ⟨v, hv⟩
  · rw [hq] at h
    cases h
    rfl
  · rw [hv] at h
    simp only [bind, Except.bind, CreditLineValues.validate_makeResponse] at h
    cases h

/-- The total credit line of an account that entered ready markets fails only because a
market cannot answer or because the sum is too large. -/
theorem totalCreditLine_error {e : CreditAgency.Error} (hi : AgreeExcept p [])
    (hr : ∀ market ∈ p.agency.entered account, p.agency.Registered market)
    (h : p.totalCreditLine env account = .error e) : e = .querier ∨ e = .fault .overflow := by
  unfold totalCreditLine Query.totalCreditLine at h
  rcases bind_eq_error.mp h with h | ⟨values, -, h⟩
  · exact .inl (creditLines_error hi hr h)
  · rcases bind_eq_error.mp h with h | ⟨total, -, h⟩
    · exact .inr (CreditLineValues.sum_error h)
    · cases h

/-- As `totalCreditLine_error`; the other errors of `ExitMarket` are its own checks. -/
theorem exitMarket_error {e : CreditAgency.Error} (hi : AgreeExcept p [])
    (hr : ∀ market ∈ p.agency.entered account, p.agency.Registered market)
    (h : exitMarket (p.querier env) p.agency account market = .error e) :
    e = .querier ∨ e = .fault .overflow ∨ e = .notOnMarket account market ∨
      (∃ debt, e = .debtOnMarket account market debt) ∨
      ∃ reduced : CreditLineValues,
        e = .notEnoughCollat reduced.debt reduced.creditLine reduced.collateral := by
  simp only [exitMarket, bind_eq_error] at h
  obtain h | ⟨_, hm, h | ⟨response, -, h | ⟨_, -, h | ⟨values, -, h | ⟨reduced, -, h |
    ⟨_, -, h⟩⟩⟩⟩⟩⟩ := h
  · exact .inr (.inr (.inl (ensure_eq_error h)))
  · rcases creditLine_answers env account hi
      (hr market (ensure_eq_ok.mp hm)) with hq | ⟨v, hv⟩
    · rw [hq] at h
      cases h
      exact .inl rfl
    · rw [hv] at h
      cases h
  · exact .inr (.inr (.inr (.inl ⟨_, ensure_eq_error h⟩)))
  · exact .inl (creditLines_error hi (fun m h' => hr m (BTreeSet.mem_remove.mp h').2) h)
  · exact .inr (.inl (CreditLineValues.sum_error h))
  · exact .inr (.inr (.inr (.inr ⟨reduced, ensure_eq_error h⟩)))
  · cases h

/-- In every run in which the agency alone uses its address, every market that is ready has
the agency's common token, and an account that entered only ready markets never gets
`InvalidCommonTokenDenom` for its total credit line or for leaving a market. -/
theorem common_token_agrees (h : Run step Authentic (start address config) txs p) :
    (∀ token market, p.agency.markets.mayLoad token = some (.ready market) →
      ∃ sys, p.markets.mayLoad market = some sys ∧
        sys.market.config.commonToken = p.agency.config.commonToken) ∧
    ∀ env account, (∀ market ∈ p.agency.entered account, p.agency.Registered market) →
      ∀ e : InvalidCommonTokenDenom,
        p.totalCreditLine env account ≠ .error (.invalidCommonTokenDenom e) ∧
        ∀ market funds, CreditAgency.execute (p.querier env) ⟨account, funds⟩
          (.exitMarket market) p.agency ≠ .error (.invalidCommonTokenDenom e) := by
  have hboth : Linked p ∧ AgreeExcept p [] := by
    refine h.invariant (I := fun p => Linked p ∧ AgreeExcept p []) ⟨linked_start, agree_start⟩
      fun _ _ _ hi hg hs => ⟨step_linked hi.1 hs, step_agree hi.1 hi.2 hg hs⟩
  obtain ⟨-, hi⟩ := hboth
  refine ⟨?_, ?_⟩
  · intro token market hready
    obtain ⟨sys, hf, hagree⟩ := hi token market hready
    exact ⟨sys, hf, hagree.resolve_right List.not_mem_nil⟩
  · intro env account hr e
    refine ⟨?_, ?_⟩
    · intro herror
      rcases totalCreditLine_error hi hr herror with he | he <;> cases he
    · intro market funds herror
      obtain he | he | he | ⟨_, he⟩ | ⟨_, he⟩ := exitMarket_error hi hr herror <;> cases he

/-- A market for atom in which Alice has ctokens, another common token, and then a market
for juno. -/
def newTokenTxs : List Tx :=
  [⟨sampleEnv "atom market" "atom ctoken" Decimal.one,
      .agency ⟨"gov", []⟩ (.createMarket (sampleMarket "atom"))⟩,
    ⟨sampleEnv "" "" Decimal.one, .market "atom market" ⟨"alice", [("atom", 10)]⟩ .deposit⟩,
    ⟨sampleEnv "" "" Decimal.one, .agency ⟨"gov", []⟩ (.adjustCommonToken (.native "eur"))⟩,
    ⟨sampleEnv "juno market" "juno ctoken" Decimal.one,
      .agency ⟨"gov", []⟩ (.createMarket (sampleMarket "juno"))⟩]

theorem common_token_agrees_example : ∃ p sys,
    Run step Authentic (start "agency" sampleConfig) newTokenTxs p ∧
    p.markets.mayLoad "atom market" = some sys ∧
    (p.agency.config.commonToken = .native "eur" ∧ "atom market" ∈ p.agency.entered "alice") ∧
    sys.market.config.commonToken = p.agency.config.commonToken ∧
    ∀ env e, p.totalCreditLine env "alice" ≠ .error (.invalidCommonTokenDenom e) := by
  obtain ⟨p, hrun, hready, htoken, hentered, hall⟩ : ∃ p,
      Run step Authentic (start "agency" sampleConfig) newTokenTxs p ∧
      p.agency.markets.mayLoad (.native "atom") = some (.ready "atom market") ∧
      p.agency.config.commonToken = .native "eur" ∧
      "atom market" ∈ p.agency.entered "alice" ∧
      ∀ market ∈ (p.agency.entered "alice").toList, p.agency.Registered market :=
    exists_run_of_runAll (by decide +kernel)
  obtain ⟨hmarkets, hlines⟩ := common_token_agrees hrun
  obtain ⟨sys, hf, hagree⟩ := hmarkets _ _ hready
  exact ⟨p, sys, hrun, hf, ⟨htoken, hentered⟩, hagree, fun env e => (hlines env "alice" hall e).1⟩

end WyndLend.Platform
