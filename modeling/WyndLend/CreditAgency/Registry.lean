import WyndLend.CosmWasm.Run
import WyndLend.CreditAgency.Effects

/-!
# The market registry

The credit agency on its own, with the instantiations that are in flight. The
messages come from anyone, the queries are answered by anyone, and the replies
arrive in any order, each at most once. A ready entry stays as it is, so a market
that was entered stays registered; but entering is not limited to markets.
-/

namespace WyndLend.CreditAgency

open CosmWasm Utils

/-- The credit agency, and the ids of the instantiate messages that it awaits a reply to. -/
structure Chain where
  agency : State
  pending : List ℕ

inductive Input where
  | execute (q : Querier) (info : Market.MessageInfo) (msg : ExecuteMsg)
  | reply (id : ℕ) (contractAddress : Addr)

namespace Chain

variable {config : Config} {c c' : Chain} {inputs : List Input} {input : Input} {id id' : ℕ}
  {q q' : Querier} {info : Market.MessageInfo} {msg : ExecuteMsg} {msgs : List Message}
  {s s' : State} {account market address : Addr} {token : Token}

def start (config : Config) : Chain := ⟨instantiate config, []⟩

def step (input : Input) (c : Chain) : Except Error Chain :=
  match input with
  | .execute q info msg => do
    let (agency, msgs) ← execute q info msg c.agency
    return ⟨agency, instantiations msgs ++ c.pending⟩
  | .reply id contractAddress => do
    ensure (id ∈ c.pending) (.notFound id)
    let agency ← reply c.agency id contractAddress
    return ⟨agency, c.pending.erase id⟩

/-! ## Pending replies -/

/-- Every awaited id was issued for a token of its own, which is still without a market. -/
structure Awaits (c : Chain) : Prop where
  nodup : c.pending.Nodup
  issued : ∀ id ∈ c.pending, id ≤ c.agency.nextReplyId
  reserved : ∀ id ∈ c.pending, ∃ token, c.agency.replyIds.mayLoad id = some token ∧
    c.agency.markets.mayLoad token = some .instantiating
  distinct : ∀ id ∈ c.pending, ∀ id' ∈ c.pending,
    c.agency.replyIds.mayLoad id = c.agency.replyIds.mayLoad id' → id = id'

theorem awaits_start : Awaits (start config) := ⟨.nil, nofun, nofun, nofun⟩

/-- The id that a creation issues is new, and so is its token. -/
theorem awaits_reserve (h : Awaits c) (vacant : c.agency.markets.mayLoad token = none) :
    Awaits ⟨c.agency.reserve token, (c.agency.nextReplyId + 1) :: c.pending⟩ := by
  have hold : ∀ id ∈ c.pending, id ≠ c.agency.nextReplyId + 1 := fun id hid heq =>
    absurd (h.issued id hid) (by omega)
  have hids : ∀ id ∈ c.pending, (c.agency.reserve token).replyIds.mayLoad id =
      c.agency.replyIds.mayLoad id := fun id hid => Map.mayLoad_save_ne _ _ (hold id hid)
  have hnew : (c.agency.reserve token).replyIds.mayLoad (c.agency.nextReplyId + 1) = some token :=
    Map.mayLoad_save_self _ _ _
  -- no awaited id is for this token, whose entry was missing
  have hother : ∀ id ∈ c.pending, c.agency.replyIds.mayLoad id ≠ some token := by
    intro id hid heq
    obtain ⟨token', ht', hm⟩ := h.reserved id hid
    rw [ht'] at heq
    cases heq
    rw [vacant] at hm
    cases hm
  refine ⟨List.nodup_cons.mpr ⟨fun hid => hold _ hid rfl, h.nodup⟩, ?_, ?_, ?_⟩
  · intro id hid
    rcases List.mem_cons.mp hid with rfl | hid
    · exact le_refl _
    · exact Nat.le_succ_of_le (h.issued id hid)
  · intro id hid
    rcases List.mem_cons.mp hid with rfl | hid'
    · exact ⟨token, hnew, Map.mayLoad_save_self _ _ _⟩
    · obtain ⟨token', ht', hm⟩ := h.reserved id hid'
      refine ⟨token', (hids id hid').trans ht', (Map.mayLoad_save_ne _ _ fun heq => ?_).trans hm⟩
      exact hother id hid' (heq ▸ ht')
  · intro id hid id' hid' heq
    rcases List.mem_cons.mp hid with rfl | hid <;> rcases List.mem_cons.mp hid' with rfl | hid'
    · rfl
    · exact absurd ((hids id' hid').symm.trans (heq.symm.trans hnew)) (hother id' hid')
    · exact absurd ((hids id hid).symm.trans (heq.trans hnew)) (hother id hid)
    · exact h.distinct id hid id' hid' (by rw [← hids id hid, heq, hids id' hid'])

/-- The entry of a token that is waiting is not that of another awaited id. -/
theorem awaits_reply (h : Awaits c) (hid : id ∈ c.pending)
    (hr : reply c.agency id address = .ok s') :
    Awaits ⟨s', c.pending.erase id⟩ := by
  obtain ⟨token, ht, rfl⟩ := reply_spec hr
  have hmem : ∀ {id'}, id' ∈ c.pending.erase id → id' ≠ id ∧ id' ∈ c.pending := fun h' =>
    (h.nodup.mem_erase_iff).mp h'
  refine ⟨h.nodup.erase id, fun id' h' => h.issued id' (hmem h').2, ?_,
    fun i hi j hj heq => h.distinct i (hmem hi).2 j (hmem hj).2 heq⟩
  intro id' h'
  obtain ⟨hne, hid'⟩ := hmem h'
  obtain ⟨token', ht', hm⟩ := h.reserved id' hid'
  refine ⟨token', ht', (Map.mayLoad_save_ne _ _ fun heq => ?_).trans hm⟩
  exact hne (h.distinct id' hid' id hid (ht'.trans (heq ▸ ht.symm)))

theorem step_awaits (h : Awaits c) (hs : step input c = .ok c') : Awaits c' := by
  cases input with
  | execute q info msg =>
    simp only [step, bind_eq_ok, pure_eq_ok] at hs
    obtain ⟨⟨agency, msgs⟩, he, rfl⟩ := hs
    cases execute_outcome he with
    | created _ _ vacant => exact awaits_reserve h vacant
    | entered => exact ⟨h.nodup, h.issued, h.reserved, h.distinct⟩
    | exited => exact ⟨h.nodup, h.issued, h.reserved, h.distinct⟩
    | forwarded _ _ none =>
      rw [none]
      exact ⟨h.nodup, h.issued, h.reserved, h.distinct⟩
  | reply id address =>
    simp only [step, bind_eq_ok, ensure_eq_ok, pure_eq_ok] at hs
    obtain ⟨-, hid, s', hr, rfl⟩ := hs
    exact awaits_reply h hid hr

/-! ## Ready entries -/

/-- A ready market stays registered, whatever comes next. -/
theorem registered_mono (h : Awaits c) (hs : step input c = .ok c')
    (hr : c.agency.Registered address) : c'.agency.Registered address := by
  obtain ⟨token, ht⟩ := hr
  cases input with
  | execute q info msg =>
    simp only [step, bind_eq_ok, pure_eq_ok] at hs
    obtain ⟨⟨agency, msgs⟩, he, rfl⟩ := hs
    cases execute_outcome he with
    | created _ _ vacant =>
      refine ⟨token, (Map.mayLoad_save_ne _ _ ?_).trans ht⟩
      rintro rfl
      rw [vacant] at ht
      cases ht
    | entered => exact ⟨token, ht⟩
    | exited => exact ⟨token, ht⟩
    | forwarded => exact ⟨token, ht⟩
  | reply id address' =>
    simp only [step, bind_eq_ok, ensure_eq_ok, pure_eq_ok] at hs
    obtain ⟨-, hid, s', hr, rfl⟩ := hs
    obtain ⟨token', ht', rfl⟩ := reply_spec hr
    refine ⟨token, (Map.mayLoad_save_ne _ _ ?_).trans ht⟩
    rintro rfl
    obtain ⟨token'', ht'', hm⟩ := h.reserved id hid
    rw [ht'] at ht''
    cases ht''
    rw [hm] at ht
    cases ht

/-- Every market that some account has entered is registered. -/
def EnteredRegistered (s : State) : Prop :=
  ∀ account, ∀ market ∈ s.entered account, s.Registered market

/-- Only markets tell the agency that an account has entered them. -/
def Vouched (c : Chain) : Input → Prop
  | .execute _ info (.enterMarket _) => c.agency.Registered info.sender
  | _ => True

instance (c : Chain) (input : Input) : Decidable (Vouched c input) :=
  match input with
  | .execute _ info (.enterMarket _) =>
    inferInstanceAs (Decidable (c.agency.Registered info.sender))
  | .execute _ _ (.createMarket _) | .execute _ _ (.liquidate ..) | .execute _ _ (.exitMarket _)
  | .execute _ _ (.repayWithCollateral ..) | .execute _ _ (.receive ..)
  | .execute _ _ (.adjustMarketId _) | .execute _ _ (.adjustTokenId _)
  | .execute _ _ (.adjustCommonToken _) | .execute _ _ (.migrateMarket ..)
  | .reply .. => .isTrue trivial

/-- A step adds at most the sender of an `EnterMarket` to the entered markets. -/
theorem entered_step (hs : step input c = .ok c') (hm : market ∈ c'.agency.entered account) :
    market ∈ c.agency.entered account ∨
      ∃ q info, input = .execute q info (.enterMarket account) ∧ info.sender = market := by
  cases input with
  | execute q info msg =>
    simp only [step, bind_eq_ok, pure_eq_ok] at hs
    obtain ⟨⟨agency, msgs⟩, he, rfl⟩ := hs
    cases execute_outcome he with
    | created => exact .inl hm
    | entered =>
      rcases mem_entered_enterMarket.mp hm with ⟨rfl, rfl⟩ | hm
      · exact .inr ⟨q, info, rfl, rfl⟩
      · exact .inl hm
    | exited =>
      rw [entered_save] at hm
      split_ifs at hm with ha
      · subst ha
        exact .inl (BTreeSet.mem_remove.mp hm).2
      · exact .inl hm
    | forwarded => exact .inl hm
  | reply id address =>
    simp only [step, bind_eq_ok, ensure_eq_ok, pure_eq_ok] at hs
    obtain ⟨-, -, s', hr, rfl⟩ := hs
    obtain ⟨token, -, rfl⟩ := reply_spec hr
    exact .inl hm

theorem step_enteredRegistered (ha : Awaits c) (hi : EnteredRegistered c.agency)
    (hg : Vouched c input) (hs : step input c = .ok c') : EnteredRegistered c'.agency := by
  intro account market hm
  refine registered_mono ha hs ?_
  rcases entered_step hs hm with hm | ⟨q, info, rfl, rfl⟩
  · exact hi account market hm
  · exact hg

/-! ## What the agency hears -/

/-- Two chains whose registered markets give the same answers. -/
structure Agree (s : State) (q q' : Querier) : Prop where
  creditLine : ∀ market, s.Registered market → q.creditLine market = q'.creditLine market
  price : ∀ market, s.Registered market →
    q.priceMarketLocalPerCommon market = q'.priceMarketLocalPerCommon market
  configuration : ∀ market, s.Registered market → q.configuration market = q'.configuration market

theorem registered_of_market (h : Query.market s token = .ok market) : s.Registered market := by
  simp only [Query.market, bind_eq_ok, okOr_eq_ok] at h
  obtain ⟨state, hs, ha⟩ := h
  cases state with
  | instantiating => cases ha
  | ready address =>
    cases ha
    exact ⟨token, hs⟩

theorem creditLines_congr (h : Agree s q q') {markets : List Addr}
    (hm : ∀ market ∈ markets, s.Registered market) :
    Query.creditLines q token account markets = Query.creditLines q' token account markets := by
  unfold Query.creditLines
  induction markets with
  | nil => rfl
  | cons market markets ih =>
    have hhead : Query.creditLine q token account market =
        Query.creditLine q' token account market := by
      unfold Query.creditLine
      rw [h.creditLine market (hm market List.mem_cons_self)]
    rw [List.mapM_cons, List.mapM_cons, hhead, ih fun m hm' => hm m (List.mem_cons_of_mem _ hm')]

theorem totalCreditLine_congr (hi : EnteredRegistered s) (h : Agree s q q') (account : Addr) :
    Query.totalCreditLine q s account = Query.totalCreditLine q' s account := by
  unfold Query.totalCreditLine
  rw [creditLines_congr h (hi account)]

/-- What depends on the market of a token only through a registered address. -/
theorem bind_market_congr {α : Type} {f g : Addr → Except Error α}
    (h : ∀ market, s.Registered market → f market = g market) :
    (Query.market s token >>= f) = (Query.market s token >>= g) := by
  cases hm : Query.market s token with
  | error e => rfl
  | ok market => exact h market (registered_of_market hm)

theorem liquidate_congr (hi : EnteredRegistered s) (h : Agree s q q') {sender : Addr}
    {coins : Coin} : liquidate q s sender account coins token =
      liquidate q' s sender account coins token := by
  unfold liquidate
  rw [totalCreditLine_congr hi h]
  refine bind_congr fun response => bind_congr fun total => bind_congr fun _ =>
    bind_market_congr fun market hm => ?_
  rw [h.price market hm]

theorem exitMarket_congr (hi : EnteredRegistered s) (h : Agree s q q') {sender : Addr} :
    exitMarket q s sender market = exitMarket q' s sender market := by
  have hothers : Query.creditLines q s.config.commonToken sender
        ((s.entered sender).remove market).toList =
      Query.creditLines q' s.config.commonToken sender
        ((s.entered sender).remove market).toList :=
    creditLines_congr h fun m hm => hi sender m (BTreeSet.mem_remove.mp hm).2
  simp only [exitMarket, hothers]
  by_cases hm : market ∈ s.entered sender
  · rw [h.creditLine market (hi sender market hm)]
  · simp only [ensure, if_neg hm]
    rfl

theorem repayWithCollateral_congr (hi : EnteredRegistered s) (h : Agree s q q') {sender : Addr}
    {maxCollateral amountToRepay : Coin} :
    repayWithCollateral q s sender maxCollateral amountToRepay =
      repayWithCollateral q' s sender maxCollateral amountToRepay := by
  unfold repayWithCollateral
  refine bind_market_congr fun collateralMarket hc => bind_market_congr fun debtMarket hd => ?_
  rw [totalCreditLine_congr hi h, h.configuration _ hc, h.price _ hc, h.price _ hd]

/-- As long as only registered markets are entered, the agency listens to no one else. -/
theorem execute_congr (hi : EnteredRegistered s) (h : Agree s q q') (info : Market.MessageInfo)
    (msg : ExecuteMsg) : execute q info msg s = execute q' info msg s := by
  cases msg with
  | liquidate account collateralDenom =>
    simp only [execute]
    split
    · exact liquidate_congr hi h
    · rfl
  | exitMarket market => exact exitMarket_congr hi h
  | repayWithCollateral maxCollateral amountToRepay => exact repayWithCollateral_congr hi h
  | receive sender amount account collateralDenom => exact liquidate_congr hi h
  | createMarket | enterMarket | adjustMarketId | adjustTokenId | adjustCommonToken
  | migrateMarket => rfl

/-! ## Runs -/

/-- If only registered markets send `EnterMarket`, then only registered markets are
ever entered, and no answer of another contract makes a difference. -/
theorem entered_registered (h : Run step Vouched (start config) inputs c) :
    EnteredRegistered c.agency ∧ ∀ q q', Agree c.agency q q' →
      (∀ account, Query.totalCreditLine q c.agency account =
        Query.totalCreditLine q' c.agency account) ∧
      ∀ info msg, execute q info msg c.agency = execute q' info msg c.agency := by
  have hi : Awaits c ∧ EnteredRegistered c.agency := by
    refine h.invariant (I := fun c => Awaits c ∧ EnteredRegistered c.agency)
      ⟨awaits_start, ?_⟩ fun u i v hi hg hs =>
        ⟨step_awaits hi.1 hs, step_enteredRegistered hi.1 hi.2 hg hs⟩
    intro account market hm
    exact absurd hm (BTreeSet.not_mem_empty market)
  exact ⟨hi.2, fun q q' hq => ⟨totalCreditLine_congr hi.2 hq, execute_congr hi.2 hq⟩⟩

/-! ## A run -/

def sampleConfig : Config where
  govContract := "gov"
  isotonicMarketId := 1
  isotonicTokenId := 2
  rewardToken := .native "reward"
  commonToken := .native "usd"
  liquidationPrice := ⟨920_000_000_000_000_000⟩
  borrowLimitRatio := Decimal.one

def sampleMarket : MarketConfig where
  marketToken := .native "atom"
  marketCap := none
  interestRate := .linear Decimal.zero Decimal.zero
  interestChargePeriod := 300
  collateralRatio := ⟨500_000_000_000_000_000⟩
  priceOracle := "oracle"
  reserveFactor := Decimal.zero

/-- No contract answers. -/
def deaf : Querier :=
  ⟨fun _ _ => .error .querier, fun _ => .error .querier, fun _ _ => .error .querier,
    fun _ => .error .querier⟩

private def sampleInputs : List Input :=
  [.execute deaf ⟨"gov", []⟩ (.createMarket sampleMarket), .reply 1 "market",
    .execute deaf ⟨"market", []⟩ (.enterMarket "alice")]

theorem entered_registered_example :
    ∃ c, Run step Vouched (start sampleConfig) sampleInputs c ∧
      "market" ∈ c.agency.entered "alice" ∧ EnteredRegistered c.agency := by
  obtain ⟨c, hrun, hm⟩ : ∃ c, Run step Vouched (start sampleConfig) sampleInputs c ∧
      "market" ∈ c.agency.entered "alice" := exists_run_of_runAll (by decide +kernel)
  exact ⟨c, hrun, hm, (entered_registered hrun).1⟩

/-- Anyone can enter an account into what is no market. -/
theorem attacker_entered :
    ¬ ∀ config inputs c, Run step (fun _ _ => True) (start config) inputs c →
      EnteredRegistered c.agency := by
  intro h
  have hrun : Run step (fun _ _ => True) (start sampleConfig)
      [.execute deaf ⟨"attacker", []⟩ (.enterMarket "victim")] _ :=
    .snoc (.nil _) trivial rfl
  obtain ⟨token, ht⟩ := h _ _ _ hrun "victim" "attacker" (by decide)
  cases ht

end Chain

end WyndLend.CreditAgency
