import WyndLend.CreditAgency.Registry
import WyndLend.Requests.Log

/-!
# Market creations in flight

The instantiate messages of the credit agency are requests for tokens under reply
ids. The counter, the map of reply ids and the two-state entries together hold
exactly what the log of requests and replies says, in every order of creations and
replies.
-/

namespace WyndLend.CreditAgency

open CosmWasm Utils Requests

/-- The instantiate messages in a response: the reply id and the market token. -/
def creations (msgs : List Message) : List (ℕ × Token) :=
  msgs.filterMap fun msg =>
    match msg with
    | .instantiateMarket replyId _ msg => some (replyId, msg.marketToken)
    | _ => none

theorem instantiations_eq (msgs : List Message) :
    instantiations msgs = (creations msgs).map Prod.fst := by
  unfold instantiations creations
  rw [List.map_filterMap]
  refine List.filterMap_congr fun msg _ => ?_
  cases msg <;> rfl

theorem creations_eq_nil {msgs : List Message} (h : instantiations msgs = []) :
    creations msgs = [] := by
  rw [instantiations_eq] at h
  exact List.map_eq_nil_iff.mp h

/-- The instantiate messages that the input makes the agency send. -/
def Input.creations (s : State) : Input → List (ℕ × Token)
  | .execute q info msg => (CreditAgency.execute q info msg s).toOption.elim [] fun r =>
      CreditAgency.creations r.2
  | .reply .. => []

/-- The reply that the input brings. -/
def Input.answers : Input → List (ℕ × Addr)
  | .execute .. => []
  | .reply id contractAddress => [(id, contractAddress)]

/-- The chain with the log of its instantiate messages and of the replies to them. -/
structure Record extends Chain where
  log : Log ℕ Token Addr

namespace Record

def start (config : Config) : Record := ⟨Chain.start config, .empty⟩

def step (input : Input) (r : Record) : Except Error Record := do
  let chain ← r.toChain.step input
  return ⟨chain, ⟨input.creations r.agency ++ r.log.sent, input.answers ++ r.log.replied⟩⟩

/-- What an input does to the registry and to the log. -/
inductive Change (r r' : Record) : Input → Prop where
  | created {q info cfg} (vacant : r.agency.markets.mayLoad cfg.marketToken = none)
    (agency : r'.agency = r.agency.reserve cfg.marketToken)
    (pending : r'.pending = (r.agency.nextReplyId + 1) :: r.pending)
    (log : r'.log = r.log.send (r.agency.nextReplyId + 1) cfg.marketToken) :
    Change r r' (.execute q info (.createMarket cfg))
  | replied {id address token} (awaited : id ∈ r.pending)
    (issued : r.agency.replyIds.mayLoad id = some token)
    (agency : r'.agency =
      { r.agency with markets := r.agency.markets.save token (.ready address) })
    (pending : r'.pending = r.pending.erase id) (log : r'.log = r.log.reply id address) :
    Change r r' (.reply id address)
  | idle {q info msg} (markets : r'.agency.markets = r.agency.markets)
    (replyIds : r'.agency.replyIds = r.agency.replyIds)
    (nextReplyId : r'.agency.nextReplyId = r.agency.nextReplyId)
    (pending : r'.pending = r.pending) (log : r'.log = r.log) :
    Change r r' (.execute q info msg)

variable {config : Config} {r r' : Record} {inputs inputs' : List Input} {input : Input} {id : ℕ}
  {address : Addr} {token other : Token} {state : MarketState}

theorem step_change (h : step input r = .ok r') : Change r r' input := by
  simp only [step, bind_eq_ok, pure_eq_ok] at h
  obtain ⟨chain, hc, rfl⟩ := h
  cases input with
  | execute q info msg =>
    simp only [Chain.step, bind_eq_ok, pure_eq_ok] at hc
    obtain ⟨⟨agency, msgs⟩, he, rfl⟩ := hc
    have hsent : Input.creations r.agency (.execute q info msg) = creations msgs := by
      rw [Input.creations, he]
      rfl
    rw [hsent]
    cases execute_outcome he with
    | created _ _ vacant => exact .created vacant rfl rfl rfl
    | entered => exact .idle rfl rfl rfl rfl rfl
    | exited => exact .idle rfl rfl rfl rfl rfl
    | forwarded _ _ none =>
      rw [none, creations_eq_nil none]
      exact .idle rfl rfl rfl rfl rfl
  | reply id address =>
    simp only [Chain.step, bind_eq_ok, ensure_eq_ok, pure_eq_ok] at hc
    obtain ⟨-, hid, s', hr, rfl⟩ := hc
    obtain ⟨token, ht, rfl⟩ := reply_spec hr
    exact .replied hid ht rfl rfl rfl

/-! ## The registry is what the log says -/

/-- The storage of the agency refines the log. -/
structure Refines (r : Record) : Prop where
  valid : r.log.Valid
  issued : ∀ id ∈ r.log.ids, id ≤ r.agency.nextReplyId
  replyIds : ∀ id token, r.agency.replyIds.mayLoad id = some token ↔ (id, token) ∈ r.log.sent
  nodup : r.pending.Nodup
  pending : ∀ id, id ∈ r.pending ↔ id ∈ r.log.ids ∧ id ∉ r.log.answered
  instantiating : ∀ token,
    r.agency.markets.mayLoad token = some .instantiating ↔ r.log.Waiting token
  ready : ∀ token address,
    r.agency.markets.mayLoad token = some (.ready address) ↔ r.log.Settled token address

theorem refines_start : Refines (start config) := by
  have hnone : ∀ key : Token, ∀ id : ℕ, (id, key) ∉ (start config).log.sent := fun _ _ =>
    List.not_mem_nil
  have hempty : ∀ token, (start config).agency.markets.mayLoad token = none := Map.mayLoad_empty
  refine ⟨Log.valid_empty, fun id hid => absurd hid List.not_mem_nil, ?_, .nil, ?_, ?_, ?_⟩
  · intro id token
    have hids : (start config).agency.replyIds.mayLoad id = none := Map.mayLoad_empty id
    refine iff_of_false ?_ (hnone token id)
    rw [hids]
    exact (Option.some_ne_none token).symm
  · intro id
    exact iff_of_false List.not_mem_nil fun hid => absurd hid.1 List.not_mem_nil
  · intro token
    refine iff_of_false ?_ fun ⟨id, hsent, _⟩ => hnone token id hsent
    rw [hempty]
    exact (Option.some_ne_none _).symm
  · intro token address
    refine iff_of_false ?_ fun ⟨id, hsent, _⟩ => hnone token id hsent
    rw [hempty]
    exact (Option.some_ne_none _).symm

namespace Refines

/-- Requests were sent for the tokens that have an entry. -/
theorem mem_keys_iff (h : Refines r) :
    token ∈ r.log.keys ↔ r.agency.markets.mayLoad token ≠ none := by
  constructor
  · intro hk
    obtain ⟨⟨id, _⟩, hsent, rfl⟩ := List.mem_map.mp hk
    by_cases hr : id ∈ r.log.answered
    · obtain ⟨⟨_, address⟩, hr', rfl⟩ := List.mem_map.mp hr
      rw [(h.ready _ address).mpr ⟨_, hsent, hr'⟩]
      exact Option.some_ne_none _
    · rw [(h.instantiating _).mpr ⟨id, hsent, hr⟩]
      exact Option.some_ne_none _
  · intro hne
    obtain ⟨state, hs⟩ := Option.ne_none_iff_exists'.mp hne
    cases state with
    | instantiating =>
      obtain ⟨id, hsent, -⟩ := (h.instantiating token).mp hs
      exact Log.mem_keys hsent
    | ready address =>
      obtain ⟨id, hsent, -⟩ := (h.ready token address).mp hs
      exact Log.mem_keys hsent

theorem fresh (h : Refines r) : r.agency.nextReplyId + 1 ∉ r.log.ids := fun hid =>
  absurd (h.issued _ hid) (by omega)

/-- The next reply id is issued for the token that is asked for. -/
theorem replyIds_reserve (h : Refines r) :
    (r.agency.reserve token).replyIds.mayLoad id = some other ↔
      (id, other) ∈ (r.log.send (r.agency.nextReplyId + 1) token).sent := by
  rw [State.reserve, Map.mayLoad_save, Log.send, List.mem_cons, Prod.mk.injEq, ← h.replyIds]
  split_ifs with hid
  · subst hid
    constructor
    · intro heq
      exact .inl ⟨rfl, (Option.some.inj heq).symm⟩
    · rintro (⟨-, rfl⟩ | hold)
      · rfl
      · exact absurd (Log.mem_ids ((h.replyIds _ _).mp hold)) h.fresh
  · exact ⟨.inr, fun hsent => hsent.resolve_left fun heq => hid heq.1⟩

theorem pending_reserve (h : Refines r) :
    id ∈ (r.agency.nextReplyId + 1) :: r.pending ↔
      id ∈ (r.log.send (r.agency.nextReplyId + 1) token).ids ∧
        id ∉ (r.log.send (r.agency.nextReplyId + 1) token).answered := by
  rw [List.mem_cons, h.pending, Log.ids_send, List.mem_cons, Log.answered_send]
  constructor
  · rintro (rfl | ⟨hid, hnot⟩)
    · exact ⟨.inl rfl, fun hr => h.fresh (h.valid.asked _ hr)⟩
    · exact ⟨.inr hid, hnot⟩
  · rintro ⟨rfl | hid, hnot⟩
    · exact .inl rfl
    · exact .inr ⟨hid, hnot⟩

end Refines

theorem refines_reserve (h : Refines r) (vacant : r.agency.markets.mayLoad token = none)
    (agency : r'.agency = r.agency.reserve token)
    (pending : r'.pending = (r.agency.nextReplyId + 1) :: r.pending)
    (log : r'.log = r.log.send (r.agency.nextReplyId + 1) token) : Refines r' := by
  obtain ⟨⟨agency', pending'⟩, log'⟩ := r'
  dsimp only at agency pending log
  subst agency pending log
  have hfresh := h.fresh
  have hkey : token ∉ r.log.keys := fun hk => h.mem_keys_iff.mp hk vacant
  refine ⟨h.valid.send hfresh hkey, ?_, fun _ _ => h.replyIds_reserve, ?_,
    fun _ => h.pending_reserve, ?_, ?_⟩
  · intro id hid
    rcases List.mem_cons.mp hid with rfl | hid
    · exact le_rfl
    · exact Nat.le_succ_of_le (h.issued id hid)
  · exact List.nodup_cons.mpr ⟨fun hid => hfresh ((h.pending _).mp hid).1, h.nodup⟩
  · intro other
    rw [h.valid.waiting_send hfresh, State.reserve, Map.mayLoad_save, ← h.instantiating]
    split_ifs with heq
    · exact iff_of_true rfl (.inl heq)
    · exact ⟨.inr, fun hw => hw.resolve_left heq⟩
  · intro other address
    rw [h.valid.settled_send hfresh, State.reserve, Map.mayLoad_save, ← h.ready]
    split_ifs with heq
    · subst heq
      rw [vacant]
      exact iff_of_false (by simp) (by simp)
    · exact Iff.rfl

theorem refines_reply (h : Refines r) (awaited : id ∈ r.pending)
    (issued : r.agency.replyIds.mayLoad id = some token)
    (agency : r'.agency = { r.agency with markets := r.agency.markets.save token (.ready address) })
    (pending : r'.pending = r.pending.erase id) (log : r'.log = r.log.reply id address) :
    Refines r' := by
  obtain ⟨⟨agency', pending'⟩, log'⟩ := r'
  dsimp only at agency pending log
  subst agency pending log
  have hsent := (h.replyIds id token).mp issued
  obtain ⟨hid, hnew⟩ := (h.pending id).mp awaited
  refine ⟨h.valid.reply hid hnew, h.issued, h.replyIds, h.nodup.erase id, ?_, ?_, ?_⟩
  · intro id'
    rw [h.nodup.mem_erase_iff, h.pending, Log.ids_reply, Log.answered_reply, List.mem_cons, not_or]
    tauto
  · intro other
    rw [h.valid.waiting_reply hsent, Map.mayLoad_save, ← h.instantiating]
    split_ifs with heq
    · exact iff_of_false (by simp) fun hw => hw.1 heq
    · exact ⟨fun hw => ⟨heq, hw⟩, And.right⟩
  · intro other address'
    rw [h.valid.settled_reply hsent, Map.mayLoad_save, ← h.ready]
    split_ifs with heq
    · subst heq
      have hwait : r.agency.markets.mayLoad other = some .instantiating :=
        (h.instantiating other).mpr ⟨id, hsent, hnew⟩
      rw [hwait]
      simp [eq_comm]
    · exact ⟨.inr, fun hs => hs.resolve_left fun hboth => heq hboth.1⟩

/-- Every step of the agency is a step of the log, and the refinement is kept. -/
theorem step_refines (h : Refines r) (hs : step input r = .ok r') : Refines r' := by
  cases step_change hs with
  | created vacant agency pending log => exact refines_reserve h vacant agency pending log
  | replied awaited issued agency pending log =>
    exact refines_reply h awaited issued agency pending log
  | idle markets replyIds nextReplyId pending log =>
    obtain ⟨hvalid, hissued, hids, hnodup, hpending, hinst, hready⟩ := h
    exact ⟨log ▸ hvalid, log ▸ nextReplyId ▸ hissued, log ▸ replyIds ▸ hids, pending ▸ hnodup,
      log ▸ pending ▸ hpending, log ▸ markets ▸ hinst, log ▸ markets ▸ hready⟩

theorem run_refines {guard : Record → Input → Prop} (h : Run step guard (start config) inputs r) :
    Refines r :=
  h.invariant refines_start fun _ _ _ hr _ hs => step_refines hr hs

/-! ## Entries over time -/

/-- What becomes of an entry: it stays as it is, or its market gets ready. -/
def Evolves (s s' : State) : Prop :=
  ∀ token state, s.markets.mayLoad token = some state →
    s'.markets.mayLoad token = some state ∨
      state = .instantiating ∧ ∃ address, s'.markets.mayLoad token = some (.ready address)

theorem Evolves.trans {s t u : State} (h : Evolves s t) (h' : Evolves t u) : Evolves s u := by
  intro token state hs
  rcases h token state hs with ht | ⟨rfl, address, ht⟩
  · exact h' token state ht
  · rcases h' token _ ht with hu | ⟨hne, -⟩
    · exact .inr ⟨rfl, address, hu⟩
    · cases hne

theorem step_evolves (h : Refines r) (hs : step input r = .ok r') :
    Evolves r.agency r'.agency := by
  intro token state ht
  cases step_change hs with
  | created vacant agency =>
    left
    rw [agency, State.reserve, Map.mayLoad_save_ne _ _ ?_, ht]
    rintro rfl
    rw [vacant] at ht
    cases ht
  | @replied id address token' awaited issued agency =>
    rw [agency]
    by_cases heq : token = token'
    · -- The entry of an awaited reply is not ready.
      subst heq
      have hwait := (h.instantiating token).mpr
        ⟨id, (h.replyIds id token).mp issued, ((h.pending id).mp awaited).2⟩
      rw [hwait] at ht
      cases ht
      exact .inr ⟨rfl, address, Map.mayLoad_save_self _ _ _⟩
    · left
      rw [← ht]
      exact Map.mayLoad_save_ne _ _ heq
  | idle markets => exact .inl (by rw [markets]; exact ht)

theorem run_evolves {guard : Record → Input → Prop} (h : Refines r)
    (hrun : Run step guard r inputs r') : Evolves r.agency r'.agency := by
  have hboth : Refines r' ∧ Evolves r.agency r'.agency := by
    refine hrun.invariant (I := fun r' => Refines r' ∧ Evolves r.agency r'.agency)
      ⟨h, fun _ _ hs => .inl hs⟩ fun u i v hi _ hs =>
        ⟨step_refines hi.1 hs, hi.2.trans (step_evolves hi.1 hs)⟩
  exact hboth.2

/-- An awaited reply is accepted, and it registers the address for its token only. -/
theorem reply_registers (h : Refines r) (hsent : (id, token) ∈ r.log.sent)
    (hnew : id ∉ r.log.answered) (address : Addr) : ∃ r', step (.reply id address) r = .ok r' ∧
      r'.agency.markets.mayLoad token = some (.ready address) ∧
      ∀ other ≠ token, r'.agency.markets.mayLoad other = r.agency.markets.mayLoad other := by
  have hid := (h.pending id).mpr ⟨Log.mem_ids hsent, hnew⟩
  have hids := (h.replyIds id token).mpr hsent
  refine ⟨⟨⟨{ r.agency with markets := r.agency.markets.save token (.ready address) },
    r.pending.erase id⟩, r.log.reply id address⟩, ?_, Map.mayLoad_save_self _ _ _,
    fun other hne => Map.mayLoad_save_ne _ _ hne⟩
  simp only [step, Chain.step, bind_eq_ok, ensure_eq_ok, pure_eq_ok, reply, okOr_eq_ok]
  exact ⟨_, ⟨(), hid, _, ⟨token, hids, rfl⟩, rfl⟩, rfl⟩

/-- A token that has an entry gets no second market. -/
theorem createMarket_occupied {s : State} {q : Querier} {info : Market.MessageInfo}
    {cfg : MarketConfig} {result : State × List Message}
    (h : s.markets.mayLoad cfg.marketToken = some state) :
    execute q info (.createMarket cfg) s ≠ .ok result := by
  intro he
  simp only [execute, createMarket, bind_eq_ok, h] at he
  obtain ⟨-, -, -, -, he⟩ := he
  cases state <;> cases he

/-- The market registry, for every run of the agency: reply ids and market tokens of the
instantiate messages are pairwise distinct; a reply is accepted once and registers its
address for the token its instantiate message was sent for, and nothing else; an entry stays,
except that its market gets ready; and a token with an entry gets no other market. -/
theorem market_registry (h : Run step (fun _ _ => True) (start config) inputs r) :
    (r.log.sent.map Prod.fst).Nodup ∧ (r.log.sent.map Prod.snd).Nodup ∧
    (∀ id token, (id, token) ∈ r.log.sent → id ∉ r.log.replied.map Prod.fst → ∀ address,
      ∃ r', step (.reply id address) r = .ok r') ∧
    (∀ id address r', step (.reply id address) r = .ok r' →
      id ∉ r.log.replied.map Prod.fst ∧ ∃ token, (id, token) ∈ r.log.sent ∧
        r'.agency.markets.mayLoad token = some (.ready address) ∧
        ∀ other ≠ token, r'.agency.markets.mayLoad other = r.agency.markets.mayLoad other) ∧
    (∀ inputs' r', Run step (fun _ _ => True) r inputs' r' → Evolves r.agency r'.agency) ∧
    ∀ cfg state, r.agency.markets.mayLoad cfg.marketToken = some state →
      ∀ q info result, execute q info (.createMarket cfg) r.agency ≠ .ok result := by
  have hr := run_refines h
  refine ⟨hr.valid.ids, hr.valid.keys, ?_, ?_, fun _ _ => run_evolves hr, ?_⟩
  · intro id token hsent hnew address
    obtain ⟨r', hs, -⟩ := reply_registers hr hsent hnew address
    exact ⟨r', hs⟩
  · intro id address r' hs
    cases step_change hs with
    | @replied _ _ token awaited issued =>
      have hsent := (hr.replyIds id token).mp issued
      have hnew := ((hr.pending id).mp awaited).2
      refine ⟨hnew, token, hsent, ?_⟩
      obtain ⟨r'', hs', hregistered⟩ := reply_registers hr hsent hnew address
      cases hs.symm.trans hs'
      exact hregistered
  · intro cfg state hstate q info result
    exact createMarket_occupied hstate

/-- Two markets are created, and the second is the first to be ready. -/
theorem market_registry_example : ∃ r, Run step (fun _ _ => True) (start Chain.sampleConfig)
    [.execute Chain.deaf ⟨"gov", []⟩ (.createMarket Chain.sampleMarket),
      .execute Chain.deaf ⟨"gov", []⟩
        (.createMarket { Chain.sampleMarket with marketToken := .native "juno" }),
      .reply 2 "juno market"] r ∧
    (r.log.sent = [(2, .native "juno"), (1, .native "atom")] ∧
      r.agency.markets.mayLoad (.native "juno") = some (.ready "juno market") ∧
      r.agency.markets.mayLoad (.native "atom") = some .instantiating) ∧
    (∃ r', step (.reply 1 "atom market") r = .ok r') ∧
    ∀ q info result, execute q info (.createMarket Chain.sampleMarket) r.agency ≠ .ok result := by
  obtain ⟨r, hrun, hlog, hjuno, hatom, hnew⟩ : ∃ r,
      Run step (fun _ _ => True) (start Chain.sampleConfig)
        [.execute Chain.deaf ⟨"gov", []⟩ (.createMarket Chain.sampleMarket),
          .execute Chain.deaf ⟨"gov", []⟩
            (.createMarket { Chain.sampleMarket with marketToken := .native "juno" }),
          .reply 2 "juno market"] r ∧
      (r.log.sent = [(2, .native "juno"), (1, .native "atom")] ∧
        r.agency.markets.mayLoad (.native "juno") = some (.ready "juno market") ∧
        r.agency.markets.mayLoad (.native "atom") = some .instantiating ∧
        1 ∉ r.log.replied.map Prod.fst) := exists_run_of_runAll (by decide +kernel)
  obtain ⟨-, -, haccepts, -, -, hrejects⟩ := market_registry hrun
  refine ⟨r, hrun, ⟨hlog, hjuno, hatom⟩, ?_, hrejects Chain.sampleMarket _ hatom⟩
  exact haccepts 1 (.native "atom") (by rw [hlog]; decide) hnew "atom market"

end Record

end WyndLend.CreditAgency
