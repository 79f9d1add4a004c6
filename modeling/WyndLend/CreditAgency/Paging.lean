import WyndLend.CreditAgency.Registry
import WyndLend.Paging.Cursor
import Mathlib.Data.List.TakeWhile

/-!
# Paging through the markets

`ListMarkets` starts a page after the bytes of the last token, skips what is not ready and
cuts the page off. Since stored tokens are in the order of the tokens this is a page of the
ready markets, and paging lists each of them once.

`ListEnteredMarkets` looks for the market to start after and skips what it passes on the way.
If the account has left that market in the meantime the search runs to the end, and the page
is empty.
-/

namespace WyndLend.CreditAgency

open CosmWasm Utils Paging Query

/-- The response for a stored market, if it is ready. -/
def MarketState.response (e : Token × MarketState) : Option MarketResponse :=
  e.2.toAddr.map fun addr => ⟨e.1, addr⟩

/-- The markets that are ready, in the order of their tokens. -/
def State.readyMarkets (s : State) : List MarketResponse :=
  s.markets.range.filterMap MarketState.response

theorem MarketState.response_eq_some {e : Token × MarketState} {m : MarketResponse} :
    response e = some m ↔ e = (m.marketToken, .ready m.market) := by
  obtain ⟨token, _ | address⟩ := e
  · simp [response, toAddr]
  · cases m
    simp [response, toAddr]

theorem State.mem_readyMarkets {s : State} {m : MarketResponse} :
    m ∈ s.readyMarkets ↔ s.markets.mayLoad m.marketToken = some (.ready m.market) := by
  unfold readyMarkets
  rw [List.mem_filterMap, ← Map.mem_range]
  simp only [MarketState.response_eq_some]
  exact exists_eq_right

theorem State.readyMarkets_sorted (s : State) :
    s.readyMarkets.Pairwise fun a b => a.marketToken < b.marketToken := by
  refine List.Pairwise.filterMap _ ?_ s.markets.range_sorted
  intro e e' hlt m hm m' hm'
  rw [MarketState.response_eq_some] at hm hm'
  rwa [hm, hm'] at hlt

namespace Query

variable {pairFromVec : Bytes → Except StdError (UInt8 × String)}

theorem mapM_ok {ε α : Type} (l : List α) :
    (l.map Except.ok).mapM id = (.ok l : Except ε (List α)) := by
  induction l with
  | nil => rfl
  | cons a l ih =>
    rw [List.map_cons, List.mapM_cons, ih]
    rfl

theorem transpose_readMarket (h : ReadsPairs pairFromVec) (e : Token × MarketState) :
    transpose (readMarket pairFromVec (joinedKey e.1, e.2)) =
      (MarketState.response e).map Except.ok := by
  unfold readMarket
  rw [Token.fromVec_joinedKey h]
  obtain ⟨token, _ | address⟩ := e <;> rfl

/-- It makes no difference whether the bound or the filter comes first. -/
theorem after_readyMarkets (s : State) (start : Option Token) :
    after MarketResponse.marketToken start s.readyMarkets =
      (after Prod.fst start s.markets.range).filterMap MarketState.response := by
  unfold after State.readyMarkets
  rw [List.filterMap_filter, List.filter_filterMap]
  refine List.filterMap_congr fun e _ => ?_
  cases hm : MarketState.response e with
  | none => simp
  | some m =>
    rw [MarketState.response_eq_some.mp hm]
    rfl

/-- A page is cut from the ready markets that come after the start. -/
theorem listMarkets_eq (h : ReadsPairs pairFromVec) (s : State) (start : Option Token)
    (limit : Option ℕ) : listMarkets pairFromVec s start limit =
      .ok ((after MarketResponse.marketToken start s.readyMarkets).take
        (min (limit.getD defaultLimit) maxLimit)) := by
  have hmarkets : (s.markets.rangeRaw (start.map joinedKey)).filterMap
      (fun m => transpose (readMarket pairFromVec m)) =
        (after MarketResponse.marketToken start s.readyMarkets).map Except.ok := by
    rw [Map.rangeRaw_eq Token.joinedKey_strictMono, List.filterMap_map, after_readyMarkets,
      List.map_filterMap]
    exact List.filterMap_congr fun e _ => transpose_readMarket h e
  unfold listMarkets
  dsimp only
  rw [hmarkets, ← List.map_take, mapM_ok]
  rfl

/-- Pages of any sizes, each started after the last one, list every ready market once and
in order. -/
theorem listMarkets_complete (h : ReadsPairs pairFromVec) (s : State) (limits : List (Option ℕ))
    (hpos : ∀ limit ∈ limits, limit ≠ some 0) :
    ∃ pages, browse MarketResponse.marketToken (listMarkets pairFromVec s) none limits =
        .ok pages ∧
      (s.readyMarkets.length < limits.length → [] ∈ pages) ∧
      ([] ∈ pages →
        pages.flatten.Pairwise (fun a b => a.marketToken < b.marketToken) ∧
        ∀ token address, ⟨token, address⟩ ∈ pages.flatten ↔
          s.markets.mayLoad token = some (.ready address)) := by
  have hsize : ∀ limit ∈ limits, 0 < min (limit.getD defaultLimit) maxLimit := by
    intro limit hmem
    have hne := hpos limit hmem
    rcases limit with _ | n
    · decide
    · have hn : n ≠ 0 := fun hz => hne (congrArg some hz)
      exact lt_min (Nat.pos_of_ne_zero hn) (by decide)
  obtain ⟨pages, hpages, hall, hempty⟩ := browse_spec s.readyMarkets_sorted
    (listMarkets_eq h s) hsize none
  rw [after_none] at hall hempty
  refine ⟨pages, hpages, hempty, fun hmem => ?_⟩
  rw [hall hmem]
  exact ⟨s.readyMarkets_sorted, fun _ _ => State.mem_readyMarkets⟩

/-- Two markets are ready, one is being created. -/
def sampleMarkets : State :=
  { instantiate Chain.sampleConfig with
    markets := ((Map.save ∅ (.cw20 "astro") (.ready "market1")).save
      (.native "osmo") .instantiating).save (.native "juno") (.ready "market2") }

theorem listMarkets_complete_example : ∃ pages,
    browse MarketResponse.marketToken (listMarkets splitPair sampleMarkets) none
      [some 1, none, some 40] = .ok pages ∧
    [] ∈ pages ∧ ⟨.cw20 "astro", "market1"⟩ ∈ pages.flatten ∧
    ∀ address, ⟨.native "osmo", address⟩ ∉ pages.flatten := by
  obtain ⟨pages, hpages, hempty, hall⟩ := listMarkets_complete splitPair_reads sampleMarkets
    [some 1, none, some 40] (by decide)
  have hmem := hempty (by decide +kernel)
  obtain ⟨-, hlisted⟩ := hall hmem
  have hload : sampleMarkets.markets.mayLoad (.native "osmo") = some .instantiating := by decide
  refine ⟨pages, hpages, hmem, (hlisted _ _).mpr (by decide), fun address hosmo => ?_⟩
  rw [hlisted, hload] at hosmo
  cases hosmo

/-! ## Entered markets -/

theorem drop_dropWhile_of_mem {l : List Addr} {k : Addr} (h : l.Pairwise (· < ·)) (hk : k ∈ l) :
    (l.dropWhile fun market => market ≠ k).drop 1 = after id (some k) l := by
  obtain ⟨xs, ys, rfl⟩ := List.append_of_mem hk
  obtain ⟨-, -, hxs⟩ := List.pairwise_append.mp h
  have hskip : ∀ x ∈ xs, decide (x ≠ k) = true := fun x hx =>
    decide_eq_true (hxs x hx k List.mem_cons_self).ne
  have hafter : after id (some k) (xs ++ k :: ys) = ys := after_append h
  rw [List.dropWhile_append_of_pos hskip, List.dropWhile_cons_of_neg (by simp),
    List.drop_succ_cons, List.drop_zero, hafter]

theorem dropWhile_of_not_mem {l : List Addr} {k : Addr} (hk : k ∉ l) :
    (l.dropWhile fun market => market ≠ k) = [] := by
  rw [List.dropWhile_eq_nil_iff]
  intro market hmem
  exact decide_eq_true fun heq => hk (heq ▸ hmem)

/-- The market to start after is still entered, or nothing is left to list. -/
def Continues (s : State) (account : Addr) (start : Option Addr) (limit : Option ℕ) : Prop :=
  ∀ k ∈ start, k ∈ s.entered account ∨ limit = some 0 ∨
    ∀ market ∈ (s.entered account).toList, market ≤ k

instance (s : State) (account : Addr) (start : Option Addr) (limit : Option ℕ) :
    Decidable (Continues s account start limit) :=
  inferInstanceAs (Decidable (∀ k ∈ start, _ ∨ _ ∨ _))

/-- A page is cut from the entered markets after the start exactly if it continues. -/
theorem enteredMarkets_eq_iff (s : State) (account : Addr) (start : Option Addr)
    (limit : Option ℕ) : enteredMarkets s account start limit =
      (after id start (s.entered account).toList).take (limit.getD (2 ^ 32 - 1)) ↔
        Continues s account start limit := by
  cases start with
  | none => simp [enteredMarkets, Continues]
  | some k =>
    unfold enteredMarkets Continues
    dsimp only
    by_cases hk : k ∈ s.entered account
    · rw [drop_dropWhile_of_mem (s.entered account).sorted hk]
      simp [hk]
    · have hlimit : limit.getD (2 ^ 32 - 1) = 0 ↔ limit = some 0 := by
        cases limit <;> simp
      have hnil : after id (some k) (s.entered account).toList = [] ↔
          ∀ market ∈ (s.entered account).toList, market ≤ k := by
        rw [List.eq_nil_iff_forall_not_mem]
        simp only [mem_after, not_and, Option.mem_some_iff, forall_eq', id_eq, not_lt]
      rw [dropWhile_of_not_mem hk, List.drop_nil, List.take_nil, eq_comm, List.take_eq_nil_iff,
        hlimit, hnil]
      simp [hk]

end Query

/-- The agency, and what an account has been told of its markets. -/
structure Session where
  chain : Chain
  listed : List Addr

namespace Session

inductive Input where
  /-- The account asks for the markets after the last one it was told of. -/
  | page (limit : Option ℕ)
  | other (input : CreditAgency.Input)

variable (account : Addr)

def step : Input → Session → Except Error Session
  | .page limit, c =>
    .ok { c with
      listed := c.listed ++ enteredMarkets c.chain.agency account c.listed.getLast? limit }
  | .other input, c => return { c with chain := ← Chain.step input c.chain }

/-- The message enters the account into a market. -/
def enters : CreditAgency.Input → Bool
  | .execute _ _ (.enterMarket other) => other = account
  | _ => false

/-- The account enters no market while it pages, and every page continues. -/
def Continued (c : Session) : Input → Prop
  | .page limit => Continues c.chain.agency account c.listed.getLast? limit
  | .other input => enters account input = false

instance (c : Session) (input : Input) : Decidable (Continued account c input) :=
  match input with
  | .page _ => inferInstanceAs (Decidable (Continues _ _ _ _))
  | .other _ => inferInstanceAs (Decidable (_ = _))

variable {account} {c c' : Session} {chain : Chain} {input : Input} {inputs : List Input}

theorem step_listed (h : step account input c = .ok c') (hc : Continued account c input)
    (hl : Listed id c.listed (c.chain.agency.entered account).toList) :
    Listed id c'.listed (c'.chain.agency.entered account).toList := by
  cases input with
  | page limit =>
    cases h
    dsimp only
    rw [(enteredMarkets_eq_iff _ _ _ _).mpr hc]
    have hpage := hl.page (c.chain.agency.entered account).sorted (limit.getD (2 ^ 32 - 1))
    rwa [Option.map_id] at hpage
  | other input =>
    simp only [step, bind_eq_ok, pure_eq_ok] at h
    obtain ⟨chain, h, rfl⟩ := h
    refine hl.leave fun market hmem => ?_
    rcases Chain.entered_step h hmem with hmem | ⟨q, info, rfl, -⟩
    · exact hmem
    · exact absurd hc (by simp [Continued, enters])

theorem run_listed (h : Run (step account) (Continued account) ⟨chain, []⟩ inputs c) :
    Listed id c.listed (c.chain.agency.entered account).toList :=
  h.invariant (I := fun c => Listed id c.listed (c.chain.agency.entered account).toList)
    (Listed.start _) fun _ _ _ hl hc hs => step_listed hs hc hl

/-- A page is the entered markets after the start up to the limit exactly if it continues.
As long as every page does, an account that leaves markets in between is told of all the
others exactly once. -/
theorem enteredMarkets_pages (account : Addr) :
    (∀ s start limit, enteredMarkets s account start limit =
        (after id start (s.entered account).toList).take (limit.getD (2 ^ 32 - 1)) ↔
      Continues s account start limit) ∧
    ∀ chain inputs c, Run (step account) (Continued account) ⟨chain, []⟩ inputs c →
      c.listed.Pairwise (· < ·) ∧
      ∀ limit, limit ≠ some 0 → Continues c.chain.agency account c.listed.getLast? limit →
        enteredMarkets c.chain.agency account c.listed.getLast? limit = [] →
        ∀ market ∈ c.chain.agency.entered account, market ∈ c.listed := by
  refine ⟨fun s start limit => enteredMarkets_eq_iff s account start limit, ?_⟩
  intro chain inputs c hrun
  have hl := run_listed hrun
  refine ⟨hl.sorted, fun limit hlimit hc hempty => ?_⟩
  rw [(enteredMarkets_eq_iff _ _ _ _).mpr hc, List.take_eq_nil_iff] at hempty
  have hdone := hempty.resolve_left fun hzero => hlimit (by cases limit <;> simp_all)
  refine hl.complete ?_
  rwa [Option.map_id]

/-- No account has a credit or a debt anywhere. -/
def debtFree : Querier :=
  { Chain.deaf with
    creditLine := fun _ _ => .ok (CreditLineValues.zero.makeResponse (.native "usd")) }

/-- Alice has entered three markets. -/
def sampleChain : Chain where
  agency :=
    { instantiate Chain.sampleConfig with
      enteredMarkets := Map.save ∅ "alice" (((∅ : BTreeSet Addr).insert "a").insert "b"
        |>.insert "c") }
  pending := []

/-- Leaving the first of two listed markets does no harm: the third one is still listed. -/
theorem enteredMarkets_pages_example : ∃ c,
    Run (step "alice") (Continued "alice") ⟨sampleChain, []⟩
      [.page (some 2), .other (.execute debtFree ⟨"alice", []⟩ (.exitMarket "a")), .page none] c ∧
    c.listed.Pairwise (· < ·) ∧ (c.chain.agency.entered "alice").toList = ["b", "c"] ∧
    ∀ market ∈ c.chain.agency.entered "alice", market ∈ c.listed := by
  obtain ⟨c, hrun, hentered, hlimit, hempty⟩ : ∃ c,
      Run (step "alice") (Continued "alice") ⟨sampleChain, []⟩ [.page (some 2),
        .other (.execute debtFree ⟨"alice", []⟩ (.exitMarket "a")), .page none] c ∧
      (c.chain.agency.entered "alice").toList = ["b", "c"] ∧
      Continues c.chain.agency "alice" c.listed.getLast? none ∧
      enteredMarkets c.chain.agency "alice" c.listed.getLast? none = [] :=
    exists_run_of_runAll (by decide +kernel)
  obtain ⟨-, hpages⟩ := enteredMarkets_pages "alice"
  obtain ⟨hsorted, hcomplete⟩ := hpages _ _ c hrun
  exact ⟨c, hrun, hsorted, hentered, hcomplete none nofun hlimit hempty⟩

/-- Alice enters three markets, asks for two of them and leaves the second one. -/
def sampleSession : List Input :=
  [.other (.execute debtFree ⟨"a", []⟩ (.enterMarket "alice")),
    .other (.execute debtFree ⟨"b", []⟩ (.enterMarket "alice")),
    .other (.execute debtFree ⟨"c", []⟩ (.enterMarket "alice")),
    .page (some 2), .other (.execute debtFree ⟨"alice", []⟩ (.exitMarket "b"))]

/-- She is told that there are no more markets. -/
theorem enteredMarkets_cut_off : ∃ c,
    Run (step "alice") (fun _ _ => True) ⟨Chain.start Chain.sampleConfig, []⟩ sampleSession c ∧
    c.listed = ["a", "b"] ∧ (c.chain.agency.entered "alice").toList = ["a", "c"] ∧
    (after id (some "b") (c.chain.agency.entered "alice").toList).take (2 ^ 32 - 1) = ["c"] ∧
    enteredMarkets c.chain.agency "alice" (some "b") none = [] :=
  exists_run_of_runAll (by decide +kernel)

end Session

end WyndLend.CreditAgency
