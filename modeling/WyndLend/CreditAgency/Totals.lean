import WyndLend.CreditAgency.Effects
import Mathlib.Algebra.Order.BigOperators.Group.Finset

/-!
# The total credit line as a sum over the entered markets
-/

namespace WyndLend.CreditAgency

open CosmWasm Utils

variable {q q' : Querier} {s : State} {token : Token} {account market : Addr}
  {markets : List Addr} {values : List CreditLineValues} {response : CreditLineResponse}

/-- The credit line of the account on a market, nothing if the market does not answer. -/
def lineOf (q : Querier) (token : Token) (account market : Addr) : CreditLineValues :=
  (Query.creditLine q token account market).toOption.getD .zero

theorem lineOf_of_ok {v : CreditLineValues} (h : Query.creditLine q token account market = .ok v) :
    lineOf q token account market = v := by
  rw [lineOf, h]
  rfl

/-- The sum over a set of markets of some component of the credit lines. -/
def totalOf (f : CreditLineValues → Uint128) (q : Querier) (token : Token) (account : Addr)
    (markets : List Addr) : ℕ :=
  ∑ market ∈ markets.toFinset, (f (lineOf q token account market)).val

theorem creditLines_spec (h : Query.creditLines q token account markets = .ok values) :
    values = markets.map (lineOf q token account) ∧
      ∀ market ∈ markets, Query.creditLine q token account market =
        .ok (lineOf q token account market) := by
  unfold Query.creditLines at h
  induction markets generalizing values with
  | nil =>
    cases h
    exact ⟨rfl, fun _ hm => absurd hm List.not_mem_nil⟩
  | cons m markets ih =>
    simp only [List.mapM_cons, bind_eq_ok, pure_eq_ok] at h
    obtain ⟨v, hv, rest, hrest, rfl⟩ := h
    obtain ⟨rfl, hall⟩ := ih hrest
    have hline := lineOf_of_ok hv
    refine ⟨by rw [List.map_cons, hline], ?_⟩
    intro m' hm
    rcases List.mem_cons.mp hm with rfl | hm
    · rw [hline, hv]
    · exact hall m' hm

/-- The components of a sum over distinct markets. -/
theorem sum_spec {v : CreditLineValues} (hnodup : markets.Nodup)
    (h : CreditLineValues.sum (markets.map (lineOf q token account)) = .ok (ε := Error) v) :
    v.creditLine.val = totalOf CreditLineValues.creditLine q token account markets ∧
      v.borrowLimit.val = totalOf CreditLineValues.borrowLimit q token account markets ∧
      v.debt.val = totalOf CreditLineValues.debt q token account markets := by
  obtain ⟨-, hcredit, hlimit, hdebt⟩ := CreditLineValues.foldlM_add h
  simp only [List.map_map] at hcredit hlimit hdebt
  unfold totalOf
  rw [List.sum_toFinset _ hnodup, List.sum_toFinset _ hnodup, List.sum_toFinset _ hnodup, hcredit,
    hlimit, hdebt]
  exact ⟨Nat.zero_add _, Nat.zero_add _, Nat.zero_add _⟩

/-- What the total credit line is the sum of. -/
theorem totalCreditLine_spec (h : Query.totalCreditLine q s account = .ok response) :
    ∃ v : CreditLineValues, response = v.makeResponse s.config.commonToken ∧
      (∀ market ∈ s.entered account, Query.creditLine q s.config.commonToken account market =
        .ok (lineOf q s.config.commonToken account market)) ∧
      v.creditLine.val = totalOf CreditLineValues.creditLine q s.config.commonToken account
        (s.entered account).toList ∧
      v.borrowLimit.val = totalOf CreditLineValues.borrowLimit q s.config.commonToken account
        (s.entered account).toList ∧
      v.debt.val = totalOf CreditLineValues.debt q s.config.commonToken account
        (s.entered account).toList := by
  simp only [Query.totalCreditLine, bind_eq_ok, pure_eq_ok] at h
  obtain ⟨values, hv, v, hsum, rfl⟩ := h
  obtain ⟨rfl, hall⟩ := creditLines_spec hv
  exact ⟨v, rfl, hall, sum_spec (s.entered account).nodup hsum⟩

/-- One entered market contributes its share to a total. -/
theorem line_le_totalOf (f : CreditLineValues → Uint128) (q : Querier) (token : Token)
    (account : Addr) (hm : market ∈ markets) :
    (f (lineOf q token account market)).val ≤ totalOf f q token account markets :=
  Finset.single_le_sum (f := fun m => (f (lineOf q token account m)).val)
    (fun _ _ => Nat.zero_le _) (List.mem_toFinset.mpr hm)

/-! ## Totals when one market moves -/

theorem lineOf_congr (h : Query.creditLine q' token account market =
    Query.creditLine q token account market) :
    lineOf q' token account market = lineOf q token account market := by
  rw [lineOf, lineOf, h]

/-- Only the share of the market that moved changes. -/
theorem totalOf_move (f : CreditLineValues → Uint128) {markets' : List Addr}
    (hset : markets'.toFinset = markets.toFinset) (hm : market ∈ markets)
    (hother : ∀ m, m ≠ market → lineOf q' token account m = lineOf q token account m) :
    totalOf f q' token account markets' + (f (lineOf q token account market)).val =
      totalOf f q token account markets + (f (lineOf q' token account market)).val := by
  have hmem := List.mem_toFinset.mpr hm
  have hrest : ∑ m ∈ markets.toFinset.erase market, (f (lineOf q' token account m)).val =
      ∑ m ∈ markets.toFinset.erase market, (f (lineOf q token account m)).val :=
    Finset.sum_congr rfl fun m h => by rw [hother m (Finset.ne_of_mem_erase h)]
  unfold totalOf
  rw [hset, ← Finset.sum_erase_add _ _ hmem, ← Finset.sum_erase_add markets.toFinset _ hmem, hrest]
  omega

/-- A market outside the set does not matter. -/
theorem totalOf_outside (f : CreditLineValues → Uint128) (hm : market ∉ markets)
    (hother : ∀ m, m ≠ market → lineOf q' token account m = lineOf q token account m) :
    totalOf f q' token account markets = totalOf f q token account markets := by
  refine Finset.sum_congr rfl ?_
  intro m h
  rw [hother m]
  rintro rfl
  exact hm (List.mem_toFinset.mp h)

/-- A market that is entered adds its share. -/
theorem totalOf_enter (f : CreditLineValues → Uint128) {markets' : List Addr}
    (hset : markets'.toFinset = insert market markets.toFinset) (hm : market ∉ markets)
    (hother : ∀ m, m ≠ market → lineOf q' token account m = lineOf q token account m) :
    totalOf f q' token account markets' =
      totalOf f q token account markets + (f (lineOf q' token account market)).val := by
  have hrest := totalOf_outside f hm hother
  unfold totalOf at hrest ⊢
  rw [hset, Finset.sum_insert (mt List.mem_toFinset.mp hm), hrest, Nat.add_comm]

/-- With borrow limit ratios of at most one the total limit is within the total credit. -/
theorem totalOf_mono {f g : CreditLineValues → Uint128} (h : ∀ m ∈ markets,
    f (lineOf q token account m) ≤ g (lineOf q token account m)) :
    totalOf f q token account markets ≤ totalOf g q token account markets :=
  Finset.sum_le_sum fun m hm => h m (List.mem_toFinset.mp hm)

/-- The debt in an entered market is part of the total debt. -/
theorem debt_le_totalCreditLine {line : CreditLineResponse}
    (h : Query.totalCreditLine q s account = .ok response) (hm : market ∈ s.entered account)
    (hl : q.creditLine market account = .ok line) : line.debt.amount ≤ response.debt.amount := by
  obtain ⟨v, rfl, hall, -, -, hdebt⟩ := totalCreditLine_spec h
  have hline := hall market hm
  simp only [Query.creditLine, bind_eq_ok, mapError_eq_ok,
    CreditLineResponse.validate_eq_ok] at hline
  obtain ⟨line', hl', hline⟩ := hline
  cases hl.symm.trans hl'
  rw [hline, Uint128.le_def]
  have hle := line_le_totalOf CreditLineValues.debt q s.config.commonToken account hm
  simp only [CreditLineValues.makeResponse, Token.amount]
  omega

end WyndLend.CreditAgency
