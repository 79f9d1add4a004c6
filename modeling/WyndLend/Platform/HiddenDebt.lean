import WyndLend.CreditAgency.Totals
import WyndLend.Platform.Ratios

/-!
# No hidden debt

The credit agency only counts the debt in the markets that an account has entered. A
loan enters the market, and only `ExitMarket` leaves it again. It looks at the debt in
common tokens, truncated, so a debt that is worth less than one common token does not
keep the account in the market.
-/

namespace WyndLend.Platform

open CosmWasm Utils CreditAgency

variable {tx : Tx} {p p' : Platform} {env : Env} {market account : Addr} {sys sys' : Market.System}
  {entered : List Addr} {txs : List Tx} {address : Addr} {config : CreditAgency.Config}

/-- The account has debt points in the market. -/
def Owes (p : Platform) (market account : Addr) : Prop :=
  ∃ sys ∈ p.markets.mayLoad market, sys.Owes account

instance (p : Platform) (market account : Addr) : Decidable (p.Owes market account) :=
  inferInstanceAs (Decidable (∃ sys ∈ p.markets.mayLoad market, sys.Owes account))

def NoHiddenDebt (p : Platform) : Prop :=
  ∀ market account, p.Owes market account → market ∈ p.agency.entered account

/-- The market that an account wants to exit, and the account. -/
def Action.exit : Action → Option (Addr × Addr)
  | .agency info (.exitMarket market) => some (market, info.sender)
  | _ => none

/-- A market is only exited by an account without debt points there. -/
def ExitsClear (p : Platform) (tx : Tx) : Prop := ∀ e ∈ tx.action.exit, ¬ p.Owes e.1 e.2

instance (p : Platform) (tx : Tx) : Decidable (ExitsClear p tx) :=
  inferInstanceAs (Decidable (∀ e ∈ tx.action.exit, ¬ p.Owes e.1 e.2))

theorem update_noHiddenDebt (hi : NoHiddenDebt p) (found : p.markets.mayLoad market = some sys)
    (hnew : ∀ account, sys'.Owes account → sys.Owes account ∨ account ∈ entered) :
    NoHiddenDebt (p.update market sys' entered) := by
  rintro m account ⟨s, hs, ho⟩
  rw [mem_entered_update]
  by_cases hm : m = market
  · subst hm
    cases (Map.mayLoad_save_self _ _ _).symm.trans hs
    rcases hnew account ho with hbefore | hentered
    · exact .inr (hi m account ⟨sys, found, hbefore⟩)
    · exact .inl ⟨hentered, rfl⟩
  · exact .inr (hi m account ⟨s, (Map.mayLoad_save_ne _ _ hm).symm.trans hs, ho⟩)

theorem call_noHiddenDebt (hi : NoHiddenDebt p) (h : Call env p p') : NoHiddenDebt p' := by
  cases h with
  | execute found _ executed =>
    exact update_noHiddenDebt hi found fun _ ho => Market.System.execute_owes executed ho
  | @migrate _ sys isotonicTokenId found =>
    refine update_noHiddenDebt hi found fun account ho => .inl ?_
    unfold Market.System.Owes at ho
    rwa [(Market.migrate_frame sys.market isotonicTokenId).1] at ho

/-- A new market has no debts yet. -/
theorem created_noHiddenDebt (hi : NoHiddenDebt p) (fresh : ∀ account, ¬ sys.Owes account)
    {agency : State} (hentered : ∀ account, agency.entered account = p.agency.entered account) :
    NoHiddenDebt { p with agency, markets := p.markets.save market sys } := by
  rintro m account ⟨s, hs, ho⟩
  dsimp only at hs ⊢
  rw [hentered]
  by_cases hm : m = market
  · subst hm
    cases (Map.mayLoad_save_self _ _ _).symm.trans hs
    exact absurd ho (fresh account)
  · exact hi m account ⟨s, (Map.mayLoad_save_ne _ _ hm).symm.trans hs, ho⟩

theorem step_noHiddenDebt (hi : NoHiddenDebt p) (hg : ExitsClear p tx) (h : step tx p = .ok p') :
    NoHiddenDebt p' := by
  cases step_effect h with
  | market _ found executed =>
    exact update_noHiddenDebt hi found fun _ ho => Market.System.execute_owes executed ho
  | held found _ same =>
    refine update_noHiddenDebt hi found fun _ ho => .inl ?_
    unfold Market.System.Owes at ho ⊢
    rwa [same] at ho
  | created _ _ instantiated ready =>
    subst ready
    obtain ⟨-, -, -, fresh⟩ := instantiate_spec instantiated
    exact created_noHiddenDebt hi fresh fun _ => rfl
  | entered =>
    intro m account ho
    exact mem_entered_enterMarket.mpr (.inr (hi m account ho))
  | @exited info market _ action left =>
    subst left
    intro m account ho
    have hm := hi m account ho
    dsimp only
    rw [entered_save]
    split_ifs with ha
    · subst ha
      refine BTreeSet.mem_remove.mpr ⟨?_, hm⟩
      rintro rfl
      exact hg (m, info.sender) (by rw [action]; rfl) ho
    · exact hm
  | called _ calls => exact calls_preserve calls hi fun _ _ => call_noHiddenDebt

/-- An exit by an account that still has points hides them, so the check is needed. -/
theorem step_noHiddenDebt_iff (hi : NoHiddenDebt p) (h : step tx p = .ok p') :
    NoHiddenDebt p' ↔ ExitsClear p tx := by
  refine ⟨?_, fun hg => step_noHiddenDebt hi hg h⟩
  obtain ⟨env, action⟩ := tx
  rintro hafter ⟨market, account⟩ he ho
  obtain ⟨info, rfl, rfl⟩ : ∃ info, action = .agency info (.exitMarket market) ∧
      info.sender = account := by
    cases action with
    | agency info msg =>
      cases msg with
      | exitMarket market =>
        cases he
        exact ⟨info, rfl, rfl⟩
      | _ => cases he
    | _ => cases he
  simp only [step, bind_eq_ok, mapError_eq_ok] at h
  obtain ⟨⟨agency, msgs⟩, hexit, hd⟩ := h
  obtain ⟨-, -, -, rfl, rfl⟩ := exitMarket_spec hexit
  cases hd
  have hm := hafter market info.sender ho
  dsimp only at hm
  rw [entered_save, if_pos rfl] at hm
  exact (BTreeSet.mem_remove.mp hm).1 rfl

/-- If only accounts without debt points exit a market, then an account that owes anything
in a market has entered it, and its total credit line counts the debt. -/
theorem debt_in_entered (h : Run step ExitsClear (start address config) txs p)
    (found : p.markets.mayLoad market = some sys) {debt : Uint128}
    (owed : Market.Debt.of sys.market.debt account = .ok debt) (hne : debt ≠ 0) :
    market ∈ p.agency.entered account ∧ ∀ env total line,
      p.totalCreditLine env account = .ok total →
      (p.querier env).creditLine market account = .ok line →
      line.debt.amount ≤ total.debt.amount := by
  have hi : NoHiddenDebt p := by
    refine h.invariant ?_ fun _ _ _ hi hg hs => step_noHiddenDebt hi hg hs
    rintro m a ⟨s, hs, -⟩
    exact absurd hs not_found_start
  have hm := hi market account ⟨sys, found, Market.System.owes_of_debt owed hne⟩
  exact ⟨hm, fun env total line ht hl => debt_le_totalCreditLine ht hm hl⟩

/-! ## A debt that is worth nothing -/

/-- Bob borrows atom on ten dollars, when one atom is worth `price`. -/
def sampleLoan (amount : Uint128) (price : Decimal) : List Tx :=
  [⟨sampleEnv "usd market" "usd ctoken" price,
      .agency ⟨"gov", []⟩ (.createMarket (sampleMarket "usd"))⟩,
    ⟨sampleEnv "atom market" "atom ctoken" price,
      .agency ⟨"gov", []⟩ (.createMarket (sampleMarket "atom"))⟩,
    ⟨sampleEnv "" "" price, .market "atom market" ⟨"lender", [("atom", 1_000_000)]⟩ .deposit⟩,
    ⟨sampleEnv "" "" price, .market "usd market" ⟨"bob", [("usd", 10)]⟩ .deposit⟩,
    ⟨sampleEnv "" "" price, .market "atom market" ⟨"bob", []⟩ (.borrow amount)⟩]

def sampleExit (price : Decimal) : Tx :=
  ⟨sampleEnv "" "" price, .agency ⟨"bob", []⟩ (.exitMarket "atom market")⟩

theorem debt_in_entered_example : ∃ p,
    Run step ExitsClear (start "agency" sampleConfig) (sampleLoan 900_000 ⟨1_000_000_000_000⟩) p ∧
    "atom market" ∈ p.agency.entered "bob" := by
  obtain ⟨p, hrun, sys, found, owed⟩ : ∃ p, Run step ExitsClear (start "agency" sampleConfig)
      (sampleLoan 900_000 ⟨1_000_000_000_000⟩) p ∧ ∃ sys ∈ p.markets.mayLoad "atom market",
        (Market.Debt.of sys.market.debt "bob").toOption = some 900_000 :=
    exists_run_of_runAll (by decide +kernel)
  exact ⟨p, hrun, (debt_in_entered hrun found (toOption_eq_some.mp owed) (by decide)).1⟩

/-- At a millionth of a dollar for an atom Bob leaves the market with a debt of 900000. -/
theorem worthless_debt_hidden : ∃ p sys,
    Run step (fun _ _ => True) (start "agency" sampleConfig)
      (sampleLoan 900_000 ⟨1_000_000_000_000⟩ ++ [sampleExit ⟨1_000_000_000_000⟩]) p ∧
    p.markets.mayLoad "atom market" = some sys ∧
    Market.Debt.of sys.market.debt "bob" = .ok 900_000 ∧
    "atom market" ∉ p.agency.entered "bob" := by
  obtain ⟨p, hrun, ⟨sys, found, owed⟩, hout⟩ : ∃ p, Run step (fun _ _ => True)
      (start "agency" sampleConfig)
      (sampleLoan 900_000 ⟨1_000_000_000_000⟩ ++ [sampleExit ⟨1_000_000_000_000⟩]) p ∧
      (∃ sys ∈ p.markets.mayLoad "atom market",
        (Market.Debt.of sys.market.debt "bob").toOption = some 900_000) ∧
      "atom market" ∉ p.agency.entered "bob" :=
    exists_run_of_runAll (by decide +kernel)
  exact ⟨p, sys, hrun, found, toOption_eq_some.mp owed, hout⟩

end WyndLend.Platform
