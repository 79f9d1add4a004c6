import WyndLend.Platform.Borrowing
import WyndLend.Platform.Governance
import WyndLend.Platform.Liquidation

/-!
# Accounts that only save

An account that never borrows owes nothing, so its total debt is zero whatever the prices
are, and no liquidation of it is allowed. As long as only markets enter accounts, what such
an account holds is therefore out of the reach of all others.
-/

namespace WyndLend

open CosmWasm Utils Rebasing

namespace Market.System

variable {env : Env} {sys : System} {account : Addr} {response : CreditLineResponse} {time : ℕ}

/-- A market without points of the account reports no debt of it, at any price. -/
theorem creditLine_unindebted (hno : ¬ sys.Owes account)
    (h : Query.creditLine (sys.querier env) sys.market time account = .ok response) :
    response.debt.amount = 0 := by
  simp only [Query.creditLine, bind_eq_ok] at h
  obtain ⟨⟨collateral, debt⟩, hb, h⟩ := h
  have hdebt : debt = 0 := by
    obtain ⟨_, u, -, -, hcase⟩ := simulatedBalance_spec hb
    rw [debtOf_eq_zero hno] at hcase
    refine Uint128.val_eq_zero.mp ?_
    cases u with
    | none => exact hcase.2
    | some u => simpa [toBase] using hcase.2
  split_ifs at h with h0
  · cases h
    rfl
  · simp only [bind_eq_ok, mapError_eq_ok, coinTimesPriceRate_eq_ok, pure_eq_ok] at h
    obtain ⟨_, -, _, -, d, ⟨-, -, hd⟩, _, -, _, -, rfl⟩ := h
    simp only [hdebt, Token.amount, Uint128.val_zero, Nat.zero_mul, Nat.zero_div] at hd
    exact Uint128.val_eq_zero.mp hd

end Market.System

namespace Platform

open CreditAgency

variable {env : Env} {tx : Tx} {txs txs' : List Tx} {p p' : Platform} {market account : Addr}
  {address : Addr} {sys : Market.System} {config : Config} {msgs : List CreditAgency.Message}

/-- Nobody but the markets makes accounts enter. -/
def EnteredByMarkets (p : Platform) (tx : Tx) : Prop :=
  match tx.action with
  | .agency info (.enterMarket _) => (p.markets.mayLoad info.sender).isSome
  | _ => True

instance (p : Platform) (tx : Tx) : Decidable (EnteredByMarkets p tx) :=
  match tx with
  | ⟨_, .agency info (.enterMarket _)⟩ =>
    inferInstanceAs (Decidable ((p.markets.mayLoad info.sender).isSome = true))
  | ⟨_, .agency _ (.createMarket _)⟩ | ⟨_, .agency _ (.liquidate ..)⟩
  | ⟨_, .agency _ (.exitMarket _)⟩ | ⟨_, .agency _ (.repayWithCollateral ..)⟩
  | ⟨_, .agency _ (.receive ..)⟩ | ⟨_, .agency _ (.adjustMarketId _)⟩
  | ⟨_, .agency _ (.adjustTokenId _)⟩ | ⟨_, .agency _ (.adjustCommonToken _)⟩
  | ⟨_, .agency _ (.migrateMarket ..)⟩ | ⟨_, .market ..⟩ | ⟨_, .ctoken ..⟩ | ⟨_, .donate ..⟩ =>
    .isTrue trivial

/-- The account owes nothing anywhere, and has entered markets of the platform only. -/
structure Saves (account : Addr) (p : Platform) : Prop where
  owes : OwesWithin account (fun _ => 0) p
  entered : ∀ market ∈ p.agency.entered account, ∃ sys, p.markets.mayLoad market = some sys

namespace Saves

theorem start : Saves account (start address config) := by
  refine ⟨fun _ _ found => absurd found not_found_start, ?_⟩
  intro market hm
  exact absurd hm (BTreeSet.not_mem_empty market)

theorem unindebted (hi : Saves account p) (found : p.markets.mayLoad market = some sys) :
    ¬ sys.Owes account := by
  obtain ⟨-, hpoints⟩ := hi.owes market sys found
  rw [Nat.zero_mul] at hpoints
  rcases Nat.mul_eq_zero.mp (Nat.le_zero.mp hpoints) with hzero | hzero
  · exact not_not.mpr (Uint128.val_eq_zero.mp hzero)
  · exact absurd hzero (by decide)

/-- The total debt of the account is zero, whenever there is a total. -/
theorem no_debt (hi : Saves account p) {total : CreditLineResponse}
    (h : p.totalCreditLine env account = .ok total) : total.debt.amount = 0 := by
  obtain ⟨hall, -, -, hdebt⟩ := total_values h
  refine Uint128.val_eq_zero.mp (hdebt.trans ?_)
  unfold totalOf CreditAgency.totalOf
  refine Finset.sum_eq_zero fun market hmem => ?_
  have hm : market ∈ p.agency.entered account := List.mem_toFinset.mp hmem
  obtain ⟨sys, found⟩ := hi.entered market hm
  have hline := Market.System.creditLine_unindebted (hi.unindebted found)
    (market_line found (hall market hm))
  exact Uint128.val_eq_zero.mpr hline

theorem not_liquidated (hi : Saves account p) {sender : Addr} {coins : Coin} {token : Token}
    {r : State × List CreditAgency.Message} :
    CreditAgency.liquidate (p.querier env) p.agency sender account coins token ≠ .ok r := by
  obtain ⟨s', msgs⟩ := r
  intro h
  obtain ⟨-, hl⟩ := liquidate_spec h
  cases hl with
  | mk total excess =>
    have hzero := hi.no_debt total
    simp only [CreditLineValues.makeResponse, Token.amount] at hzero
    rw [hzero, Uint128.lt_def] at excess
    exact absurd excess (Nat.not_lt_zero _)

theorem update {sys' : Market.System} {accounts : List Addr}
    (hi : ∀ market ∈ p.agency.entered account, ∃ sys, p.markets.mayLoad market = some sys)
    (found : p.markets.mayLoad market = some sys) :
    ∀ m ∈ (p.update market sys' accounts).agency.entered account,
      ∃ s, (p.update market sys' accounts).markets.mayLoad m = some s := by
  intro m hm
  rcases mem_entered_update.mp hm with ⟨-, rfl⟩ | hm
  · exact ⟨sys', Map.mayLoad_save_self _ _ _⟩
  · exact exists_save (hi m hm)

/-- Whatever happens, as long as the account does not borrow. -/
theorem step (hi : Saves account p) (hg : EnteredByMarkets p tx)
    (hno : ∀ market, tx.action.lent market account = 0) (h : step tx p = .ok p') :
    Saves account p' := by
  refine ⟨(step_owesWithin hi.owes h).mono fun m => by rw [hno m], ?_⟩
  obtain ⟨env, action⟩ := tx
  cases action with
  | agency info msg =>
    simp only [Platform.step, bind_eq_ok, mapError_eq_ok] at h
    obtain ⟨⟨agency, msgs⟩, he, hd⟩ := h
    cases CreditAgency.execute_outcome he with
    | created _ _ vacant =>
      obtain ⟨q, hq, hd⟩ := bind_eq_ok.mp hd
      cases hd
      obtain ⟨-, s, t, -, -, rfl⟩ := instantiateMarket_spec hq
      exact fun m hm => exists_save (hi.entered m hm)
    | entered =>
      cases hd
      intro m hm
      rcases mem_entered_enterMarket.mp hm with ⟨-, rfl⟩ | hm
      · exact Option.isSome_iff_exists.mp hg
      · exact hi.entered m hm
    | exited =>
      cases hd
      intro m hm
      dsimp only at hm
      rw [entered_save] at hm
      split_ifs at hm with ha
      · subst ha
        exact hi.entered m (BTreeSet.mem_remove.mp hm).2
      · exact hi.entered m hm
    | forwarded _ _ none =>
      refine calls_preserve (I := fun q => ∀ m ∈ q.agency.entered account,
        ∃ s, q.markets.mayLoad m = some s) (deliverAll_calls hd none) hi.entered ?_
      intro q q' hq hcall
      cases hcall with
      | execute found => exact update hq found
      | migrate found => exact update hq found
  | market market info msg =>
    obtain ⟨sys, sys', entered, found, -, rfl⟩ := executeMarket_spec h
    exact update hi.entered found
  | ctoken | donate =>
    simp only [Platform.step, bind_eq_ok, find_eq_ok, mapError_eq_ok, pure_eq_ok] at h
    obtain ⟨sys, found, sys', -, rfl⟩ := h
    exact update hi.entered found

theorem run {guard : Platform → Tx → Prop} (hi : Saves account p)
    (h : Run Platform.step guard p txs p') (hg : ∀ q tx, guard q tx → EnteredByMarkets q tx)
    (hno : ∀ market, borrowedBy market account txs = 0) : Saves account p' := by
  have hall : ∀ tx ∈ txs, ∀ market, tx.action.lent market account = 0 := by
    intro tx hm market
    exact List.sum_eq_zero_iff.mp (hno market) _ (List.mem_map_of_mem hm)
  clear hno
  induction h with
  | nil => exact hi
  | snoc _ hguard hs ih =>
    refine (ih fun tx hm => hall tx (List.mem_append_left _ hm)).step (hg _ _ hguard) ?_ hs
    exact hall _ (List.mem_append_right _ (List.mem_singleton_self _))

/-- Others neither liquidate the account nor take anything from it. -/
theorem step_held (hi : Saves account p) (hl : Linked p) (hc : Controlled p) (hg : Genuine p tx)
    (hother : tx.sender ≠ some account) (h : Platform.step tx p = .ok p') :
    Keeps (held account) p p' := by
  refine (step_keeps account hl hc hg h).1 fun hspends => ?_
  obtain ⟨env, action⟩ := tx
  cases hspends with
  | withdraw | transfer | send | repayWithCollateral => exact hother rfl
  | @liquidate info _ token =>
    simp only [Platform.step, CreditAgency.execute, bind_eq_ok, mapError_eq_ok] at h
    obtain ⟨r, he, -⟩ := h
    split at he
    · exact hi.not_liquidated he
    · cases he
  | receive =>
    simp only [Platform.step, bind_eq_ok, mapError_eq_ok] at h
    obtain ⟨r, he, -⟩ := h
    exact hi.not_liquidated he

/-- Others do not borrow in the name of the account. -/
theorem lent_of_other (h : tx.sender ≠ some account) : tx.action.lent market account = 0 := by
  obtain ⟨env, action⟩ := tx
  cases action with
  | market other info msg =>
    have hsender : info.sender ≠ account := fun heq => h (congrArg some heq)
    cases msg <;> simp [Action.lent, Market.ExecuteMsg.lent, hsender]
  | agency | ctoken | donate => rfl

end Saves

/-- Nobody is impersonated, and nobody but the markets makes accounts enter. -/
def Honest (p : Platform) (tx : Tx) : Prop := Genuine p tx ∧ EnteredByMarkets p tx

instance (p : Platform) (tx : Tx) : Decidable (Honest p tx) :=
  inferInstanceAs (Decidable (_ ∧ _))

/-- Whoever does not borrow cannot be liquidated, at any prices, and nothing that others do
from then on lowers the worth of what it holds: in every market its base balance at the end
is at least what it was. -/
theorem saver_safe (account : Addr) (h : Run step Honest (start address config) txs p)
    (hsaver : ∀ market, borrowedBy market account txs = 0) (h' : Run step Honest p txs' p')
    (hothers : ∀ tx ∈ txs', tx.sender ≠ some account) :
    (∀ env liquidator coins token r,
      CreditAgency.liquidate (p'.querier env) p'.agency liquidator account coins token ≠ .ok r) ∧
    ∀ market sys, p.markets.mayLoad market = some sys →
      ∃ sys', p'.markets.mayLoad market = some sys' ∧
        sys.ctoken.inBase account ≤ sys'.ctoken.inBase account := by
  have hsaves : Saves account p := Saves.start.run h (fun _ _ hg => hg.2) hsaver
  have hend : Saves account p' ∧ Keeps (held account) p p' := by
    induction h' with
    | nil => exact ⟨hsaves, keeps_of_markets rfl⟩
    | @snoc u v is tx hrun hg hs ih =>
      obtain ⟨hi, hkeeps⟩ := ih fun tx hm => hothers tx (List.mem_append_left _ hm)
      have hother := hothers tx (List.mem_append_right _ (List.mem_singleton_self _))
      have hreached := h.trans hrun
      refine ⟨hi.step hg.2 (fun _ => Saves.lent_of_other hother) hs, hkeeps.trans ?_⟩
      exact hi.step_held (run_linked hreached) (run_controlled hreached) hg.1 hother hs
  refine ⟨fun _ _ _ _ _ => hend.1.not_liquidated, ?_⟩
  intro market sys found
  obtain ⟨sys', found', hle⟩ := hend.2 market sys found
  exact ⟨sys', found', Ctoken.inBase_mono hle⟩

/-- Bob borrows from the lender, and Carol liquidates him when his atom has lost half of its
value; the lender has only saved, so that the same is not allowed against it. -/
theorem saver_safe_example : ∃ p p' sys sys',
    Run step Honest (start "agency" sampleConfig)
      (sampleCollateral sampleHalf ⟨600_000_000_000_000_000⟩ Decimal.zero 10) p ∧
    Run step Honest p [sampleBorrow (sampleEnv "" "" sampleHalf) 2,
      sampleLiquidation (sampleEnv "" "" ⟨250_000_000_000_000_000⟩)] p' ∧
    p.markets.mayLoad "usd market" = some sys ∧ p'.markets.mayLoad "usd market" = some sys' ∧
    sys.ctoken.inBase "lender" ≤ sys'.ctoken.inBase "lender" ∧
    ∀ r, CreditAgency.liquidate (p'.querier (sampleEnv "" "" ⟨250_000_000_000_000_000⟩)) p'.agency
      "carol" "lender" ⟨.native "usd", 1⟩ (.native "usd") ≠ .ok r := by
  obtain ⟨p, hrun, ⟨sys, found, -⟩, hrest⟩ : ∃ p, Run step Honest (start "agency" sampleConfig)
      (sampleCollateral sampleHalf ⟨600_000_000_000_000_000⟩ Decimal.zero 10) p ∧
      (∃ sys ∈ p.markets.mayLoad "usd market", sys.ctoken.inBase "lender" = 1_000) ∧
      (runAll step Honest [sampleBorrow (sampleEnv "" "" sampleHalf) 2,
        sampleLiquidation (sampleEnv "" "" ⟨250_000_000_000_000_000⟩)] p).any
          (fun _ => decide True) = true :=
    exists_run_of_runAll (by decide +kernel)
  obtain ⟨p', hrun', -⟩ := exists_run_of_runAll hrest
  have hsaver : ∀ market, borrowedBy market "lender"
      (sampleCollateral sampleHalf ⟨600_000_000_000_000_000⟩ Decimal.zero 10) = 0 := by
    simp [borrowedBy, sampleCollateral, Action.lent, Market.ExecuteMsg.lent]
  obtain ⟨hrefused, hheld⟩ := saver_safe "lender" hrun hsaver hrun' (by decide)
  obtain ⟨sys', found', hle⟩ := hheld "usd market" sys found
  exact ⟨p, p', sys, sys', hrun, hrun', found, found', hle, hrefused _ _ _ _⟩

end Platform

end WyndLend
