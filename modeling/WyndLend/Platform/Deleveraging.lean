import WyndLend.Platform.Shortfall

/-!
# Repaying a loan with its own collateral

Before any collateral is sold, `RepayWithCollateral` checks that the credit line without the
collateral that may be sold covers the debt without what is repaid. As long as the market is
handed no higher limit than the one that was checked, this holds afterwards up to truncation,
and nobody can liquidate the account for more than that.
-/

namespace WyndLend

open CosmWasm Utils Rebasing

namespace Market.System

variable {env : Env} {sys sys' : System} {sender account : Addr} {buy : Coin}
  {sellLimit : Uint128} {entered : List Addr}

/-- A sale costs the account at most the limit, in base tokens. -/
theorem execute_sold
    (h : execute env ⟨sender, []⟩ (.swapWithdrawFrom account buy sellLimit) sys =
      .ok (sys', entered)) :
    entered = [] ∧ sys'.market = sys.market ∧
      sys.collateralOf account ≤ sys'.collateralOf account + sellLimit.val := by
  cases unfunded_outcome (by simp) h with
  | send plain _ _ hpaid =>
    obtain ⟨hct, -⟩ := Holdings.pay_eq_ok.mp hpaid
    refine ⟨rfl, rfl, ?_⟩
    unfold collateralOf
    rw [hct]
    exact Nat.le_add_right _ _
  | @swap _ _ _ estimate _ _ _ plain _ _ _ hle hworth hburned hpaid =>
    cases plain
    rw [callCtoken, Holdings.callCtoken_burnFrom] at hburned
    obtain ⟨ct, hburn, rfl⟩ := hburned
    obtain ⟨hct, -⟩ := Holdings.pay_eq_ok.mp hpaid
    obtain ⟨-, -, b, t, w, hb, -, rfl⟩ := Ctoken.burnFrom_spec hburn
    refine ⟨rfl, rfl, ?_⟩
    have hlost := toBase_add_toPoints_le fractional b.val estimate.val
      sys.ctoken.multiplier.atomics.val
    have hpoints : toPoints fractional estimate.val sys.ctoken.multiplier.atomics.val = _ :=
      (baseToToken_eq_ok.mp hworth).2.symm
    rw [hpoints, hb] at hlost
    unfold collateralOf
    dsimp only
    rw [hct]
    simp only [Ctoken.State.balance, Map.mayLoad_save_self, Option.getD_some] at hlost ⊢
    exact hlost.trans (Nat.add_le_add_left (Uint128.le_def.mp hle) _)
  | _ => grind [ExecuteMsg.plain]

end Market.System

namespace CreditAgency

variable {q : Querier} {s s' : State} {sender : Addr} {maxCollateral amountToRepay : Coin}
  {msgs : List Message}

/-- What `RepayWithCollateral` has checked, and what it sends to the two markets. -/
inductive SelfRepayment (q : Querier) (s : State) (sender : Addr)
    (maxCollateral amountToRepay : Coin) : List Message → Prop where
  | mk {collateralMarket debtMarket total} {cfg : Market.Config} {sold owed : PriceRate}
    (collateral : Query.market s maxCollateral.denom = .ok collateralMarket)
    (debt : Query.market s amountToRepay.denom = .ok debtMarket)
    (collateralEntered : collateralMarket ∈ s.entered sender)
    (debtEntered : debtMarket ∈ s.entered sender)
    (totalled : Query.totalCreditLine q s sender = .ok total)
    (configured : q.configuration collateralMarket = .ok cfg)
    (collateralPriced : q.priceMarketLocalPerCommon collateralMarket = .ok sold)
    (debtPriced : q.priceMarketLocalPerCommon debtMarket = .ok owed)
    (covered : total.debt.amount.val + toBase fractional
        (toBase fractional maxCollateral.amount.val sold.rateSellPerBuy.atomics.val)
        cfg.collateralRatio.atomics.val ≤
      total.creditLine.amount.val +
        toBase fractional amountToRepay.amount.val owed.rateSellPerBuy.atomics.val) :
    SelfRepayment q s sender maxCollateral amountToRepay
      [.swapWithdrawFrom collateralMarket sender amountToRepay,
        .repayTo debtMarket amountToRepay sender]

theorem repayWithCollateral_checked
    (h : repayWithCollateral q s sender maxCollateral amountToRepay = .ok (s', msgs)) :
    s' = s ∧ SelfRepayment q s sender maxCollateral amountToRepay msgs := by
  simp only [repayWithCollateral, bind_eq_ok, ensure_eq_ok, mapError_eq_ok, Coin.checkedSub,
    Uint128.mulDecimal_eq_ok, Uint128.sub_eq_ok, pure_eq_ok] at h
  obtain ⟨collateralMarket, hc, debtMarket, hd, -, hcIn, -, hdIn, total, htotal, cfg, hcfg, sold,
    hsold, collateral, hcollateral, owed, howed, repaid, hrepaid, credit, hcredit, line, hline,
    left, hleft, -, hle, h⟩ := h
  cases h
  obtain ⟨-, -, creditLeft, hcreditLeft, rfl⟩ := hline
  obtain ⟨-, -, debtLeft, hdebtLeft, rfl⟩ := hleft
  refine ⟨rfl, .mk hc hd hcIn hdIn htotal hcfg hsold howed ?_⟩
  simp only [Token.amount, Uint128.le_def] at hcreditLeft hdebtLeft hle
  unfold toBase
  rw [← hcollateral, ← hcredit, ← hrepaid]
  omega

end CreditAgency

namespace Platform

open CreditAgency

variable {env : Env} {p p' sold : Platform} {account collateral debt : Addr}
  {sys left debtor repaid : Market.System} {rate rate' : PriceRate} {amount sellLimit : Uint128}
  {maxCollateral amountToRepay : Coin} {info : Market.MessageInfo}
  {before after : CreditLineResponse}

/-- Of the account's totals the credit moves with the collateral market and the debt with the
debt market. -/
theorem totals_sold (hcollateral : collateral ∈ p.agency.entered account)
    (hdebt : debt ∈ p.agency.entered account)
    (found : p.markets.mayLoad collateral = some sys) (hidle : sys.Idle env.time)
    (hleft : left.market = sys.market)
    (hprice : Market.Query.priceMarketLocalPerCommon (sys.querier env.leaf) sys.market = .ok rate)
    (found' : (p.update collateral left []).markets.mayLoad debt = some debtor)
    (hdebtor : debtor.Idle env.time) (hrepaid : Repaid account amount debtor repaid)
    (hprice' : Market.Query.priceMarketLocalPerCommon (debtor.querier env.leaf) debtor.market =
      .ok rate')
    (hb : p.totalCreditLine env account = .ok before)
    (ha : ((p.update collateral left []).update debt repaid []).totalCreditLine env account =
      .ok after) :
    after.debt.amount.val + owedAt rate' debtor account =
        before.debt.amount.val + owedAt rate' repaid account ∧
      after.creditLine.amount.val + creditAt rate sys account =
        before.creditLine.amount.val + creditAt rate left account := by
  obtain ⟨-, hC, -, hD⟩ := total_values hb
  obtain ⟨-, hC', -, hD'⟩ := total_values ha
  have hleftIdle : left.Idle env.time := by
    unfold Market.System.Idle
    rw [hleft]
    exact hidle
  have hrepaidIdle : repaid.Idle env.time := by
    unfold Market.System.Idle
    rw [hrepaid.config]
    exact hdebtor
  have howedLeft : owedAt rate left account = owedAt rate sys account := by
    unfold owedAt Market.System.debtOf
    rw [hleft]
  have hcreditRepaid : creditAt rate' repaid account = creditAt rate' debtor account := by
    unfold creditAt
    rw [hrepaid.collateral, hrepaid.config]
  have hentered : ∀ m ∈ p.agency.entered account, m ∈ ((p.update collateral left []).update debt
      repaid []).agency.entered account :=
    fun m hm => mem_entered_update.mpr (.inr (mem_entered_update.mpr (.inr hm)))
  have hsold : ∀ f, totalOf f (p.update collateral left []) env account +
      (f (p.lineOf env account collateral)).val = totalOf f p env account +
        (f ((p.update collateral left []).lineOf env account collateral)).val :=
    fun f => total_update f List.not_mem_nil hcollateral
  have hpaid : ∀ f, totalOf f ((p.update collateral left []).update debt repaid []) env account +
      (f ((p.update collateral left []).lineOf env account debt)).val =
        totalOf f (p.update collateral left []) env account +
          (f (((p.update collateral left []).update debt repaid []).lineOf env account debt)).val :=
    fun f => total_update f List.not_mem_nil (mem_entered_update.mpr (.inr hdebt))
  have hc₁ := hsold CreditLineValues.creditLine
  have hd₁ := hsold CreditLineValues.debt
  have hc₂ := hpaid CreditLineValues.creditLine
  have hd₂ := hpaid CreditLineValues.debt
  obtain ⟨hcreditSys, howedSys⟩ := line_idle hb hcollateral found hidle hprice
  obtain ⟨hcreditEnd, howedEnd⟩ := line_idle ha (hentered debt hdebt)
    (Map.mayLoad_save_self _ _ _) hrepaidIdle ((price_congr hrepaid.config).trans hprice')
  by_cases heq : debt = collateral
  · subst heq
    cases (Map.mayLoad_save_self _ _ _).symm.trans found'
    cases ((price_congr (congrArg _ hleft)).trans hprice).symm.trans hprice'
    exact ⟨by omega, by omega⟩
  · have foundBefore : p.markets.mayLoad debt = some debtor :=
      (Map.mayLoad_save_ne _ _ heq).symm.trans found'
    obtain ⟨hcreditDebtor, howedDebtor⟩ := line_idle hb hdebt foundBefore hdebtor hprice'
    have foundLeft : ((p.update collateral left []).update debt repaid []).markets.mayLoad
        collateral = some left :=
      (Map.mayLoad_save_ne _ _ (Ne.symm heq)).trans (Map.mayLoad_save_self _ _ _)
    obtain ⟨hcreditLeft, howedLeft'⟩ := line_idle ha (hentered collateral hcollateral) foundLeft
      hleftIdle ((price_congr (congrArg _ hleft)).trans hprice)
    rw [lineOf_frame (Ne.symm heq)] at hcreditLeft howedLeft'
    have hframe : (p.update collateral left []).lineOf env account debt =
        p.lineOf env account debt := lineOf_frame heq
    rw [hframe] at hc₂ hd₂
    exact ⟨by omega, by omega⟩

/-- An account that repays with its collateral, in a block whose interest has been charged,
is left with a debt that its credit line covers, up to truncation. -/
theorem repayWithCollateral_covered
    (h : step ⟨env, .agency info (.repayWithCollateral maxCollateral amountToRepay)⟩ p = .ok p')
    (hlimit : env.sellLimit ≤ maxCollateral.amount)
    (hc : Query.market p.agency maxCollateral.denom = .ok collateral)
    (found : p.markets.mayLoad collateral = some sys) (hidle : sys.Idle env.time)
    (hratio : sys.market.config.collateralRatio ≤ Decimal.one)
    (hd : Query.market p.agency amountToRepay.denom = .ok debt)
    (found' : p.markets.mayLoad debt = some debtor) (hidle' : debtor.Idle env.time)
    (hprice : Market.Query.priceMarketLocalPerCommon (debtor.querier env.leaf) debtor.market =
      .ok rate)
    (ha : p'.totalCreditLine env info.sender = .ok after) :
    (after.debt.amount.val : ℚ) < after.creditLine.amount.val + 3 +
      (1 + debtor.market.debt.info.multiplier.atomics.val / fractional) *
        (rate.rateSellPerBuy.atomics.val / fractional) := by
  simp only [step, bind_eq_ok, mapError_eq_ok] at h
  obtain ⟨⟨agency, msgs⟩, he, hdelivered⟩ := h
  obtain ⟨rfl, hchecked⟩ := repayWithCollateral_checked he
  cases hchecked with
  | @mk _ _ before cfg sold owed hcollateral hdebt hcIn hdIn htotal hcfg hsold howed hcovered =>
    cases hc.symm.trans hcollateral
    cases hd.symm.trans hdebt
    obtain ⟨mid, hswap, hdelivered⟩ := bind_eq_ok.mp hdelivered
    obtain ⟨last, hrepay, hdelivered⟩ := bind_eq_ok.mp hdelivered
    cases hdelivered
    obtain ⟨_, left, entered, hfound, hs, rfl⟩ := executeMarket_spec hswap
    cases found.symm.trans hfound
    obtain ⟨rfl, hleft, hlost⟩ := Market.System.execute_sold hs
    -- the market that is repaid may be the one that has just sold the collateral
    obtain ⟨owing, foundOwing, hsame⟩ : ∃ owing : Market.System,
        (p.update collateral left []).markets.mayLoad debt = some owing ∧
          owing.market = debtor.market := by
      by_cases heq : debt = collateral
      · subst heq
        cases found.symm.trans found'
        exact ⟨left, Map.mayLoad_save_self _ _ _, hleft⟩
      · exact ⟨debtor, (Map.mayLoad_save_ne _ _ heq).trans found', rfl⟩
    have howing : owing.Idle env.time := by
      unfold Market.System.Idle
      rw [hsame]
      exact hidle'
    obtain ⟨repaid, rfl, hrepaid⟩ := repayTo_repaid foundOwing howing hrepay
    have hpriceOwing : Market.Query.priceMarketLocalPerCommon (owing.querier env.leaf)
        owing.market = .ok rate := (price_congr (congrArg _ hsame)).trans hprice
    simp only [querier, found, found', mapError_eq_ok] at hsold howed hcfg
    cases hprice.symm.trans howed
    obtain ⟨hdebtMoves, hcreditMoves⟩ := totals_sold hcIn hdIn found hidle hleft hsold foundOwing
      howing hrepaid hpriceOwing htotal ha
    have hcfgRatio : cfg.collateralRatio = sys.market.config.collateralRatio := by
      obtain ⟨_, -, hcfg⟩ := bind_eq_ok.mp hcfg
      cases hcfg
      rfl
    have hlost : sys.collateralOf info.sender ≤
        left.collateralOf info.sender + maxCollateral.amount.val :=
      hlost.trans (Nat.add_le_add_left (Uint128.le_def.mp hlimit) _)
    have hcredit : creditAt sold sys info.sender ≤ creditAt sold left info.sender +
        toBase fractional
          (toBase fractional maxCollateral.amount.val sold.rateSellPerBuy.atomics.val)
          cfg.collateralRatio.atomics.val + 2 := by
      unfold creditAt
      rw [hleft, hcfgRatio]
      exact (toBase_mono (toBase_mono hlost _) _).trans
        (weighted_add_le fractional_pos (Decimal.le_def.mp hratio) _ _ _)
    have hdebt := worth_lt (m := rate.rateSellPerBuy.atomics.val) hrepaid.debt
    rw [hsame] at hdebt
    have hdebtMoves : (after.debt.amount.val : ℚ) + owedAt rate owing info.sender =
        before.debt.amount.val + owedAt rate repaid info.sender := by exact_mod_cast hdebtMoves
    have hbefore : before.debt.amount.val ≤ after.creditLine.amount.val + 2 +
        toBase fractional amountToRepay.amount.val rate.rateSellPerBuy.atomics.val := by omega
    have hbefore : (before.debt.amount.val : ℚ) ≤ after.creditLine.amount.val + 2 +
        toBase fractional amountToRepay.amount.val rate.rateSellPerBuy.atomics.val := by
      exact_mod_cast hbefore
    unfold owedAt at hdebtMoves
    linarith

/-- Bob sells at most 100 of his 1000 atom for 50 of the 500 dollars that he owes. -/
def sampleSale : Env := { sampleEnv "" "" Decimal.one with sellLimit := 100 }

theorem repayWithCollateral_covered_example : ∃ p p' after debtor rate,
    Run step (fun _ _ => True) (start "agency" sampleConfig)
      (sampleCollateral Decimal.one ⟨600_000_000_000_000_000⟩ Decimal.zero 1_000 ++
        [sampleBorrow (sampleEnv "" "" Decimal.one) 500]) p ∧
    step ⟨sampleSale, .agency ⟨"bob", []⟩
      (.repayWithCollateral ⟨.native "atom", 100⟩ ⟨.native "usd", 50⟩)⟩ p = .ok p' ∧
    p'.totalCreditLine sampleSale "bob" = .ok after ∧
    p.markets.mayLoad "usd market" = some debtor ∧
    Market.Query.priceMarketLocalPerCommon (debtor.querier sampleSale.leaf) debtor.market =
      .ok rate ∧
    (after.debt.amount.val : ℚ) < after.creditLine.amount.val + 3 +
      (1 + debtor.market.debt.info.multiplier.atomics.val / fractional) *
        (rate.rateSellPerBuy.atomics.val / fractional) := by
  obtain ⟨p, hrun, ⟨hc, hd⟩, ⟨sys, found, hidle, hratio⟩, ⟨debtor, found', hidle', rate, hprice, -⟩,
      p', hs, after, ha, -⟩ : ∃ p, Run step (fun _ _ => True) (start "agency" sampleConfig)
        (sampleCollateral Decimal.one ⟨600_000_000_000_000_000⟩ Decimal.zero 1_000 ++
          [sampleBorrow (sampleEnv "" "" Decimal.one) 500]) p ∧
      ((Query.market p.agency (.native "atom")).toOption = some "atom market" ∧
        (Query.market p.agency (.native "usd")).toOption = some "usd market") ∧
      (∃ sys ∈ p.markets.mayLoad "atom market",
        sys.Idle 0 ∧ sys.market.config.collateralRatio ≤ Decimal.one) ∧
      (∃ debtor ∈ p.markets.mayLoad "usd market", debtor.Idle 0 ∧
        ∃ rate ∈ (Market.Query.priceMarketLocalPerCommon (debtor.querier sampleSale.leaf)
          debtor.market).toOption, True) ∧
      ∃ p' ∈ (step ⟨sampleSale, .agency ⟨"bob", []⟩
        (.repayWithCollateral ⟨.native "atom", 100⟩ ⟨.native "usd", 50⟩)⟩ p).toOption,
      ∃ after ∈ (p'.totalCreditLine sampleSale "bob").toOption, True :=
    exists_run_of_runAll (by decide +kernel)
  have hs := toOption_eq_some.mp hs
  have ha := toOption_eq_some.mp ha
  have hprice := toOption_eq_some.mp hprice
  refine ⟨p, p', after, debtor, rate, hrun, hs, ha, found', hprice, ?_⟩
  exact repayWithCollateral_covered hs (by decide) (toOption_eq_some.mp hc) found hidle hratio
    (toOption_eq_some.mp hd) found' hidle' hprice ha

end Platform

end WyndLend
