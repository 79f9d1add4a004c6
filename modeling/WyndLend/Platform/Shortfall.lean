import WyndLend.Platform.BankRun
import WyndLend.Platform.Liquidation

/-!
# The shortfall of a liquidated account

A liquidation lowers both sides of an account's balance: its debt by what is repaid and its
credit line by what is taken. Where the collateral that is taken carries no more credit than
the repaid value, the debt in excess of the credit line does not grow, up to truncation.
-/

namespace WyndLend

open CosmWasm Utils Rebasing

/-- The source of a transfer loses at most the tokens that are transferred. -/
theorem Ctoken.transferTokens_source {s s' : State} {source destination : Addr}
    {amount : Uint128} (h : transferTokens s source destination amount = .ok s') :
    (s.balance source).val ≤ (s'.balance source).val + amount.val ∧
      s'.multiplier = s.multiplier := by
  obtain ⟨-, s₁, ⟨b, c, hb, -, rfl⟩, b', c', hb', -, rfl⟩ := transferTokens_shifts h
  refine ⟨?_, rfl⟩
  simp only [State.balance, Map.mayLoad_save] at hb hb' ⊢
  by_cases hd : source = destination
  · simp only [hd, if_true, Option.getD_some] at hb hb' ⊢
    omega
  · simp only [if_neg hd, if_true, Option.getD_some] at hb ⊢
    omega

namespace Market.System

variable {env : Env} {sys sys' mid : System} {account source destination : Addr}
  {amount debt : Uint128} {time : ℕ} {rate : PriceRate} {v : CreditLineValues} {token : Token}

/-- With nothing pending, a credit line is a matter of the balances. -/
theorem creditLine_idle (hidle : Idle time sys)
    (hp : Query.priceMarketLocalPerCommon (sys.querier env) sys.market = .ok rate)
    (h : Query.creditLine (sys.querier env) sys.market time account =
      .ok (v.makeResponse token)) :
    v.creditLine.val = toBase fractional
      (toBase fractional (sys.collateralOf account) rate.rateSellPerBuy.atomics.val)
      sys.market.config.collateralRatio.atomics.val ∧
    v.debt.val = toBase fractional (sys.debtOf account) rate.rateSellPerBuy.atomics.val := by
  obtain ⟨c, d, hb, hcredit, hdebt⟩ := creditLine_values hp h
  obtain ⟨hc, hd⟩ := simulated_idle hidle hb
  rw [← hc, ← hd]
  exact ⟨hcredit, hdebt⟩

/-- Without a price there is only a credit line for those who have nothing. -/
theorem creditLine_unpriced {response : CreditLineResponse}
    (hp : ∀ rate, Query.priceMarketLocalPerCommon (sys.querier env) sys.market ≠ .ok rate)
    (h : Query.creditLine (sys.querier env) sys.market time account = .ok response) :
    Query.simulatedBalance (sys.querier env) sys.market time account = .ok (0, 0) ∧
      response = CreditLineValues.zero.makeResponse sys.market.config.commonToken := by
  simp only [Query.creditLine, bind_eq_ok] at h
  obtain ⟨⟨collateral, debt⟩, hb, h⟩ := h
  split_ifs at h with hnone
  · obtain ⟨rfl, rfl⟩ := hnone
    cases h
    exact ⟨hb, rfl⟩
  · obtain ⟨rate, hrate, -⟩ := bind_eq_ok.mp h
    exact absurd hrate (hp rate)

/-- A repayment lowers the debt by its amount, up to one unit and one debt point. -/
theorem repayTo_idle (hidle : Idle env.time sys) (hs : settle env sys = .ok mid)
    (howed : Debt.of sys.market.debt account = .ok debt) (hle : amount ≤ debt)
    (ha : Op.apply mid (.repayTo account amount) = .ok sys') :
    sys'.market.config = sys.market.config ∧
      sys'.collateralOf account = sys.collateralOf account ∧
      (sys'.debtOf account : ℚ) + amount.val <
        sys.debtOf account + 1 + sys.market.debt.info.multiplier.atomics.val / fractional := by
  cases hidle.settle.symm.trans hs
  cases applied_of_apply ha with
  | @repayTo _ _ l back decreased =>
    refine ⟨rfl, rfl, ?_⟩
    have hmultiplier : (0 : ℚ) ≤ sys.market.debt.info.multiplier.atomics.val / fractional := by
      positivity
    obtain ⟨rfl, rfl, -⟩ | ⟨points, t, p, hpoints, -, hp, rfl⟩ := Debt.decrease_spec decreased
    · unfold debtOf
      rw [Uint128.val_zero, Nat.cast_zero]
      linarith
    · obtain ⟨hne, hpoints⟩ := baseToToken_eq_ok.mp hpoints
      have hwithin : amount.val ≤ sys.debtOf account := by
        rw [Debt.of, tokenToBase_eq_ok] at howed
        exact (Uint128.le_def.mp hle).trans_eq howed
      have hcovered : points.val ≤ (sys.market.debt.points account).val :=
        hpoints.trans_le (toPoints_le hwithin le_rfl)
      unfold debtOf
      simp only [Debt.points_save, if_true]
      rw [hp]
      have hleft := toBase_le_value fractional
        ((sys.market.debt.points account).val - points.val)
        sys.market.debt.info.multiplier.atomics.val
      have hbefore := value_lt_toBase_add_one fractional (sys.market.debt.points account).val
        sys.market.debt.info.multiplier.atomics.val
      have hworth : value fractional points.val sys.market.debt.info.multiplier.atomics.val =
          amount.val - dropped fractional amount.val
            sys.market.debt.info.multiplier.atomics.val := by
        rw [hpoints]
        exact value_toPoints fractional_pos _ _
      have hdropped := dropped_lt fractional_pos amount.val (Nat.pos_of_ne_zero hne)
      rw [value_sub hcovered] at hleft
      linarith

/-- Whoever is the source of a transfer loses at most what is moved, in base tokens. -/
theorem transferFrom_idle (hidle : Idle env.time sys) (hs : settle env sys = .ok mid)
    (ha : Op.apply mid (.transferFrom source destination amount) = .ok sys') :
    sys'.market = sys.market ∧ sys'.debtOf source = sys.debtOf source ∧
      sys.collateralOf source ≤ sys'.collateralOf source + amount.val := by
  cases hidle.settle.symm.trans hs
  cases applied_of_apply ha with
  | @transferFrom _ _ _ ct moved =>
    refine ⟨rfl, rfl, ?_⟩
    obtain ⟨-, tokens, htokens, hmoved⟩ := Ctoken.transferBaseFrom_spec moved
    obtain ⟨hkept, hsame⟩ := Ctoken.transferTokens_source hmoved
    have hpoints := (baseToToken_eq_ok.mp htokens).2
    unfold collateralOf
    rw [hsame]
    calc toBase fractional (sys.ctoken.balance source).val sys.ctoken.multiplier.atomics.val
        ≤ toBase fractional ((ct.balance source).val + tokens.val)
            sys.ctoken.multiplier.atomics.val := toBase_mono hkept _
      _ ≤ toBase fractional (ct.balance source).val sys.ctoken.multiplier.atomics.val +
            amount.val := by
          rw [hpoints]
          exact toBase_add_toPoints_le _ _ _ _

end Market.System

namespace Platform

open CreditAgency

variable {env : Env} {tx : Tx} {p p' paid : Platform} {market account sender : Addr}
  {coins : Coin} {token : Token} {sys mid debtor : Market.System}
  {before after : CreditLineResponse}

/-- A debt that is lower by an amount is worth that much less, up to truncation. -/
theorem worth_lt {o o' a m : ℕ} {x : ℚ} (h : (o' : ℚ) + a < o + 1 + x) :
    (toBase fractional o' m : ℚ) + toBase fractional a m <
      toBase fractional o m + 1 + (1 + x) * (m / fractional) := by
  have hleft := toBase_le_value fractional o' m
  have hpaid := toBase_le_value fractional a m
  have hbefore := value_lt_toBase_add_one fractional o m
  have hprice : (0 : ℚ) ≤ m / fractional := by positivity
  have hscaled := mul_le_mul_of_nonneg_right h.le hprice
  unfold value at hleft hpaid hbefore
  rw [mul_div_assoc] at hleft hpaid hbefore
  linarith

/-- The repayment of a liquidation, at a market in which nothing is pending. -/
structure Repaid (account : Addr) (amount : Uint128) (debtor sys : Market.System) : Prop where
  config : sys.market.config = debtor.market.config
  collateral : sys.collateralOf account = debtor.collateralOf account
  debt : (sys.debtOf account : ℚ) + amount.val < debtor.debtOf account + 1 +
    debtor.market.debt.info.multiplier.atomics.val / fractional

theorem executeMarket_repaid {info : Market.MessageInfo} {msg : Market.ExecuteMsg}
    (found : p.markets.mayLoad market = some debtor) (hidle : debtor.Idle env.time)
    (hplain : msg.plain = .repayTo account) (hbrought : Market.incoming info msg = .ok coins)
    (h : executeMarket env market info msg p = .ok paid) :
    ∃ sys, paid = p.update market sys [] ∧ Repaid account coins.amount debtor sys := by
  obtain ⟨_, sys, entered, found', he, rfl⟩ := executeMarket_spec h
  cases found.symm.trans found'
  obtain ⟨_, ⟨ctoken, cash⟩, -, hreceived, hout⟩ := Market.System.execute_outcome he
  obtain ⟨rfl, -⟩ := Market.Holdings.receive_eq_ok.mp hreceived
  cases hout with
  | repayTo hmsg _ brought _ owed le settled applied =>
    cases hplain.symm.trans hmsg
    cases hbrought.symm.trans brought
    have hidle : Market.System.Idle (p.marketEnv env).time { debtor with cash } := hidle
    obtain ⟨hc, hcollateral, hdebt⟩ := Market.System.repayTo_idle hidle settled owed le applied
    exact ⟨sys, rfl, hc, hcollateral, hdebt⟩
  | _ => grind [Market.ExecuteMsg.plain]

theorem repayTo_repaid (found : p.markets.mayLoad market = some debtor)
    (hidle : debtor.Idle env.time) (h : repayTo env market coins account p = .ok paid) :
    ∃ sys, paid = p.update market sys [] ∧ Repaid account coins.amount debtor sys := by
  obtain ⟨denom, amount⟩ := coins
  cases denom with
  | native denom => exact executeMarket_repaid found hidle rfl rfl h
  | cw20 contract => exact executeMarket_repaid found hidle rfl rfl h

/-! ## Totals -/

section Totals

variable {m : Addr} {accounts : List Addr} (f : CreditLineValues → Uint128)

/-- An update that enters others replaces the share of its market. -/
theorem total_update (hother : account ∉ accounts) (hm : m ∈ p.agency.entered account) :
    totalOf f (p.update m sys accounts) env account + (f (p.lineOf env account m)).val =
      totalOf f p env account + (f ((p.update m sys accounts).lineOf env account m)).val := by
  have hset : ((p.update m sys accounts).agency.entered account).toList.toFinset =
      (p.agency.entered account).toList.toFinset := by
    refine List.toFinset.ext_iff.mpr fun other => mem_entered_update.trans ?_
    simp [hother, BTreeSet.mem_def]
  unfold totalOf lineOf
  rw [update_registry.1]
  exact totalOf_move f hset hm fun _ hne => lineOf_update hne

theorem total_update_outside (hother : account ∉ accounts) (hm : m ∉ p.agency.entered account) :
    totalOf f (p.update m sys accounts) env account = totalOf f p env account := by
  have hset : ((p.update m sys accounts).agency.entered account).toList.toFinset =
      (p.agency.entered account).toList.toFinset := by
    refine List.toFinset.ext_iff.mpr fun other => mem_entered_update.trans ?_
    simp [hother, BTreeSet.mem_def]
  unfold totalOf CreditAgency.totalOf
  rw [update_registry.1, hset]
  exact totalOf_outside f hm fun _ hne => lineOf_update hne

end Totals

/-- What the account's collateral is worth as credit, and what its debt is worth. -/
def creditAt (rate : PriceRate) (sys : Market.System) (account : Addr) : ℕ :=
  toBase fractional (toBase fractional (sys.collateralOf account) rate.rateSellPerBuy.atomics.val)
    sys.market.config.collateralRatio.atomics.val

def owedAt (rate : PriceRate) (sys : Market.System) (account : Addr) : ℕ :=
  toBase fractional (sys.debtOf account) rate.rateSellPerBuy.atomics.val

variable {debt collateral : Addr} {left : Market.System} {rate rate' : PriceRate} {amount : Uint128}

/-- The share of an entered market in which nothing is pending. -/
theorem line_idle {total : CreditLineResponse} (h : p.totalCreditLine env account = .ok total)
    (hm : market ∈ p.agency.entered account) (found : p.markets.mayLoad market = some sys)
    (hidle : sys.Idle env.time)
    (hp : Market.Query.priceMarketLocalPerCommon (sys.querier env.leaf) sys.market = .ok rate) :
    (p.lineOf env account market).creditLine.val = creditAt rate sys account ∧
      (p.lineOf env account market).debt.val = owedAt rate sys account := by
  obtain ⟨hall, -⟩ := total_values h
  exact Market.System.creditLine_idle hidle hp (market_line found (hall market hm))

theorem lineOf_frame {m : Addr} {accounts : List Addr} (hne : m ≠ market) :
    (p.update market sys accounts).lineOf env account m = p.lineOf env account m := by
  unfold lineOf
  rw [update_registry.1]
  exact lineOf_update hne

theorem price_congr {sys' : Market.System} (h : sys'.market.config = sys.market.config) :
    Market.Query.priceMarketLocalPerCommon (sys'.querier env.leaf) sys'.market =
      Market.Query.priceMarketLocalPerCommon (sys.querier env.leaf) sys.market := by
  simp only [Market.Query.priceMarketLocalPerCommon, h]
  rfl

/-- Of the account's totals the debt moves with the debt market and the credit with the
collateral market, if it counts at all. -/
theorem totals_two (hother : sender ≠ account) (hcounted : debt ∈ p.agency.entered account)
    (found : p.markets.mayLoad debt = some debtor) (hdebtor : debtor.Idle env.time)
    (hrepaid : Repaid account amount debtor sys)
    (hprice : Market.Query.priceMarketLocalPerCommon (debtor.querier env.leaf) debtor.market =
      .ok rate)
    (found' : (p.update debt sys []).markets.mayLoad collateral = some mid)
    (hmid : mid.Idle env.time) (hleft : left.market = mid.market)
    (hprice' : Market.Query.priceMarketLocalPerCommon (mid.querier env.leaf) mid.market =
      .ok rate')
    (hb : p.totalCreditLine env account = .ok before)
    (ha : ((p.update debt sys []).update collateral left [sender]).totalCreditLine env account =
      .ok after) :
    after.debt.amount.val + owedAt rate debtor account =
        before.debt.amount.val + owedAt rate sys account ∧
      (after.creditLine.amount.val + creditAt rate' mid account =
          before.creditLine.amount.val + creditAt rate' left account ∨
        after.creditLine.amount.val = before.creditLine.amount.val) := by
  obtain ⟨-, hC, -, hD⟩ := total_values hb
  obtain ⟨-, hC', -, hD'⟩ := total_values ha
  have hsource : account ∉ [sender] := by simpa using Ne.symm hother
  have hsys : sys.Idle env.time := by
    unfold Market.System.Idle
    rw [hrepaid.config]
    exact hdebtor
  have hleftIdle : left.Idle env.time := by
    unfold Market.System.Idle
    rw [hleft]
    exact hmid
  have hdebt : owedAt rate' left account = owedAt rate' mid account := by
    unfold owedAt Market.System.debtOf
    rw [hleft]
  have hcredit : creditAt rate sys account = creditAt rate debtor account := by
    unfold creditAt
    rw [hrepaid.collateral, hrepaid.config]
  obtain ⟨hcredit₀, howed₀⟩ := line_idle hb hcounted found hdebtor hprice
  have hfirst : ∀ f, totalOf f (p.update debt sys []) env account +
      (f (p.lineOf env account debt)).val = totalOf f p env account +
        (f ((p.update debt sys []).lineOf env account debt)).val :=
    fun f => total_update f List.not_mem_nil hcounted
  have hdebtEntered : debt ∈ ((p.update debt sys []).update collateral left [sender]).agency.entered
      account := mem_entered_update.mpr (.inr (mem_entered_update.mpr (.inr hcounted)))
  have hc₁ := hfirst CreditLineValues.creditLine
  have hd₁ := hfirst CreditLineValues.debt
  -- the share of the debt market between the two calls, if the second one is for another market
  have hbetween : collateral ≠ debt →
      ((p.update debt sys []).lineOf env account debt).creditLine.val = creditAt rate sys account ∧
      ((p.update debt sys []).lineOf env account debt).debt.val = owedAt rate sys account := by
    intro hne
    rw [← lineOf_frame (Ne.symm hne)]
    refine line_idle ha hdebtEntered ?_ hsys ((price_congr hrepaid.config).trans hprice)
    exact (Map.mayLoad_save_ne _ _ (Ne.symm hne)).trans (Map.mayLoad_save_self _ _ _)
  by_cases hm : collateral ∈ p.agency.entered account
  · have hm' : collateral ∈ (p.update debt sys []).agency.entered account :=
      mem_entered_update.mpr (.inr hm)
    have hsecond : ∀ f, totalOf f ((p.update debt sys []).update collateral left [sender]) env
          account + (f ((p.update debt sys []).lineOf env account collateral)).val =
        totalOf f (p.update debt sys []) env account +
          (f (((p.update debt sys []).update collateral left [sender]).lineOf env account
            collateral)).val :=
      fun f => total_update f hsource hm'
    obtain ⟨hcreditLeft, howedLeft⟩ := line_idle ha (mem_entered_update.mpr (.inr hm'))
      (Map.mayLoad_save_self _ _ _) hleftIdle ((price_congr (congrArg _ hleft)).trans hprice')
    have hc₂ := hsecond CreditLineValues.creditLine
    have hd₂ := hsecond CreditLineValues.debt
    by_cases heq : collateral = debt
    · subst heq
      cases (Map.mayLoad_save_self _ _ _).symm.trans found'
      cases ((price_congr hrepaid.config).trans hprice).symm.trans hprice'
      exact ⟨by omega, .inl (by omega)⟩
    · obtain ⟨hcreditSys, howedSys⟩ := hbetween heq
      have foundBefore : p.markets.mayLoad collateral = some mid :=
        (Map.mayLoad_save_ne _ _ heq).symm.trans found'
      obtain ⟨hcreditMid, howedMid⟩ := line_idle hb hm foundBefore hmid hprice'
      rw [lineOf_frame heq] at hc₂ hd₂
      exact ⟨by omega, .inl (by omega)⟩
  · have hne : collateral ≠ debt := by
      rintro rfl
      exact hm hcounted
    obtain ⟨hcreditSys, howedSys⟩ := hbetween hne
    have hm' : collateral ∉ (p.update debt sys []).agency.entered account := by
      rw [mem_entered_update]
      simpa using hm
    have hsecond : ∀ f, totalOf f ((p.update debt sys []).update collateral left [sender]) env
        account = totalOf f (p.update debt sys []) env account :=
      fun f => total_update_outside f hsource hm'
    have hc₂ := hsecond CreditLineValues.creditLine
    have hd₂ := hsecond CreditLineValues.debt
    exact ⟨by omega, .inr (by omega)⟩

/-- No interest is pending in the two markets of a liquidation. -/
def Seizure.Idle (s : Seizure env p p' sender account coins token) : Prop :=
  ∀ market sys, market = s.debtMarket ∨ market = s.collateralMarket →
    p.markets.mayLoad market = some sys → sys.Idle env.time

/-- By how much a liquidation may leave the account worse off: three common tokens, and what
one unit and one point of the debt are worth. -/
def Seizure.truncation (s : Seizure env p p' sender account coins token)
    (debtor : Market.System) : ℚ :=
  3 + (1 + debtor.market.debt.info.multiplier.atomics.val / fractional) *
    (s.debtPrice.rateSellPerBuy.atomics.val / fractional)

/-- Liquidating an account whose debt counts, in a block whose interest has been charged: if
the collateral that is taken carried no more credit than was repaid, then the debt in excess
of the credit line has not grown, up to truncation. -/
theorem liquidation_shortfall (hl : Liquidates tx.action sender account coins token)
    (h : step tx p = .ok p') (hother : sender ≠ account)
    (hb : p.totalCreditLine tx.env account = .ok before)
    (ha : p'.totalCreditLine tx.env account = .ok after) :
    Nonempty (Seizure tx.env p p' sender account coins token) ∧
    ∀ s : Seizure tx.env p p' sender account coins token, s.Idle → s.WithinRepaid →
      s.ratio ≤ Decimal.one → s.debtMarket ∈ p.agency.entered account →
      ∀ debtor, p.markets.mayLoad s.debtMarket = some debtor →
        (after.debt.amount.val : ℚ) - after.creditLine.amount.val <
          before.debt.amount.val - before.creditLine.amount.val + s.truncation debtor := by
  refine ⟨step_seizure hl h, ?_⟩
  intro s hidle hwithin hratio hcounted debtor found
  obtain ⟨sys, hpaid, hrepaid⟩ := repayTo_repaid found (hidle _ _ (.inl rfl) found) s.repaid
  have hmid : s.sys.Idle tx.env.time := by
    have hfound := s.found
    by_cases heq : s.collateralMarket = s.debtMarket
    · rw [heq, hpaid] at hfound
      cases (Map.mayLoad_save_self _ _ _).symm.trans hfound
      unfold Market.System.Idle
      rw [hrepaid.config]
      exact hidle _ _ (.inl rfl) found
    · rw [hpaid] at hfound
      exact hidle _ _ (.inr rfl) ((Map.mayLoad_save_ne _ _ heq).symm.trans hfound)
  obtain ⟨hmarket, -, hlost⟩ := Market.System.transferFrom_idle hmid s.settles s.applied
  have hprice := s.priced
  simp only [querier, found, mapError_eq_ok] at hprice
  have hprice' := s.collateralPriced
  have hfound := s.found
  have hafter := s.after
  rw [hpaid] at hfound hafter
  rw [hafter] at ha
  obtain ⟨hdebt, hcredit⟩ := totals_two hother hcounted found (hidle _ _ (.inl rfl) found) hrepaid
    hprice hfound hmid hmarket hprice' hb ha
  have hvalue : s.value.amount.val =
      toBase fractional coins.amount.val s.debtPrice.rateSellPerBuy.atomics.val :=
    (coinTimesPriceRate_eq_ok.mp s.valued).2.2
  have howed : (owedAt s.debtPrice sys account : ℚ) + s.value.amount.val <
      owedAt s.debtPrice debtor account + 1 + (1 +
        debtor.market.debt.info.multiplier.atomics.val / fractional) *
          (s.debtPrice.rateSellPerBuy.atomics.val / fractional) := by
    rw [hvalue]
    exact worth_lt hrepaid.debt
  have htaken : (creditAt s.collateralPrice s.sys account : ℚ) <
      creditAt s.collateralPrice s.left account + 2 + s.value.amount.val := by
    have hlost : (s.sys.collateralOf account : ℚ) ≤
        s.left.collateralOf account + (s.moved.val + 0) := by
      rw [add_zero]
      exact_mod_cast hlost
    have hlt := Market.credit_lt (m := s.collateralPrice.rateSellPerBuy.atomics.val) le_rfl hratio
      hlost
    unfold Seizure.WithinRepaid at hwithin
    have hsame : creditAt s.collateralPrice s.left account = toBase fractional
        (toBase fractional (s.left.collateralOf account)
          s.collateralPrice.rateSellPerBuy.atomics.val) s.ratio.atomics.val := by
      unfold creditAt Seizure.ratio
      rw [hmarket]
    rw [zero_mul, add_zero] at hlt
    rw [hsame]
    exact hlt.trans_le (add_le_add_right hwithin _)
  have hdebt : (after.debt.amount.val : ℚ) + owedAt s.debtPrice debtor account =
      before.debt.amount.val + owedAt s.debtPrice sys account := by exact_mod_cast hdebt
  unfold Seizure.truncation
  rcases hcredit with hcredit | hcredit
  · have hcredit : (after.creditLine.amount.val : ℚ) + creditAt s.collateralPrice s.sys account =
        before.creditLine.amount.val + creditAt s.collateralPrice s.left account := by
      exact_mod_cast hcredit
    linarith
  · have hvalue : (0 : ℚ) ≤ s.value.amount.val := Nat.cast_nonneg _
    rw [hcredit]
    linarith

/-- Bob has borrowed 500 dollars against 1000 atom, which fall to three quarters of a dollar:
what Carol repays and takes does not leave him worse off. -/
theorem liquidation_shortfall_example : ∃ p p' before after,
    Run step (fun _ _ => True) (start "agency" sampleConfig)
      (sampleCollateral Decimal.one ⟨600_000_000_000_000_000⟩ Decimal.zero 1_000 ++
        [sampleBorrow (sampleEnv "" "" Decimal.one) 500]) p ∧
    step (sampleLiquidation (sampleEnv "" "" ⟨750_000_000_000_000_000⟩)) p = .ok p' ∧
    p.totalCreditLine (sampleEnv "" "" ⟨750_000_000_000_000_000⟩) "bob" = .ok before ∧
    p'.totalCreditLine (sampleEnv "" "" ⟨750_000_000_000_000_000⟩) "bob" = .ok after ∧
    ∃ (s : Seizure (sampleEnv "" "" ⟨750_000_000_000_000_000⟩) p p' "carol" "bob"
        ⟨.native "usd", 1⟩ (.native "atom")) (debtor : Market.System),
      (after.debt.amount.val : ℚ) - after.creditLine.amount.val <
        before.debt.amount.val - before.creditLine.amount.val + s.truncation debtor := by
  obtain ⟨p, hrun, hn, ⟨hcounted, ⟨debtor, found, hdebtor⟩, ⟨sys, found', hsys⟩⟩, before, hb, p',
      hs, after, ha, -⟩ : ∃ p, Run step (fun _ _ => True) (start "agency" sampleConfig)
        (sampleCollateral Decimal.one ⟨600_000_000_000_000_000⟩ Decimal.zero 1_000 ++
          [sampleBorrow (sampleEnv "" "" Decimal.one) 500]) p ∧
      SampleNumbers ⟨750_000_000_000_000_000⟩ p ∧
      ("usd market" ∈ p.agency.entered "bob" ∧
        (∃ debtor ∈ p.markets.mayLoad "usd market", debtor.Idle 0) ∧
        ∃ sys ∈ p.markets.mayLoad "atom market", sys.Idle 0) ∧
      ∃ before ∈ (p.totalCreditLine (sampleEnv "" "" ⟨750_000_000_000_000_000⟩)
        "bob").toOption,
      ∃ p' ∈ (step (sampleLiquidation (sampleEnv "" "" ⟨750_000_000_000_000_000⟩)) p).toOption,
      ∃ after ∈ (p'.totalCreditLine (sampleEnv "" "" ⟨750_000_000_000_000_000⟩)
        "bob").toOption, True := exists_run_of_runAll (by decide +kernel)
  have hs := toOption_eq_some.mp hs
  have hb := toOption_eq_some.mp hb
  have ha := toOption_eq_some.mp ha
  obtain ⟨⟨s⟩, hshortfall⟩ := liquidation_shortfall .native hs (by decide) hb ha
  obtain ⟨hprice, -, hratio⟩ := sampleNumbers_seizure hn s
  have hwithin : s.WithinRepaid := by
    unfold Seizure.WithinRepaid
    rw [divide_within_iff s.unitPrice s.divided, hprice, hratio, hn.2.2.1]
    refine .inl ?_
    unfold UnitCovers
    decide
  have hdm : s.debtMarket = "usd market" :=
    Except.ok.inj (s.debt.symm.trans (toOption_eq_some.mp hn.1))
  have hcm : s.collateralMarket = "atom market" :=
    Except.ok.inj (s.collateral.symm.trans (toOption_eq_some.mp hn.2.1))
  have hidle : s.Idle := by
    rintro m other (rfl | rfl) hm
    · rw [hdm] at hm
      cases found.symm.trans hm
      exact hdebtor
    · rw [hcm] at hm
      cases found'.symm.trans hm
      exact hsys
  refine ⟨p, p', before, after, hrun, hs, hb, ha, s, debtor, ?_⟩
  exact hshortfall s hidle hwithin (hratio ▸ by decide) (hdm ▸ hcounted) debtor (hdm ▸ found)

end Platform

end WyndLend
