import WyndLend.Market.Settlement
import WyndLend.Platform.Borrowing
import WyndLend.Platform.Entered
import WyndLend.Platform.Shortfall

/-!
# What others can do to an account

As long as no interest falls due and prices and settings stand still, an account that does
nothing itself is only touched by what others give it. Its debt does not grow and its credit
does not shrink, so whoever was not up for liquidation is not brought there by anyone else,
whatever they do and in whatever order.
-/

namespace WyndLend

open CosmWasm Utils Rebasing

namespace Market

theorem Config.eq_of_settings {cfg cfg' : Config} (h : cfg'.settings = cfg.settings)
    (hcharged : cfg'.lastCharged = cfg.lastCharged) : cfg' = cfg := by
  obtain ⟨⟩ := cfg
  obtain ⟨⟩ := cfg'
  simp_all [Config.settings]

namespace System

variable {env env' : Env} {info : MessageInfo} {msg : ExecuteMsg} {sys sys' mid : System}
  {entered : List Addr} {account : Addr} {time time' : ℕ} {token : Token}
  {v v' : CreditLineValues}

/-- When interest was charged last, how often it is charged, and how much debt has grown. -/
def pace (sys : System) : ℕ × ℕ × Decimal :=
  (sys.market.config.lastCharged, sys.market.config.interestChargePeriod,
    sys.market.debt.info.multiplier)

theorem Idle.of_pace (hidle : sys.Idle time) (h : sys'.pace = sys.pace) : sys'.Idle time := by
  simp only [pace, Prod.mk.injEq] at h
  unfold Idle epochsPassed at hidle ⊢
  rwa [h.1, h.2.1]

theorem pace_of_settle {op : Op} (hidle : sys.Idle env.time) (hs : settle env sys = .ok mid)
    (ha : op.apply mid = .ok sys') : sys'.pace = sys.pace := by
  cases hidle.settle.symm.trans hs
  simp only [pace, (apply_frame ha).1, (apply_multipliers ha).1]

theorem outcome_pace (hidle : sys.Idle env.time) (h : Outcome env info sys msg sys' entered) :
    sys'.pace = sys.pace := by
  cases h with
  | deposit _ _ _ _ hs ha | repay _ _ _ hs ha | repayTo _ _ _ _ _ _ hs ha
  | withdraw _ _ _ hs ha | borrow _ _ hs ha | transferFrom _ _ hs _ _ _ ha =>
    exact pace_of_settle hidle hs ha
  | adjust hadj => cases hadj <;> rfl
  | rates _ _ _ hs =>
    cases hidle.settle.symm.trans hs
    rfl
  | send | swap => rfl

/-- Interest stands still as long as none is due. -/
theorem execute_pace (hidle : sys.Idle env.time)
    (h : execute env info msg sys = .ok (sys', entered)) : sys'.pace = sys.pace := by
  obtain ⟨_, _, -, -, hout⟩ := execute_outcome h
  have hpace := fun hi => outcome_pace hi hout
  exact hpace hidle

/-! ## Positions -/

/-- The account has lost no ctokens and owes no more. -/
structure NoWorse (account : Addr) (sys sys' : System) : Prop where
  config : sys'.market.config = sys.market.config
  multiplier : sys'.market.debt.info.multiplier = sys.market.debt.info.multiplier
  points : (sys'.market.debt.points account).val ≤ (sys.market.debt.points account).val
  held : sys.ctoken.holding account ≤ sys'.ctoken.holding account

theorem NoWorse.collateralOf (h : NoWorse account sys sys') :
    sys.collateralOf account ≤ sys'.collateralOf account := Ctoken.inBase_mono h.held

theorem NoWorse.debtOf (h : NoWorse account sys sys') :
    sys'.debtOf account ≤ sys.debtOf account := by
  unfold System.debtOf
  rw [h.multiplier]
  exact toBase_mono h.points _

/-- At the same prices, and with nothing pending, the credit line is no worse. -/
theorem NoWorse.creditLine (h : NoWorse account sys sys') (htwap : env'.twap = env.twap)
    (hidle : sys.Idle time) (hidle' : sys'.Idle time')
    (hl : Query.creditLine (sys.querier env) sys.market time account =
      .ok (v.makeResponse token))
    (hl' : Query.creditLine (sys'.querier env') sys'.market time' account =
      .ok (v'.makeResponse token)) :
    v.creditLine ≤ v'.creditLine ∧ v'.debt ≤ v.debt := by
  have hprice : Query.priceMarketLocalPerCommon (sys'.querier env') sys'.market =
      Query.priceMarketLocalPerCommon (sys.querier env) sys.market := by
    simp only [Query.priceMarketLocalPerCommon, h.config, querier, htwap]
  cases hp : Query.priceMarketLocalPerCommon (sys.querier env) sys.market with
  | error e =>
    have hzero := (creditLine_unpriced (by simp [hp]) hl).2
    have hzero' := (creditLine_unpriced (by simp [hprice, hp]) hl').2
    simp only [CreditLineValues.makeResponse, CreditLineValues.zero, Token.amount,
      CreditLineResponse.mk.injEq, Coin.mk.injEq] at hzero hzero'
    obtain ⟨-, ⟨-, hcredit⟩, -, -, hdebt⟩ := hzero
    obtain ⟨-, ⟨-, hcredit'⟩, -, -, hdebt'⟩ := hzero'
    rw [hcredit, hcredit', hdebt, hdebt']
    exact ⟨le_rfl, le_rfl⟩
  | ok rate =>
    obtain ⟨hcredit, hdebt⟩ := creditLine_idle hidle hp hl
    obtain ⟨hcredit', hdebt'⟩ := creditLine_idle hidle' (hprice.trans hp) hl'
    rw [Uint128.le_def, Uint128.le_def, hcredit, hcredit', hdebt, hdebt', h.config]
    exact ⟨toBase_mono (toBase_mono h.collateralOf _) _, toBase_mono h.debtOf _⟩

end System

end Market

namespace Platform

open CreditAgency

variable {env env' : Env} {tx : Tx} {txs txs' : List Tx} {p p' q : Platform}
  {account market called address : Addr} {before after : CreditLineResponse}
  {sys sys' origin : Market.System} {info : Market.MessageInfo} {msg : Market.ExecuteMsg}
  {config : Config}

/-! ## One market -/

/-- The market is there, interest in it has stood still since `origin`, and the account has no
more debt points. -/
def Paced (account market : Addr) (origin : Market.System) (p : Platform) : Prop :=
  ∃ sys, p.markets.mayLoad market = some sys ∧ sys.pace = origin.pace ∧
    (sys.market.debt.points account).val ≤ (origin.market.debt.points account).val

theorem Paced.update (hi : Paced account market origin p) {entered : List Addr}
    (hm : called = market → sys.pace = origin.pace ∧
      (sys.market.debt.points account).val ≤ (origin.market.debt.points account).val) :
    Paced account market origin (p.update called sys entered) := by
  obtain ⟨other, found, hi⟩ := hi
  by_cases heq : called = market
  · subst heq
    exact ⟨sys, Map.mayLoad_save_self _ _ _, hm rfl⟩
  · exact ⟨other, (Map.mayLoad_save_ne _ _ (Ne.symm heq)).trans found, hi⟩

theorem executeMarket_paced (hi : Paced account market origin p) (hidle : origin.Idle env.time)
    (hno : called = market → msg.lent info account = 0)
    (h : executeMarket env called info msg p = .ok p') : Paced account market origin p' := by
  obtain ⟨sys, sys', entered, found, he, rfl⟩ := executeMarket_spec h
  refine hi.update ?_
  rintro rfl
  obtain ⟨_, found', hpace, hpoints⟩ := hi
  cases found.symm.trans found'
  obtain ⟨-, hgrown⟩ := Market.System.execute_grown account he
  rw [hno rfl, toPoints, Nat.zero_mul, Nat.zero_div, Nat.add_zero] at hgrown
  have hidle : sys.Idle (p.marketEnv env).time := hidle.of_pace hpace
  exact ⟨(Market.System.execute_pace hidle he).trans hpace, hgrown.trans hpoints⟩

theorem deliver_paced {m : CreditAgency.Message} (hi : Paced account market origin p)
    (hidle : origin.Idle env.time) (h : deliver env p m = .ok p') :
    Paced account market origin p' := by
  cases m with
  | instantiateMarket replyId codeId msg =>
    obtain ⟨fresh, sys, token, -, -, rfl⟩ := instantiateMarket_spec h
    obtain ⟨other, found, hi⟩ := hi
    refine ⟨other, (Map.mayLoad_save_ne _ _ ?_).trans found, hi⟩
    rintro rfl
    cases fresh.symm.trans found
  | repayTo market coin debtor =>
    rw [deliver, repayTo] at h
    split at h
    · exact executeMarket_paced hi hidle (fun _ => rfl) h
    · exact executeMarket_paced hi hidle (fun _ => rfl) h
  | transferFrom | swapWithdrawFrom | adjustCommonToken =>
    exact executeMarket_paced hi hidle (fun _ => rfl) h
  | migrate market _ isotonicTokenId =>
    simp only [deliver, Platform.migrate, bind_eq_ok, find_eq_ok, pure_eq_ok] at h
    obtain ⟨sys, found, rfl⟩ := h
    refine hi.update ?_
    rintro rfl
    obtain ⟨_, found', hi⟩ := hi
    cases found.symm.trans found'
    cases isotonicTokenId <;> exact hi

/-- No transaction moves interest that is not due, and only the account's own loans add to its
debt. -/
theorem step_paced (hi : Paced account market origin p) (hidle : origin.Idle tx.env.time)
    (hno : tx.action.lent market account = 0) (h : step tx p = .ok p') :
    Paced account market origin p' := by
  obtain ⟨env, action⟩ := tx
  cases action with
  | agency info msg =>
    simp only [step, bind_eq_ok, mapError_eq_ok] at h
    obtain ⟨⟨agency, msgs⟩, -, hd⟩ := h
    exact deliverAll_preserve (I := Paced account market origin) hd hi
      fun _ _ _ _ hi hq => deliver_paced hi hidle hq
  | market other info msg =>
    refine executeMarket_paced hi hidle (fun heq => ?_) h
    simpa [Action.lent, heq] using hno
  | ctoken other sender msg =>
    simp only [step, bind_eq_ok, find_eq_ok, mapError_eq_ok, pure_eq_ok,
      Market.System.executeCtoken] at h
    obtain ⟨sys, found, _, ⟨_, -, rfl⟩, rfl⟩ := h
    refine hi.update ?_
    rintro rfl
    obtain ⟨_, found', hi⟩ := hi
    cases found.symm.trans found'
    exact hi
  | donate other amount =>
    simp only [step, Market.System.step, bind_eq_ok, find_eq_ok, mapError_eq_ok, pure_eq_ok] at h
    obtain ⟨sys, found, _, ⟨_, -, rfl⟩, rfl⟩ := h
    refine hi.update ?_
    rintro rfl
    obtain ⟨_, found', hi⟩ := hi
    cases found.symm.trans found'
    exact hi

/-! ## The whole position -/

/-- The account's markets are markets of the platform, and no interest is due in them. -/
def Settled (account : Addr) (time : ℕ) (p : Platform) : Prop :=
  ∀ market ∈ p.agency.entered account, ∃ sys, p.markets.mayLoad market = some sys ∧ sys.Idle time

/-- The settings are the same, and so are the account's markets, where its position is no
worse. -/
structure Kept (account : Addr) (p q : Platform) : Prop where
  governance : q.governance = p.governance
  entered : ∀ market, market ∈ q.agency.entered account ↔ market ∈ p.agency.entered account
  paced : ∀ market ∈ p.agency.entered account, ∀ sys, p.markets.mayLoad market = some sys →
    Paced account market sys q
  held : Keeps (held account) p q

namespace Kept

theorem refl (account : Addr) (p : Platform) : Kept account p p where
  governance := rfl
  entered _ := Iff.rfl
  paced _ _ sys found := ⟨sys, found, rfl, le_rfl⟩
  held := keeps_of_markets rfl

theorem noWorse (h : Kept account p q) (hm : market ∈ p.agency.entered account)
    (found : p.markets.mayLoad market = some sys) :
    ∃ sys', q.markets.mayLoad market = some sys' ∧ sys'.pace = sys.pace ∧
      sys.NoWorse account sys' := by
  obtain ⟨sys', found', hpace, hpoints⟩ := h.paced market hm sys found
  obtain ⟨_, found'', hheld⟩ := h.held market sys found
  cases found'.symm.trans found''
  have hsettings := congrFun (congrArg Governance.settings h.governance) market
  rw [governance_settings found, governance_settings found', Option.some.injEq] at hsettings
  refine ⟨sys', found', hpace, ?_⟩
  simp only [Market.System.pace, Prod.mk.injEq] at hpace
  exact ⟨Market.Config.eq_of_settings hsettings hpace.1, hpace.2.2, hpoints, hheld⟩

/-- At the same prices the totals are no worse. -/
theorem totals (h : Kept account p q) (hsettled : Settled account env.time p)
    (hsettled' : Settled account env'.time q) (htwap : env'.twap = env.twap)
    (hb : p.totalCreditLine env account = .ok before)
    (ha : q.totalCreditLine env' account = .ok after) :
    after.debt.amount ≤ before.debt.amount ∧
      before.creditLine.amount ≤ after.creditLine.amount := by
  obtain ⟨hall, hcredit, -, hdebt⟩ := total_values hb
  obtain ⟨hall', hcredit', -, hdebt'⟩ := total_values ha
  have hconfig : q.agency.config = p.agency.config := congrArg Governance.config h.governance
  have hset : (q.agency.entered account).toList.toFinset =
      (p.agency.entered account).toList.toFinset :=
    List.toFinset.ext_iff.mpr h.entered
  have hline : ∀ market ∈ p.agency.entered account,
      (p.lineOf env account market).creditLine ≤ (q.lineOf env' account market).creditLine ∧
        (q.lineOf env' account market).debt ≤ (p.lineOf env account market).debt := by
    intro market hm
    have hm' := (h.entered market).mpr hm
    obtain ⟨sys, found, hidle⟩ := hsettled market hm
    obtain ⟨sys', found', -, hworse⟩ := h.noWorse hm found
    obtain ⟨_, found'', hidle'⟩ := hsettled' market hm'
    cases found'.symm.trans found''
    have hl := market_line found (hall market hm)
    have hl' := market_line found' (hall' market hm')
    rw [hconfig] at hl'
    exact hworse.creditLine htwap hidle hidle' hl hl'
  rw [Uint128.le_def, Uint128.le_def, hdebt, hdebt', hcredit, hcredit']
  unfold totalOf CreditAgency.totalOf
  rw [hset]
  refine ⟨Finset.sum_le_sum fun m hm => ?_, Finset.sum_le_sum fun m hm => ?_⟩
  · exact Uint128.le_def.mp (hline m (List.mem_toFinset.mp hm)).2
  · exact Uint128.le_def.mp (hline m (List.mem_toFinset.mp hm)).1

end Kept

/-! ## Runs -/

/-- Prices are those of `env`, no interest is due to be charged in the account's markets, and
the account neither borrows nor spends ctokens, nor enters or leaves a market. It may be named
in liquidations. -/
structure Calm (env : Env) (account : Addr) (p : Platform) (tx : Tx) : Prop where
  priced : tx.env.twap = env.twap
  settled : Settled account tx.env.time p
  lent : ∀ market, tx.action.lent market account = 0
  spends : tx.action.Spends account →
    ∃ liquidator coins token, Liquidates tx.action liquidator account coins token
  enters : ∀ market, Enters p account market tx.action → market ∈ p.agency.entered account
  exits : ∀ market, ¬ Exits account market tx.action

/-- A liquidation finds more debt than credit. -/
theorem liquidates_excess {liquidator : Addr} {coins : Coin} {token : Token}
    (hl : Liquidates tx.action liquidator account coins token) (h : step tx p = .ok p') :
    ∃ total, p.totalCreditLine tx.env account = .ok total ∧
      total.creditLine.amount < total.debt.amount := by
  obtain ⟨env, action⟩ := tx
  cases hl with
  | native | cw20 =>
    simp only [step, bind_eq_ok, mapError_eq_ok] at h
    obtain ⟨⟨agency, msgs⟩, he, -⟩ := h
    obtain ⟨-, hl⟩ := liquidate_spec he
    cases hl with
    | mk total excess => exact ⟨_, total, excess⟩

/-- One more transaction, which is no liquidation of the account. -/
theorem Kept.step {guard : Platform → Tx → Prop} {u v : Platform} (hk : Kept account p u)
    (hu : Run Platform.step guard (start address config) txs u)
    (hsettled : Settled account env.time p) (hb : p.totalCreditLine env account = .ok before)
    (hcovered : before.debt.amount ≤ before.creditLine.amount) (hg : Genuine u tx)
    (hungoverned : tx.sender ≠ some config.govContract) (hcalm : Calm env account u tx)
    (hs : Platform.step tx u = .ok v) :
    Kept account p v ∧
      ∀ liquidator coins token, ¬ Liquidates tx.action liquidator account coins token := by
  have hliquidates : ∀ liquidator coins token,
      ¬ Liquidates tx.action liquidator account coins token := by
    intro liquidator coins token hl
    obtain ⟨total, ht, hexcess⟩ := liquidates_excess hl hs
    obtain ⟨hdebt, hcredit⟩ := hk.totals hsettled hcalm.settled hcalm.priced hb ht
    rw [Uint128.le_def] at hdebt hcredit hcovered
    rw [Uint128.lt_def] at hexcess
    omega
  obtain ⟨⟨haddress, hconfig⟩, hi⟩ := run_corresponds hu
  subst haddress
  refine ⟨⟨?_, fun market => ?_, fun market hm sys found => ?_, ?_⟩, hliquidates⟩
  · exact (step_ungoverned hi (by rw [hconfig]; rfl) hg hungoverned hs).trans hk.governance
  · rw [step_entered hs, ← hk.entered market]
    constructor
    · rintro (henters | ⟨hm, -⟩)
      · exact hcalm.enters market henters
      · exact hm
    · exact fun hm => .inr ⟨hm, hcalm.exits market⟩
  · obtain ⟨other, found', hpace, -⟩ := hk.paced market hm sys found
    obtain ⟨_, found'', hidle⟩ := hcalm.settled market ((hk.entered market).mpr hm)
    cases found'.symm.trans found''
    have hidle := hidle.of_pace hpace.symm
    exact step_paced (hk.paced market hm sys found) hidle (hcalm.lent market) hs
  · refine hk.held.trans ((step_keeps account (run_linked hu) (run_controlled hu) hg hs).1 ?_)
    intro hspends
    obtain ⟨liquidator, coins, token, hl⟩ := hcalm.spends hspends
    exact hliquidates liquidator coins token hl

/-- As long as prices and settings stand still and no interest is due in the markets that it
has entered, an account whose debt is covered and that keeps still is not liquidated, and
whatever others do, its total debt does not grow and its total credit line does not shrink. -/
theorem unharmed_by_others (h : Run step Genuine (start address config) txs p)
    (hsettled : Settled account env.time p) (hb : p.totalCreditLine env account = .ok before)
    (hcovered : before.debt.amount ≤ before.creditLine.amount)
    (h' : Run step (fun u tx => Genuine u tx ∧ tx.sender ≠ some config.govContract ∧
      Calm env account u tx) p txs' q) :
    (∀ tx ∈ txs', ∀ liquidator coins token,
      ¬ Liquidates tx.action liquidator account coins token) ∧
    ∀ env' after, env'.twap = env.twap → Settled account env'.time q →
      q.totalCreditLine env' account = .ok after →
      after.debt.amount ≤ before.debt.amount ∧
        before.creditLine.amount ≤ after.creditLine.amount := by
  have hend : (∀ tx ∈ txs', ∀ liquidator coins token,
      ¬ Liquidates tx.action liquidator account coins token) ∧ Kept account p q := by
    induction h' with
    | nil => exact ⟨fun _ hm => absurd hm List.not_mem_nil, .refl account p⟩
    | @snoc u v is tx hrun hg hs ih =>
      obtain ⟨hnone, hk⟩ := ih
      have hu := h.trans (hrun.mono fun _ _ hg => hg.1)
      obtain ⟨hk, hno⟩ := hk.step hu hsettled hb hcovered hg.1 hg.2.1 hg.2.2 hs
      refine ⟨fun other hm => ?_, hk⟩
      rcases List.mem_append.mp hm with hm | hm
      · exact hnone other hm
      · rwa [List.mem_singleton.mp hm]
  exact ⟨hend.1, fun env' after htwap hsettled' ha =>
    hend.2.totals hsettled hsettled' htwap hb ha⟩

/-- Bob owes as much as he can, and the lender takes out the rest of the dollars. -/
theorem unharmed_by_others_example : ∃ p q before after,
    Run step Genuine (start "agency" sampleConfig)
      (sampleCollateral Decimal.one ⟨600_000_000_000_000_000⟩ Decimal.zero 1_000 ++
        [sampleBorrow (sampleEnv "" "" Decimal.one) 600]) p ∧
    step ⟨sampleEnv "" "" Decimal.one, .market "usd market" ⟨"lender", []⟩ (.withdraw 400)⟩ p =
      .ok q ∧
    p.totalCreditLine (sampleEnv "" "" Decimal.one) "bob" = .ok before ∧
    q.totalCreditLine (sampleEnv "" "" Decimal.one) "bob" = .ok after ∧
    after.debt.amount ≤ before.debt.amount ∧
      before.creditLine.amount ≤ after.creditLine.amount := by
  obtain ⟨p, hrun, hidle, before, hb, hcovered, q, hs, hidle', after, ha, -⟩ : ∃ p,
      Run step Genuine (start "agency" sampleConfig)
        (sampleCollateral Decimal.one ⟨600_000_000_000_000_000⟩ Decimal.zero 1_000 ++
          [sampleBorrow (sampleEnv "" "" Decimal.one) 600]) p ∧
      (∀ market ∈ (p.agency.entered "bob").toList,
        ∃ sys ∈ p.markets.mayLoad market, sys.Idle 0) ∧
      ∃ before ∈ (p.totalCreditLine (sampleEnv "" "" Decimal.one) "bob").toOption,
      before.debt.amount ≤ before.creditLine.amount ∧
      ∃ q ∈ (step ⟨sampleEnv "" "" Decimal.one,
        .market "usd market" ⟨"lender", []⟩ (.withdraw 400)⟩ p).toOption,
      (∀ market ∈ (q.agency.entered "bob").toList,
        ∃ sys ∈ q.markets.mayLoad market, sys.Idle 0) ∧
      ∃ after ∈ (q.totalCreditLine (sampleEnv "" "" Decimal.one) "bob").toOption, True :=
    exists_run_of_runAll (by decide +kernel)
  have hs := toOption_eq_some.mp hs
  have hb := toOption_eq_some.mp hb
  have ha := toOption_eq_some.mp ha
  refine ⟨p, q, before, after, hrun, hs, hb, ha, ?_⟩
  have hspends : ∀ account, (Action.market "usd market" ⟨"lender", []⟩
      (.withdraw 400)).Spends account → account = "lender" := by
    rintro _ ⟨⟩
    rfl
  have hcalm : Calm (sampleEnv "" "" Decimal.one) "bob" p
      ⟨sampleEnv "" "" Decimal.one, .market "usd market" ⟨"lender", []⟩ (.withdraw 400)⟩ :=
    { priced := rfl
      settled := hidle
      lent := fun _ => by simp [Action.lent, Market.ExecuteMsg.lent]
      spends := fun h => absurd (hspends _ h) (by decide)
      enters := fun _ h => by
        simp [Enters, Market.ExecuteMsg.entrant, Market.ExecuteMsg.plain] at h
      exits := fun _ => by simp [Exits] }
  have haddress : "agency" = p.address := (run_corresponds hrun).1.1.symm
  have hlast : Run step (fun u tx => Genuine u tx ∧ tx.sender ≠ some sampleConfig.govContract ∧
      Calm (sampleEnv "" "" Decimal.one) "bob" u tx) p _ q :=
    .snoc (.nil p) ⟨by simp [Genuine, Market.origin, ← haddress], by decide, hcalm⟩ hs
  have hsettled : Settled "bob" (sampleEnv "" "" Decimal.one).time p := hidle
  exact (unharmed_by_others hrun hsettled hb hcovered hlast).2 _ after rfl hidle' ha

end Platform

end WyndLend
