import WyndLend.Market.Compounding
import WyndLend.Market.Isolation
import WyndLend.Market.Positions

/-!
# Quotas

`Withdrawable` and `Borrowable` take the least of the credit check, what the account holds
and the cash. The message repeats the credit check, and a settlement neither takes ctokens
from anyone nor moves cash. What is left to fail is the sum of the debt points.
-/

namespace WyndLend.Market

open CosmWasm Utils Rebasing

/-! ## Room for more debt -/

namespace Debt

variable {l l' : Ledger} {account : Addr} {amount points : Uint128}

/-- The total and the points of the account can take more points. -/
structure Room (l : Ledger) (account : Addr) (points : Uint128) : Prop where
  total : l.info.totalPoints.val + points.val < 2 ^ 128
  account : (l.points account).val + points.val < 2 ^ 128

instance (l : Ledger) (account : Addr) (points : Uint128) : Decidable (Room l account points) :=
  decidable_of_iff (_ ∧ _) ⟨fun h => ⟨h.1, h.2⟩, fun h => ⟨h.total, h.account⟩⟩

/-- An amount whose points fit in 128 bits can be added if and only if there is room. -/
theorem increase_succeeds_iff (account : Addr) (h0 : amount ≠ 0)
    (hm : l.info.multiplier.atomics.val ≠ 0)
    (hp : points.val = toPoints fractional amount.val l.info.multiplier.atomics.val) :
    (∃ l', increase l account amount = .ok l') ↔ Room l account points := by
  have hpoints : baseToToken amount l.info.multiplier = .ok (ε := Error) points :=
    baseToToken_eq_ok.mpr ⟨hm, hp⟩
  constructor
  · rintro ⟨l', h⟩
    obtain ⟨rfl, -⟩ | ⟨points', t, p, hpoints', ht, hsum, -⟩ := increase_spec h
    · exact absurd rfl h0
    · cases hpoints.symm.trans hpoints'
      exact ⟨ht ▸ t.isLt, hsum ▸ p.isLt⟩
  · rintro ⟨htotal, haccount⟩
    obtain ⟨t, ht⟩ := Uint128.exists_val htotal
    obtain ⟨p, hsum⟩ := Uint128.exists_val haccount
    unfold increase
    rw [if_neg h0]
    simp only [changeAmount, hpoints, bind_eq_ok, pure_eq_ok, Uint128.add_eq_ok, Except.ok.injEq,
      exists_eq_left']
    exact ⟨_, _, ⟨_, ⟨t, ht, rfl⟩, _, ⟨p, hsum, rfl⟩, rfl⟩, rfl⟩

end Debt

namespace System

variable {env : Env} {info : MessageInfo} {msg : ExecuteMsg} {sys sys' mid : System}
  {entered : List Addr} {account : Addr} {amount tokens points : Uint128} {tx : Tx}

/-! ## What a market keeps -/

/-- The market controls its ctokens, their supply is the sum of the balances, and a debt
point is worth something. -/
structure Sound (sys : System) : Prop where
  controller : sys.ctoken.controller = sys.address
  supply : Ctoken.SupplyIsSum sys.ctoken
  debtMultiplier : sys.market.debt.info.multiplier.atomics.val ≠ 0

theorem instantiate_sound {sender address ctokenContract : Addr} {time : ℕ} {m : InstantiateMsg}
    (h : instantiate sender address ctokenContract time m = .ok sys) : Sound sys := by
  simp only [instantiate, Market.instantiate, bind_eq_ok, mapError_eq_ok, ensure_eq_ok,
    pure_eq_ok] at h
  obtain ⟨_, ⟨_, -, -, -, rfl⟩, rfl⟩ := h
  exact ⟨rfl, Ctoken.supplyIsSum_instantiate _ _, show Debt.initialMultiplier.atomics.val ≠ 0 by
    decide⟩

/-- The debt multiplier only grows. -/
theorem step_debtMultiplier_le (h : step tx sys = .ok sys') :
    sys.market.debt.info.multiplier.atomics.val ≤ sys'.market.debt.info.multiplier.atomics.val := by
  rcases step_charges h with ⟨n, u, -, -, -, hcase⟩ | ⟨-, hdebt⟩
  · cases u with
    | none => rw [hcase.1]
    | some u =>
      rw [hcase.1]
      exact le_grow fractional_pos _ _
  · rw [hdebt]

theorem step_address (h : step tx sys = .ok sys') : sys'.address = sys.address := by
  cases step_transition h with
  | executed _ executed => exact (execute_keeps executed).address
  | ctoken | donated => rfl

/-- A call of the ctoken contract keeps its controller and the sum of its balances. -/
theorem ctoken_keeps {q : Ctoken.Querier} {self caller controller : Addr}
    {msg : Ctoken.ExecuteMsg} {s s' : Ctoken.State} {msgs : List Ctoken.Message}
    (h : Ctoken.execute q self caller msg s = .ok (s', msgs))
    (hi : s.controller = controller ∧ Ctoken.SupplyIsSum s) :
    s'.controller = controller ∧ Ctoken.SupplyIsSum s' :=
  ⟨(Ctoken.execute_controller h).trans hi.1, (Ctoken.execute_outcome h).supplyIsSum hi.2⟩

theorem step_sound (hi : Sound sys) (h : step tx sys = .ok sys') : Sound sys' := by
  obtain ⟨hcontroller, hsupply⟩ := step_ctoken ctoken_keeps h ⟨hi.controller, hi.supply⟩
  refine ⟨hcontroller.trans (step_address h).symm, hsupply, ?_⟩
  have hle := step_debtMultiplier_le h
  have hpos := hi.debtMultiplier
  omega

/-! ## Messages without funds -/

theorem execute_eq_ok (hmsg : ∀ source amount m, msg ≠ .receive source amount m) :
    execute env ⟨account, []⟩ msg sys = .ok (sys', entered) ↔ ∃ market msgs holdings,
      Market.execute (sys.querier env) env.time ⟨account, []⟩ msg sys.market =
        .ok (market, msgs) ∧
      deliverAll sys.address sys.market.config.marketToken msgs sys.toHoldings = .ok holdings ∧
      sys' = { sys with toHoldings := holdings, market, time := env.time } ∧
      entered = enteredAccounts msgs := by
  simp only [execute, received_nil hmsg, receive_zero, bind_eq_ok, mapError_eq_ok, pure_eq_ok,
    Except.ok.injEq, exists_eq_left', Prod.exists, Prod.mk.injEq]
  constructor
  · rintro ⟨market, msgs, hm, holdings, hd, rfl, rfl⟩
    exact ⟨market, msgs, holdings, hm, hd, rfl, rfl⟩
  · rintro ⟨market, msgs, holdings, hm, hd, rfl, rfl⟩
    exact ⟨market, msgs, hm, holdings, hd, rfl, rfl⟩

/-- A withdrawal passes the check, settles and burns. -/
theorem withdraw_succeeds_iff :
    (∃ r, execute env ⟨account, []⟩ (.withdraw amount) sys = .ok r) ↔
      (∃ transferable, CrUtils.transferableAmount (sys.querier env) sys.market account =
        .ok transferable ∧ amount ≤ transferable) ∧
      ∃ mid sys', settle env sys = .ok mid ∧
        Op.apply mid (.withdraw account amount) = .ok sys' := by
  simp (disch := simp) only [Prod.exists, execute_eq_ok]
  constructor
  · rintro ⟨_, _, market, msgs, holdings, hm, hd, -, -⟩
    obtain ⟨hcheck, -, mid, hs, ha⟩ := withdraw_outcome hm hd
    exact ⟨hcheck, mid, _, hs, ha⟩
  · rintro ⟨⟨transferable, hcheck, hle⟩, mid, sys', hs, ha⟩
    obtain ⟨market, charge, h₁, hch, hd₁, rfl⟩ := settle_eq_ok.mp hs
    obtain ⟨c, hc⟩ := config_charge hch
    simp only [Op.apply, callCtoken, bind_eq_ok, pure_eq_ok] at ha
    obtain ⟨h₂, hcall, h₃, hpay, rfl⟩ := ha
    have hm : Market.execute (sys.querier env) env.time ⟨account, []⟩ (.withdraw amount)
        sys.market = .ok (market, charge.messages ++
          [.ctoken sys.market.config.ctokenContract (.burnBaseFrom account amount),
            .send sys.market.config.marketToken account amount]) := by
      simp only [Market.execute, Market.withdraw, hcheck, hch, bind_eq_ok, ensure_eq_ok,
        pure_eq_ok, Except.ok.injEq, exists_eq_left']
      exact ⟨(), hle, trivial⟩
    refine ⟨_, _, market, _, h₃, hm, ?_, rfl, rfl⟩
    rw [deliverAll_append]
    refine ⟨h₁, hd₁, ?_⟩
    simp only [deliverAll_cons, deliverAll_nil, deliver, if_true]
    rw [hc] at hcall
    exact ⟨h₂, hcall, h₃, hpay, rfl⟩

/-- Borrowing passes the check, settles, adds to the debt and pays out. -/
theorem borrow_succeeds_iff :
    (∃ r, execute env ⟨account, []⟩ (.borrow amount) sys = .ok r) ↔
      CrUtils.canBorrow (sys.querier env) sys.market account amount = .ok true ∧
      ∃ mid sys', settle env sys = .ok mid ∧ Op.apply mid (.borrow account amount) = .ok sys' := by
  simp (disch := simp) only [Prod.exists, execute_eq_ok]
  constructor
  · rintro ⟨_, _, market, msgs, holdings, hm, hd, -, -⟩
    obtain ⟨hcheck, -, mid, hs, ha⟩ := borrow_outcome hm hd
    exact ⟨hcheck, mid, _, hs, ha⟩
  · rintro ⟨hcheck, mid, sys', hs, ha⟩
    obtain ⟨market, charge, h₁, hch, hd₁, rfl⟩ := settle_eq_ok.mp hs
    simp only [Op.apply, bind_eq_ok, mapError_eq_ok, pure_eq_ok] at ha
    obtain ⟨debt, hdebt, h₂, hpay, rfl⟩ := ha
    have hm : Market.execute (sys.querier env) env.time ⟨account, []⟩ (.borrow amount)
        sys.market = .ok ({ market with debt }, charge.messages ++
          [.enterMarket sys.market.config.creditAgency account,
            .send sys.market.config.marketToken account amount]) := by
      simp only [Market.execute, Market.borrow, hcheck, hch, hdebt, bind_eq_ok, ensure_eq_ok,
        pure_eq_ok, Except.ok.injEq, exists_eq_left']
      exact ⟨(), trivial, trivial⟩
    refine ⟨_, _, _, _, h₂, hm, ?_, rfl, rfl⟩
    rw [deliverAll_append]
    refine ⟨h₁, hd₁, ?_⟩
    simp only [deliverAll_cons, deliverAll_nil, deliver, if_true]
    exact ⟨h₁, rfl, h₂, hpay, rfl⟩

/-! ## What the operations need -/

theorem pay_succeeds_iff {h : Holdings} : (∃ h', h.pay amount = .ok h') ↔ amount ≤ h.cash := by
  simp only [Holdings.pay_eq_ok]
  constructor
  · rintro ⟨h', -, hcash⟩
    exact Uint128.le_def.mpr (Nat.le.intro ((Nat.add_comm _ _).trans hcash))
  · intro hle
    obtain ⟨cash, hcash⟩ := Uint128.exists_rest hle
    exact ⟨⟨h.ctoken, cash⟩, rfl, hcash⟩

theorem apply_withdraw_succeeds_iff (account : Addr) (hi : Sound mid)
    (htokens : baseToToken amount mid.ctoken.multiplier = .ok (ε := Ctoken.Error) tokens) :
    (∃ sys', Op.apply mid (.withdraw account amount) = .ok sys') ↔
      (tokens ≠ 0 ∧ tokens ≤ mid.ctoken.balance account) ∧ amount ≤ mid.cash := by
  have hburns : (∃ ct, Ctoken.burnFrom mid.address mid.ctoken account tokens = .ok ct) ↔ _ :=
    Ctoken.burnFrom_succeeds_iff hi.supply
  simp only [hi.controller, true_and] at hburns
  rw [← hburns]
  simp only [Op.apply, callCtoken, bind_eq_ok, pure_eq_ok, Holdings.callCtoken_burnBaseFrom,
    Ctoken.burnBaseFrom, htokens, Except.ok.injEq, exists_eq_left']
  constructor
  · rintro ⟨_, _, ⟨ct, hct, rfl⟩, h', hpay, rfl⟩
    have hle := pay_succeeds_iff.mp ⟨h', hpay⟩
    exact ⟨⟨ct, hct⟩, hle⟩
  · rintro ⟨⟨ct, hct⟩, hle⟩
    obtain ⟨h', hpay⟩ := pay_succeeds_iff (h := { mid.toHoldings with ctoken := ct }).mpr hle
    exact ⟨_, _, ⟨ct, hct, rfl⟩, h', hpay, rfl⟩

theorem apply_borrow_succeeds_iff :
    (∃ sys', Op.apply mid (.borrow account amount) = .ok sys') ↔
      (∃ debt, Debt.increase mid.market.debt account amount = .ok debt) ∧ amount ≤ mid.cash := by
  simp only [Op.apply, bind_eq_ok, mapError_eq_ok, pure_eq_ok]
  constructor
  · rintro ⟨_, debt, hdebt, h', hpay, rfl⟩
    exact ⟨⟨debt, hdebt⟩, pay_succeeds_iff.mp ⟨h', hpay⟩⟩
  · rintro ⟨⟨debt, hdebt⟩, hle⟩
    obtain ⟨h', hpay⟩ := pay_succeeds_iff.mpr hle
    exact ⟨_, debt, hdebt, h', hpay, rfl⟩

theorem settle_debtMultiplier_le (h : settle env sys = .ok mid) :
    sys.market.debt.info.multiplier.atomics.val ≤ mid.market.debt.info.multiplier.atomics.val := by
  have hle : sys.market.debt.liability sys.address ≤ mid.market.debt.liability sys.address :=
    (settle_holding h).2
  exact hle.2

theorem settle_sound (hi : Sound sys) (h : settle env sys = .ok mid) : Sound mid := by
  obtain ⟨hcontroller, hsupply⟩ := settle_ctoken ctoken_keeps h ⟨hi.controller, hi.supply⟩
  refine ⟨hcontroller.trans (settle_address h).symm, hsupply, ?_⟩
  have hle := settle_debtMultiplier_le h
  have hpos := hi.debtMultiplier
  omega

theorem settle_cash (h : settle env sys = .ok mid) : mid.cash = sys.cash := by
  obtain ⟨_, _, -, -, hmid, -⟩ := settle_spec h
  rw [hmid]

/-! ## Within a quota -/

variable {quota : Coin}

theorem withdrawable_spec {q : Querier} {s : State}
    (h : Query.withdrawable q s account = .ok quota) :
    ∃ transferable balance, CrUtils.transferableAmount q s account = .ok transferable ∧
      q.ctoken.baseBalance account = .ok (ε := Market.Error) balance ∧
      quota.amount = min (min transferable balance) q.ownBalance := by
  simp only [Query.withdrawable, bind_eq_ok, pure_eq_ok] at h
  obtain ⟨transferable, ht, balance, hb, rfl⟩ := h
  exact ⟨transferable, balance, ht, hb, rfl⟩

theorem borrowable_spec {q : Querier} {s : State} (h : Query.borrowable q s account = .ok quota) :
    ∃ available, CrUtils.queryBorrowableTokens q s account = .ok available ∧
      quota.amount = min available q.ownBalance := by
  simp only [Query.borrowable, bind_eq_ok, pure_eq_ok] at h
  obtain ⟨available, ha, rfl⟩ := h
  exact ⟨available, ha, rfl⟩

/-- After a settlement the account still has the ctokens that its balance was worth. -/
theorem tokens_le_settled {balance : Uint128} (hs : settle env sys = .ok mid)
    (hb : sys.ctoken.baseBalance account = .ok (ε := Market.Error) balance)
    (hle : amount ≤ balance)
    (htokens : tokens.val = toPoints fractional amount.val mid.ctoken.multiplier.atomics.val) :
    tokens ≤ mid.ctoken.balance account := by
  obtain ⟨hheld, hmultiplier⟩ : sys.ctoken.holding account ≤ mid.ctoken.holding account :=
    (settle_holding hs).1
  rw [Uint128.le_def, Ctoken.baseBalance_eq_ok.mp hb] at hle
  rw [Uint128.le_def, htokens]
  exact (toPoints_le hle hmultiplier).trans hheld

/-- A withdrawal within the quota that is worth a ctoken succeeds. -/
theorem withdraw_within_quota_succeeds (hi : Sound sys) (hs : settle env sys = .ok mid)
    (hq : Query.withdrawable (sys.querier env) sys.market account = .ok quota)
    (hle : amount ≤ quota.amount)
    (htokens : tokens.val = toPoints fractional amount.val mid.ctoken.multiplier.atomics.val)
    (hworth : tokens ≠ 0) : ∃ r, execute env ⟨account, []⟩ (.withdraw amount) sys = .ok r := by
  obtain ⟨transferable, balance, ht, hb, hmin⟩ := withdrawable_spec hq
  rw [hmin, le_min_iff, le_min_iff] at hle
  obtain ⟨⟨htransferable, hbalance⟩, hcash⟩ := hle
  have hm : mid.ctoken.multiplier.atomics.val ≠ 0 := by
    intro hzero
    rw [hzero, toPoints, Nat.div_zero] at htokens
    exact hworth (Uint128.val_eq_zero.mp htokens)
  obtain ⟨sys', ha⟩ := (apply_withdraw_succeeds_iff account (settle_sound hi hs)
    (baseToToken_eq_ok.mpr ⟨hm, htokens⟩)).mpr
      ⟨⟨hworth, tokens_le_settled hs hb hbalance htokens⟩, (settle_cash hs).symm ▸ hcash⟩
  exact withdraw_succeeds_iff.mpr ⟨⟨transferable, ht, htransferable⟩, mid, sys', hs, ha⟩

/-- Borrowing within the quota succeeds if and only if there is room for the debt points. -/
theorem borrow_within_quota_iff (hi : Sound sys) (hs : settle env sys = .ok mid)
    (hq : Query.borrowable (sys.querier env) sys.market account = .ok quota)
    (h0 : amount ≠ 0) (hle : amount ≤ quota.amount)
    (hpoints : points.val =
      toPoints fractional amount.val mid.market.debt.info.multiplier.atomics.val) :
    (∃ r, execute env ⟨account, []⟩ (.borrow amount) sys = .ok r) ↔
      Debt.Room mid.market.debt account points := by
  obtain ⟨available, ha, hmin⟩ := borrowable_spec hq
  rw [hmin, le_min_iff] at hle
  obtain ⟨havailable, hcash⟩ := hle
  have hroom := Debt.increase_succeeds_iff account h0
    (settle_sound hi hs).debtMultiplier hpoints
  rw [borrow_succeeds_iff, ← hroom]
  constructor
  · rintro ⟨-, mid', sys', hs', happly⟩
    cases hs.symm.trans hs'
    exact (apply_borrow_succeeds_iff.mp ⟨sys', happly⟩).1
  · intro hdebt
    obtain ⟨sys', happly⟩ := apply_borrow_succeeds_iff.mpr ⟨hdebt, (settle_cash hs).symm ▸ hcash⟩
    refine ⟨?_, mid, sys', hs, happly⟩
    simp only [CrUtils.canBorrow, ha, bind_eq_ok, pure_eq_ok, Except.ok.injEq, exists_eq_left']
    exact decide_eq_true havailable

/-- More than the quota is rejected by the credit check or cannot be paid. -/
theorem borrow_above_quota_rejected
    (hq : Query.borrowable (sys.querier env) sys.market account = .ok quota)
    (hlt : quota.amount < amount) :
    ¬ ∃ r, execute env ⟨account, []⟩ (.borrow amount) sys = .ok r := by
  obtain ⟨available, ha, hmin⟩ := borrowable_spec hq
  rw [hmin, min_lt_iff] at hlt
  rw [borrow_succeeds_iff]
  rintro ⟨hcheck, mid, sys', hs, happly⟩
  rcases hlt with hlt | hlt
  · simp only [CrUtils.canBorrow, ha, bind_eq_ok, pure_eq_ok, Except.ok.injEq, exists_eq_left',
      decide_eq_true_eq] at hcheck
    exact absurd hcheck (not_le.mpr hlt)
  · have hcash := (apply_borrow_succeeds_iff.mp ⟨sys', happly⟩).2
    rw [settle_cash hs] at hcash
    exact absurd hcash (not_le.mpr hlt)

end System

end WyndLend.Market
