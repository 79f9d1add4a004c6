import WyndLend.Market.Drift

/-!
# Repayments that exceed the debt

A repayment by the credit agency is compared with the recorded debt, before any pending
interest is charged. Everything that can fail afterwards fails with another error, so the
comparison alone decides whether the payment is more than what is owed.
-/

namespace WyndLend.Market

open CosmWasm Utils Rebasing

namespace Debt

variable {l : Ledger} {account : Addr} {amount : Uint128}

theorem rebase_onlyFaults (ratio : Decimal) : OnlyFaults (rebase l ratio) :=
  onlyFaults_bind (Decimal.mul_onlyFaults _ _) fun _ => onlyFaults_ok _

theorem decreaseChange_onlyFaults (old : Uint128) (m : Decimal) (surplus : Uint128) :
    OnlyFaults (decreaseChange amount old m surplus) := by
  unfold decreaseChange
  refine onlyFaults_bind (Uint128.multiplyRatio_onlyFaults _ _ _) fun points => ?_
  split_ifs
  · refine onlyFaults_bind (Uint128.sub_onlyFaults _ _) fun _ => ?_
    exact onlyFaults_bind (Uint128.mulDecimal_onlyFaults _ _) fun _ => onlyFaults_ok _
  · exact onlyFaults_bind (Uint128.sub_onlyFaults _ _) fun _ => onlyFaults_ok _

theorem decrease_onlyFaults : OnlyFaults (decrease l account amount) := by
  unfold decrease
  split_ifs
  · exact onlyFaults_ok _
  · refine onlyFaults_bind (decreaseChange_onlyFaults _ _ _) fun _ => ?_
    exact onlyFaults_bind (decreaseChange_onlyFaults _ _ _) fun _ => onlyFaults_ok _

end Debt

variable {q : Querier} {time : ℕ} {s : State} {account sender : Addr} {coin : Coin}

/-- Once the update is known, a charge only adds to it and rebases. -/
theorem chargeInterest_onlyFaults {n : ℕ} {u : Option InterestUpdate}
    (hn : epochsPassed s.config time = .ok n) (hu : calculateInterest s q.ctoken n = .ok u) :
    OnlyFaults (chargeInterest q time s) := by
  intro e h
  rw [chargeInterest, bind_eq_error] at h
  rcases h with h | ⟨_, hn', h⟩
  · cases hn.symm.trans h
  cases hn.symm.trans hn'
  split_ifs at h
  · cases h
  rcases bind_eq_error.mp h with h | ⟨_, hu', h⟩
  · cases hu.symm.trans h
  cases hu.symm.trans hu'
  cases u with
  | none => cases h
  | some u =>
    refine onlyFaults_bind (Decimal.add_onlyFaults _ _) (fun _ => ?_) e h
    refine onlyFaults_bind (Debt.rebase_onlyFaults _) fun _ => ?_
    exact onlyFaults_bind (Decimal.add_onlyFaults _ _) fun _ => onlyFaults_ok _

/-- The payment is rejected for lack of debt if and only if it exceeds the recorded debt. -/
theorem repayTo_insufficient_iff {n : ℕ} {u : Option InterestUpdate} {debt : Uint128}
    (hn : epochsPassed s.config time = .ok n) (hu : calculateInterest s q.ctoken n = .ok u)
    (hsender : s.config.creditAgency = sender) (hdenom : coin.denom = s.config.marketToken)
    (hdebt : Debt.of s.debt account = .ok debt) :
    (∃ owed, repayTo q time s sender coin account =
      .error (.liquidationInsufficientDebt account owed)) ↔ debt < coin.amount := by
  constructor
  · rintro ⟨owed, h⟩
    by_contra hle
    rcases bind_eq_error.mp h with h | ⟨_, -, h⟩
    · cases ensure_eq_error h
    rcases bind_eq_error.mp h with h | ⟨_, -, h⟩
    · cases ensure_eq_error h
    rcases bind_eq_error.mp h with h | ⟨_, hdebt', h⟩
    · cases hdebt.symm.trans h
    cases hdebt.symm.trans hdebt'
    rcases bind_eq_error.mp h with h | ⟨_, -, h⟩
    · rw [ensure, if_pos (not_lt.mp hle)] at h
      cases h
    -- Past the comparison there are only faults.
    obtain ⟨f, hf⟩ := onlyFaults_bind (chargeInterest_onlyFaults hn hu) (fun _ =>
      onlyFaults_bind Debt.decrease_onlyFaults fun _ => onlyFaults_ok _) _ h
    cases hf
  · intro hlt
    refine ⟨debt, ?_⟩
    refine bind_eq_error.mpr (.inr ⟨(), ensure_eq_ok.mpr hsender, ?_⟩)
    refine bind_eq_error.mpr (.inr ⟨(), ensure_eq_ok.mpr hdenom, ?_⟩)
    refine bind_eq_error.mpr (.inr ⟨debt, hdebt, bind_eq_error.mpr (.inl ?_)⟩)
    rw [ensure, if_neg (not_le.mpr hlt)]

/-! ## The transaction -/

/-- The messages of a market fail in its own accounts or at its ctokens. -/
theorem deliverAll_error {self : Addr} {token : Token} {msgs : List Message} {h : Holdings}
    {e : Error} : deliverAll self token msgs h ≠ .error (.market e) := by
  have hpay : ∀ (h : Holdings) (amount : Uint128), h.pay amount ≠ .error (.market e) := by
    intro h amount hpay
    rcases bind_eq_error.mp hpay with hpay | ⟨_, -, hpay⟩
    · cases ensure_eq_error hpay
    · obtain ⟨f, hf⟩ :=
        onlyFaults_bind (Uint128.sub_onlyFaults _ _) (fun _ => onlyFaults_ok _) _ hpay
      cases hf
  intro herror
  obtain ⟨h, msg, -, herror⟩ := foldlM_error herror
  cases msg with
  | ctoken contract msg =>
    rcases bind_eq_error.mp herror with herror | ⟨_, -, herror⟩
    · cases hcall : Ctoken.execute silent contract self msg h.ctoken with
      | error e =>
        rw [hcall] at herror
        cases herror
      | ok r =>
        rw [hcall] at herror
        cases herror
    · cases herror
  | enterMarket => cases herror
  | send | swap =>
    rw [deliver] at herror
    split_ifs at herror
    exact hpay _ _ herror

namespace System

variable {env : Env} {sys : System} {info : MessageInfo} {msg : ExecuteMsg}

/-- The credit agency's coins are credited to the market, which then runs `repayTo`. -/
structure Carries (sys : System) (info : MessageInfo) (msg : ExecuteMsg) (coin : Coin)
    (account : Addr) : Prop where
  funds : received sys.market.config.marketToken info msg = .ok coin.amount
  handler : ∀ q time s, Market.execute q time info msg s =
    Market.repayTo q time s sys.market.config.creditAgency coin account

/-- A repayment that was sent with tokens is rejected for lack of debt if and only if the
tokens fit into the market's account and exceed the recorded debt. -/
theorem execute_insufficient_iff {n : ℕ} {u : Option InterestUpdate}
    (hc : Carries sys info msg coin account) (hdenom : coin.denom = sys.market.config.marketToken)
    (hn : epochsPassed sys.market.config env.time = .ok n)
    (hu : calculateInterest sys.market sys.ctoken n = .ok u)
    {debt : Uint128} (hdebt : Debt.of sys.market.debt account = .ok debt) :
    (∃ owed, sys.execute env info msg =
        .error (.market (.liquidationInsufficientDebt account owed))) ↔
      sys.cash.val + coin.amount.val < 2 ^ 128 ∧ debt < coin.amount := by
  -- Crediting the tokens leaves what the comparison depends on as it was.
  have hhandler : ∀ holdings, sys.receive coin.amount = .ok holdings →
      ((∃ owed, (Market.execute (({ sys with toHoldings := holdings } : System).querier env)
          env.time info msg sys.market).mapError Error.market =
        .error (.market (.liquidationInsufficientDebt account owed))) ↔ debt < coin.amount) := by
    intro holdings hr
    have hu' : calculateInterest sys.market holdings.ctoken n = .ok u := by
      rw [(Holdings.receive_eq_ok.mp hr).1]
      exact hu
    rw [hc.handler, ← repayTo_insufficient_iff (q := ({ sys with toHoldings := holdings } :
      System).querier env) hn hu' rfl hdenom hdebt]
    simp only [mapError_eq_error, Error.market.injEq, exists_eq_right]
  constructor
  · rintro ⟨owed, h⟩
    simp only [execute, hc.funds, bind_eq_error, Except.ok.injEq, reduceCtorEq, false_or,
      exists_eq_left'] at h
    rcases h with h | ⟨holdings, hr, h⟩
    · obtain ⟨f, hf⟩ := onlyFaults_bind (Uint128.narrow_onlyFaults _) (fun _ => onlyFaults_ok _) _ h
      cases hf
    have hcash : holdings.cash.val = sys.cash.val + coin.amount.val :=
      (Holdings.receive_eq_ok.mp hr).2
    refine ⟨hcash ▸ holdings.cash.isLt, ?_⟩
    rcases h with h | ⟨_, -, h | ⟨_, -, h⟩⟩
    · exact (hhandler holdings hr).mp ⟨owed, h⟩
    · exact absurd h deliverAll_error
    · cases h
  · rintro ⟨hfits, hlt⟩
    obtain ⟨cash, hcash⟩ := Uint128.exists_val hfits
    have hr : sys.receive coin.amount = .ok ⟨sys.ctoken, cash⟩ :=
      Holdings.receive_eq_ok.mpr ⟨rfl, hcash⟩
    obtain ⟨owed, h⟩ := (hhandler _ hr).mpr hlt
    refine ⟨owed, ?_⟩
    simp only [execute, hc.funds, bind_eq_error, Except.ok.injEq, reduceCtorEq, false_or,
      exists_eq_left']
    exact .inr ⟨_, hr, .inl h⟩

/-- More than one token of interest is pending on the account's debt. -/
def Accrues (env : Env) (sys : System) (account : Addr) : Prop :=
  ∃ rate ∈ pendingRate env sys, fractional ≤ sys.debtOf account * rate.atomics.val

instance (env : Env) (sys : System) (account : Addr) : Decidable (Accrues env sys account) :=
  inferInstanceAs (Decidable (∃ rate ∈ pendingRate env sys, _))

/-- What a query adds to the recorded debt is whole tokens of pending interest. -/
theorem tokensBalance_exceeds_iff {balance : Query.TokensBalance} {debt : Uint128}
    (h : Query.tokensBalance (sys.querier env) sys.market env.time account = .ok balance)
    (hdebt : Debt.of sys.market.debt account = .ok debt) :
    debt < balance.debt.amount ↔ Accrues env sys account := by
  obtain ⟨n, u, hn, hu, hsim⟩ := simulatedBalance_spec (tokensBalance_eq_ok h)
  have hdebt : debt.val = sys.debtOf account := tokenToBase_eq_ok.mp hdebt
  unfold Accrues
  rw [pendingRate_eq hn hu, Uint128.lt_def, hdebt]
  cases u with
  | none =>
    rw [hsim.2]
    simp
  | some u =>
    rw [hsim.2, toBase]
    simp only [Option.map_some, Option.mem_some_iff, exists_eq_left', lt_add_iff_pos_right,
      Nat.div_pos_iff]
    exact and_iff_right fractional_pos

/-- Whoever owes something has a credit line that values the debt. -/
theorem creditLine_values_debt {balance : Query.TokensBalance} {response : CreditLineResponse}
    (h : Query.creditLine (sys.querier env) sys.market env.time account = .ok response)
    (hb : Query.tokensBalance (sys.querier env) sys.market env.time account = .ok balance)
    (hne : balance.debt.amount ≠ 0) :
    balance.debt.denom = sys.market.config.marketToken ∧ ∃ rate value,
      Query.priceMarketLocalPerCommon (sys.querier env) sys.market = .ok rate ∧
      coinTimesPriceRate balance.debt rate = .ok value := by
  simp only [Query.tokensBalance, bind_eq_ok, pure_eq_ok] at hb
  obtain ⟨⟨collateral, debt⟩, hb, rfl⟩ := hb
  simp only [Query.creditLine, bind_eq_ok] at h
  obtain ⟨balances, hb', h⟩ := h
  cases hb.symm.trans hb'
  rw [if_neg fun hzero => hne hzero.2] at h
  simp only [bind_eq_ok, mapError_eq_ok] at h
  obtain ⟨rate, hrate, _, -, value, hvalue, -⟩ := h
  exact ⟨rfl, rate, value, hrate, hvalue⟩

end System

end WyndLend.Market
