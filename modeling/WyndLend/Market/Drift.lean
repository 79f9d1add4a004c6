import WyndLend.Market.CreditLine

/-!
# Simulated and charged interest

A query truncates the balance first and adds a truncated share of it; a charge truncates
the new multiplier and then its product with the points. Right after the charge the
query reports what it simulated before, up to the rounding of both chains.
-/

namespace WyndLend.Market

open CosmWasm Utils Rebasing

/-- The balance of `points` after a charge by `ratio`, against the one simulated before. -/
structure Within (points : Uint128) (ratio : Decimal) (before after : Uint128) : Prop where
  lower : -1 - (points.val : ℚ) / fractional < (after.val : ℚ) - before.val
  upper : (after.val : ℚ) - before.val < 2 + (ratio.atomics.val : ℚ) / fractional

/-- A charge multiplies points by the grown multiplier, a query grows their worth. -/
theorem within_of_grow {points before after : Uint128} {ratio : Decimal} {m : ℕ}
    (hbefore : before.val = toBase fractional points.val m +
      toBase fractional (toBase fractional points.val m) ratio.atomics.val)
    (hafter : after.val = toBase fractional points.val (grow fractional m ratio.atomics.val)) :
    Within points ratio before after := by
  have hover := toBase_add_growth_lt fractional_pos points.val m ratio.atomics.val
  have hunder := toBase_grow_lt fractional_pos points.val m ratio.atomics.val
  constructor
  · rw [hbefore, hafter]
    push_cast
    linarith
  · rw [hbefore, hafter]
    push_cast
    linarith

namespace System

variable {env env' : Env} {sys mid : System} {account : Addr} {time : ℕ}
  {before after : Query.TokensBalance}

theorem tokensBalance_eq_ok {b : Query.TokensBalance}
    (h : Query.tokensBalance (sys.querier env) sys.market time account = .ok b) :
    Query.simulatedBalance (sys.querier env) sys.market time account =
      .ok (b.collateral.amount, b.debt.amount) := by
  simp only [Query.tokensBalance, bind_eq_ok, pure_eq_ok] at h
  obtain ⟨⟨collateral, debt⟩, hb, rfl⟩ := h
  exact hb

/-- For every market and every account other than governance, what `TokensBalance` reports
before a charge and right after it differs by less than one and a unit of `1 / fractional`
for each point on one side, and by less than two and the ratio on the other. -/
theorem charge_agrees_with_query (hs : settle env sys = .ok mid)
    (hne : account ≠ sys.market.config.governanceContract)
    (hbefore : Query.tokensBalance (sys.querier env) sys.market env.time account = .ok before)
    (hafter : Query.tokensBalance (mid.querier env') mid.market env.time account = .ok after) :
    ∃ n u, epochsPassed sys.market.config env.time = .ok n ∧
      calculateInterest sys.market sys.ctoken n = .ok u ∧
      match u with
      | none => after.collateral.amount = before.collateral.amount ∧
          after.debt.amount = before.debt.amount
      | some u =>
          Within (sys.ctoken.balance account) u.ctokenRatio before.collateral.amount
            after.collateral.amount ∧
          Within (sys.market.debt.points account) u.debtRatio before.debt.amount
            after.debt.amount := by
  obtain ⟨n, u, hn, hu, -, hcase⟩ := settle_spec hs
  obtain ⟨n', u', hn', hu', hsim⟩ := simulatedBalance_spec (tokensBalance_eq_ok hbefore)
  obtain ⟨hcollateral, hdebt⟩ := simulated_idle (epochsPassed_settled hs)
    (tokensBalance_eq_ok hafter)
  cases hn.symm.trans hn'
  cases hu.symm.trans hu'
  refine ⟨n, u, hn, hu, ?_⟩
  cases u with
  | none =>
    refine ⟨Uint128.ext ?_, Uint128.ext ?_⟩
    · rw [hcollateral, hsim.1, collateralOf, collateralOf, hcase.2]
    · rw [hdebt, hsim.2, debtOf, debtOf, hcase.1]
  | some u =>
    obtain ⟨-, hc, hd⟩ := accrued_account account hcase
    exact ⟨within_of_grow hsim.1 (hcollateral.trans (hc hne)),
      within_of_grow hsim.2 (hdebt.trans hd)⟩

/-- Bob's debt after a year, simulated and then charged. -/
theorem charge_agrees_with_query_example : ∃ init sys mid before after, sample = .ok init ∧
    Run step Ordered init
      [sampleTx 0 "lender" 2000 .deposit, sampleTx 0 "bob" 0 (.borrow 1000)] sys ∧
    settle (sampleEnv 31_536_000) sys = .ok mid ∧
    Query.tokensBalance (sys.querier (sampleEnv 31_536_000)) sys.market 31_536_000 "bob" =
      .ok before ∧
    Query.tokensBalance (mid.querier (sampleEnv 31_536_000)) mid.market 31_536_000 "bob" =
      .ok after ∧
    ∃ u, calculateInterest sys.market sys.ctoken 1 = .ok (some u) ∧
      Within (sys.market.debt.points "bob") u.debtRatio before.debt.amount
        after.debt.amount := by
  obtain ⟨init, sys, hi, hrun, hsettle, hbefore, hn, hu⟩ : ∃ init sys, sample = .ok init ∧
      Run step Ordered init
        [sampleTx 0 "lender" 2000 .deposit, sampleTx 0 "bob" 0 (.borrow 1000)] sys ∧
      (settle (sampleEnv 31_536_000) sys).toOption.any (fun mid =>
        decide (mid.market.config.governanceContract ≠ "bob" ∧
          (Query.tokensBalance (mid.querier (sampleEnv 31_536_000)) mid.market 31_536_000
            "bob").toOption.isSome = true)) = true ∧
      (Query.tokensBalance (sys.querier (sampleEnv 31_536_000)) sys.market 31_536_000
        "bob").toOption.isSome = true ∧
      (epochsPassed sys.market.config 31_536_000).toOption = some 1 ∧
      (calculateInterest sys.market sys.ctoken 1).toOption.any Option.isSome = true :=
    exists_run_of_start (by decide)
  obtain ⟨mid, hs, hgov, hafter⟩ := exists_ok_of_any hsettle
  obtain ⟨before, hbefore⟩ := Option.isSome_iff_exists.mp hbefore
  obtain ⟨after, hafter⟩ := Option.isSome_iff_exists.mp hafter
  rw [toOption_eq_some] at hbefore hafter
  refine ⟨init, sys, mid, before, after, hi, hrun, hs, hbefore, hafter, ?_⟩
  obtain ⟨_, -, hc, -⟩ := settle_frame hs
  rw [hc] at hgov
  obtain ⟨n, u, hn', hu', hcase⟩ := charge_agrees_with_query hs (Ne.symm hgov) hbefore hafter
  cases (toOption_eq_some.mp hn).symm.trans hn'
  cases u with
  | none => rw [hu'] at hu; cases hu
  | some u => exact ⟨u, hu', hcase.2⟩

end System

end WyndLend.Market
