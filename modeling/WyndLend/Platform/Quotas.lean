import WyndLend.Market.Quotas
import WyndLend.Platform.Safety

/-!
# Quotas of the platform

In every market of a reachable platform the quotas are honoured. Only the ledger of debts
can be too small for another loan.
-/

namespace WyndLend.Platform

open CosmWasm Utils Rebasing

variable {env : Env} {p : Platform} {market account address : Addr} {sys mid : Market.System}
  {msg : Market.ExecuteMsg} {config : CreditAgency.Config} {txs : List Tx}

/-- A message of the account to the market succeeds, without funds attached. -/
def Accepts (env : Env) (p : Platform) (market account : Addr) (msg : Market.ExecuteMsg) : Prop :=
  ∃ p', step ⟨env, .market market ⟨account, []⟩ msg⟩ p = .ok p'

theorem accepts_iff (found : p.markets.mayLoad market = some sys) :
    Accepts env p market account msg ↔
      ∃ r, sys.execute (p.marketEnv env) ⟨account, []⟩ msg = .ok r := by
  simp only [Accepts, step, executeMarket, bind_eq_ok, find_eq_ok, mapError_eq_ok, pure_eq_ok,
    found, Option.some.injEq, exists_eq_left']
  constructor
  · rintro ⟨_, r, hr, rfl⟩
    exact ⟨r, hr⟩
  · rintro ⟨r, hr⟩
    exact ⟨_, r, hr, rfl⟩

theorem lasting_sound : Lasting fun _ sys => sys.Sound where
  created h := Market.System.instantiate_sound h
  stepped h hi := Market.System.step_sound hi h
  migrated isotonicTokenId hi := by
    refine ⟨hi.controller, hi.supply, ?_⟩
    dsimp only
    rw [(Market.migrate_frame _ isotonicTokenId).1]
    exact hi.debtMultiplier

/-- For every account in every market of a reachable platform whose pending interest can be
settled: a loan within `Borrowable` succeeds exactly when there is room for its points, a
larger one is rejected, and a withdrawal within `Withdrawable` that is worth a ctoken
succeeds. -/
theorem quotas_honoured_iff (account : Addr) {guard : Platform → Tx → Prop}
    (h : Run step guard (start address config) txs p)
    (found : p.markets.mayLoad market = some sys)
    (hs : Market.System.settle (p.marketEnv env) sys = .ok mid) :
    (∀ quota, Market.Query.borrowable (sys.querier (p.marketEnv env)) sys.market account =
        .ok quota → ∀ amount,
      (amount ≠ 0 → amount ≤ quota.amount → ∀ points : Uint128,
        points.val = toPoints fractional amount.val mid.market.debt.info.multiplier.atomics.val →
        (Accepts env p market account (.borrow amount) ↔
          Market.Debt.Room mid.market.debt account points)) ∧
      (quota.amount < amount → ¬ Accepts env p market account (.borrow amount))) ∧
    ∀ quota, Market.Query.withdrawable (sys.querier (p.marketEnv env)) sys.market account =
        .ok quota → ∀ amount ≤ quota.amount, ∀ tokens : Uint128,
      tokens.val = toPoints fractional amount.val mid.ctoken.multiplier.atomics.val →
      tokens ≠ 0 → Accepts env p market account (.withdraw amount) := by
  have hi := lasting_sound.run h found
  simp only [accepts_iff found]
  refine ⟨?_, ?_⟩
  · intro quota hq amount
    refine ⟨?_, Market.System.borrow_above_quota_rejected hq⟩
    intro h0 hle points hpoints
    exact Market.System.borrow_within_quota_iff hi hs hq h0 hle hpoints
  · intro quota hq amount hle tokens htokens hworth
    exact Market.System.withdraw_within_quota_succeeds hi hs hq hle htokens hworth

/-! ## A lender and a borrower -/

/-- A year after Bob borrowed 20 of the lender's 1000 dollars the lender may withdraw the 980
that are left, or borrow 501, and no more. -/
theorem quotas_honoured_iff_example : ∃ p, Run step (fun _ _ => True)
      (start "agency" sampleConfig)
      (sampleCollateral Decimal.one sampleHalf ⟨100_000_000_000_000_000⟩ 40 ++
        [sampleBorrow (sampleYear 0) 20]) p ∧
    Accepts (sampleYear 1) p "usd market" "lender" (.withdraw 980) ∧
    Accepts (sampleYear 1) p "usd market" "lender" (.borrow 501) ∧
    ¬ Accepts (sampleYear 1) p "usd market" "lender" (.borrow 502) := by
  obtain ⟨p, hrun, sys, found, mid, hs, ⟨owed, hb, ⟨hle, hlt⟩, hpoints, hroom⟩, quota, hw, hwle,
      htokens⟩ : ∃ p, Run step (fun _ _ => True) (start "agency" sampleConfig)
        (sampleCollateral Decimal.one sampleHalf ⟨100_000_000_000_000_000⟩ 40 ++
          [sampleBorrow (sampleYear 0) 20]) p ∧
      ∃ sys ∈ p.markets.mayLoad "usd market",
      ∃ mid ∈ (Market.System.settle (p.marketEnv (sampleYear 1)) sys).toOption,
        (∃ quota ∈ (Market.Query.borrowable (sys.querier (p.marketEnv (sampleYear 1))) sys.market
            "lender").toOption, ((501 : Uint128) ≤ quota.amount ∧ quota.amount < 502) ∧
          (45_545_454 : Uint128).val =
            toPoints fractional 501 mid.market.debt.info.multiplier.atomics.val ∧
          Market.Debt.Room mid.market.debt "lender" 45_545_454) ∧
        ∃ quota ∈ (Market.Query.withdrawable (sys.querier (p.marketEnv (sampleYear 1))) sys.market
            "lender").toOption, (980 : Uint128) ≤ quota.amount ∧
          (97_804_391 : Uint128).val =
            toPoints fractional 980 mid.ctoken.multiplier.atomics.val :=
    exists_run_of_runAll (by decide +kernel)
  obtain ⟨hborrow, hwithdraw⟩ := quotas_honoured_iff "lender" hrun found
    (toOption_eq_some.mp hs)
  have hb := toOption_eq_some.mp hb
  have hw := toOption_eq_some.mp hw
  refine ⟨p, hrun, ?_, ?_, ?_⟩
  · exact hwithdraw quota hw 980 hwle _ htokens (by decide)
  · exact ((hborrow owed hb 501).1 (by decide) hle _ hpoints).mpr hroom
  · exact (hborrow owed hb 502).2 hlt

/-- Someone sends `4 * 10 ^ 33` atom to a market. With 18 decimals they are worth next to
nothing, and Alice borrows half of them. -/
def hugeLoanTxs : List Tx :=
  let env := sampleEnv "" "" ⟨1⟩
  [⟨sampleEnv "usd market" "usd ctoken" ⟨1⟩,
      .agency ⟨"gov", []⟩ (.createMarket (sampleMarket "usd"))⟩,
    ⟨sampleEnv "atom market" "atom ctoken" ⟨1⟩,
      .agency ⟨"gov", []⟩ (.createMarket (sampleMarket "atom"))⟩,
    ⟨env, .market "usd market" ⟨"alice", [("usd", 10_000_000_000_000_000)]⟩ .deposit⟩,
    ⟨env, .donate "atom market" 4_000_000_000_000_000_000_000_000_000_000_000⟩,
    ⟨env, .market "atom market" ⟨"alice", []⟩
      (.borrow 2_000_000_000_000_000_000_000_000_000_000_000)⟩]

/-- Alice may borrow the other half, and its points fit. With those she owes they do not. -/
theorem borrowable_overflows : ∃ p sys mid quota,
    Run step (fun _ _ => True) (start "agency" sampleConfig) hugeLoanTxs p ∧
    p.markets.mayLoad "atom market" = some sys ∧
    Market.System.settle (p.marketEnv (sampleEnv "" "" ⟨1⟩)) sys = .ok mid ∧
    Market.Query.borrowable (sys.querier (p.marketEnv (sampleEnv "" "" ⟨1⟩))) sys.market "alice" =
      .ok quota ∧
    2_000_000_000_000_000_000_000_000_000_000_000 ≤ quota.amount ∧
    toPoints fractional 2_000_000_000_000_000_000_000_000_000_000_000
      mid.market.debt.info.multiplier.atomics.val < 2 ^ 128 ∧
    ¬ Accepts (sampleEnv "" "" ⟨1⟩) p "atom market" "alice"
      (.borrow 2_000_000_000_000_000_000_000_000_000_000_000) := by
  obtain ⟨p, hrun, sys, found, mid, hs, hpoints, ⟨quota, hq, hle⟩, hnone⟩ : ∃ p,
      Run step (fun _ _ => True) (start "agency" sampleConfig) hugeLoanTxs p ∧
      ∃ sys ∈ p.markets.mayLoad "atom market",
      ∃ mid ∈ (Market.System.settle (p.marketEnv (sampleEnv "" "" ⟨1⟩)) sys).toOption,
        toPoints fractional 2_000_000_000_000_000_000_000_000_000_000_000
          mid.market.debt.info.multiplier.atomics.val < 2 ^ 128 ∧
        (∃ quota ∈ (Market.Query.borrowable (sys.querier (p.marketEnv (sampleEnv "" "" ⟨1⟩)))
          sys.market "alice").toOption,
            (2_000_000_000_000_000_000_000_000_000_000_000 : Uint128) ≤ quota.amount) ∧
        (step ⟨sampleEnv "" "" ⟨1⟩, .market "atom market" ⟨"alice", []⟩
          (.borrow 2_000_000_000_000_000_000_000_000_000_000_000)⟩ p).toOption.isNone = true :=
    exists_run_of_runAll (by decide +kernel)
  refine ⟨p, sys, mid, quota, hrun, found, toOption_eq_some.mp hs, toOption_eq_some.mp hq, hle,
    hpoints, ?_⟩
  rintro ⟨p', haccepted⟩
  rw [haccepted] at hnone
  cases hnone

end WyndLend.Platform
