import WyndLend.Market.Outcome

/-!
# Charge periods

Every handler that charges interest moves `lastCharged` forward by whole periods.
Changing the interest rates writes back the configuration loaded before the
charge, and with it the old `lastCharged`; as long as that message only comes
when nothing is pending, every period is charged once.
-/

namespace WyndLend.Market.System

open CosmWasm Utils

variable {env : Env} {info : MessageInfo} {msg : ExecuteMsg} {init sys sys' mid : System}
  {entered : List Addr} {tx : Tx} {txs txs' : List Tx}

/-- How a step may move the clock: it charges `n` epochs and moves `lastCharged` over
them, unless it changes the interest rates. -/
structure Ticks (env : Env) (changesRates : Prop) (sys sys' : System) : Prop where
  time : sys'.time = env.time
  period : sys'.market.config.interestChargePeriod = sys.market.config.interestChargePeriod
  charges : ∃ n, (n = 0 ∨ epochsPassed sys.market.config env.time = .ok n) ∧
    sys'.market.charged = sys.market.charged + n ∧
    (sys'.market.config.lastCharged =
        sys.market.config.lastCharged + n * sys.market.config.interestChargePeriod ∨
      changesRates ∧ epochsPassed sys.market.config env.time = .ok n ∧
        sys'.market.config.lastCharged = sys.market.config.lastCharged)

theorem ticks_of_idle {p : Prop}
    (hc : sys'.market.config.lastCharged = sys.market.config.lastCharged)
    (hp : sys'.market.config.interestChargePeriod = sys.market.config.interestChargePeriod)
    (hcharged : sys'.market.charged = sys.market.charged) (ht : sys'.time = env.time) :
    Ticks env p sys sys' :=
  ⟨ht, hp, 0, .inl rfl, hcharged, .inl (by rw [hc, Nat.zero_mul, Nat.add_zero])⟩

theorem ticks_of_settle {p : Prop} {op : Op} (hs : settle env sys = .ok mid)
    (ha : op.apply mid = .ok sys') : Ticks env p sys sys' := by
  obtain ⟨n, hn, hc, hcharged, -, -, -, ht⟩ := settle_frame hs
  obtain ⟨hc', hcharged', -, ht'⟩ := apply_frame ha
  refine ⟨ht'.trans ht, by rw [hc', hc]; rfl, n, .inr hn, hcharged'.trans hcharged, .inl ?_⟩
  rw [hc', hc]
  rfl

/-- The message that changes the interest rates. -/
def ExecuteMsg.ChangesRates (msg : ExecuteMsg) : Prop := ∃ curve, msg = .adjustInterestRates curve

theorem outcome_ticks (h : Outcome env info sys msg sys' entered) :
    Ticks env (ExecuteMsg.ChangesRates msg) sys sys' := by
  cases h with
  | deposit _ _ _ _ hs ha | withdraw _ _ _ hs ha | borrow _ _ hs ha | repay _ _ _ hs ha
  | repayTo _ _ _ _ _ _ hs ha | transferFrom _ _ hs _ _ _ ha => exact ticks_of_settle hs ha
  | adjust hadj => cases hadj <;> exact ticks_of_idle rfl rfl rfl rfl
  | rates hm _ _ hs =>
    obtain ⟨n, hn, -, hcharged, -, -, -, ht⟩ := settle_frame hs
    exact ⟨ht, rfl, n, .inr hn, hcharged, .inr ⟨⟨_, hm⟩, hn, rfl⟩⟩
  | send | swap => exact ticks_of_idle rfl rfl rfl rfl

/-- The action of a transaction that changes the interest rates. -/
def Action.ChangesRates (action : Action) : Prop :=
  ∃ info curve, action = .execute info (.adjustInterestRates curve)

theorem step_ticks (h : step tx sys = .ok sys') :
    Ticks tx.env tx.action.ChangesRates sys sys' := by
  cases step_transition h with
  | executed action executed =>
    obtain ⟨_, _, -, -, hout⟩ := execute_outcome executed
    obtain ⟨ht, hp, n, hn, hcharged, hl⟩ := outcome_ticks hout
    refine ⟨ht, hp, n, hn, hcharged, hl.imp_right ?_⟩
    rintro ⟨⟨curve, rfl⟩, hrest⟩
    exact ⟨⟨_, curve, action⟩, hrest⟩
  | ctoken | donated => exact ticks_of_idle rfl rfl rfl rfl

/-! ## Runs -/

/-- Blocks follow one another. -/
def Ordered (sys : System) (tx : Tx) : Prop := sys.time ≤ tx.env.time

/-- Blocks follow one another, and the interest rates are only changed when no full
period has elapsed since the last charge. -/
def Prompt (sys : System) (tx : Tx) : Prop :=
  sys.time ≤ tx.env.time ∧ (tx.action.ChangesRates →
    tx.env.time < sys.market.config.lastCharged + sys.market.config.interestChargePeriod)

/-- What the clock keeps along a run from `start`. -/
structure OnTime (start : Config) (sys : System) : Prop where
  period : sys.market.config.interestChargePeriod = start.interestChargePeriod
  lastCharged : sys.market.config.lastCharged =
    start.lastCharged + sys.market.charged * start.interestChargePeriod
  le : sys.market.config.lastCharged ≤ sys.time

theorem epochsPassed_mul_le {cfg : Config} {time n : ℕ} (h : epochsPassed cfg time = .ok n) :
    cfg.lastCharged + n * cfg.interestChargePeriod ≤ time := by
  obtain ⟨hle, -, rfl⟩ := epochsPassed_eq_ok.mp h
  have := Nat.div_mul_le_self (time - cfg.lastCharged) cfg.interestChargePeriod
  omega

/-- Nothing is pending before the first period has elapsed. -/
theorem epochsPassed_eq_zero {cfg : Config} {time n : ℕ} (h : epochsPassed cfg time = .ok n)
    (hlt : time < cfg.lastCharged + cfg.interestChargePeriod) : n = 0 := by
  obtain ⟨hle, -, rfl⟩ := epochsPassed_eq_ok.mp h
  exact Nat.div_eq_of_lt (by omega)

/-- A settlement leaves nothing pending in its block. -/
theorem epochsPassed_settled (h : settle env sys = .ok mid) :
    epochsPassed mid.market.config env.time = .ok 0 := by
  obtain ⟨n, hn, hc, -⟩ := settle_frame h
  obtain ⟨hle, hp, rfl⟩ := epochsPassed_eq_ok.mp hn
  have hdone := epochsPassed_mul_le hn
  have hlt := Nat.lt_div_mul_add (a := env.time - sys.market.config.lastCharged)
    (Nat.pos_of_ne_zero hp)
  rw [hc, epochsPassed_eq_ok]
  refine ⟨hdone, hp, (Nat.div_eq_of_lt ?_).symm⟩
  simp only [State.advance]
  omega

/-- A prompt step keeps the clock and never sets it back. -/
theorem step_onTime {start : Config} (hi : OnTime start sys) (hg : Prompt sys tx)
    (h : step tx sys = .ok sys') :
    OnTime start sys' ∧ sys.market.config.lastCharged ≤ sys'.market.config.lastCharged := by
  obtain ⟨ht, hp, n, hn, hcharged, hl⟩ := step_ticks h
  have hl : sys'.market.config.lastCharged =
      sys.market.config.lastCharged + n * sys.market.config.interestChargePeriod := by
    rcases hl with hl | ⟨hr, hn, hl⟩
    · exact hl
    · rw [hl, epochsPassed_eq_zero hn (hg.2 hr), Nat.zero_mul, Nat.add_zero]
  refine ⟨⟨hp.trans hi.period, ?_, ?_⟩, by rw [hl]; exact Nat.le_add_right _ _⟩
  · rw [hl, hi.lastCharged, hi.period, hcharged, Nat.add_mul, Nat.add_assoc]
  · rw [ht]
    rcases hn with rfl | hn
    · have := hi.le
      have := hg.1
      omega
    · rw [hl]
      exact epochsPassed_mul_le hn

/-- What holds of the clock in every run, rate changes included. -/
structure Running (sys : System) : Prop where
  period : sys.market.config.interestChargePeriod ≠ 0
  le : sys.market.config.lastCharged ≤ sys.time

theorem step_running (hi : Running sys) (hg : Ordered sys tx) (h : step tx sys = .ok sys') :
    Running sys' := by
  obtain ⟨ht, hp, n, hn, -, hl⟩ := step_ticks h
  refine ⟨hp ▸ hi.period, ?_⟩
  have hle := hi.le.trans hg
  rw [ht]
  rcases hl with hl | ⟨-, -, hl⟩
  · rw [hl]
    rcases hn with rfl | hn
    · simpa using hle
    · exact epochsPassed_mul_le hn
  · rwa [hl]

theorem instantiate_onTime {sender address ctokenContract : Addr} {time : ℕ} {m : InstantiateMsg}
    (h : instantiate sender address ctokenContract time m = .ok init) :
    OnTime init.market.config init ∧ init.market.config.interestChargePeriod ≠ 0 := by
  simp only [instantiate, Market.instantiate, bind_eq_ok, mapError_eq_ok, ensure_eq_ok,
    pure_eq_ok] at h
  obtain ⟨_, ⟨_, _, -, hp, rfl⟩, rfl⟩ := h
  exact ⟨⟨rfl, by simp [tokenInstantiateReply], Nat.sub_le _ _⟩, hp⟩

/-- Every reachable market has its last charge behind it. -/
theorem reachable_running {sender address ctokenContract : Addr} {time : ℕ} {m : InstantiateMsg}
    (hi : instantiate sender address ctokenContract time m = .ok init)
    (h : Run step Ordered init txs sys) : Running sys :=
  h.invariant ⟨(instantiate_onTime hi).2, (instantiate_onTime hi).1.le⟩
    fun _ _ _ hu hg hs => step_running hu hg hs

/-- In every run that changes the interest rates only when nothing is pending, every
elapsed period is charged exactly once: `lastCharged` never decreases, stays at most
the block time, and has moved by one period for every epoch that was charged. -/
theorem every_period_charged_once {sender address ctokenContract : Addr} {time : ℕ}
    {m : InstantiateMsg} (hi : instantiate sender address ctokenContract time m = .ok init)
    (h : Run step Prompt init txs sys) (h' : Run step Prompt sys txs' sys') :
    sys.market.config.lastCharged ≤ sys'.market.config.lastCharged ∧
    sys'.market.config.lastCharged ≤ sys'.time ∧
    sys'.market.config.lastCharged = init.market.config.lastCharged +
      sys'.market.charged * init.market.config.interestChargePeriod ∧
    sys'.market.charged = (sys'.market.config.lastCharged - init.market.config.lastCharged) /
      init.market.config.interestChargePeriod := by
  obtain ⟨h0, hp⟩ := instantiate_onTime hi
  have hsys := h.invariant h0 fun _ _ _ hu hg hs => (step_onTime hu hg hs).1
  obtain ⟨hsys', hle⟩ := h'.invariant
    (I := fun u => OnTime init.market.config u ∧
      sys.market.config.lastCharged ≤ u.market.config.lastCharged)
    ⟨hsys, le_rfl⟩ fun _ _ _ hu hg hs =>
      ⟨(step_onTime hu.1 hg hs).1, hu.2.trans (step_onTime hu.1 hg hs).2⟩
  refine ⟨hle, hsys'.le, hsys'.lastCharged, ?_⟩
  rw [hsys'.lastCharged, Nat.add_sub_cancel_left, Nat.mul_div_cancel _ (Nat.pos_of_ne_zero hp)]

/-! ## A market in its first two years -/

instance : DecidableRel Ordered := fun sys tx =>
  inferInstanceAs (Decidable (sys.time ≤ tx.env.time))

/-- A yearly charge, a tenth of base interest, and a reserve of a fifth. -/
def sampleMsg : InstantiateMsg where
  distributedToken := .native "reward"
  tokenId := 1
  marketToken := .native "atom"
  marketCap := none
  interestRate := .linear ⟨100_000_000_000_000_000⟩ ⟨200_000_000_000_000_000⟩
  interestChargePeriod := 31_536_000
  commonToken := .native "juno"
  collateralRatio := ⟨500_000_000_000_000_000⟩
  priceOracle := "oracle"
  reserveFactor := ⟨200_000_000_000_000_000⟩
  govContract := "governance"
  borrowLimitRatio := Decimal.one

def sample : Except Error System := instantiate "agency" "market" "ctoken" 0 sampleMsg

/-- Both tokens are worth the same, and every account has a credit line of a million
from its collateral elsewhere. -/
def sampleEnv (time : ℕ) : Env where
  time := time
  totalCreditLine _ _ := .ok ((CreditLineValues.mk 2_000_000 1_000_000 1_000_000 0).makeResponse
    (.native "juno"))
  twap _ offer ask := .ok ⟨ask, offer, Decimal.one, Decimal.one⟩
  simulateReverseSwap _ amount _ := .ok amount
  multiHop _ := .ok "multihop"
  rewardBalance := 0

def sampleTx (time : ℕ) (sender : Addr) (coins : Uint128) (msg : ExecuteMsg) : Tx :=
  ⟨sampleEnv time, .execute ⟨sender, if coins = 0 then [] else [("atom", coins)]⟩ msg⟩

/-- After a year the governance contract changes the interest rates, and then Bob
repays a part in the same block: both messages charge the one year that has passed. -/
theorem year_charged_twice : ∃ init sys, sample = .ok init ∧ Run step Ordered init
    [sampleTx 0 "lender" 2000 .deposit, sampleTx 0 "bob" 0 (.borrow 1000),
      sampleTx 31_536_000 "governance" 0
        (.adjustInterestRates (.linear ⟨100_000_000_000_000_000⟩ ⟨300_000_000_000_000_000⟩)),
      sampleTx 31_536_000 "bob" 100 .repay] sys ∧
    sys.market.charged ≠ (sys.market.config.lastCharged - init.market.config.lastCharged) /
      init.market.config.interestChargePeriod :=
  exists_run_of_start (by decide)

instance : DecidablePred Action.ChangesRates := fun action =>
  match action with
  | .execute info (.adjustInterestRates curve) => .isTrue ⟨info, curve, rfl⟩
  | .execute _ .deposit | .execute _ (.withdraw _) | .execute _ (.borrow _) | .execute _ .repay
  | .execute _ (.repayTo _) | .execute _ (.transferFrom ..) | .execute _ (.adjustCommonToken _)
  | .execute _ (.swapWithdrawFrom ..) | .execute _ (.adjustCollateralRatio _)
  | .execute _ (.adjustReserveFactor _) | .execute _ (.adjustPriceOracle _)
  | .execute _ (.adjustMarketCap _) | .execute _ (.receive ..) | .ctoken .. | .donate _ =>
    .isFalse nofun

instance (sys : System) (tx : Tx) : Decidable (Prompt sys tx) :=
  inferInstanceAs (Decidable (_ ∧ (_ → _)))

/-- The same year, charged by Bob's repayment before the rates change. -/
theorem every_period_charged_once_example : ∃ init sys sys', sample = .ok init ∧
    Run step Prompt init
      [sampleTx 0 "lender" 2000 .deposit, sampleTx 0 "bob" 0 (.borrow 1000)] sys ∧
    Run step Prompt sys
      [sampleTx 31_536_000 "bob" 100 .repay, sampleTx 31_536_000 "governance" 0
        (.adjustInterestRates (.linear ⟨100_000_000_000_000_000⟩ ⟨300_000_000_000_000_000⟩))]
      sys' ∧
    sys'.market.config.lastCharged = init.market.config.lastCharged +
      sys'.market.charged * init.market.config.interestChargePeriod := by
  obtain ⟨init, sys, hi, h, h'⟩ : ∃ init sys, sample = .ok init ∧ Run step Prompt init
      [sampleTx 0 "lender" 2000 .deposit, sampleTx 0 "bob" 0 (.borrow 1000)] sys ∧
      (runAll step Prompt
        [sampleTx 31_536_000 "bob" 100 .repay, sampleTx 31_536_000 "governance" 0
          (.adjustInterestRates (.linear ⟨100_000_000_000_000_000⟩ ⟨300_000_000_000_000_000⟩))]
        sys).isSome = true := exists_run_of_start (by decide)
  obtain ⟨sys', h'⟩ := Option.isSome_iff_exists.mp h'
  exact ⟨init, sys, sys', hi, h, run_of_runAll h',
    (every_period_charged_once hi h (run_of_runAll h')).2.2.1⟩

end WyndLend.Market.System
