import WyndLend.Market.Books

/-!
# Selling collateral for another token

`SwapWithdrawFrom` should withdraw market tokens against the ctokens of an account. It
burns what the oracle estimates the swap to cost, but attaches the whole sell limit to
the swap; and when the market token itself is bought it is sent without burning.
-/

namespace WyndLend.Market.System

open CosmWasm Utils

variable {env : Env} {sys sys' : System} {sender account : Addr} {buy : Coin}
  {sellLimit : Uint128} {entered : List Addr}

/-- The market tokens that left are worth at most the ctokens burned from the account and
one multiplier. -/
def PaidByBurn (sys sys' : System) (account : Addr) : Prop :=
  (sys.cash.val - sys'.cash.val) * fractional ≤
    ((sys.ctoken.balance account).val - (sys'.ctoken.balance account).val + 1) *
      sys.ctoken.multiplier.atomics.val

/-- The market token is bought for at most one multiplier, or any other token with a sell
limit that rounds up to at most one ctoken more than the oracle's estimate rounds down to. -/
def LimitMatches (env : Env) (sys : System) (buy : Coin) (sellLimit : Uint128) : Prop :=
  if buy.denom = sys.market.config.marketToken then
    buy.amount.val * fractional ≤ sys.ctoken.multiplier.atomics.val
  else ∀ estimate : Uint128,
    env.simulateReverseSwap sys.market.config.priceOracle buy.amount
        (swapOperations sys.market.config buy.denom) = .ok estimate →
      sellLimit.val * fractional ≤
        (estimate.val * fractional / sys.ctoken.multiplier.atomics.val + 1) *
          sys.ctoken.multiplier.atomics.val

/-- What leaves the market and what is burned, on every route. -/
theorem execute_swap
    (h : execute env ⟨sender, []⟩ (.swapWithdrawFrom account buy sellLimit) sys =
      .ok (sys', entered)) :
    sender = sys.market.config.creditAgency ∧
      (buy.denom = sys.market.config.marketToken ∧
          sys'.cash.val + buy.amount.val = sys.cash.val ∧ sys'.ctoken = sys.ctoken ∨
        buy.denom ≠ sys.market.config.marketToken ∧ ∃ estimate tokens : Uint128,
          env.simulateReverseSwap sys.market.config.priceOracle buy.amount
            (swapOperations sys.market.config buy.denom) = .ok estimate ∧
          estimate ≤ sellLimit ∧ sys.ctoken.multiplier.atomics.val ≠ 0 ∧
          tokens.val = estimate.val * fractional / sys.ctoken.multiplier.atomics.val ∧
          (sys'.ctoken.balance account).val + tokens.val = (sys.ctoken.balance account).val ∧
          sys'.cash.val + sellLimit.val = sys.cash.val) := by
  cases unfunded_outcome (by simp) h with
  | send plain hsender hdenom hpaid =>
    cases plain
    obtain ⟨hct, hpay⟩ := Holdings.pay_eq_ok.mp hpaid
    exact ⟨hsender.symm, .inl ⟨hdenom, hpay, hct⟩⟩
  | swap plain hsender hdenom hestimated hle hworth hburned hpaid =>
    cases plain
    rw [callCtoken, Holdings.callCtoken_burnFrom] at hburned
    obtain ⟨ct, hct, rfl⟩ := hburned
    obtain ⟨hrest, hpay⟩ := Holdings.pay_eq_ok.mp hpaid
    obtain ⟨-, -, b, t, w, hb, -, rfl⟩ := Ctoken.burnFrom_spec hct
    obtain ⟨hm, htokens⟩ := baseToToken_eq_ok.mp hworth
    dsimp only at hpay hrest
    refine ⟨hsender.symm, .inr ⟨hdenom, _, _, hestimated, hle, hm, htokens, ?_, ?_⟩⟩
    · dsimp only
      rw [hrest]
      simp only [Ctoken.State.balance, Map.mayLoad_save_self, Option.getD_some]
      exact hb
    · dsimp only
      omega
  | _ => grind [ExecuteMsg.plain]

/-- A successful `SwapWithdrawFrom` is paid for by the ctokens it burns if and only if the
sell limit matches the estimate, or next to no market tokens are bought. -/
theorem swap_paid_by_burn_iff
    (h : execute env ⟨sender, []⟩ (.swapWithdrawFrom account buy sellLimit) sys =
      .ok (sys', entered)) :
    PaidByBurn sys sys' account ↔ LimitMatches env sys buy sellLimit := by
  unfold PaidByBurn LimitMatches
  obtain ⟨-, ⟨hdenom, hcash, hctoken⟩ | ⟨hdenom, estimate, tokens, hestimated, -, -, htokens,
    hburned, hcash⟩⟩ := execute_swap h
  · have hleft : sys.cash.val - sys'.cash.val = buy.amount.val := by omega
    rw [if_pos hdenom, hctoken, hleft, Nat.sub_self, Nat.zero_add, Nat.one_mul]
  · have hleft : sys.cash.val - sys'.cash.val = sellLimit.val := by omega
    have hgone : (sys.ctoken.balance account).val - (sys'.ctoken.balance account).val =
        estimate.val * fractional / sys.ctoken.multiplier.atomics.val := by omega
    rw [if_neg hdenom, hleft, hgone]
    constructor
    · intro hle e he
      rw [hestimated] at he
      cases he
      exact hle
    · intro hle
      exact hle estimate hestimated

/-- At a multiplier below one base token the limit has to be the estimate itself. -/
theorem limitMatches_iff_eq {estimate : Uint128}
    (hdenom : buy.denom ≠ sys.market.config.marketToken)
    (hestimated : env.simulateReverseSwap sys.market.config.priceOracle buy.amount
      (swapOperations sys.market.config buy.denom) = .ok estimate)
    (hle : estimate ≤ sellLimit) (hm : sys.ctoken.multiplier.atomics.val ≠ 0)
    (hone : sys.ctoken.multiplier.atomics.val < fractional) :
    LimitMatches env sys buy sellLimit ↔ sellLimit = estimate := by
  have hmul := Nat.div_mul_le_self (estimate.val * fractional) sys.ctoken.multiplier.atomics.val
  have hlt : estimate.val * fractional < (estimate.val * fractional /
      sys.ctoken.multiplier.atomics.val + 1) * sys.ctoken.multiplier.atomics.val := by
    rw [Nat.add_mul, Nat.one_mul]
    exact Nat.lt_div_mul_add (Nat.pos_of_ne_zero hm)
  unfold LimitMatches
  rw [if_neg hdenom]
  constructor
  · intro hlimit
    have hbound := hlimit estimate hestimated
    rw [Nat.add_mul, Nat.one_mul] at hbound
    have hfew : sellLimit.val * fractional < (estimate.val + 1) * fractional := by
      rw [Nat.add_mul, Nat.one_mul]
      omega
    have hval := Nat.lt_of_mul_lt_mul_right hfew
    rw [Uint128.le_def] at hle
    exact Uint128.ext (by omega)
  · rintro rfl e he
    rw [hestimated] at he
    cases he
    exact hlt.le

instance : Decidable (PaidByBurn sys sys' account) := inferInstanceAs (Decidable (_ ≤ _))

/-- A deposit of 2000, of which the credit agency sells some for the lender. -/
def SoldForLender (buy : Coin) (sellLimit : Uint128) (sys sys' : System) : Prop :=
  ∃ init entered, sample = .ok init ∧
    Run step Ordered init [sampleTx 0 "lender" 2000 .deposit] sys ∧
    execute (sampleEnv 0) ⟨"agency", []⟩ (.swapWithdrawFrom "lender" buy sellLimit) sys =
      .ok (sys', entered)

theorem exists_soldForLender (buy : Coin) (sellLimit : Uint128) {p : System → System → Prop}
    [DecidableRel p]
    (h : sample.toOption.any (fun init => (runAll step Ordered
        [sampleTx 0 "lender" 2000 .deposit] init).any fun sys =>
          decide ((execute (sampleEnv 0) ⟨"agency", []⟩ (.swapWithdrawFrom "lender" buy sellLimit)
            sys).toOption.any (fun r => decide (p sys r.1)) = true)) = true) :
    ∃ sys sys', SoldForLender buy sellLimit sys sys' ∧ p sys sys' := by
  obtain ⟨init, sys, hi, hrun, hany⟩ := exists_run_of_start h
  obtain ⟨⟨sys', entered⟩, hexec, hp⟩ := exists_ok_of_any hany
  exact ⟨sys, sys', ⟨init, entered, hi, hrun, hexec⟩, hp⟩

/-- A limit that equals the estimate is paid for. -/
theorem swap_paid_by_burn_iff_example : ∃ sys sys',
    SoldForLender ⟨.native "juno", 100⟩ 100 sys sys' ∧ PaidByBurn sys sys' "lender" := by
  obtain ⟨sys, sys', hsold, hm, hdenom⟩ := exists_soldForLender ⟨.native "juno", 100⟩ 100
    (p := fun sys _ => sys.ctoken.multiplier = Ctoken.initialMultiplier ∧
      sys.market.config.marketToken = .native "atom") (by decide)
  refine ⟨sys, sys', hsold, ?_⟩
  obtain ⟨init, entered, -, -, hexec⟩ := hsold
  refine (swap_paid_by_burn_iff hexec).mpr ?_
  unfold LimitMatches
  rw [hm, hdenom, if_neg (by decide)]
  intro estimate he
  cases he
  decide

/-- The market token is sent to the credit agency and nothing is burned; and a swap that
costs 100 gets the whole limit of 150 attached. -/
theorem swap_not_paid_by_burn :
    (∃ sys sys', SoldForLender ⟨.native "atom", 100⟩ 100 sys sys' ∧
      ¬ PaidByBurn sys sys' "lender") ∧
    ∃ sys sys', SoldForLender ⟨.native "juno", 100⟩ 150 sys sys' ∧
      ¬ PaidByBurn sys sys' "lender" :=
  ⟨exists_soldForLender ⟨.native "atom", 100⟩ 100 (by decide),
    exists_soldForLender ⟨.native "juno", 100⟩ 150 (by decide)⟩

end WyndLend.Market.System
