import WyndLend.Market.Settlement
import WyndLend.Rebasing.Pool

/-!
# The market as a pool of two ledgers

`System.pool` forgets accounts and configuration and keeps the five numbers that
solvency and utilisation are about. Settlements and operations of the system are
operations of the pool.
-/

namespace WyndLend.Market.System

open CosmWasm Utils Rebasing

variable {env : Env} {info : MessageInfo} {msg : ExecuteMsg} {sys sys' mid : System}
  {account source destination : Addr} {amount : Uint128}

/-- The books of the market. -/
def pool (sys : System) : Pool where
  supply := sys.ctoken.totalSupply.val
  supplyMultiplier := sys.ctoken.multiplier.atomics.val
  debt := sys.market.debt.info.totalPoints.val
  debtMultiplier := sys.market.debt.info.multiplier.atomics.val
  cash := sys.cash.val

/-- What the lenders can claim: the ctoken base supply. -/
abbrev claims (sys : System) : ℕ := sys.pool.claims fractional

/-- What the borrowers owe: `Debt.total`. -/
abbrev owed (sys : System) : ℕ := sys.pool.owed fractional

theorem totalSupplyBase_eq_ok {ε : Type} [HasFault ε] {supplied : Uint128} :
    sys.ctoken.totalSupplyBase = .ok (ε := ε) supplied ↔ supplied.val = sys.claims :=
  tokenToBase_eq_ok

theorem debtTotal_eq_ok {borrowed : Uint128} {m : Decimal} :
    Debt.total sys.market.debt = .ok (borrowed, m) ↔
      borrowed.val = sys.owed ∧ m = sys.market.debt.info.multiplier := by
  simp only [Debt.total, bind_eq_ok, tokenToBase_eq_ok, pure_eq_ok, Prod.mk.injEq]
  constructor
  · rintro ⟨b, hb, rfl, rfl⟩
    exact ⟨hb, rfl⟩
  · rintro ⟨hb, rfl⟩
    exact ⟨borrowed, hb, rfl, rfl⟩

/-! ## Operations -/

theorem apply_deposit (h : Op.apply mid (.deposit account amount) = .ok sys') :
    sys'.pool = mid.pool.mint fractional amount.val := by
  cases applied_of_apply h with
  | deposit minted =>
    obtain ⟨tokens, htokens, hmint⟩ := Ctoken.mintBase_spec minted
    obtain ⟨-, -, b, t, w, -, ht, rfl⟩ := Ctoken.mint_spec hmint
    simp only [pool, Pool.mint, toPoints, ht, (baseToToken_eq_ok.mp htokens).2]

theorem apply_withdraw (h : Op.apply mid (.withdraw account amount) = .ok sys') :
    0 < mid.pool.supplyMultiplier ∧
    toPoints fractional amount.val mid.pool.supplyMultiplier ≤ mid.pool.supply ∧
    amount.val ≤ mid.pool.cash ∧
    sys'.pool = (mid.pool.burn fractional amount.val).pay amount.val := by
  cases applied_of_apply h with
  | withdraw burned hcash =>
    obtain ⟨tokens, htokens, hburn⟩ := Ctoken.burnBaseFrom_spec burned
    obtain ⟨-, -, b, t, w, -, ht, rfl⟩ := Ctoken.burnFrom_spec hburn
    obtain ⟨hm, hval⟩ := baseToToken_eq_ok.mp htokens
    refine ⟨Nat.pos_of_ne_zero hm, ?_, Nat.le.intro ((Nat.add_comm _ _).trans hcash), ?_⟩
    · simp only [pool, toPoints]
      omega
    · simp only [pool, Pool.burn, Pool.pay, toPoints, ← hval, ← ht, ← hcash, Nat.add_sub_cancel]

theorem apply_borrow (h : Op.apply mid (.borrow account amount) = .ok sys') :
    (0 < mid.pool.debtMultiplier ∨ amount.val = 0) ∧ amount.val ≤ mid.pool.cash ∧
    sys'.pool = (mid.pool.lend fractional amount.val).pay amount.val := by
  cases applied_of_apply h with
  | borrow hdebt hcash =>
    have hle : amount.val ≤ mid.pool.cash := Nat.le.intro ((Nat.add_comm _ _).trans hcash)
    obtain ⟨rfl, rfl⟩ | ⟨points, t, p, hpoints, ht, -, rfl⟩ := Debt.increase_spec hdebt
    · refine ⟨.inr rfl, hle, ?_⟩
      simp only [pool, Pool.lend, Pool.pay, toPoints, ← hcash, Uint128.val_zero, Nat.zero_mul,
        Nat.zero_div, Nat.add_zero, Nat.sub_zero]
    · obtain ⟨hm, hval⟩ := baseToToken_eq_ok.mp hpoints
      refine ⟨.inl (Nat.pos_of_ne_zero hm), hle, ?_⟩
      simp only [pool, Pool.lend, Pool.pay, toPoints, ← hcash, ht, hval, Nat.add_sub_cancel]

/-- A decrease of the debt clears points of the pool. -/
theorem decrease_pool {debt : Debt.Ledger} {surplus : Uint128}
    (h : Debt.decrease mid.market.debt account amount = .ok (debt, surplus)) :
    ({ mid with market := { mid.market with debt } } : System).pool =
      mid.pool.redeem fractional amount.val := by
  obtain ⟨rfl, rfl, -⟩ | ⟨points, t, p, hpoints, ht, -, rfl⟩ := Debt.decrease_spec h
  · simp only [pool, Pool.redeem, toPoints, Uint128.val_zero, Nat.zero_mul, Nat.zero_div,
      Nat.sub_zero]
  · simp only [pool, Pool.redeem, toPoints, ht, (baseToToken_eq_ok.mp hpoints).2]

theorem apply_repay (h : Op.apply mid (.repay account amount) = .ok sys') :
    ∃ back ≤ mid.pool.cash, sys'.pool = (mid.pool.redeem fractional amount.val).pay back := by
  cases applied_of_apply h with
  | repay hdec hcash =>
    refine ⟨_, Nat.le.intro ((Nat.add_comm _ _).trans hcash), ?_⟩
    rw [← decrease_pool hdec]
    simp only [pool, Pool.pay, ← hcash, Nat.add_sub_cancel]

theorem apply_repayTo (h : Op.apply mid (.repayTo account amount) = .ok sys') :
    sys'.pool = mid.pool.redeem fractional amount.val := by
  cases applied_of_apply h with
  | repayTo hdec => exact decrease_pool hdec

theorem apply_transferFrom (h : Op.apply mid (.transferFrom source destination amount) = .ok sys') :
    sys'.pool = mid.pool := by
  cases applied_of_apply h with
  | transferFrom moved =>
    obtain ⟨-, tokens, -, htransfer⟩ := Ctoken.transferBaseFrom_spec moved
    obtain ⟨-, b, b', w, -, -, rfl⟩ := Ctoken.transferTokens_spec htransfer
    rfl

/-- Holders who move or send their ctokens do not change the books. -/
theorem executeCtoken_pool {sender : Addr} {msg : Ctoken.ExecuteMsg}
    (h : executeCtoken env sender msg sys = .ok sys') (hs : sender ≠ sys.ctoken.controller) :
    sys'.pool = sys.pool := by
  simp only [executeCtoken, bind_eq_ok, mapError_eq_ok, pure_eq_ok] at h
  obtain ⟨⟨ct, msgs⟩, hct, rfl⟩ := h
  obtain ⟨hsupply, hmult, -⟩ := Ctoken.execute_frame hct hs
  simp only [pool, hsupply, hmult]

theorem donate_pool {amount : Uint128} (h : step ⟨env, .donate amount⟩ sys = .ok sys') :
    sys'.pool = sys.pool.receive amount.val := by
  simp only [step, bind_eq_ok, Holdings.receive_eq_ok, pure_eq_ok] at h
  obtain ⟨hold, ⟨hct, hcash⟩, rfl⟩ := h
  simp only [pool, Pool.receive, hct, hcash]

/-! ## Settlements -/

/-- The rate at which pending interest will be charged on the debt; none if nothing
is pending or there are no ctokens. -/
def pendingRate (env : Env) (sys : System) : Option Decimal :=
  match epochsPassed sys.market.config env.time with
  | .error _ => none
  | .ok n => if n = 0 ∨ sys.claims = 0 then none
    else (debtRatio sys.market sys.ctoken n).toOption

/-- The part of the charged interest that goes to the reserve, in base tokens. -/
def pendingReserve (sys : System) (rate : Decimal) : ℕ :=
  sys.pool.charged fractional rate.atomics.val *
    sys.market.config.reserveFactor.atomics.val / fractional

/-- The pool after a charge: the ctokens grow by the charged interest over the claims
less the reserve, and then the reserve is minted. -/
def settledPool (sys : System) (rate : Decimal) : Pool :=
  (sys.pool.accrue fractional rate.atomics.val
    (sys.pool.charged fractional rate.atomics.val * fractional /
      (sys.claims - sys.pendingReserve rate))).mint fractional (sys.pendingReserve rate)

theorem accrued_pool {u : InterestUpdate} (h : Accrued sys mid u) (hcash : mid.cash = sys.cash) :
    mid.pool = (sys.pool.accrue fractional u.debtRatio.atomics.val
      u.ctokenRatio.atomics.val).mint fractional u.reserve.val := by
  obtain ⟨⟨dr, hdr, hdebt⟩, cr, ct, hcr, hrebase, hmint⟩ := h
  obtain ⟨dm, hdm, hdebt⟩ := Debt.rebase_spec hdebt
  obtain ⟨-, cm, hcm, rfl⟩ := Ctoken.rebase_spec hrebase
  have hmid : mid.ctoken.totalSupply.val = sys.ctoken.totalSupply.val +
      toPoints fractional u.reserve.val cm.atomics.val ∧ mid.ctoken.multiplier = cm := by
    split_ifs at hmint with h0
    · rw [hmint, h0]
      simp [toPoints]
    · obtain ⟨tokens, htokens, hmint⟩ := Ctoken.mintBase_spec hmint
      obtain ⟨-, -, b, t, w, -, ht, hmint⟩ := Ctoken.mint_spec hmint
      rw [hmint]
      exact ⟨by rw [ht, (baseToToken_eq_ok.mp htokens).2]; rfl, rfl⟩
  simp only [pool, Pool.mint, Pool.accrue, grow, hmid, hdebt, hcash, hdm, hcm, hdr, hcr]

/-- The pool after the pending interest is settled. -/
def settled (env : Env) (sys : System) : Pool :=
  (pendingRate env sys).elim sys.pool sys.settledPool

/-- The pending rate is that of the update that a charge calculates. -/
theorem pendingRate_eq {n : ℕ} {u : Option InterestUpdate}
    (hn : epochsPassed sys.market.config env.time = .ok n)
    (hu : calculateInterest sys.market sys.ctoken n = .ok u) :
    pendingRate env sys = u.map InterestUpdate.debtRatio := by
  unfold pendingRate
  rw [hn]
  dsimp only
  cases u with
  | none =>
    exact if_pos ((calculateInterest_none hu).imp_right fun h0 =>
      (totalSupplyBase_eq_ok.mp h0).symm)
  | some u =>
    obtain ⟨h0, hrate, supplied, -, -, hs, -, hz, -⟩ := calculateInterest_spec hu
    have hs := totalSupplyBase_eq_ok.mp hs
    rw [if_neg, hrate]
    · rfl
    · exact not_or.mpr ⟨h0, fun hz' => hz (Uint128.val_eq_zero.mp (hs.trans hz'))⟩

/-- With nothing pending the pool is settled as it is. -/
theorem settled_idle (hn : epochsPassed sys.market.config env.time = .ok 0) :
    settled env sys = sys.pool := by
  have hpending : pendingRate env sys = none := pendingRate_eq hn rfl
  rw [settled, hpending, Option.elim]

/-- A settlement does to the pool what the pending rate says. It only succeeds when the
lenders' claims cover the debt and exceed the reserve. -/
theorem settle_pool (h : settle env sys = .ok mid) :
    mid.pool = settled env sys ∧ ∀ rate, pendingRate env sys = some rate →
      sys.owed ≤ sys.claims ∧ sys.pendingReserve rate < sys.claims := by
  obtain ⟨n, u, hn, hu, hmid, hcase⟩ := settle_spec h
  have hcash : mid.cash = sys.cash := by rw [hmid]
  have hpending := pendingRate_eq hn hu
  cases u with
  | none =>
    refine ⟨?_, by rw [hpending]; exact nofun⟩
    rw [settled, hpending]
    simp only [Option.map, Option.elim, pool, hcase, hcash]
  | some u =>
    obtain ⟨-, -, supplied, borrowed, charged, hs, hb, -, hle, hc, hr, hlt, hratio⟩ :=
      calculateInterest_spec hu
    have hs := totalSupplyBase_eq_ok.mp hs
    have hb : borrowed.val = sys.owed := tokenToBase_eq_ok.mp hb
    have hcharged : charged.val = sys.pool.charged fractional u.debtRatio.atomics.val := by
      rw [hc, hb]
      rfl
    have hreserve : u.reserve.val = sys.pendingReserve u.debtRatio := by
      rw [hr, hcharged]
      rfl
    rw [Uint128.le_def] at hle
    rw [Uint128.lt_def] at hlt
    refine ⟨?_, ?_⟩
    · rw [accrued_pool hcase hcash, hratio, hcharged, hreserve, hs, settled, hpending]
      rfl
    · rw [hpending]
      rintro _ ⟨⟩
      omega

/-! ## Incoming tokens -/

/-- The tokens of a deposit or a repayment are credited in full. -/
theorem received_eq {token : Token} {coin : Coin} {funds : Uint128}
    (hc : incoming info msg = .ok coin) (hd : coin.denom = token)
    (hr : received token info msg = .ok funds) : funds.val = coin.amount.val := by
  subst hd
  unfold incoming at hc
  split at hc
  · cases hc
    simp only [received, if_true, Except.ok.injEq] at hr
    rw [hr]
  · unfold requireSingleDenom at hc
    split at hc
    · next denom amount hfunds =>
      cases hc
      simp only [received, hfunds, decide_true, List.filter_cons_of_pos, List.filter_nil,
        List.foldlM_cons, List.foldlM_nil, bind_eq_ok, Uint128.add_eq_ok, pure_eq_ok,
        Uint128.val_zero, Nat.zero_add] at hr
      obtain ⟨_, hsum, rfl⟩ := hr
      exact hsum
    · cases hc

/-- A message that comes without funds credits nothing, unless it reports a cw20 transfer. -/
theorem received_nil {token : Token} {sender : Addr}
    (hmsg : ∀ source amount m, msg ≠ .receive source amount m) :
    received token ⟨sender, []⟩ msg = .ok 0 := by
  cases token with
  | native denom => rfl
  | cw20 contract =>
    cases msg with
    | receive source amount m => exact absurd rfl (hmsg source amount m)
    | _ => rfl

theorem receive_zero : sys.receive 0 = .ok sys.toHoldings :=
  Holdings.receive_eq_ok.mpr ⟨rfl, rfl⟩

/-- A transaction without funds is an outcome of the system as it is. -/
theorem unfunded_outcome {sender : Addr} {entered : List Addr}
    (hmsg : ∀ source amount m, msg ≠ .receive source amount m)
    (h : execute env ⟨sender, []⟩ msg sys = .ok (sys', entered)) :
    Outcome env ⟨sender, []⟩ sys msg sys' entered := by
  obtain ⟨funds, holdings, hf, hr, hout⟩ := execute_outcome h
  cases (received_nil hmsg).symm.trans hf
  cases receive_zero.symm.trans hr
  exact hout

variable {funds : Uint128} {holdings : Holdings}

/-- Credited tokens are cash, and nothing else depends on them. -/
theorem credited_pool (h : sys.receive funds = .ok holdings) :
    ({ sys with toHoldings := holdings } : System).pool = sys.pool.receive funds.val := by
  obtain ⟨ctoken, cash⟩ := holdings
  obtain ⟨rfl, hcash⟩ := Holdings.receive_eq_ok.mp h
  dsimp only at hcash
  simp only [pool, Pool.receive, hcash]

theorem credited_pendingRate (env : Env) (h : sys.receive funds = .ok holdings) :
    pendingRate env { sys with toHoldings := holdings } = pendingRate env sys := by
  obtain ⟨ctoken, cash⟩ := holdings
  obtain ⟨rfl, -⟩ := Holdings.receive_eq_ok.mp h
  rfl

theorem credited_settled (h : sys.receive funds = .ok holdings) :
    settled env { sys with toHoldings := holdings } = (settled env sys).receive funds.val := by
  rw [settled, settled, credited_pendingRate env h]
  cases pendingRate env sys with
  | none => exact credited_pool h
  | some rate =>
    simp only [Option.elim, settledPool, pendingReserve, claims, credited_pool h]
    rfl

end WyndLend.Market.System
