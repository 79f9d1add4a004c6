import WyndLend.Market.Books

/-!
# Solvency

The lenders' claims against cash and debt. A charge that adds the interest to the
ctokens and to the debt keeps them together up to truncation. A reserve does not:
the charge spreads the whole interest over the claims less the reserve and then
mints the reserve on top, so the claims grow by more than the debt.
-/

namespace WyndLend.Market

open CosmWasm Utils Rebasing

/-- Deposits, withdrawals, loans and the two calls of a liquidation. -/
def ExecuteMsg.lends (msg : ExecuteMsg) : Bool :=
  match msg.plain with
  | .deposit | .withdraw _ | .borrow _ | .repayTo _ | .transferFrom .. => true
  | _ => false

namespace System

variable {env : Env} {info : MessageInfo} {msg : ExecuteMsg} {init sys sys' mid : System}
  {entered : List Addr} {tx : Tx} {txs : List Tx}

/-- What truncation costs when the pending interest is charged. -/
def chargeLoss (env : Env) (sys : System) : ℚ :=
  match pendingRate env sys with
  | none => 0
  | some rate => (sys.pool.charged fractional rate.atomics.val : ℚ) / sys.claims +
      sys.pool.debt / fractional

/-- What truncation costs when points are taken off or written up for a payout. -/
def payoutLoss (p : Pool) : ExecuteMsg → ℚ
  | .withdraw _ => p.supplyMultiplier / fractional
  | .borrow _ => p.debtMultiplier / fractional
  | _ => 0

/-- The pending interest is too small for a reserve. -/
def NoReserve (env : Env) (sys : System) : Prop :=
  ∀ rate ∈ pendingRate env sys, sys.pendingReserve rate = 0

/-- A step that neither mints a reserve nor loses more than a unit to truncation. -/
def Backed (sys : System) (tx : Tx) : Prop :=
  match tx.action with
  | .execute _ msg => msg.lends = true ∧ NoReserve tx.env sys ∧
      chargeLoss tx.env sys + payoutLoss (settled tx.env sys) msg ≤ 1
  | .ctoken sender _ => sender ≠ sys.ctoken.controller
  | .donate _ => True

theorem payoutLoss_nonneg (p : Pool) (msg : ExecuteMsg) : 0 ≤ payoutLoss p msg := by
  unfold payoutLoss
  split <;> positivity

/-- Without a reserve a settlement costs the pool what truncation costs. -/
theorem settled_margin (hn : NoReserve env sys) (h : settle env sys = .ok mid) :
    sys.pool.margin fractional - chargeLoss env sys ≤ (settled env sys).margin fractional := by
  obtain ⟨-, hrate⟩ := settle_pool h
  unfold chargeLoss settled
  cases hp : pendingRate env sys with
  | none => simp
  | some rate =>
    have h0 := hn rate hp
    have hlt := (hrate rate hp).2
    have haccrue := sys.pool.margin_accrue fractional_pos rate.atomics.val
      (by rw [h0] at hlt; exact hlt)
    have hmint := (sys.pool.accrue fractional rate.atomics.val
      (sys.pool.charged fractional rate.atomics.val * fractional / sys.claims)).margin_mint
        fractional 0
    simp only [Option.elim, settledPool, h0, Nat.sub_zero]
    push_cast at hmint
    linarith

/-- A withdrawal costs the pool what the conversion drops, less than a ctoken is worth. -/
theorem apply_withdraw_margin {account : Addr} {amount : Uint128}
    (h : Op.apply mid (.withdraw account amount) = .ok sys') :
    sys'.pool.margin fractional =
        mid.pool.margin fractional - dropped fractional amount.val mid.pool.supplyMultiplier ∧
      dropped fractional amount.val mid.pool.supplyMultiplier <
        mid.pool.supplyMultiplier / fractional := by
  obtain ⟨hpos, hpoints, hcash, hpool⟩ := apply_withdraw h
  rw [hpool]
  exact ⟨mid.pool.margin_burn_pay fractional_pos hpoints hcash, dropped_lt fractional_pos _ hpos⟩

/-- A loan costs the pool what the conversion drops, at most what a debt point is worth. -/
theorem apply_borrow_margin {account : Addr} {amount : Uint128}
    (h : Op.apply mid (.borrow account amount) = .ok sys') :
    sys'.pool.margin fractional =
        mid.pool.margin fractional - dropped fractional amount.val mid.pool.debtMultiplier ∧
      dropped fractional amount.val mid.pool.debtMultiplier ≤
        mid.pool.debtMultiplier / fractional := by
  obtain ⟨hpos, hcash, hpool⟩ := apply_borrow h
  rw [hpool]
  refine ⟨mid.pool.margin_lend_pay fractional_pos hcash, ?_⟩
  rcases hpos with hpos | h0
  · exact (dropped_lt fractional_pos _ hpos).le
  · rw [h0, dropped_zero]
    positivity

/-- A message costs the pool the tokens it is credited for and the truncations. -/
theorem outcome_margin {funds : ℕ} (hl : msg.lends = true) (hn : NoReserve env sys)
    (h : Outcome env info sys msg sys' entered)
    (hf : ∀ coin, incoming info msg = .ok coin → coin.denom = sys.market.config.marketToken →
      coin.amount.val = funds) :
    sys.pool.margin fractional - funds -
        (chargeLoss env sys + payoutLoss (settled env sys) msg) ≤
      sys'.pool.margin fractional := by
  have hfunds : (0 : ℚ) ≤ funds := by positivity
  cases h with
  | deposit _ hc hd _ hs ha =>
    have hsettle := settled_margin hn hs
    have hloss := payoutLoss_nonneg (settled env sys) msg
    have hmint := (settled env sys).margin_mint fractional funds
    rw [apply_deposit ha, (settle_pool hs).1, hf _ hc hd]
    linarith
  | @withdraw amount _ _ _ hm _ _ hs ha =>
    obtain ⟨hpaid, hdropped⟩ := apply_withdraw_margin ha
    rw [(settle_pool hs).1] at hpaid hdropped
    have hsettle := settled_margin hn hs
    rw [hpaid, hm, payoutLoss]
    linarith
  | @borrow amount _ _ hm _ hs ha =>
    obtain ⟨hpaid, hdropped⟩ := apply_borrow_margin ha
    rw [(settle_pool hs).1] at hpaid hdropped
    have hsettle := settled_margin hn hs
    rw [hpaid, hm, payoutLoss]
    linarith
  | repay hm => exact absurd hl (by simp [ExecuteMsg.lends, hm])
  | repayTo _ _ hc hd _ _ hs ha =>
    have hsettle := settled_margin hn hs
    have hloss := payoutLoss_nonneg (settled env sys) msg
    have hredeem := (settled env sys).margin_redeem fractional funds
    rw [apply_repayTo ha, (settle_pool hs).1, hf _ hc hd]
    linarith
  | transferFrom _ _ hs _ _ _ ha =>
    have hsettle := settled_margin hn hs
    have hloss := payoutLoss_nonneg (settled env sys) msg
    rw [apply_transferFrom ha, (settle_pool hs).1]
    linarith
  | adjust hadj => cases hadj <;> exact absurd hl (by simp [ExecuteMsg.lends, ExecuteMsg.plain])
  | rates hm => exact absurd hl (by simp [ExecuteMsg.lends, ExecuteMsg.plain, hm])
  | send hm => exact absurd hl (by simp [ExecuteMsg.lends, ExecuteMsg.plain, hm])
  | swap hm => exact absurd hl (by simp [ExecuteMsg.lends, ExecuteMsg.plain, hm])

/-- A backed step lowers the margin by at most one base token. -/
theorem step_margin (hg : Backed sys tx) (h : step tx sys = .ok sys') :
    sys.pool.margin fractional - 1 ≤ sys'.pool.margin fractional := by
  obtain ⟨env, action⟩ := tx
  cases action with
  | execute info msg =>
    simp only [step, bind_eq_ok, pure_eq_ok] at h
    obtain ⟨⟨_, entered⟩, h, rfl⟩ := h
    obtain ⟨funds, holdings, hfunds, hcredit, hout⟩ := execute_outcome h
    obtain ⟨hl, hn, hloss⟩ := hg
    have hpool := credited_pool hcredit
    have hrate := credited_pendingRate env hcredit
    have hn : NoReserve env { sys with toHoldings := holdings } := by
      unfold NoReserve pendingReserve
      rw [hrate, hpool]
      exact hn
    have hmargin := outcome_margin hl hn hout fun coin hc hd => (received_eq hc hd hfunds).symm
    have hcharge : chargeLoss env { sys with toHoldings := holdings } = chargeLoss env sys := by
      unfold chargeLoss claims
      rw [hrate, hpool]
      rfl
    have hpayout : payoutLoss (settled env { sys with toHoldings := holdings }) msg =
        payoutLoss (settled env sys) msg := by
      rw [credited_settled hcredit]
      rfl
    rw [hcharge, hpayout, hpool, Pool.margin_receive] at hmargin
    linarith
  | ctoken sender msg =>
    rw [executeCtoken_pool h hg]
    linarith
  | donate amount =>
    rw [donate_pool h, Pool.margin_receive]
    have : (0 : ℚ) ≤ amount.val := by positivity
    linarith

theorem instantiate_pool {sender address ctokenContract : Addr} {time : ℕ} {m : InstantiateMsg}
    (h : instantiate sender address ctokenContract time m = .ok init) :
    init.pool.supply = 0 ∧ init.pool.debt = 0 ∧ init.pool.cash = 0 := by
  simp only [instantiate, Market.instantiate, bind_eq_ok, mapError_eq_ok, ensure_eq_ok,
    pure_eq_ok] at h
  obtain ⟨_, ⟨_, _, -, -, rfl⟩, rfl⟩ := h
  exact ⟨rfl, rfl, rfl⟩

/-- Solvency: in a run from instantiation whose steps mint no reserve and lose at most a
unit each to truncation, the lenders' claims exceed cash and debt by at most one base
token for every transaction. What one more such charge adds to the claims is, in exact
terms, at most one base token more than what it adds to the debt. -/
theorem claims_le_assets {sender address ctokenContract : Addr} {time : ℕ} {m : InstantiateMsg}
    (hi : instantiate sender address ctokenContract time m = .ok init)
    (h : Run step Backed init txs sys) :
    sys.claims ≤ sys.cash.val + sys.owed + txs.length ∧
    ∀ env mid, NoReserve env sys → chargeLoss env sys ≤ 1 → settle env sys = .ok mid →
      value fractional mid.pool.supply mid.pool.supplyMultiplier -
          value fractional sys.pool.supply sys.pool.supplyMultiplier ≤
        value fractional mid.pool.debt mid.pool.debtMultiplier -
          value fractional sys.pool.debt sys.pool.debtMultiplier + 1 := by
  obtain ⟨hsupply, hdebt, hcash⟩ := instantiate_pool hi
  have hmargin : -(txs.length : ℚ) ≤ sys.pool.margin fractional := by
    refine h.invariant_list (I := fun txs sys => -(txs.length : ℚ) ≤ sys.pool.margin fractional)
      ?_ ?_
    · simp [Pool.margin, value, hsupply, hdebt, hcash]
    · intro is u tx v hu hg hs
      have := step_margin hg hs
      rw [List.length_append, List.length_singleton]
      push_cast
      linarith
  refine ⟨Pool.claims_le_of_margin _ hmargin, ?_⟩
  intro env mid hn hloss hs
  obtain ⟨n, u, -, -, hmid, -⟩ := settle_spec hs
  have hcash : mid.pool.cash = sys.pool.cash := by rw [hmid]; rfl
  have hcharge := settled_margin hn hs
  rw [← (settle_pool hs).1] at hcharge
  unfold Pool.margin at hcharge
  rw [hcash] at hcharge
  linarith

instance (sys : System) : DecidablePred (Backed sys) := fun tx =>
  match tx with
  | ⟨_, .execute _ _⟩ => inferInstanceAs (Decidable (_ ∧ (∀ _ ∈ _, _) ∧ _))
  | ⟨_, .ctoken _ _⟩ => inferInstanceAs (Decidable (_ ≠ _))
  | ⟨_, .donate _⟩ => inferInstanceAs (Decidable True)

/-- Without a reserve a year's interest reaches the lenders and no more: Bob borrows half
of what was deposited, and a year later the lender withdraws a part. -/
theorem claims_le_assets_example : ∃ init sys,
    instantiate "agency" "market" "ctoken" 0 { sampleMsg with reserveFactor := Decimal.zero } =
      .ok init ∧
    Run step Backed init [sampleTx 0 "lender" 2000 .deposit, sampleTx 0 "bob" 0 (.borrow 1000),
      sampleTx 31_536_000 "lender" 0 (.withdraw 500)] sys ∧
    sys.claims ≤ sys.cash.val + sys.owed + 3 := by
  obtain ⟨init, sys, hi, h, -⟩ : ∃ init sys,
      instantiate "agency" "market" "ctoken" 0 { sampleMsg with reserveFactor := Decimal.zero } =
        .ok init ∧
      Run step Backed init [sampleTx 0 "lender" 2000 .deposit, sampleTx 0 "bob" 0 (.borrow 1000),
        sampleTx 31_536_000 "lender" 0 (.withdraw 500)] sys ∧ True :=
    exists_run_of_start (by decide +kernel)
  exact ⟨init, sys, hi, h, (claims_le_assets hi h).1⟩

/-- With a fifth of the interest as reserve, a year on half of the deposits leaves the
lenders claims of 2245 against assets of 2201: the debt grew by 200, but the ctokens by
the whole 200 over 1960 base tokens, and the reserve of 40 was minted on top. -/
theorem reserve_breaks_solvency : ∃ init sys, sample = .ok init ∧ Run step Ordered init
    [sampleTx 0 "lender" 2000 .deposit, sampleTx 0 "bob" 0 (.borrow 1000),
      sampleTx 31_536_000 "lender" 1 .deposit] sys ∧
    ¬ sys.claims ≤ sys.cash.val + sys.owed + 3 :=
  exists_run_of_start (by decide)

end System

end WyndLend.Market
