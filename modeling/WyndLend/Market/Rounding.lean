import WyndLend.Market.Solvency

/-!
# Which way payouts round

All four operations convert base tokens to points by the same truncated division. A
deposit gets no more points than it pays for and a repayment clears no more than it pays,
so these two round for the pool. A withdrawal burns no more than it takes and a loan is
charged no more than it pays out, so these two round against it, by what the conversion
drops.
-/

namespace WyndLend.Market

open CosmWasm Utils Rebasing

/-- `Deposit`, `Withdraw`, `Borrow` and `RepayTo`. -/
def ExecuteMsg.moves (msg : ExecuteMsg) : Bool :=
  match msg.plain with
  | .deposit | .withdraw _ | .borrow _ | .repayTo _ => true
  | _ => false

namespace System

variable {env : Env} {info : MessageInfo} {msg : ExecuteMsg} {start sys sys' mid : System}
  {entered : List Addr} {tx : Tx} {txs : List Tx} {funds : Uint128}

/-- What the conversion of a payout drops. -/
def payoutDropped (p : Pool) : ExecuteMsg → ℚ
  | .withdraw amount => dropped fractional amount.val p.supplyMultiplier
  | .borrow amount => dropped fractional amount.val p.debtMultiplier
  | _ => 0

/-- How a message may change the margin when nothing is pending: a payout costs what is
dropped, which is less than one ctoken or at most one debt point is worth, and tokens that
come with it are a gift; the other messages cost nothing. -/
def MarginChange (p p' : Pool) (funds : ℕ) : ExecuteMsg → Prop
  | .withdraw amount =>
    p'.margin fractional =
        p.margin fractional + funds - dropped fractional amount.val p.supplyMultiplier ∧
      dropped fractional amount.val p.supplyMultiplier < p.supplyMultiplier / fractional
  | .borrow amount =>
    p'.margin fractional =
        p.margin fractional + funds - dropped fractional amount.val p.debtMultiplier ∧
      dropped fractional amount.val p.debtMultiplier ≤ p.debtMultiplier / fractional
  | _ => p.margin fractional ≤ p'.margin fractional

/-- What a message does to the books when nothing is pending. -/
structure Moved (p p' : Pool) (msg : ExecuteMsg) (funds : ℕ) : Prop where
  supplyMultiplier : p'.supplyMultiplier = p.supplyMultiplier
  debtMultiplier : p'.debtMultiplier = p.debtMultiplier
  margin : MarginChange p p' funds msg

theorem marginChange_of_le {p p' : Pool} {funds : ℕ}
    (h : p.margin fractional ≤ p'.margin fractional) (hw : ∀ amount, msg ≠ .withdraw amount)
    (hb : ∀ amount, msg ≠ .borrow amount) : MarginChange p p' funds msg := by
  unfold MarginChange
  split
  · exact absurd rfl (hw _)
  · exact absurd rfl (hb _)
  · exact h

theorem outcome_moved {holdings : Holdings}
    (hidle : epochsPassed sys.market.config env.time = .ok 0) (hm : msg.moves = true)
    (hf : received sys.market.config.marketToken info msg = .ok funds)
    (hr : sys.receive funds = .ok holdings)
    (h : Outcome env info { sys with toHoldings := holdings } msg sys' entered) :
    Moved sys.pool sys'.pool msg funds.val := by
  have hmid : ∀ {mid}, settle env { sys with toHoldings := holdings } = .ok mid →
      mid.pool = sys.pool.receive funds.val := by
    intro mid hs
    rw [(settle_pool hs).1, credited_settled hr, settled_idle hidle]
  cases h with
  | deposit hplain hc hd _ hs ha =>
    rw [apply_deposit ha, hmid hs, ← received_eq hc hd hf]
    refine ⟨rfl, rfl, marginChange_of_le ?_ ?_ ?_⟩
    · have hmint := (sys.pool.receive funds.val).margin_mint fractional funds.val
      rw [Pool.margin_receive] at hmint
      linarith
    · rintro amount rfl
      cases hplain
    · rintro amount rfl
      cases hplain
  | @withdraw amount _ _ _ hplain _ _ hs ha =>
    obtain ⟨-, -, -, hpool⟩ := apply_withdraw ha
    obtain ⟨hmargin, hlt⟩ := apply_withdraw_margin ha
    rw [hmid hs] at hpool hmargin hlt
    rw [Pool.margin_receive] at hmargin
    subst hplain
    exact ⟨by rw [hpool]; rfl, by rw [hpool]; rfl, hmargin, hlt⟩
  | @borrow amount _ _ hplain _ hs ha =>
    obtain ⟨-, -, hpool⟩ := apply_borrow ha
    obtain ⟨hmargin, hle⟩ := apply_borrow_margin ha
    rw [hmid hs] at hpool hmargin hle
    rw [Pool.margin_receive] at hmargin
    subst hplain
    exact ⟨by rw [hpool]; rfl, by rw [hpool]; rfl, hmargin, hle⟩
  | repayTo hplain _ hc hd _ _ hs ha =>
    rw [apply_repayTo ha, hmid hs, ← received_eq hc hd hf]
    refine ⟨rfl, rfl, marginChange_of_le ?_ ?_ ?_⟩
    · have hredeem := (sys.pool.receive funds.val).margin_redeem fractional funds.val
      rw [Pool.margin_receive] at hredeem
      linarith
    · rintro amount rfl
      cases hplain
    · rintro amount rfl
      cases hplain
  | _ => grind [ExecuteMsg.moves, ExecuteMsg.plain]

theorem execute_moved (hidle : epochsPassed sys.market.config env.time = .ok 0)
    (hm : msg.moves = true) (h : execute env info msg sys = .ok (sys', entered)) :
    ∃ funds, received sys.market.config.marketToken info msg = .ok funds ∧
      Moved sys.pool sys'.pool msg funds.val := by
  obtain ⟨funds, holdings, hf, hr, hout⟩ := execute_outcome h
  exact ⟨funds, hf, outcome_moved hidle hm hf hr hout⟩

/-! ## Inside one period -/

/-- One of the four operations, with nothing pending. -/
def InPeriod (sys : System) (tx : Tx) : Prop :=
  match tx.action with
  | .execute _ msg => msg.moves = true ∧ epochsPassed sys.market.config tx.env.time = .ok 0
  | _ => False

/-- What a transaction may cost the pool. -/
def txDropped (p : Pool) (tx : Tx) : ℚ :=
  match tx.action with
  | .execute _ msg => payoutDropped p msg
  | _ => 0

theorem payoutDropped_congr {p p' : Pool} (hs : p'.supplyMultiplier = p.supplyMultiplier)
    (hd : p'.debtMultiplier = p.debtMultiplier) (msg : ExecuteMsg) :
    payoutDropped p' msg = payoutDropped p msg := by
  cases msg <;> simp only [payoutDropped, hs, hd]

/-- A message lowers the margin by no more than it drops. -/
theorem MarginChange.le {p p' : Pool} {funds : ℕ} (h : MarginChange p p' funds msg) :
    p.margin fractional - payoutDropped p msg ≤ p'.margin fractional := by
  have hfunds : (0 : ℚ) ≤ funds := by positivity
  unfold MarginChange at h
  unfold payoutDropped
  split at h
  · linarith
  · linarith
  · linarith

/-- A step lowers the margin by no more than it drops, and keeps the multipliers. -/
theorem step_moved (hg : InPeriod sys tx) (h : step tx sys = .ok sys') :
    sys'.pool.supplyMultiplier = sys.pool.supplyMultiplier ∧
    sys'.pool.debtMultiplier = sys.pool.debtMultiplier ∧
    sys.pool.margin fractional - txDropped sys.pool tx ≤ sys'.pool.margin fractional := by
  obtain ⟨env, action⟩ := tx
  cases action with
  | execute info msg =>
    simp only [step, bind_eq_ok, pure_eq_ok] at h
    obtain ⟨⟨_, entered⟩, h, rfl⟩ := h
    obtain ⟨funds, -, hmoved⟩ := execute_moved hg.2 hg.1 h
    refine ⟨hmoved.supplyMultiplier, hmoved.debtMultiplier, ?_⟩
    exact hmoved.margin.le
  | ctoken => cases hg
  | donate => cases hg

/-- Inside a period the margin falls by no more than what the payouts drop. -/
theorem run_moved (h : Run step InPeriod start txs sys) :
    start.pool.margin fractional - (txs.map (txDropped start.pool)).sum ≤
      sys.pool.margin fractional := by
  have hrun := h.invariant_list
    (I := fun txs u => u.pool.supplyMultiplier = start.pool.supplyMultiplier ∧
      u.pool.debtMultiplier = start.pool.debtMultiplier ∧
      start.pool.margin fractional - (txs.map (txDropped start.pool)).sum ≤
        u.pool.margin fractional)
    ⟨rfl, rfl, by simp⟩ ?_
  · exact hrun.2.2
  · intro is u tx v ⟨hs, hd, hle⟩ hg hstep
    obtain ⟨hs', hd', hle'⟩ := step_moved hg hstep
    have hsame : txDropped u.pool tx = txDropped start.pool tx := by
      unfold txDropped
      split
      · exact payoutDropped_congr hs hd _
      · rfl
    refine ⟨hs'.trans hs, hd'.trans hd, ?_⟩
    rw [List.map_append, List.sum_append, List.map_singleton, List.sum_singleton]
    rw [hsame] at hle'
    linarith

/-- With nothing pending, a deposit or a repayment of the credit agency never lowers the
margin, and a withdrawal or a loan lowers it by exactly what its conversion to points drops,
which is less than one ctoken or at most one debt point is worth. A sequence of such
operations inside a period lowers it by no more than the payouts drop in all. -/
theorem margin_inside_period (sys : System) :
    (∀ (env : Env) (info : MessageInfo) (msg : ExecuteMsg) (sys' : System) (entered : List Addr),
      epochsPassed sys.market.config env.time = .ok 0 → msg.moves = true →
      execute env info msg sys = .ok (sys', entered) →
      ∃ funds, received sys.market.config.marketToken info msg = .ok funds ∧
        Moved sys.pool sys'.pool msg funds.val) ∧
    ∀ (txs : List Tx) (sys' : System), Run step InPeriod sys txs sys' →
      sys.pool.margin fractional - (txs.map (txDropped sys.pool)).sum ≤
        sys'.pool.margin fractional :=
  ⟨fun _ _ _ _ _ hidle hm h => execute_moved hidle hm h, fun _ _ h => run_moved h⟩

instance (sys : System) : DecidablePred (InPeriod sys) := fun tx =>
  match tx with
  | ⟨env, .execute _ msg⟩ => decidable_of_iff
      (msg.moves = true ∧ (epochsPassed sys.market.config env.time).toOption = some 0)
      (by rw [toOption_eq_some]; rfl)
  | ⟨_, .ctoken _ _⟩ => .isFalse id
  | ⟨_, .donate _⟩ => .isFalse id

/-- The sample market after a year, with the year charged by a deposit. -/
def yearTxs : List Tx :=
  [sampleTx 0 "lender" 2000 .deposit, sampleTx 0 "bob" 0 (.borrow 1000),
    sampleTx 31_536_000 "carol" 10 .deposit]

/-- In the block in which the year was charged, two payouts. -/
theorem margin_inside_period_example : ∃ init sys sys', sample = .ok init ∧
    Run step Ordered init yearTxs sys ∧
    Run step InPeriod sys [sampleTx 31_536_000 "lender" 0 (.withdraw 7),
      sampleTx 31_536_000 "bob" 0 (.borrow 3)] sys' ∧
    sys.pool.margin fractional - ([sampleTx 31_536_000 "lender" 0 (.withdraw 7),
      sampleTx 31_536_000 "bob" 0 (.borrow 3)].map (txDropped sys.pool)).sum ≤
        sys'.pool.margin fractional := by
  obtain ⟨init, sys, hi, h, h'⟩ : ∃ init sys, sample = .ok init ∧
      Run step Ordered init yearTxs sys ∧
      (runAll step InPeriod [sampleTx 31_536_000 "lender" 0 (.withdraw 7),
        sampleTx 31_536_000 "bob" 0 (.borrow 3)] sys).isSome = true :=
    exists_run_of_start (by decide)
  obtain ⟨sys', h'⟩ := Option.isSome_iff_exists.mp h'
  have hrun := run_of_runAll h'
  exact ⟨init, sys, sys', hi, h, hrun, (margin_inside_period sys).2 _ _ hrun⟩

/-- A withdrawal of 7 tokens burns ctokens that are worth a little less. -/
theorem withdraw_lowers_margin : ∃ init sys sys', sample = .ok init ∧
    Run step Ordered init yearTxs sys ∧
    epochsPassed sys.market.config 31_536_000 = .ok 0 ∧
    step (sampleTx 31_536_000 "lender" 0 (.withdraw 7)) sys = .ok sys' ∧
    ¬ sys.pool.margin fractional ≤ sys'.pool.margin fractional := by
  obtain ⟨init, sys, hi, h, hidle, hs⟩ : ∃ init sys, sample = .ok init ∧
      Run step Ordered init yearTxs sys ∧
      (epochsPassed sys.market.config 31_536_000).toOption = some 0 ∧
      (step (sampleTx 31_536_000 "lender" 0 (.withdraw 7)) sys).toOption.any (fun sys' =>
        decide (¬ sys.pool.margin fractional ≤ sys'.pool.margin fractional)) = true :=
    exists_run_of_start (by decide +kernel)
  obtain ⟨sys', hs, hlower⟩ := exists_ok_of_any hs
  exact ⟨init, sys, sys', hi, h, toOption_eq_some.mp hidle, hs, hlower⟩

end System

end WyndLend.Market
