import WyndLend.Ctoken.Supply
import WyndLend.Market.Clock

/-!
# Settlements

What a settlement does to the two ledgers, and which messages change what
interest is calculated from without settling first: burning ctokens for a swap,
and changing the reserve factor. Changing the curve settles, but as it puts the clock
back the same periods are charged again. As long as none of these comes while a period is
pending, every change is preceded by a settlement with the terms in force.
-/

namespace WyndLend.Market

open CosmWasm Utils

/-! ## Calls of the ctoken contract -/

namespace Holdings

variable {h h' : Holdings} {caller contract account recipient : Addr} {amount : Uint128}

/-- A call of a handler that sends no messages. -/
theorem callCtoken_of {msg : Ctoken.ExecuteMsg} {handler : Except Ctoken.Error Ctoken.State}
    (hm : Ctoken.execute silent contract caller msg h.ctoken =
      (do return (← handler, []))) :
    h.callCtoken caller contract msg = .ok h' ↔
      ∃ ct, handler = .ok ct ∧ { h with ctoken := ct } = h' := by
  simp only [callCtoken, hm, bind_eq_ok, mapError_eq_ok, pure_eq_ok]
  constructor
  · rintro ⟨_, ⟨ct, hc, rfl⟩, rfl⟩
    exact ⟨ct, hc, rfl⟩
  · rintro ⟨ct, hc, rfl⟩
    exact ⟨(ct, []), ⟨ct, hc, rfl⟩, rfl⟩

@[simp] theorem callCtoken_rebase {ratio : Decimal} :
    h.callCtoken caller contract (.rebase ratio) = .ok h' ↔
      ∃ ct, Ctoken.rebase caller h.ctoken ratio = .ok ct ∧ { h with ctoken := ct } = h' :=
  callCtoken_of rfl

@[simp] theorem callCtoken_mintBase :
    h.callCtoken caller contract (.mintBase account amount) = .ok h' ↔
      ∃ ct, Ctoken.mintBase caller h.ctoken account amount = .ok ct ∧
        { h with ctoken := ct } = h' :=
  callCtoken_of rfl

@[simp] theorem callCtoken_burnFrom :
    h.callCtoken caller contract (.burnFrom account amount) = .ok h' ↔
      ∃ ct, Ctoken.burnFrom caller h.ctoken account amount = .ok ct ∧
        { h with ctoken := ct } = h' :=
  callCtoken_of rfl

@[simp] theorem callCtoken_burnBaseFrom :
    h.callCtoken caller contract (.burnBaseFrom account amount) = .ok h' ↔
      ∃ ct, Ctoken.burnBaseFrom caller h.ctoken account amount = .ok ct ∧
        { h with ctoken := ct } = h' :=
  callCtoken_of rfl

@[simp] theorem callCtoken_transferBaseFrom :
    h.callCtoken caller contract (.transferBaseFrom account recipient amount) = .ok h' ↔
      ∃ ct, Ctoken.transferBaseFrom caller h.ctoken account recipient amount = .ok ct ∧
        { h with ctoken := ct } = h' :=
  callCtoken_of rfl

@[simp] theorem pay_eq_ok : h.pay amount = .ok h' ↔
    h'.ctoken = h.ctoken ∧ h'.cash.val + amount.val = h.cash.val := by
  obtain ⟨ctoken, cash⟩ := h'
  simp only [pay, bind_eq_ok, ensure_eq_ok, Uint128.sub_eq_ok, pure_eq_ok]
  constructor
  · rintro ⟨-, -, c, hc, he⟩
    cases he
    exact ⟨rfl, hc⟩
  · rintro ⟨rfl, hc⟩
    exact ⟨(), Nat.le.intro ((Nat.add_comm _ _).trans hc), cash, hc, rfl⟩

@[simp] theorem receive_eq_ok : h.receive amount = .ok h' ↔
    h'.ctoken = h.ctoken ∧ h'.cash.val = h.cash.val + amount.val := by
  obtain ⟨ctoken, cash⟩ := h'
  simp only [receive, bind_eq_ok, Uint128.add_eq_ok, pure_eq_ok]
  constructor
  · rintro ⟨c, hc, he⟩
    cases he
    exact ⟨rfl, hc⟩
  · rintro ⟨rfl, hc⟩
    exact ⟨cash, hc, rfl⟩

end Holdings

/-! ## What a settlement does -/

namespace System

variable {env : Env} {info : MessageInfo} {msg : ExecuteMsg} {init sys sys' mid : System}
  {entered : List Addr} {txs : List Tx}

/-- Both ledgers after an update: they are rebased, and the reserve is minted at the
new multiplier. -/
structure Accrued (sys mid : System) (u : InterestUpdate) : Prop where
  debt : ∃ ratio : Decimal, ratio.atomics.val = u.debtRatio.atomics.val + fractional ∧
    Debt.rebase sys.market.debt ratio = .ok mid.market.debt
  ctoken : ∃ ratio : Decimal, ∃ ct, ratio.atomics.val = u.ctokenRatio.atomics.val + fractional ∧
    Ctoken.rebase sys.address sys.ctoken ratio = .ok ct ∧
    if u.reserve = 0 then mid.ctoken = ct
    else Ctoken.mintBase sys.address ct sys.market.config.governanceContract u.reserve =
      .ok mid.ctoken

theorem settle_spec (h : settle env sys = .ok mid) :
    ∃ n u, epochsPassed sys.market.config env.time = .ok n ∧
      calculateInterest sys.market sys.ctoken n = .ok u ∧
      mid = { sys with
        ctoken := mid.ctoken
        market := { sys.market.advance n with debt := mid.market.debt }
        time := env.time } ∧
      match u with
      | none => mid.market.debt = sys.market.debt ∧ mid.ctoken = sys.ctoken
      | some u => Accrued sys mid u := by
  obtain ⟨market, charge, holdings, hch, hd, rfl⟩ := settle_eq_ok.mp h
  obtain ⟨n, u, hn, hu, hs, hcase⟩ := chargeInterest_spec hch
  refine ⟨n, u, hn, hu, ?_⟩
  cases u with
  | none =>
    rw [hcase.2, deliverAll_nil] at hd
    subst hd
    exact ⟨by rw [hs], hcase.1, rfl⟩
  | some u =>
    rw [hcase.messages] at hd
    simp only [deliverAll_cons, deliver, Holdings.callCtoken_rebase] at hd
    obtain ⟨_, ⟨ct, hct, rfl⟩, hd⟩ := hd
    have hmint : holdings.cash = sys.cash ∧
        if u.reserve = 0 then holdings.ctoken = ct
        else Ctoken.mintBase sys.address ct sys.market.config.governanceContract u.reserve =
          .ok holdings.ctoken := by
      unfold mintReserve at hd
      split_ifs at hd ⊢ with h0
      · cases deliverAll_nil.mp hd
        exact ⟨rfl, rfl⟩
      · simp only [deliverAll_cons, deliverAll_nil, deliver, Holdings.callCtoken_mintBase] at hd
        obtain ⟨_, ⟨ct', hct', rfl⟩, rfl⟩ := hd
        exact ⟨rfl, hct'⟩
    obtain ⟨ctoken, cash⟩ := holdings
    obtain ⟨rfl, hmint⟩ := hmint
    exact ⟨by rw [hs], ⟨_, hcase.debtRatio, hcase.debt⟩,
      ⟨_, ct, hcase.ctokenRatio, hct, hmint⟩⟩

/-! ## What an operation does -/

/-- An operation with the call of the ctoken contract, the change of the debt and the payment
that it makes. -/
inductive Applied (mid : System) : Op → System → Prop where
  | deposit {account amount ct}
    (minted : Ctoken.mintBase mid.address mid.ctoken account amount = .ok ct) :
    Applied mid (.deposit account amount) { mid with ctoken := ct }
  | withdraw {account amount ct cash}
    (burned : Ctoken.burnBaseFrom mid.address mid.ctoken account amount = .ok ct)
    (paid : cash.val + amount.val = mid.cash.val) :
    Applied mid (.withdraw account amount) { mid with ctoken := ct, cash }
  | borrow {account amount debt cash}
    (increased : Debt.increase mid.market.debt account amount = .ok debt)
    (paid : cash.val + amount.val = mid.cash.val) :
    Applied mid (.borrow account amount) { mid with cash, market := { mid.market with debt } }
  | repay {account amount debt back cash}
    (decreased : Debt.decrease mid.market.debt account amount = .ok (debt, back))
    (paid : cash.val + back.val = mid.cash.val) :
    Applied mid (.repay account amount) { mid with cash, market := { mid.market with debt } }
  | repayTo {account amount debt back}
    (decreased : Debt.decrease mid.market.debt account amount = .ok (debt, back)) :
    Applied mid (.repayTo account amount) { mid with market := { mid.market with debt } }
  | transferFrom {source destination amount ct} (moved :
      Ctoken.transferBaseFrom mid.address mid.ctoken source destination amount = .ok ct) :
    Applied mid (.transferFrom source destination amount) { mid with ctoken := ct }

theorem applied_of_apply {op : Op} (h : op.apply mid = .ok sys') : Applied mid op sys' := by
  cases op <;> simp only [Op.apply, callCtoken, bind_eq_ok, mapError_eq_ok, pure_eq_ok,
    Holdings.callCtoken_mintBase, Holdings.callCtoken_burnBaseFrom,
    Holdings.callCtoken_transferBaseFrom, Holdings.pay_eq_ok] at h
  case deposit =>
    obtain ⟨_, ⟨ct, hct, rfl⟩, rfl⟩ := h
    exact .deposit hct
  case withdraw =>
    obtain ⟨_, ⟨ct, hct, rfl⟩, ⟨_, cash⟩, ⟨rfl, hcash⟩, rfl⟩ := h
    exact .withdraw hct hcash
  case borrow =>
    obtain ⟨debt, hdebt, ⟨_, cash⟩, ⟨rfl, hcash⟩, rfl⟩ := h
    exact .borrow hdebt hcash
  case repay =>
    obtain ⟨⟨debt, back⟩, hdebt, ⟨_, cash⟩, ⟨rfl, hcash⟩, rfl⟩ := h
    exact .repay hdebt hcash
  case repayTo =>
    obtain ⟨⟨debt, back⟩, hdebt, rfl⟩ := h
    exact .repayTo hdebt
  case transferFrom =>
    obtain ⟨_, ⟨ct, hct, rfl⟩, rfl⟩ := h
    exact .transferFrom hct

/-- No operation touches a multiplier. -/
theorem apply_multipliers {op : Op} (h : op.apply mid = .ok sys') :
    sys'.market.debt.info.multiplier = mid.market.debt.info.multiplier ∧
      sys'.ctoken.multiplier = mid.ctoken.multiplier := by
  cases applied_of_apply h with
  | deposit minted =>
    obtain ⟨_, -, hmint⟩ := Ctoken.mintBase_spec minted
    obtain ⟨-, -, b, t, w, -, -, rfl⟩ := Ctoken.mint_spec hmint
    exact ⟨rfl, rfl⟩
  | withdraw burned _ =>
    obtain ⟨_, -, hburn⟩ := Ctoken.burnBaseFrom_spec burned
    obtain ⟨-, -, b, t, w, -, -, rfl⟩ := Ctoken.burnFrom_spec hburn
    exact ⟨rfl, rfl⟩
  | borrow increased _ =>
    refine ⟨?_, rfl⟩
    obtain ⟨-, rfl⟩ | ⟨_, _, _, -, -, -, rfl⟩ := Debt.increase_spec increased <;> rfl
  | repay decreased _ | repayTo decreased =>
    refine ⟨?_, rfl⟩
    obtain ⟨-, rfl, -⟩ | ⟨_, _, _, -, -, -, rfl⟩ := Debt.decrease_spec decreased <;> rfl
  | transferFrom moved =>
    obtain ⟨-, _, -, htransfer⟩ := Ctoken.transferBaseFrom_spec moved
    obtain ⟨-, b, b', w, -, -, rfl⟩ := Ctoken.transferTokens_spec htransfer
    exact ⟨rfl, rfl⟩

/-! ## What a settlement charges -/

/-- A multiplier grew by a ratio. -/
def GrownBy (old new ratio : Decimal) : Prop :=
  new.atomics.val = old.atomics.val * (ratio.atomics.val + fractional) / fractional

/-- `n` epochs were charged, by the ratios of the update `u`. -/
def ChargedBy (sys sys' : System) (n : ℕ) (u : Option InterestUpdate) : Prop :=
  sys'.market.charged = sys.market.charged + n ∧
    match u with
    | none => sys'.market.debt.info.multiplier = sys.market.debt.info.multiplier ∧
        sys'.ctoken.multiplier = sys.ctoken.multiplier
    | some u =>
        GrownBy sys.market.debt.info.multiplier sys'.market.debt.info.multiplier u.debtRatio ∧
        GrownBy sys.ctoken.multiplier sys'.ctoken.multiplier u.ctokenRatio

/-- All elapsed epochs were charged, by the ratios that the system before gives. -/
def ChargesElapsed (env : Env) (sys sys' : System) : Prop :=
  ∃ n u, epochsPassed sys.market.config env.time = .ok n ∧
    calculateInterest sys.market sys.ctoken n = .ok u ∧ ChargedBy sys sys' n u

theorem accrued_grown {u : InterestUpdate} (h : Accrued sys mid u) :
    GrownBy sys.market.debt.info.multiplier mid.market.debt.info.multiplier u.debtRatio ∧
      GrownBy sys.ctoken.multiplier mid.ctoken.multiplier u.ctokenRatio := by
  obtain ⟨⟨dr, hdr, hdebt⟩, cr, ct, hcr, hrebase, hmint⟩ := h
  obtain ⟨dm, hdm, hdebt⟩ := Debt.rebase_spec hdebt
  obtain ⟨-, cm, hcm, rfl⟩ := Ctoken.rebase_spec hrebase
  refine ⟨by rw [GrownBy, hdebt, ← hdr]; exact hdm, ?_⟩
  rw [GrownBy, ← hcr]
  split_ifs at hmint with h0
  · rw [hmint]
    exact hcm
  · obtain ⟨_, -, hmint⟩ := Ctoken.mintBase_spec hmint
    obtain ⟨-, -, b, t, w, -, -, hmint⟩ := Ctoken.mint_spec hmint
    rw [hmint]
    exact hcm

variable {holdings : Holdings}

/-- A settlement of the system with the tokens of the message credited, followed by
anything that keeps the multipliers and the clock. -/
theorem charges_of_settle (hh : holdings.ctoken = sys.ctoken)
    (hs : settle env { sys with toHoldings := holdings } = .ok mid)
    (hcharged : sys'.market.charged = mid.market.charged)
    (hdebt : sys'.market.debt.info.multiplier = mid.market.debt.info.multiplier)
    (hctoken : sys'.ctoken.multiplier = mid.ctoken.multiplier) : ChargesElapsed env sys sys' := by
  obtain ⟨n, u, hn, hu, hmid, hcase⟩ := settle_spec hs
  refine ⟨n, u, hn, hh ▸ hu, by rw [hcharged, hmid]; rfl, ?_⟩
  rw [hdebt, hctoken]
  cases u with
  | none =>
    rw [hcase.1, hcase.2, hh]
    exact ⟨rfl, rfl⟩
  | some u =>
    have hgrown := accrued_grown hcase
    rw [hh] at hgrown
    exact hgrown

/-- An operation on the settled system. -/
theorem charges_of_apply {op : Op} (hh : holdings.ctoken = sys.ctoken)
    (hs : settle env { sys with toHoldings := holdings } = .ok mid) (ha : op.apply mid = .ok sys') :
    ChargesElapsed env sys sys' :=
  charges_of_settle hh hs (apply_frame ha).2.1 (apply_multipliers ha).1
    (apply_multipliers ha).2

/-- Nothing is pending, and nothing is charged. -/
theorem charges_of_idle (hn : epochsPassed sys.market.config env.time = .ok 0)
    (hcharged : sys'.market.charged = sys.market.charged)
    (hdebt : sys'.market.debt.info.multiplier = sys.market.debt.info.multiplier)
    (hctoken : sys'.ctoken.multiplier = sys.ctoken.multiplier) : ChargesElapsed env sys sys' :=
  ⟨0, none, hn, rfl, hcharged, hdebt, hctoken⟩

/-! ## Interest is settled before what it depends on changes -/

/-- What interest is calculated from, and the claim of each borrower. -/
structure Terms where
  totalSupply : Uint128
  totalPoints : Uint128
  points : Addr → Uint128
  rates : ValidatedInterest
  reserveFactor : Decimal

def terms (sys : System) : Terms where
  totalSupply := sys.ctoken.totalSupply
  totalPoints := sys.market.debt.info.totalPoints
  points := sys.market.debt.points
  rates := sys.market.config.rates
  reserveFactor := sys.market.config.reserveFactor

/-- The message changed the ctoken supply, the debt points, the curve or the reserve
factor. -/
def Changes (sys sys' : System) : Prop := sys'.terms ≠ sys.terms

/-- When the next charge period will have elapsed. -/
def deadline (sys : System) : ℕ :=
  sys.market.config.lastCharged + sys.market.config.interestChargePeriod

/-- All elapsed epochs were charged for good, by the ratios that the market gave at every
moment since the first of them elapsed; its terms were those of the last moment. -/
def SettledFirst (init : System) (txs : List Tx) (env : Env) (sys sys' : System) : Prop :=
  ∃ n u, epochsPassed sys.market.config env.time = .ok n ∧
    (∀ v, Run.InForce step (fun tx => sys.deadline ≤ tx.env.time) init txs v →
      v.terms = sys.terms ∧ calculateInterest v.market v.ctoken n = .ok u) ∧
    ChargedBy sys sys' n u ∧
    sys'.market.config.lastCharged =
      sys.market.config.lastCharged + n * sys.market.config.interestChargePeriod

/-- The messages that settle for good before they change anything, or change nothing. A new
curve settles, but puts back `lastCharged`. -/
def SettlesOrKeeps (sys : System) : ExecuteMsg → Prop
  | .swapWithdrawFrom _ buy _ => buy.denom = sys.market.config.marketToken
  | .adjustReserveFactor newFactor => newFactor = sys.market.config.reserveFactor
  | .adjustInterestRates _ => False
  | _ => True

/-- As `SettlesOrKeeps`; the market sends nothing to the ctoken contract but in its handlers. -/
def Action.SettlesOrKeeps (sys : System) : Action → Prop
  | .execute _ msg => System.SettlesOrKeeps sys msg
  | .ctoken sender _ => sender ≠ sys.ctoken.controller
  | .donate _ => True

/-- Blocks follow one another, and while a period is pending all messages settle or keep. -/
def Timely (sys : System) (tx : Tx) : Prop :=
  sys.time ≤ tx.env.time ∧ (tx.env.time < sys.deadline ∨ tx.action.SettlesOrKeeps sys)

/-! ## What stays until a settlement -/

/-- Nothing that a charge depends on has changed. -/
structure Kept (sys sys' : System) : Prop where
  terms : sys'.terms = sys.terms
  ctoken : sys'.ctoken.multiplier = sys.ctoken.multiplier
  debt : sys'.market.debt.info.multiplier = sys.market.debt.info.multiplier
  period : sys'.market.config.interestChargePeriod = sys.market.config.interestChargePeriod
  lastCharged : sys'.market.config.lastCharged = sys.market.config.lastCharged

theorem Kept.refl (sys : System) : Kept sys sys := ⟨rfl, rfl, rfl, rfl, rfl⟩

theorem Kept.trans (h : Kept sys mid) (h' : Kept mid sys') : Kept sys sys' :=
  ⟨h'.terms.trans h.terms, h'.ctoken.trans h.ctoken, h'.debt.trans h.debt,
    h'.period.trans h.period, h'.lastCharged.trans h.lastCharged⟩

theorem Kept.deadline_eq (h : Kept sys sys') : sys'.deadline = sys.deadline := by
  rw [deadline, deadline, h.lastCharged, h.period]

theorem Kept.calculateInterest_eq (h : Kept sys sys') (n : ℕ) :
    calculateInterest sys'.market sys'.ctoken n = calculateInterest sys.market sys.ctoken n := by
  have hsupply : sys'.ctoken.totalSupply = sys.ctoken.totalSupply :=
    congrArg Terms.totalSupply h.terms
  have hpoints : sys'.market.debt.info.totalPoints = sys.market.debt.info.totalPoints :=
    congrArg Terms.totalPoints h.terms
  have hrates : sys'.market.config.rates = sys.market.config.rates := congrArg Terms.rates h.terms
  have hfactor : sys'.market.config.reserveFactor = sys.market.config.reserveFactor :=
    congrArg Terms.reserveFactor h.terms
  simp only [calculateInterest, Ctoken.State.totalSupplyBase, Debt.total, hsupply, hpoints, hrates,
    hfactor, h.ctoken, h.debt, h.period]

/-- Only the controller of the ctokens changes their supply. -/
theorem kept_of_ctoken {q : Ctoken.Querier} {self sender : Addr} {call : Ctoken.ExecuteMsg}
    {ct : Ctoken.State} {msgs : List Ctoken.Message} {time : ℕ}
    (h : Ctoken.execute q self sender call sys.ctoken = .ok (ct, msgs))
    (hsender : sender ≠ sys.ctoken.controller) :
    Kept sys { sys with ctoken := ct, time } := by
  have hkept : ct.totalSupply = sys.ctoken.totalSupply ∧
      ct.multiplier = sys.ctoken.multiplier := by
    cases Ctoken.execute_outcome h with
    | transferred _ _ taken given _ =>
      exact ⟨(Ctoken.transfer_supply taken given).1, given.multiplier.trans taken.multiplier⟩
    | minted caller | burned caller | rebased caller => exact absurd caller hsender
    | idle | distributed | withdrew => exact ⟨rfl, rfl⟩
  exact ⟨by simp only [System.terms, hkept.1], hkept.2, rfl, rfl, rfl⟩

theorem lt_deadline_of_epochs (h : epochsPassed sys.market.config env.time = .ok 0) :
    env.time < sys.deadline := by
  obtain ⟨hle, hp, h0⟩ := epochsPassed_eq_ok.mp h
  have hlt := (Nat.div_eq_zero_iff_lt (Nat.pos_of_ne_zero hp)).mp h0.symm
  unfold deadline
  omega

/-- After a settlement nothing is pending. -/
theorem lt_deadline_of_apply {op : Op} (hs : settle env sys = .ok mid)
    (ha : op.apply mid = .ok sys') : env.time < sys'.deadline := by
  refine lt_deadline_of_epochs ?_
  rw [(apply_frame ha).1]
  exact epochsPassed_settled hs

theorem outcome_settlesOrKeeps (hh : holdings.ctoken = sys.ctoken)
    (h : Outcome env info { sys with toHoldings := holdings } msg sys' entered)
    (hm : SettlesOrKeeps sys msg) : env.time < sys'.deadline ∨ Kept sys sys' := by
  cases h with
  | deposit _ _ _ _ hs ha | withdraw _ _ _ hs ha | borrow _ _ hs ha | repay _ _ _ hs ha
  | repayTo _ _ _ _ _ _ hs ha | transferFrom _ _ hs _ _ _ ha =>
    exact .inl (lt_deadline_of_apply hs ha)
  | adjust hadj =>
    refine .inr ?_
    cases hadj with
    | reserveFactor =>
      have hfactor : _ = sys.market.config.reserveFactor := hm
      exact ⟨by simp only [terms, hh, hfactor], by rw [hh], rfl, rfl, rfl⟩
    | _ => exact ⟨by simp only [terms, hh], by rw [hh], rfl, rfl, rfl⟩
  | rates plain =>
    rw [plain] at hm
    exact hm.elim
  | send _ _ _ hpaid =>
    have hp := (Holdings.pay_eq_ok.mp hpaid).1.trans hh
    exact .inr ⟨by simp only [terms, hp], by rw [hp], rfl, rfl, rfl⟩
  | swap plain _ hden =>
    rw [plain] at hm
    exact absurd hm hden

/-- A timely step leaves nothing pending, or all that a charge depends on. -/
theorem step_settlesOrKeeps {tx : Tx} (hg : Timely sys tx) (h : step tx sys = .ok sys') :
    tx.env.time < sys'.deadline ∨ Kept sys sys' := by
  obtain ⟨-, hlt | hkeeps⟩ := hg
  · obtain ⟨-, hp, n, -, -, hl⟩ := step_ticks h
    refine .inl (hlt.trans_le ?_)
    unfold deadline
    rcases hl with hl | ⟨-, -, hl⟩ <;> rw [hl, hp]
    omega
  · cases step_transition h with
    | executed action executed =>
      rw [action] at hkeeps
      obtain ⟨_, _, -, hcredit, hout⟩ := execute_outcome executed
      exact outcome_settlesOrKeeps (Holdings.receive_eq_ok.mp hcredit).1 hout hkeeps
    | ctoken action executed =>
      rw [action] at hkeeps
      exact .inr (kept_of_ctoken executed hkeeps)
    | donated _ credited =>
      have hct := (Holdings.receive_eq_ok.mp credited).1
      exact .inr ⟨by simp only [terms, hct], by rw [hct], rfl, rfl, rfl⟩

/-- In a timely run, all that a charge depends on stays from the deadline on. -/
theorem run_kept (h : Run step Timely init txs sys) :
    ∀ v, Run.InForce step (fun tx => sys.deadline ≤ tx.env.time) init txs v → Kept v sys := by
  induction h with
  | nil =>
    intro v hv
    rw [Run.inForce_nil hv]
    exact .refl _
  | snoc hrun hg hs ih =>
    intro v hv
    obtain rfl | ⟨hlate, hv⟩ := hrun.inForce_snoc hs hv
    · exact .refl _
    · rcases step_settlesOrKeeps hg hs with hlt | hkept
      · exact absurd hlate (not_le.mpr hlt)
      · rw [hkept.deadline_eq] at hv
        exact (ih v hv).trans hkept

/-! ## Which messages settle first -/

theorem outcome_charges_of_changes (hh : holdings.ctoken = sys.ctoken)
    (h : Outcome env info { sys with toHoldings := holdings } msg sys' entered)
    (hc : epochsPassed sys.market.config env.time = .ok 0 ∨ SettlesOrKeeps sys msg)
    (hchange : Changes sys sys') : ChargesElapsed env sys sys' := by
  cases h with
  | deposit _ _ _ _ hs ha | withdraw _ _ _ hs ha | borrow _ _ hs ha | repay _ _ _ hs ha
  | repayTo _ _ _ _ _ _ hs ha | transferFrom _ _ hs _ _ _ ha =>
    exact charges_of_apply hh hs ha
  | rates _ _ _ hs => exact charges_of_settle hh hs rfl rfl rfl
  | adjust hadj =>
    rcases hc with hc | hc
    · exact charges_of_idle hc rfl rfl (by rw [hh])
    · refine absurd ?_ hchange
      cases hadj with
      | reserveFactor =>
        have hfactor : _ = sys.market.config.reserveFactor := hc
        simp only [terms, hh, hfactor]
      | _ => simp only [terms, hh]
  | send _ _ _ hpaid =>
    have hp := (Holdings.pay_eq_ok.mp hpaid).1
    exact absurd (by simp only [terms, hp, hh]) hchange
  | swap hm _ hden _ _ _ hburned hpaid =>
    rcases hc with hc | hc
    · rw [callCtoken, Holdings.callCtoken_burnFrom] at hburned
      obtain ⟨ct, hct, rfl⟩ := hburned
      obtain ⟨-, -, b, t, w, -, -, rfl⟩ := Ctoken.burnFrom_spec hct
      exact charges_of_idle hc rfl rfl (by rw [(Holdings.pay_eq_ok.mp hpaid).1, hh])
    · rw [hm] at hc
      exact absurd hc hden

/-- The other messages charge nothing, or put the clock back. -/
theorem outcome_unsettled
    (h : Outcome env info { sys with toHoldings := holdings } msg sys' entered)
    (hm : ¬ SettlesOrKeeps sys msg) : sys'.market.charged = sys.market.charged ∨
      sys'.market.config.lastCharged = sys.market.config.lastCharged := by
  cases h with
  | adjust | swap => exact .inl rfl
  | rates => exact .inr rfl
  | deposit hmsg | repay hmsg | repayTo hmsg =>
    cases msg <;> simp [ExecuteMsg.plain, SettlesOrKeeps] at hmsg hm
  | _ => grind [SettlesOrKeeps]

instance (sys : System) : DecidablePred (SettlesOrKeeps sys) := fun msg =>
  match msg with
  | .swapWithdrawFrom _ buy _ => inferInstanceAs (Decidable (buy.denom = _))
  | .adjustReserveFactor newFactor => inferInstanceAs (Decidable (newFactor = _))
  | .adjustInterestRates _ => .isFalse not_false
  | .deposit | .withdraw _ | .borrow _ | .repay | .repayTo _ | .transferFrom .. | .receive ..
  | .adjustCommonToken _ | .adjustCollateralRatio _ | .adjustPriceOracle _ | .adjustMarketCap _ =>
    .isTrue trivial

instance (sys : System) : DecidablePred (Action.SettlesOrKeeps sys) := fun action =>
  match action with
  | .execute _ msg => inferInstanceAs (Decidable (System.SettlesOrKeeps sys msg))
  | .ctoken sender _ => inferInstanceAs (Decidable (sender ≠ sys.ctoken.controller))
  | .donate _ => .isTrue trivial

instance (sys : System) (tx : Tx) : Decidable (Timely sys tx) :=
  inferInstanceAs (Decidable (_ ∧ (_ ∨ _)))

/-- Half of the deposits are lent. -/
def lentTxs : List Tx := [sampleTx 0 "lender" 2000 .deposit, sampleTx 0 "bob" 0 (.borrow 1000)]

end System

end WyndLend.Market
