import WyndLend.Ctoken.Supply
import WyndLend.Market.Repayment

/-!
# Whose tokens and debts a message touches

What an account holds or owes is a number of points and a multiplier that all accounts
share. Settlements and rebases only raise multipliers, and every message takes points
from at most one account, which it names or which sent it.
-/

namespace WyndLend

open CosmWasm Utils Rebasing

/-! ## Ctokens -/

namespace Ctoken

variable {s s' : State} {self caller sender recipient owner holder : Addr} {amount : Uint128}

/-- The ctokens of an account and what one of them is worth. -/
def State.holding (s : State) (account : Addr) : ℕ × ℕ :=
  ((s.balance account).val, s.multiplier.atomics.val)

/-- The base balance of an account: `baseBalance` as a number. -/
def State.inBase (s : State) (account : Addr) : ℕ :=
  toBase fractional (s.holding account).1 (s.holding account).2

theorem baseBalance_eq_ok {ε : Type} [HasFault ε] {balance : Uint128} :
    s.baseBalance holder = .ok (ε := ε) balance ↔ balance.val = s.inBase holder :=
  tokenToBase_eq_ok

theorem inBase_mono (h : s.holding holder ≤ s'.holding holder) :
    s.inBase holder ≤ s'.inBase holder :=
  toBase_le_toBase h.1 h.2

theorem Shift.holding_le {account : Addr} {diff : ℤ} (h : Shift s account diff s')
    (hd : holder = account → 0 ≤ diff) : s.holding holder ≤ s'.holding holder := by
  have hbalance := h.balance holder
  refine ⟨?_, ?_⟩
  · dsimp only [State.holding]
    split_ifs at hbalance with heq
    · have := hd heq
      omega
    · omega
  · dsimp only [State.holding]
    rw [h.multiplier]

theorem mintBase_holding (h : mintBase caller s recipient amount = .ok s') :
    s.holding holder ≤ s'.holding holder := by
  obtain ⟨tokens, -, hmint⟩ := mintBase_spec h
  obtain ⟨-, -, s₁, t, hshift, -, rfl⟩ := mint_shift hmint
  exact hshift.holding_le fun _ => Int.natCast_nonneg _

theorem burnFrom_holding (h : burnFrom caller s owner amount = .ok s') (hne : holder ≠ owner) :
    s.holding holder ≤ s'.holding holder := by
  obtain ⟨-, -, s₁, t, hshift, -, rfl⟩ := burnFrom_shift h
  exact hshift.holding_le fun heq => absurd heq hne

theorem transferTokens_holding (h : transferTokens s sender recipient amount = .ok s')
    (hne : holder ≠ sender) : s.holding holder ≤ s'.holding holder := by
  obtain ⟨-, s₁, htaken, hgiven⟩ := transferTokens_shifts h
  have hfirst : s.holding holder ≤ s₁.holding holder :=
    htaken.holding_le fun heq => absurd heq hne
  exact hfirst.trans (hgiven.holding_le fun _ => Int.natCast_nonneg _)

/-- A rebase by at least one. -/
theorem rebase_holding {ratio : Decimal} (h : rebase caller s ratio = .ok s')
    (hr : fractional ≤ ratio.atomics.val) : s.holding holder ≤ s'.holding holder := by
  obtain ⟨-, m, hm, rfl⟩ := rebase_spec h
  refine ⟨le_rfl, ?_⟩
  dsimp only [State.holding]
  rw [hm]
  exact le_scaled fractional_pos hr

/-- The messages with which a holder moves ctokens. -/
def ExecuteMsg.Moves : ExecuteMsg → Prop
  | .transfer .. | .send .. => True
  | _ => False

/-- Without the controller, ctokens only leave whoever moves them. -/
theorem execute_holding {q : Querier} {msg : ExecuteMsg} {msgs : List Message}
    (h : execute q self sender msg s = .ok (s', msgs)) (hs : sender ≠ s.controller)
    (hne : msg.Moves → holder ≠ sender) : s.holding holder ≤ s'.holding holder := by
  rcases execute_public h hs with ⟨recipient, amount, rfl | rfl, hmoved⟩ | ⟨d, w, rfl⟩
  · exact transferTokens_holding hmoved (hne trivial)
  · exact transferTokens_holding hmoved (hne trivial)
  · exact le_rfl

/-- The controller is set once. -/
theorem execute_controller {q : Querier} {msg : ExecuteMsg} {msgs : List Message}
    (h : execute q self sender msg s = .ok (s', msgs)) : s'.controller = s.controller := by
  cases execute_outcome h with
  | transferred _ _ taken given _ => exact given.controller.trans taken.controller
  | minted _ _ _ given _ => exact given.controller
  | burned _ _ _ taken _ => exact taken.controller
  | rebased | idle | distributed | withdrew => rfl

end Ctoken

namespace Market

/-! ## Debts -/

namespace Debt

variable {l l' : Ledger} {account other : Addr} {amount surplus : Uint128}

/-- The debt points of an account and what one of them is worth. -/
def Ledger.liability (l : Ledger) (account : Addr) : ℕ × ℕ :=
  ((l.points account).val, l.info.multiplier.atomics.val)

theorem owedBy_mono (h : l.liability other ≤ l'.liability other) :
    l.owedBy other ≤ l'.owedBy other :=
  toBase_le_toBase h.1 h.2

theorem rebase_liability {ratio : Decimal} (h : rebase l ratio = .ok l')
    (hr : fractional ≤ ratio.atomics.val) : l.liability other ≤ l'.liability other := by
  obtain ⟨m, hm, rfl⟩ := rebase_spec h
  refine ⟨le_rfl, ?_⟩
  dsimp only [Ledger.liability]
  rw [hm]
  exact le_scaled fractional_pos hr

theorem increase_liability (h : increase l account amount = .ok l') :
    l.liability other ≤ l'.liability other := by
  obtain ⟨-, rfl⟩ | ⟨points, t, p, -, -, hp, rfl⟩ := increase_spec h
  · exact le_rfl
  · refine ⟨?_, le_rfl⟩
    dsimp only [Ledger.liability]
    rw [points_save]
    split_ifs with heq
    · subst heq
      omega
    · exact le_rfl

theorem decrease_liability (h : decrease l account amount = .ok (l', surplus))
    (hne : other ≠ account) : l.liability other ≤ l'.liability other := by
  obtain ⟨-, rfl, -⟩ | ⟨points, t, p, -, -, -, rfl⟩ := decrease_spec h
  · exact le_rfl
  · refine ⟨?_, le_rfl⟩
    dsimp only [Ledger.liability]
    rw [points_save, if_neg hne]
    exact le_rfl

end Debt

/-- The account whose ctokens the message takes, and the one whose debt it pays. -/
def ExecuteMsg.holder (info : MessageInfo) (msg : ExecuteMsg) : Option Addr :=
  match msg.plain with
  | .withdraw _ => some info.sender
  | .transferFrom source _ _ _ => some source
  | .swapWithdrawFrom account _ _ => some account
  | _ => none

def ExecuteMsg.debtor (info : MessageInfo) (msg : ExecuteMsg) : Option Addr :=
  match msg.plain with
  | .repay => some (origin info msg)
  | .repayTo account => some account
  | _ => none

namespace System

variable {env : Env} {info : MessageInfo} {msg : ExecuteMsg} {sys sys' mid : System}
  {entered : List Addr} {account : Addr}

/-! ## Settlements and operations -/

theorem settle_holding (h : settle env sys = .ok mid) :
    sys.ctoken.holding account ≤ mid.ctoken.holding account ∧
      sys.market.debt.liability account ≤ mid.market.debt.liability account := by
  obtain ⟨n, u, -, -, -, hcase⟩ := settle_spec h
  cases u with
  | none =>
    rw [hcase.1, hcase.2]
    exact ⟨le_rfl, le_rfl⟩
  | some u =>
    obtain ⟨⟨dr, hdr, hdebt⟩, cr, ct, hcr, hrebase, hmint⟩ := hcase
    refine ⟨?_, Debt.rebase_liability hdebt (by omega)⟩
    have hgrown : sys.ctoken.holding account ≤ ct.holding account :=
      Ctoken.rebase_holding hrebase (by omega)
    split_ifs at hmint
    · rw [hmint]
      exact hgrown
    · exact hgrown.trans (Ctoken.mintBase_holding hmint)

/-- The account whose ctokens an operation takes, and the one whose debt it pays. -/
def Op.holder : Op → Option Addr
  | .withdraw account _ => some account
  | .transferFrom source _ _ => some source
  | .deposit .. | .borrow .. | .repay .. | .repayTo .. => none

def Op.debtor : Op → Option Addr
  | .repay account _ | .repayTo account _ => some account
  | .deposit .. | .withdraw .. | .borrow .. | .transferFrom .. => none

theorem apply_holding {op : Op} (h : op.apply mid = .ok sys') :
    (op.holder ≠ some account → mid.ctoken.holding account ≤ sys'.ctoken.holding account) ∧
      (op.debtor ≠ some account →
        mid.market.debt.liability account ≤ sys'.market.debt.liability account) := by
  cases applied_of_apply h with
  | deposit minted => exact ⟨fun _ => Ctoken.mintBase_holding minted, fun _ => le_rfl⟩
  | withdraw burned _ =>
    obtain ⟨_, -, hburn⟩ := Ctoken.burnBaseFrom_spec burned
    refine ⟨?_, fun _ => le_rfl⟩
    intro hne
    exact Ctoken.burnFrom_holding hburn fun heq => hne (congrArg some heq.symm)
  | borrow increased _ => exact ⟨fun _ => le_rfl, fun _ => Debt.increase_liability increased⟩
  | repay decreased _ | repayTo decreased =>
    refine ⟨fun _ => le_rfl, ?_⟩
    intro hne
    exact Debt.decrease_liability decreased fun heq => hne (congrArg some heq.symm)
  | transferFrom moved =>
    obtain ⟨-, _, -, htransfer⟩ := Ctoken.transferBaseFrom_spec moved
    refine ⟨?_, fun _ => le_rfl⟩
    intro hne
    exact Ctoken.transferTokens_holding htransfer fun heq => hne (congrArg some heq.symm)

/-! ## Messages -/

theorem settled_holding {op : Op} (hs : settle env sys = .ok mid) (ha : op.apply mid = .ok sys') :
    (op.holder ≠ some account → sys.ctoken.holding account ≤ sys'.ctoken.holding account) ∧
      (op.debtor ≠ some account →
        sys.market.debt.liability account ≤ sys'.market.debt.liability account) := by
  obtain ⟨hheld, howed⟩ := settle_holding hs
  obtain ⟨hheld', howed'⟩ := apply_holding ha
  exact ⟨fun hne => hheld.trans (hheld' hne), fun hne => howed.trans (howed' hne)⟩

theorem outcome_holding (h : Outcome env info sys msg sys' entered) :
    (msg.holder info ≠ some account → sys.ctoken.holding account ≤ sys'.ctoken.holding account) ∧
      (msg.debtor info ≠ some account →
        sys.market.debt.liability account ≤ sys'.market.debt.liability account) := by
  unfold ExecuteMsg.holder ExecuteMsg.debtor
  cases h with
  | deposit hm _ _ _ hs ha | repay hm _ _ hs ha | repayTo hm _ _ _ _ _ hs ha =>
    rw [hm]
    exact settled_holding hs ha
  | withdraw hm _ _ hs ha | borrow hm _ hs ha | transferFrom hm _ hs _ _ _ ha =>
    subst hm
    exact settled_holding hs ha
  | adjust => exact ⟨fun _ => le_rfl, fun _ => le_rfl⟩
  | rates _ _ _ hs =>
    obtain ⟨hheld, howed⟩ := settle_holding hs
    exact ⟨fun _ => hheld, fun _ => howed⟩
  | send _ _ _ hpaid =>
    obtain ⟨hct, -⟩ := Holdings.pay_eq_ok.mp hpaid
    dsimp only
    rw [hct]
    exact ⟨fun _ => le_rfl, fun _ => le_rfl⟩
  | swap hm _ _ _ _ _ hburned hpaid =>
    subst hm
    obtain ⟨hct, -⟩ := Holdings.pay_eq_ok.mp hpaid
    obtain ⟨ct, hburn, rfl⟩ := Holdings.callCtoken_burnFrom.mp hburned
    refine ⟨?_, fun _ => le_rfl⟩
    intro hne
    dsimp only
    rw [hct]
    exact Ctoken.burnFrom_holding hburn fun heq => hne (congrArg some heq.symm)

/-- A message takes ctokens from its holder only, and lowers the debt of its debtor only. -/
theorem execute_holding (account : Addr) (h : execute env info msg sys = .ok (sys', entered)) :
    (msg.holder info ≠ some account → sys.ctoken.holding account ≤ sys'.ctoken.holding account) ∧
      (msg.debtor info ≠ some account →
        sys.market.debt.liability account ≤ sys'.market.debt.liability account) := by
  obtain ⟨_, ⟨ctoken, cash⟩, -, hcredit, hout⟩ := execute_outcome h
  obtain ⟨rfl, -⟩ := Holdings.receive_eq_ok.mp hcredit
  obtain ⟨hheld, howed⟩ := outcome_holding hout
  exact ⟨hheld, howed⟩

/-- Everyone but the credit agency acts on their own account only. -/
theorem execute_own (account : Addr) (h : execute env info msg sys = .ok (sys', entered))
    (hne : origin info msg ≠ sys.market.config.creditAgency) :
    (msg.holder info = some account → (∃ amount, msg = .withdraw amount) ∧ info.sender = account) ∧
      (msg.debtor info = some account → msg.plain = .repay ∧ origin info msg = account) := by
  obtain ⟨_, holdings, -, -, hout⟩ := execute_outcome h
  have hnobody : ∀ {P : Prop}, (none : Option Addr) = some account → P := fun hn =>
    absurd hn.symm (Option.some_ne_none _)
  unfold ExecuteMsg.holder ExecuteMsg.debtor
  cases hout with
  | deposit hm =>
    rw [hm]
    exact ⟨hnobody, hnobody⟩
  | repay hm =>
    rw [hm]
    exact ⟨hnobody, fun hs => ⟨rfl, Option.some.inj hs⟩⟩
  | repayTo hm hsender => exact absurd hsender.symm hne
  | withdraw hm =>
    subst hm
    exact ⟨fun hs => ⟨⟨_, rfl⟩, Option.some.inj hs⟩, hnobody⟩
  | borrow hm | rates hm =>
    subst hm
    exact ⟨hnobody, hnobody⟩
  | transferFrom hm hsender => subst hm; exact absurd hsender.symm hne
  | adjust hadj => cases hadj <;> exact ⟨hnobody, hnobody⟩
  | send hm hsender => subst hm; exact absurd hsender.symm hne
  | swap hm hsender => subst hm; exact absurd hsender.symm hne

/-! ## The ctoken contract along a transaction -/

section

variable {I : Ctoken.State → Prop} (keeps : ∀ {q : Ctoken.Querier} {self caller : Addr}
  {msg : Ctoken.ExecuteMsg} {s s' : Ctoken.State} {msgs : List Ctoken.Message},
  Ctoken.execute q self caller msg s = .ok (s', msgs) → I s → I s')

include keeps

theorem deliver_ctoken {self : Addr} {token : Token} {hold hold' : Holdings} {m : Message}
    (h : deliver self token hold m = .ok hold') (hi : I hold.ctoken) : I hold'.ctoken := by
  cases m with
  | ctoken contract msg =>
    simp only [deliver, Holdings.callCtoken, bind_eq_ok, mapError_eq_ok, pure_eq_ok] at h
    obtain ⟨⟨ct, msgs⟩, hct, rfl⟩ := h
    exact keeps hct hi
  | enterMarket =>
    cases h
    exact hi
  | send | swap =>
    rw [deliver] at h
    split_ifs at h
    · rwa [(Holdings.pay_eq_ok.mp h).1]
    · cases h
      exact hi

theorem deliverAll_ctoken {self : Addr} {token : Token} {msgs : List Message}
    {hold hold' : Holdings} (h : deliverAll self token msgs hold = .ok hold')
    (hi : I hold.ctoken) : I hold'.ctoken := by
  induction msgs generalizing hold with
  | nil =>
    cases h
    exact hi
  | cons m msgs ih =>
    obtain ⟨next, hm, h⟩ := deliverAll_cons.mp h
    exact ih h (deliver_ctoken keeps hm hi)

/-- What the calls of the ctoken contract keep, a settlement keeps. -/
theorem settle_ctoken (h : settle env sys = .ok mid) (hi : I sys.ctoken) : I mid.ctoken := by
  obtain ⟨_, _, holdings, -, hd, rfl⟩ := settle_eq_ok.mp h
  exact deliverAll_ctoken keeps hd hi

/-- What the calls of the ctoken contract keep, a message to the market keeps. -/
theorem execute_ctoken (h : execute env info msg sys = .ok (sys', entered))
    (hi : I sys.ctoken) : I sys'.ctoken := by
  simp only [execute, bind_eq_ok, mapError_eq_ok] at h
  obtain ⟨funds, -, holdings, hcredit, ⟨market, msgs⟩, -, holdings', hd, h⟩ := h
  cases h
  refine deliverAll_ctoken keeps hd ?_
  rwa [(Holdings.receive_eq_ok.mp hcredit).1]

theorem step_ctoken {tx : Tx} (h : step tx sys = .ok sys') (hi : I sys.ctoken) :
    I sys'.ctoken := by
  cases step_transition h with
  | executed _ executed => exact execute_ctoken keeps executed hi
  | ctoken _ executed => exact keeps executed hi
  | donated _ credited =>
    dsimp only
    rwa [(Holdings.receive_eq_ok.mp credited).1]

end

theorem step_controller {tx : Tx} (h : step tx sys = .ok sys') :
    sys'.ctoken.controller = sys.ctoken.controller :=
  step_ctoken (I := fun s => s.controller = sys.ctoken.controller)
    (fun hct hi => (Ctoken.execute_controller hct).trans hi) h rfl

end System

end Market

end WyndLend
