import WyndLend.Platform.Isolation

/-!
# Nobody owes more than they borrowed

Debt points come into being by loans, at the multiplier of the day, and only for the
sender of the loan. Multipliers never fall, so whatever others do, an account owes in a
market at most the sum of its own loans there, grown by the multiplier from its first
value on. Repayments only make it less.
-/

namespace WyndLend

open CosmWasm Utils Rebasing

namespace Market

/-- What the message lends to the account, in market tokens. -/
def ExecuteMsg.lent (info : MessageInfo) (account : Addr) : ExecuteMsg → ℕ
  | .borrow amount => if info.sender = account then amount.val else 0
  | _ => 0

namespace Debt

variable {l l' : Ledger} {account other : Addr} {amount surplus : Uint128}

/-- A loan of `lent` at the new multiplier is all that an account can owe in addition. -/
structure Grown (account : Addr) (lent : ℕ) (l l' : Ledger) : Prop where
  multiplier : l.info.multiplier.atomics.val ≤ l'.info.multiplier.atomics.val
  points : (l'.points account).val ≤
    (l.points account).val + toPoints fractional lent l'.info.multiplier.atomics.val

theorem Grown.refl (account : Addr) (l : Ledger) : Grown account 0 l l :=
  ⟨le_rfl, Nat.le_add_right _ _⟩

theorem Grown.trans {lent : ℕ} {l'' : Ledger} (h : Grown account 0 l l')
    (h' : Grown account lent l' l'') : Grown account lent l l'' where
  multiplier := h.multiplier.trans h'.multiplier
  points := by
    have hp := h.points
    have hp' := h'.points
    simp only [toPoints, Nat.zero_mul, Nat.zero_div] at hp hp' ⊢
    omega

theorem grown_increase (account : Addr) (h : increase l other amount = .ok l') :
    Grown account (if other = account then amount.val else 0) l l' := by
  obtain ⟨-, rfl⟩ | ⟨points, t, p, hpoints, -, hp, rfl⟩ := increase_spec h
  · exact ⟨le_rfl, Nat.le_add_right _ _⟩
  · refine ⟨le_rfl, ?_⟩
    rw [points_save]
    obtain ⟨-, hpoints⟩ := baseToToken_eq_ok.mp hpoints
    split_ifs with h₁ h₂ h₂
    · subst h₁
      simp only [toPoints]
      omega
    · exact absurd h₁.symm h₂
    · exact absurd h₂.symm h₁
    · exact Nat.le_add_right _ _

theorem grown_decrease (account : Addr) (h : decrease l other amount = .ok (l', surplus)) :
    Grown account 0 l l' := by
  refine ⟨?_, (points_decrease account h).trans (Nat.le_add_right _ _)⟩
  obtain ⟨-, rfl, -⟩ | ⟨_, _, _, -, -, -, rfl⟩ := decrease_spec h <;> exact le_rfl

end Debt

namespace System

variable {env : Env} {info : MessageInfo} {msg : ExecuteMsg} {sys sys' mid : System}
  {entered : List Addr} {account : Addr}

theorem settle_grown (account : Addr) (h : settle env sys = .ok mid) :
    Debt.Grown account 0 sys.market.debt mid.market.debt := by
  obtain ⟨_, -, -, -, hdebt, -⟩ := settle_frame h
  have hliability : sys.market.debt.liability account ≤ mid.market.debt.liability account :=
    (settle_holding h).2
  refine ⟨hliability.2, ?_⟩
  unfold Debt.Ledger.points
  rw [hdebt]
  exact Nat.le_add_right _ _

/-- What an operation lends to an account. -/
def Op.lent (account : Addr) : Op → ℕ
  | .borrow other amount => if other = account then amount.val else 0
  | .deposit .. | .withdraw .. | .repay .. | .repayTo .. | .transferFrom .. => 0

theorem apply_grown {op : Op} (account : Addr) (h : op.apply mid = .ok sys') :
    Debt.Grown account (op.lent account) mid.market.debt sys'.market.debt := by
  cases applied_of_apply h with
  | deposit | withdraw | transferFrom => exact .refl _ _
  | borrow increased _ => exact Debt.grown_increase account increased
  | repay decreased _ | repayTo decreased => exact Debt.grown_decrease account decreased

theorem outcome_grown (account : Addr) (h : Outcome env info sys msg sys' entered) :
    Debt.Grown account (msg.lent info account) sys.market.debt sys'.market.debt := by
  have hnone : ∀ {plain : ExecuteMsg}, msg.plain = plain → (∀ amount, plain ≠ .borrow amount) →
      msg.lent info account = 0 := by
    rintro plain rfl hplain
    cases msg with
    | borrow amount => exact absurd rfl (hplain amount)
    | _ => rfl
  cases h with
  | deposit hm _ _ _ hs ha | repay hm _ _ hs ha | repayTo hm _ _ _ _ _ hs ha =>
    rw [hnone hm nofun]
    exact (settle_grown account hs).trans (apply_grown account ha)
  | withdraw hm _ _ hs ha | borrow hm _ hs ha | transferFrom hm _ hs _ _ _ ha =>
    subst hm
    exact (settle_grown account hs).trans (apply_grown account ha)
  | adjust hadj => cases hadj <;> exact .refl _ _
  | rates hm _ _ hs =>
    subst hm
    have hgrown := settle_grown account hs
    exact hgrown
  | send hm | swap hm =>
    subst hm
    exact .refl _ _

theorem execute_grown (account : Addr) (h : execute env info msg sys = .ok (sys', entered)) :
    Debt.Grown account (msg.lent info account) sys.market.debt sys'.market.debt := by
  obtain ⟨_, _, -, -, hout⟩ := execute_outcome h
  have hgrown := outcome_grown account hout
  exact hgrown

end System

end Market

namespace Platform

open CreditAgency

variable {env : Env} {tx : Tx} {txs : List Tx} {p p' : Platform} {market account address : Addr}
  {sys : Market.System} {info : Market.MessageInfo} {msg : Market.ExecuteMsg}
  {msgs : List CreditAgency.Message} {config : Config} {loans loans' : Addr → ℕ}

/-- What the action lends to the account in a market. -/
def Action.lent (market account : Addr) : Action → ℕ
  | .market other info msg => if other = market then msg.lent info account else 0
  | _ => 0

/-- The sum of the account's loans in a market. -/
def borrowedBy (market account : Addr) (txs : List Tx) : ℕ :=
  (txs.map fun tx => tx.action.lent market account).sum

/-- In every market the account has points for at most its loans at the first multiplier. -/
def OwesWithin (account : Addr) (loans : Addr → ℕ) (p : Platform) : Prop :=
  ∀ market sys, p.markets.mayLoad market = some sys →
    Market.Debt.initialMultiplier.atomics.val ≤ sys.market.debt.info.multiplier.atomics.val ∧
    (sys.market.debt.points account).val * Market.Debt.initialMultiplier.atomics.val ≤
      loans market * fractional

theorem OwesWithin.mono (h : OwesWithin account loans p) (hle : ∀ m, loans m ≤ loans' m) :
    OwesWithin account loans' p := by
  intro m s hs
  obtain ⟨hmultiplier, hpoints⟩ := h m s hs
  exact ⟨hmultiplier, hpoints.trans (Nat.mul_le_mul_right _ (hle m))⟩

/-- Points for a loan at a later multiplier are fewer than at the first one. -/
theorem points_loan_le {points points' sum lent first m : ℕ}
    (hpoints : points * first ≤ sum * fractional) (hfirst : first ≤ m)
    (hnew : points' ≤ points + toPoints fractional lent m) :
    points' * first ≤ (sum + lent) * fractional := by
  have hloan : toPoints fractional lent m * first ≤ lent * fractional :=
    (Nat.mul_le_mul_left _ hfirst).trans (Nat.div_mul_le_self _ _)
  calc points' * first ≤ (points + toPoints fractional lent m) * first :=
        Nat.mul_le_mul_right _ hnew
    _ = points * first + toPoints fractional lent m * first := Nat.add_mul _ _ _
    _ ≤ sum * fractional + lent * fractional := Nat.add_le_add hpoints hloan
    _ = (sum + lent) * fractional := (Nat.add_mul _ _ _).symm

theorem executeMarket_owesWithin (hi : OwesWithin account loans p)
    (h : executeMarket env market info msg p = .ok p') :
    OwesWithin account (fun m => loans m + if market = m then msg.lent info account else 0) p' := by
  obtain ⟨sys, sys', entered, found, he, rfl⟩ := executeMarket_spec h
  obtain ⟨hmultiplier, hpoints⟩ := Market.System.execute_grown account he
  intro m s hs
  by_cases hm : m = market
  · subst hm
    cases (Map.mayLoad_save_self _ _ _).symm.trans hs
    obtain ⟨hfirst, hsum⟩ := hi m sys found
    simp only [if_true]
    exact ⟨hfirst.trans hmultiplier, points_loan_le hsum (hfirst.trans hmultiplier) hpoints⟩
  · simp only [if_neg (Ne.symm hm), Nat.add_zero]
    exact hi m s ((Map.mayLoad_save_ne _ _ hm).symm.trans hs)

/-- The credit agency never borrows for anyone. -/
theorem deliver_owesWithin {m : CreditAgency.Message} (hi : OwesWithin account loans p)
    (h : deliver env p m = .ok p') : OwesWithin account loans p' := by
  have hcall : ∀ {market info msg}, msg.lent info account = 0 →
      executeMarket env market info msg p = .ok p' → OwesWithin account loans p' := by
    intro market info msg hnone he
    refine (executeMarket_owesWithin hi he).mono fun m => le_of_eq ?_
    rw [hnone, ite_self, Nat.add_zero]
  cases m with
  | instantiateMarket replyId codeId msg =>
    obtain ⟨-, sys, token, hs, -, rfl⟩ := instantiateMarket_spec h
    refine forall_save (P := fun m s => _ ≤ _ ∧ _ ≤ loans m * fractional) hi ?_
    simp only [Market.System.instantiate, Market.instantiate, bind_eq_ok, mapError_eq_ok,
      ensure_eq_ok, pure_eq_ok] at hs
    obtain ⟨_, ⟨_, -, -, -, rfl⟩, rfl⟩ := hs
    exact ⟨le_rfl, (Nat.zero_mul _).trans_le (Nat.zero_le _)⟩
  | repayTo market coin debtor =>
    rw [deliver, repayTo] at h
    split at h
    · exact hcall rfl h
    · exact hcall rfl h
  | transferFrom | swapWithdrawFrom | adjustCommonToken => exact hcall rfl h
  | migrate market _ isotonicTokenId =>
    simp only [deliver, Platform.migrate, bind_eq_ok, find_eq_ok, pure_eq_ok] at h
    obtain ⟨sys, found, rfl⟩ := h
    refine forall_save (P := fun m s => _ ≤ _ ∧ _ ≤ loans m * fractional) hi ?_
    rw [(Market.migrate_frame sys.market isotonicTokenId).1]
    exact hi _ _ found

theorem step_owesWithin (hi : OwesWithin account loans p) (h : step tx p = .ok p') :
    OwesWithin account (fun m => loans m + tx.action.lent m account) p' := by
  obtain ⟨env, action⟩ := tx
  cases action with
  | agency info msg =>
    simp only [step, bind_eq_ok, mapError_eq_ok] at h
    obtain ⟨⟨agency, msgs⟩, -, hd⟩ := h
    exact deliverAll_preserve (I := OwesWithin account loans) hd hi
      fun _ _ _ _ hq => deliver_owesWithin hq
  | market market info msg => exact executeMarket_owesWithin hi h
  | ctoken market sender msg =>
    simp only [step, bind_eq_ok, find_eq_ok, mapError_eq_ok, pure_eq_ok,
      Market.System.executeCtoken] at h
    obtain ⟨sys, found, _, ⟨_, -, rfl⟩, rfl⟩ := h
    have hsame := hi market sys found
    exact forall_save (P := fun m s => _ ≤ _ ∧ _ ≤ loans m * fractional) hi hsame
  | donate market amount =>
    simp only [step, Market.System.step, bind_eq_ok, find_eq_ok, mapError_eq_ok, pure_eq_ok] at h
    obtain ⟨sys, found, _, ⟨_, -, rfl⟩, rfl⟩ := h
    have hsame := hi market sys found
    exact forall_save (P := fun m s => _ ≤ _ ∧ _ ≤ loans m * fractional) hi hsame

/-- In every run, whoever sends whatever, an account owes in a market at most the loans that
it took there itself, grown by the debt multiplier from its first value on. -/
theorem owed_le_borrowed {guard : Platform → Tx → Prop} (account : Addr)
    (h : Run step guard (start address config) txs p)
    (found : p.markets.mayLoad market = some sys) :
    (sys.market.debt.owedBy account * Market.Debt.initialMultiplier.atomics.val ≤
      borrowedBy market account txs * sys.market.debt.info.multiplier.atomics.val) ∧
    (borrowedBy market account txs = 0 → ¬ sys.Owes account) := by
  have hi : OwesWithin account (fun m => borrowedBy m account txs) p := by
    refine h.invariant_list
      (I := fun txs q => OwesWithin account (fun m => borrowedBy m account txs) q) ?_ ?_
    · exact fun _ _ hs => absurd hs not_found_start
    · intro is u tx v hi _ hs
      refine (step_owesWithin hi hs).mono fun m => le_of_eq ?_
      simp [borrowedBy]
  obtain ⟨-, hpoints⟩ := hi market sys found
  dsimp only at hpoints
  refine ⟨?_, ?_⟩
  · have hfloor : sys.market.debt.owedBy account * fractional ≤
        (sys.market.debt.points account).val * sys.market.debt.info.multiplier.atomics.val :=
      Nat.div_mul_le_self _ _
    refine Nat.le_of_mul_le_mul_right ?_ fractional_pos
    calc sys.market.debt.owedBy account * Market.Debt.initialMultiplier.atomics.val * fractional
        = sys.market.debt.owedBy account * fractional *
            Market.Debt.initialMultiplier.atomics.val := by ring
      _ ≤ (sys.market.debt.points account).val * sys.market.debt.info.multiplier.atomics.val *
            Market.Debt.initialMultiplier.atomics.val := Nat.mul_le_mul_right _ hfloor
      _ = (sys.market.debt.points account).val * Market.Debt.initialMultiplier.atomics.val *
            sys.market.debt.info.multiplier.atomics.val := by ring
      _ ≤ borrowedBy market account txs * fractional *
            sys.market.debt.info.multiplier.atomics.val := Nat.mul_le_mul_right _ hpoints
      _ = borrowedBy market account txs * sys.market.debt.info.multiplier.atomics.val *
            fractional := by ring
  · intro hnone howes
    rw [hnone, Nat.zero_mul] at hpoints
    rcases Nat.mul_eq_zero.mp (Nat.le_zero.mp hpoints) with hzero | hzero
    · exact howes (Uint128.val_eq_zero.mp hzero)
    · exact absurd hzero (by decide)

/-- A year after Bob's loan of nine dollars he owes these nine dollars with their interest,
and the lender, who charged it, owes nothing. -/
theorem owed_le_borrowed_example : ∃ p sys, Run step (fun _ _ => True)
      (start "agency" sampleConfig)
      (sampleCollateral Decimal.one sampleHalf ⟨100_000_000_000_000_000⟩ 40 ++
        [sampleBorrow (sampleYear 0) 9,
          ⟨sampleYear 1, .market "usd market" ⟨"lender", [("usd", 1)]⟩ .deposit⟩]) p ∧
    p.markets.mayLoad "usd market" = some sys ∧
    sys.market.debt.owedBy "bob" * Market.Debt.initialMultiplier.atomics.val ≤
      9 * sys.market.debt.info.multiplier.atomics.val ∧
    ¬ sys.Owes "lender" := by
  obtain ⟨p, hrun, sys, found, -⟩ : ∃ p, Run step (fun _ _ => True) (start "agency" sampleConfig)
      (sampleCollateral Decimal.one sampleHalf ⟨100_000_000_000_000_000⟩ 40 ++
        [sampleBorrow (sampleYear 0) 9,
          ⟨sampleYear 1, .market "usd market" ⟨"lender", [("usd", 1)]⟩ .deposit⟩]) p ∧
      ∃ sys ∈ p.markets.mayLoad "usd market", sys.Owes "bob" :=
    exists_run_of_runAll (by decide +kernel)
  exact ⟨p, sys, hrun, found, (owed_le_borrowed "bob" hrun found).1,
    (owed_le_borrowed "lender" hrun found).2 (by decide +kernel)⟩

end Platform

end WyndLend
