import WyndLend.Market.DebtLedger
import WyndLend.Market.Outcome

/-!
# Debts and configuration along a transaction

Only `Borrow` gives an account debt that it did not have, and it makes the account
enter the market. Nothing changes whom a market belongs to, and the collateral ratio
changes only on request.
-/

namespace WyndLend.Market

open CosmWasm Utils

variable {l l' : Debt.Ledger} {account other : Addr} {amount surplus : Uint128}

theorem Debt.points_increase (h : Debt.increase l account amount = .ok l') (hne : other ≠ account) :
    l'.points other = l.points other := by
  obtain ⟨-, rfl⟩ | ⟨_, _, _, -, -, -, rfl⟩ := Debt.increase_spec h
  · rfl
  · rw [Debt.points_save, if_neg hne]
    rfl

/-- A payment leaves nobody with more debt. -/
theorem Debt.points_decrease (other : Addr)
    (h : Debt.decrease l account amount = .ok (l', surplus)) :
    (l'.points other).val ≤ (l.points other).val := by
  obtain ⟨-, rfl, -⟩ | ⟨_, _, p, -, -, hp, rfl⟩ := Debt.decrease_spec h
  · exact le_refl _
  · rw [Debt.points_save]
    split_ifs with ho
    · subst ho
      omega
    · exact le_refl _

theorem migrate_frame (s : State) (isotonicTokenId : Option ℕ) :
    (migrate s isotonicTokenId).debt = s.debt ∧
      (migrate s isotonicTokenId).config.creditAgency = s.config.creditAgency ∧
      (migrate s isotonicTokenId).config.collateralRatio = s.config.collateralRatio := by
  cases isotonicTokenId with
  | none => exact ⟨rfl, rfl, rfl⟩
  | some tokenId => exact ⟨rfl, rfl, rfl⟩

namespace System

variable {env : Env} {info : MessageInfo} {msg : ExecuteMsg} {sys sys' mid : System}
  {entered : List Addr}

/-- The account has debt points in the market. -/
def Owes (sys : System) (account : Addr) : Prop := sys.market.debt.points account ≠ 0

instance (sys : System) (account : Addr) : Decidable (sys.Owes account) :=
  inferInstanceAs (Decidable (_ ≠ _))

/-- Who owes nothing in base tokens may still have points, but not the other way round. -/
theorem owes_of_debt (h : Debt.of sys.market.debt account = .ok amount) (hne : amount ≠ 0) :
    sys.Owes account := by
  intro hpoints
  rw [Debt.of, hpoints, tokenToBase_eq_ok] at h
  apply hne
  ext
  rw [h, Uint128.val_zero, Nat.zero_mul, Nat.zero_div]

theorem settle_owes (h : settle env sys = .ok mid) : mid.Owes account ↔ sys.Owes account := by
  obtain ⟨_, -, -, -, hdebt, -⟩ := settle_frame h
  unfold Owes Debt.Ledger.points
  rw [hdebt]

/-- An account that starts to owe is the one that borrows. -/
theorem apply_owes {op : Op} (h : op.apply mid = .ok sys') (ho : sys'.Owes account) :
    mid.Owes account ∨ ∃ amount, op = .borrow account amount := by
  cases op <;> simp only [Op.apply, bind_eq_ok, mapError_eq_ok, pure_eq_ok] at h
  case deposit => obtain ⟨_, _, rfl⟩ := h; exact .inl ho
  case withdraw => obtain ⟨_, _, _, _, rfl⟩ := h; exact .inl ho
  case transferFrom => obtain ⟨_, _, rfl⟩ := h; exact .inl ho
  case borrow borrower amount =>
    obtain ⟨debt, hd, _, _, rfl⟩ := h
    by_cases hb : account = borrower
    · subst hb
      exact .inr ⟨amount, rfl⟩
    · left
      rwa [Owes, Debt.points_increase hd hb] at ho
  case repay payer amount =>
    obtain ⟨⟨debt, _⟩, hd, _, _, rfl⟩ := h
    have hle := Debt.points_decrease account hd
    left
    simp only [Owes, ne_eq, Uint128.ext_iff, Uint128.val_zero] at ho ⊢
    omega
  case repayTo payer amount =>
    obtain ⟨⟨debt, _⟩, hd, rfl⟩ := h
    have hle := Debt.points_decrease account hd
    left
    simp only [Owes, ne_eq, Uint128.ext_iff, Uint128.val_zero] at ho ⊢
    omega

/-- As `apply_owes`, with the settlement before the operation. -/
theorem settled_owes {op : Op} (hs : settle env sys = .ok mid) (ha : op.apply mid = .ok sys')
    (hop : ∀ amount, op ≠ .borrow account amount) (ho : sys'.Owes account) : sys.Owes account := by
  rcases apply_owes ha ho with hm | ⟨amount, rfl⟩
  · exact (settle_owes hs).mp hm
  · exact absurd rfl (hop amount)

theorem outcome_owes (h : Outcome env info sys msg sys' entered) (ho : sys'.Owes account) :
    sys.Owes account ∨ account ∈ entered := by
  cases h with
  | deposit _ _ _ _ hs ha => exact .inl (settled_owes hs ha nofun ho)
  | withdraw _ _ _ hs ha => exact .inl (settled_owes hs ha nofun ho)
  | borrow _ _ hs ha =>
    rcases apply_owes ha ho with hm | ⟨amount, heq⟩
    · exact .inl ((settle_owes hs).mp hm)
    · cases heq
      exact .inr List.mem_cons_self
  | repay _ _ _ hs ha => exact .inl (settled_owes hs ha nofun ho)
  | repayTo _ _ _ _ _ _ hs ha => exact .inl (settled_owes hs ha nofun ho)
  | transferFrom _ _ hs _ _ _ ha => exact .inl (settled_owes hs ha nofun ho)
  | adjust => exact .inl ho
  | rates _ _ _ hs => exact .inl ((settle_owes hs).mp ho)
  | send => exact .inl ho
  | swap => exact .inl ho

/-- Whoever owes something after a message owed it before or has entered the market. -/
theorem execute_owes (h : execute env info msg sys = .ok (sys', entered)) (ho : sys'.Owes account) :
    sys.Owes account ∨ account ∈ entered := by
  obtain ⟨_, _, -, -, hout⟩ := execute_outcome h
  rcases outcome_owes hout ho with hbefore | hentered
  · exact .inl hbefore
  · exact .inr hentered

/-! ## Configuration -/

/-- A part of the configuration that holds neither the clock nor the curve changes with an
adjustment only. -/
theorem outcome_config {α : Type} {f : Config → α} (h : Outcome env info sys msg sys' entered)
    (hclock : ∀ cfg lastCharged, f { cfg with lastCharged } = f cfg)
    (hrates : ∀ cfg rates, f { cfg with rates } = f cfg)
    (hadjusts : ∀ cfg, Adjusts env info sys msg cfg → f cfg = f sys.market.config) :
    f sys'.market.config = f sys.market.config := by
  have hsettles : ∀ {mid op}, settle env sys = .ok mid → Op.apply mid op = .ok sys' →
      f sys'.market.config = f sys.market.config := by
    intro mid op hs ha
    obtain ⟨n, -, hc, -⟩ := settle_frame hs
    rw [(apply_frame ha).1, hc]
    exact hclock _ _
  cases h with
  | deposit _ _ _ _ hs ha | withdraw _ _ _ hs ha | borrow _ _ hs ha | repay _ _ _ hs ha
  | repayTo _ _ _ _ _ _ hs ha | transferFrom _ _ hs _ _ _ ha => exact hsettles hs ha
  | adjust hadj => exact hadjusts _ hadj
  | rates => exact hrates _ _
  | send | swap => rfl

/-- What a message may do to the configuration, as far as the credit agency relies on it. -/
structure Keeps (msg : ExecuteMsg) (sys sys' : System) : Prop where
  address : sys'.address = sys.address
  creditAgency : sys'.market.config.creditAgency = sys.market.config.creditAgency
  collateralRatio : (∀ ratio, msg ≠ .adjustCollateralRatio ratio) →
    sys'.market.config.collateralRatio = sys.market.config.collateralRatio
  newRatio : ∀ ratio, msg = .adjustCollateralRatio ratio →
    sys'.market.config.collateralRatio = ratio

theorem settle_address (h : settle env sys = .ok mid) : mid.address = sys.address := by
  obtain ⟨_, -, -, -, -, -, haddress, -⟩ := settle_frame h
  exact haddress

theorem outcome_address (h : Outcome env info sys msg sys' entered) :
    sys'.address = sys.address := by
  cases h with
  | deposit _ _ _ _ hs ha | withdraw _ _ _ hs ha | borrow _ _ hs ha | repay _ _ _ hs ha
  | repayTo _ _ _ _ _ _ hs ha | transferFrom _ _ hs _ _ _ ha =>
    exact (apply_frame ha).2.2.1.trans (settle_address hs)
  | rates _ _ _ hs =>
    have haddress := settle_address hs
    exact haddress
  | adjust | send | swap => rfl

theorem outcome_keeps (h : Outcome env info sys msg sys' entered) : Keeps msg sys sys' where
  address := outcome_address h
  creditAgency := outcome_config h (f := Config.creditAgency) (fun _ _ => rfl) (fun _ _ => rfl)
    fun _ hadj => by cases hadj <;> rfl
  collateralRatio hmsg := by
    refine outcome_config h (f := Config.collateralRatio) (fun _ _ => rfl) (fun _ _ => rfl) ?_
    intro cfg hadj
    cases hadj with
    | collateralRatio => exact absurd rfl (hmsg _)
    | commonToken | reserveFactor | priceOracle | marketCap => rfl
  newRatio ratio hmsg := by
    subst hmsg
    cases h with
    | adjust hadj =>
      cases hadj
      rfl
    | _ => grind [ExecuteMsg.plain]

theorem execute_keeps (h : execute env info msg sys = .ok (sys', entered)) :
    Keeps msg sys sys' := by
  obtain ⟨_, _, -, -, hout⟩ := execute_outcome h
  obtain ⟨haddr, hagency, hsame, hnew⟩ := outcome_keeps hout
  exact ⟨haddr, hagency, hsame, hnew⟩

/-! ## Tokens -/

/-- A market keeps its token. -/
theorem execute_marketToken (h : execute env info msg sys = .ok (sys', entered)) :
    sys'.market.config.marketToken = sys.market.config.marketToken := by
  obtain ⟨_, _, -, -, hout⟩ := execute_outcome h
  have hsame := outcome_config hout (f := Config.marketToken) (fun _ _ => rfl) (fun _ _ => rfl)
    (fun _ hadj => by cases hadj <;> rfl)
  exact hsame

/-- The common token only changes on request. -/
theorem execute_commonToken (h : execute env info msg sys = .ok (sys', entered))
    (hmsg : ∀ token, msg ≠ .adjustCommonToken token) :
    sys'.market.config.commonToken = sys.market.config.commonToken := by
  obtain ⟨_, _, -, -, hout⟩ := execute_outcome h
  have hsame := outcome_config hout (f := Config.commonToken) (fun _ _ => rfl) (fun _ _ => rfl) ?_
  · exact hsame
  · intro cfg hadj
    cases hadj with
    | commonToken => exact absurd rfl (hmsg _)
    | collateralRatio | reserveFactor | priceOracle | marketCap => rfl

/-- The credit agency alone requests it. -/
theorem execute_adjustCommonToken {token : Token}
    (h : execute env info (.adjustCommonToken token) sys = .ok (sys', entered)) :
    info.sender = sys.market.config.creditAgency ∧ sys'.market.config.commonToken = token := by
  simp only [execute, bind_eq_ok, mapError_eq_ok, Market.execute, adjustCommonToken,
    ensure_eq_ok] at h
  obtain ⟨_, -, _, -, _, ⟨-, hs, hm⟩, _, -, h⟩ := h
  cases hm
  cases h
  exact ⟨hs, rfl⟩

end System

end WyndLend.Market
