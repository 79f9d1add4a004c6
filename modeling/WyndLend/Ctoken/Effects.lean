import WyndLend.Ctoken.Contract

/-!
# What each ctoken handler does

One lemma for each handler says everything a successful call changes. Callers
use these and never unfold a handler.
-/

namespace WyndLend.Ctoken

open CosmWasm Utils

variable {s s' : State} {caller account sender recipient owner : Addr} {amount : Uint128}

theorem debit_spec (h : debit s owner amount = .ok s') :
    ∃ rest : Uint128, rest.val + amount.val = (s.balance owner).val ∧
      s' = { s with balances := s.balances.save owner rest } := by
  simp only [debit, bind_eq_ok, mapError_eq_ok, Uint128.sub_eq_ok, pure_eq_ok] at h
  obtain ⟨rest, hrest, rfl⟩ := h
  exact ⟨rest, hrest, rfl⟩

theorem credit_spec (h : credit s recipient amount = .ok s') :
    ∃ b : Uint128, b.val = (s.balance recipient).val + amount.val ∧
      s' = { s with balances := s.balances.save recipient b } := by
  simp only [credit, bind_eq_ok, Uint128.add_eq_ok, pure_eq_ok] at h
  obtain ⟨b, hb, rfl⟩ := h
  exact ⟨b, hb, rfl⟩

/-- Corrections touch the reward ledger only. -/
theorem applyPointsCorrection_spec {ppt : Uint128} {diff : Int128}
    (h : applyPointsCorrection s account ppt diff = .ok s') :
    ∃ w, s' = { s with withdrawAdjustment := w } := by
  simp only [applyPointsCorrection, pure_eq_ok] at h
  exact ⟨_, h.symm⟩

theorem mint_spec (h : mint caller s recipient amount = .ok s') :
    caller = s.controller ∧ amount ≠ 0 ∧ ∃ b t w,
      b.val = (s.balance recipient).val + amount.val ∧
      t.val = s.totalSupply.val + amount.val ∧
      s' = { s with
        balances := s.balances.save recipient b, totalSupply := t, withdrawAdjustment := w } := by
  simp only [mint, bind_eq_ok, ensure_eq_ok, Uint128.add_eq_ok, pure_eq_ok] at h
  obtain ⟨-, hc, -, ha, s₁, h₁, s₂, h₂, t, ht, rfl⟩ := h
  obtain ⟨b, hb, rfl⟩ := credit_spec h₁
  obtain ⟨w, rfl⟩ := applyPointsCorrection_spec h₂
  exact ⟨hc, ha, b, t, w, hb, ht, rfl⟩

theorem burnFrom_spec (h : burnFrom caller s owner amount = .ok s') :
    caller = s.controller ∧ amount ≠ 0 ∧ ∃ b t w,
      b.val + amount.val = (s.balance owner).val ∧
      t.val + amount.val = s.totalSupply.val ∧
      s' = { s with
        balances := s.balances.save owner b, totalSupply := t, withdrawAdjustment := w } := by
  simp only [burnFrom, bind_eq_ok, ensure_eq_ok, mapError_eq_ok, Uint128.sub_eq_ok,
    pure_eq_ok] at h
  obtain ⟨-, hc, -, ha, s₁, h₁, s₂, h₂, t, ht, rfl⟩ := h
  obtain ⟨b, hb, rfl⟩ := debit_spec h₁
  obtain ⟨w, rfl⟩ := applyPointsCorrection_spec h₂
  exact ⟨hc, ha, b, t, w, hb, ht, rfl⟩

/-- A transfer moves balances and leaves supply and multiplier alone. -/
theorem transferTokens_spec (h : transferTokens s sender recipient amount = .ok s') :
    amount ≠ 0 ∧ ∃ b b' w,
      b.val + amount.val = (s.balance sender).val ∧
      b'.val = (if recipient = sender then b.val else (s.balance recipient).val) + amount.val ∧
      s' = { s with
        balances := (s.balances.save sender b).save recipient b', withdrawAdjustment := w } := by
  simp only [transferTokens, bind_eq_ok, ensure_eq_ok] at h
  obtain ⟨-, ha, s₁, h₁, s₂, h₂, s₃, h₃, h₄⟩ := h
  obtain ⟨b, hb, rfl⟩ := debit_spec h₁
  obtain ⟨w₂, rfl⟩ := applyPointsCorrection_spec h₂
  obtain ⟨b', hb', rfl⟩ := credit_spec h₃
  obtain ⟨w, rfl⟩ := applyPointsCorrection_spec h₄
  refine ⟨ha, b, b', w, hb, ?_, rfl⟩
  rw [hb']
  simp only [State.balance, Map.mayLoad_save]
  split_ifs <;> rfl

theorem transferFrom_spec (h : transferFrom caller s sender recipient amount = .ok s') :
    caller = s.controller ∧ transferTokens s sender recipient amount = .ok s' := by
  simp only [transferFrom, bind_eq_ok, ensure_eq_ok] at h
  obtain ⟨-, hc, h⟩ := h
  exact ⟨hc, h⟩

theorem transferBaseFrom_spec (h : transferBaseFrom caller s sender recipient amount = .ok s') :
    caller = s.controller ∧ ∃ tokens, baseToToken amount s.multiplier = .ok (ε := Error) tokens ∧
      transferTokens s sender recipient tokens = .ok s' := by
  simp only [transferBaseFrom, bind_eq_ok, ensure_eq_ok] at h
  obtain ⟨-, hc, tokens, ht, h⟩ := h
  exact ⟨hc, tokens, ht, (transferFrom_spec h).2⟩

theorem mintBase_spec (h : mintBase caller s recipient amount = .ok s') :
    ∃ tokens, baseToToken amount s.multiplier = .ok (ε := Error) tokens ∧
      mint caller s recipient tokens = .ok s' := by
  simpa only [mintBase, bind_eq_ok] using h

theorem burnBaseFrom_spec (h : burnBaseFrom caller s owner amount = .ok s') :
    ∃ tokens, baseToToken amount s.multiplier = .ok (ε := Error) tokens ∧
      burnFrom caller s owner tokens = .ok s' := by
  simpa only [burnBaseFrom, bind_eq_ok] using h

theorem rebase_spec {ratio : Decimal} (h : rebase caller s ratio = .ok s') :
    caller = s.controller ∧ ∃ m : Decimal,
      m.atomics.val = s.multiplier.atomics.val * ratio.atomics.val / fractional ∧
      s' = { s with multiplier := m } := by
  simp only [rebase, bind_eq_ok, ensure_eq_ok, Decimal.mul_eq_ok, pure_eq_ok] at h
  obtain ⟨-, hc, m, hm, rfl⟩ := h
  exact ⟨hc, m, hm, rfl⟩

/-- Distributing writes the distribution record only. -/
theorem distribute_spec {q : Querier} {self : Addr} (h : distribute q self s = .ok s') :
    ∃ d, s' = { s with distribution := d } := by
  simp only [distribute, bind_eq_ok, ensure_eq_ok] at h
  obtain ⟨-, -, h⟩ := h
  split_ifs at h
  · cases h
    exact ⟨_, rfl⟩
  · simp only [bind_eq_ok, pure_eq_ok] at h
    obtain ⟨_, _, _, _, _, _, _, _, _, _, rfl⟩ := h
    exact ⟨_, rfl⟩

/-- Withdrawing rewards writes the reward ledger only. -/
theorem withdrawFunds_spec {msgs : List Message} (h : withdrawFunds sender s = .ok (s', msgs)) :
    ∃ d w, s' = { s with distribution := d, withdrawAdjustment := w } := by
  simp only [withdrawFunds, bind_eq_ok] at h
  obtain ⟨token, -, h⟩ := h
  split_ifs at h
  · cases h
    exact ⟨_, _, rfl⟩
  · simp only [bind_eq_ok, pure_eq_ok] at h
    obtain ⟨_, _, _, _, h⟩ := h
    cases h
    exact ⟨_, _, rfl⟩

/-- Without the controller, a message moves the sender's own ctokens or writes the reward
ledger. -/
theorem execute_public {q : Querier} {self : Addr} {msg : ExecuteMsg} {msgs : List Message}
    (h : execute q self sender msg s = .ok (s', msgs)) (hs : sender ≠ s.controller) :
    (∃ recipient amount, (msg = .transfer recipient amount ∨ msg = .send recipient amount) ∧
      transferTokens s sender recipient amount = .ok s') ∨
    ∃ d w, s' = { s with distribution := d, withdrawAdjustment := w } := by
  cases msg <;> simp only [execute, bind_eq_ok, pure_eq_ok, Prod.mk.injEq] at h
  case transfer recipient amount =>
    obtain ⟨_, h, rfl, -⟩ := h
    simp only [transfer, bind_eq_ok] at h
    obtain ⟨-, -, h⟩ := h
    exact .inl ⟨recipient, amount, .inl rfl, h⟩
  case send contract amount =>
    obtain ⟨_, h, rfl, -⟩ := h
    simp only [transfer, bind_eq_ok] at h
    obtain ⟨-, -, h⟩ := h
    exact .inl ⟨contract, amount, .inr rfl, h⟩
  case transferFrom =>
    obtain ⟨_, h, -⟩ := h
    exact absurd (transferFrom_spec h).1 hs
  case transferBaseFrom =>
    obtain ⟨_, h, -⟩ := h
    exact absurd (transferBaseFrom_spec h).1 hs
  case mint =>
    obtain ⟨_, h, -⟩ := h
    exact absurd (mint_spec h).1 hs
  case mintBase =>
    obtain ⟨_, h, -⟩ := h
    obtain ⟨tokens, -, h⟩ := mintBase_spec h
    exact absurd (mint_spec h).1 hs
  case burnFrom =>
    obtain ⟨_, h, -⟩ := h
    exact absurd (burnFrom_spec h).1 hs
  case burnBaseFrom =>
    obtain ⟨_, h, -⟩ := h
    obtain ⟨tokens, -, h⟩ := burnBaseFrom_spec h
    exact absurd (burnFrom_spec h).1 hs
  case rebase =>
    obtain ⟨_, h, -⟩ := h
    exact absurd (rebase_spec h).1 hs
  case distribute =>
    obtain ⟨_, h, rfl, -⟩ := h
    obtain ⟨d, rfl⟩ := distribute_spec h
    exact .inr ⟨d, _, rfl⟩
  case withdrawFunds =>
    exact .inr (withdrawFunds_spec h)

/-- Nobody but the controller changes the supply or the multiplier. -/
theorem execute_frame {q : Querier} {self : Addr} {msg : ExecuteMsg} {msgs : List Message}
    (h : execute q self sender msg s = .ok (s', msgs)) (hs : sender ≠ s.controller) :
    s'.totalSupply = s.totalSupply ∧ s'.multiplier = s.multiplier ∧
      s'.controller = s.controller := by
  rcases execute_public h hs with ⟨recipient, amount, -, h⟩ | ⟨d, w, rfl⟩
  · obtain ⟨-, b, b', w, -, -, rfl⟩ := transferTokens_spec h
    exact ⟨rfl, rfl, rfl⟩
  · exact ⟨rfl, rfl, rfl⟩

end WyndLend.Ctoken
