import WyndLend.Utils.Token

/-!
# Credit lines

The credit situation of an account in one market or, summed, in all the markets
it has entered. Responses carry the denom they are expressed in, and a consumer
validates it against the denom it expects before using the values.
-/

namespace WyndLend.Utils

open CosmWasm

/-- The credit line response with the common token denom included. -/
structure CreditLineResponse where
  /-- Total value of C-Tokens in common token. -/
  collateral : Coin
  /-- `collateral * collateral_ratio`. -/
  creditLine : Coin
  /-- `credit_line * borrow_limit_ratio`. -/
  borrowLimit : Coin
  /-- Total value of debt in common token. -/
  debt : Coin
  deriving DecidableEq

/-- The credit line with just the values and no denom included. -/
@[ext] structure CreditLineValues where
  collateral : Uint128
  creditLine : Uint128
  borrowLimit : Uint128
  debt : Uint128
  deriving DecidableEq

structure InvalidCommonTokenDenom where
  expected : Token
  actual : Token
  deriving DecidableEq

/-- All four denoms must be the expected one; the first that is not is reported. -/
def CreditLineResponse.validate (r : CreditLineResponse) (expectedDenom : Token) :
    Except InvalidCommonTokenDenom CreditLineValues := do
  ensure (r.collateral.denom = expectedDenom) ⟨expectedDenom, r.collateral.denom⟩
  ensure (r.creditLine.denom = expectedDenom) ⟨expectedDenom, r.creditLine.denom⟩
  ensure (r.borrowLimit.denom = expectedDenom) ⟨expectedDenom, r.borrowLimit.denom⟩
  ensure (r.debt.denom = expectedDenom) ⟨expectedDenom, r.debt.denom⟩
  return ⟨r.collateral.amount, r.creditLine.amount, r.borrowLimit.amount, r.debt.amount⟩

namespace CreditLineValues

variable {ε : Type} [HasFault ε]

def zero : CreditLineValues := ⟨0, 0, 0, 0⟩

def makeResponse (v : CreditLineValues) (denom : Token) : CreditLineResponse :=
  ⟨denom.amount v.collateral, denom.amount v.creditLine,
    denom.amount v.borrowLimit, denom.amount v.debt⟩

def add (a b : CreditLineValues) : Except ε CreditLineValues := do
  let collateral ← a.collateral.add b.collateral
  let creditLine ← a.creditLine.add b.creditLine
  let borrowLimit ← a.borrowLimit.add b.borrowLimit
  let debt ← a.debt.add b.debt
  return ⟨collateral, creditLine, borrowLimit, debt⟩

/-- `iter().sum()`. -/
def sum (vs : List CreditLineValues) : Except ε CreditLineValues :=
  vs.foldlM add zero

end CreditLineValues

theorem CreditLineResponse.validate_eq_ok {r : CreditLineResponse} {denom : Token}
    {v : CreditLineValues} :
    r.validate denom = .ok v ↔ r = v.makeResponse denom := by
  obtain ⟨⟨d1, a1⟩, ⟨d2, a2⟩, ⟨d3, a3⟩, ⟨d4, a4⟩⟩ := r
  simp only [validate, bind_eq_ok, ensure_eq_ok, pure_eq_ok, CreditLineValues.makeResponse,
    Token.amount, CreditLineResponse.mk.injEq, Coin.mk.injEq, CreditLineValues.ext_iff]
  constructor
  · rintro ⟨-, rfl, -, rfl, -, rfl, -, rfl, rfl, rfl, rfl, rfl⟩
    exact ⟨⟨rfl, rfl⟩, ⟨rfl, rfl⟩, ⟨rfl, rfl⟩, rfl, rfl⟩
  · rintro ⟨⟨rfl, rfl⟩, ⟨h2, rfl⟩, ⟨h3, rfl⟩, h4, rfl⟩
    exact ⟨(), rfl, (), h2, (), h3, (), h4, rfl, rfl, rfl, rfl⟩

/-- A response validates against the denom it was made with. -/
@[simp] theorem CreditLineValues.validate_makeResponse (v : CreditLineValues) (denom : Token) :
    (v.makeResponse denom).validate denom = .ok v :=
  CreditLineResponse.validate_eq_ok.mpr rfl

theorem CreditLineValues.add_eq_ok {ε : Type} [HasFault ε] {a b c : CreditLineValues} :
    (add a b : Except ε _) = .ok c ↔
      c.collateral.val = a.collateral.val + b.collateral.val ∧
      c.creditLine.val = a.creditLine.val + b.creditLine.val ∧
      c.borrowLimit.val = a.borrowLimit.val + b.borrowLimit.val ∧
      c.debt.val = a.debt.val + b.debt.val := by
  simp only [add, bind_eq_ok, Uint128.add_eq_ok, pure_eq_ok]
  constructor
  · rintro ⟨w, hw, x, hx, y, hy, z, hz, rfl⟩
    exact ⟨hw, hx, hy, hz⟩
  · rintro ⟨hw, hx, hy, hz⟩
    exact ⟨_, hw, _, hx, _, hy, _, hz, rfl⟩

/-- Credit lines fail to add up only on an overflow. -/
theorem CreditLineValues.sum_error {ε : Type} [HasFault ε] {vs : List CreditLineValues} {e : ε}
    (h : sum vs = .error e) : e = HasFault.fault .overflow := by
  obtain ⟨a, b, -, h⟩ := foldlM_error h
  simp only [add, bind_eq_error] at h
  obtain h | ⟨_, -, h | ⟨_, -, h | ⟨_, -, h | ⟨_, -, h⟩⟩⟩⟩ := h
  · exact Uint128.add_error h
  · exact Uint128.add_error h
  · exact Uint128.add_error h
  · exact Uint128.add_error h
  · cases h

/-- A sum of credit lines is the sum in each component. -/
theorem CreditLineValues.foldlM_add {ε : Type} [HasFault ε] {vs : List CreditLineValues}
    {a v : CreditLineValues} (h : (vs.foldlM add a : Except ε _) = .ok v) :
    v.collateral.val = a.collateral.val + (vs.map fun x => x.collateral.val).sum ∧
      v.creditLine.val = a.creditLine.val + (vs.map fun x => x.creditLine.val).sum ∧
      v.borrowLimit.val = a.borrowLimit.val + (vs.map fun x => x.borrowLimit.val).sum ∧
      v.debt.val = a.debt.val + (vs.map fun x => x.debt.val).sum := by
  induction vs generalizing a with
  | nil =>
    cases h
    simp
  | cons x vs ih =>
    obtain ⟨b, hb, h⟩ := bind_eq_ok.mp h
    have hb := add_eq_ok.mp hb
    have hv := ih h
    simp only [List.map_cons, List.sum_cons]
    omega

end WyndLend.Utils
