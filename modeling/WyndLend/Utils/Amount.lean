import WyndLend.CosmWasm.Decimal

/-!
# Rebasing conversions

A rebasing ledger stores points and one multiplier. `baseToToken` turns an
amount of base tokens into points, `tokenToBase` turns points into base tokens,
and both truncate.
-/

namespace WyndLend.Utils

open CosmWasm

variable {ε : Type} [HasFault ε]

/-- Converts the given amount of base tokens to the equivalent amount of cTokens.
The 256-bit quotient aborts on a zero multiplier and on a result over 128 bits. -/
def baseToToken (amount : Uint128) (multiplier : Decimal) : Except ε Uint128 :=
  amount.multiplyRatio fractional multiplier.atomics.val

/-- Converts the given amount of cTokens to the equivalent amount of base tokens. -/
def tokenToBase (amount : Uint128) (multiplier : Decimal) : Except ε Uint128 :=
  amount.mulDecimal multiplier

@[simp] theorem baseToToken_eq_ok {a p : Uint128} {m : Decimal} :
    (baseToToken a m : Except ε Uint128) = .ok p ↔
      m.atomics.val ≠ 0 ∧ p.val = a.val * fractional / m.atomics.val :=
  Uint128.multiplyRatio_eq_ok

@[simp] theorem tokenToBase_eq_ok {p a : Uint128} {m : Decimal} :
    (tokenToBase p m : Except ε Uint128) = .ok a ↔
      a.val = p.val * m.atomics.val / fractional :=
  Uint128.mulDecimal_eq_ok

end WyndLend.Utils
