import WyndLend.CosmWasm.Decimal
import WyndLend.CosmWasm.Storage
import Mathlib.Data.Prod.Lex

/-!
# Tokens, coins and prices
-/

namespace WyndLend.Utils

open CosmWasm

/-- Universal token type which is either a native token, or cw20 token. -/
inductive Token where
  | native (denom : String)
  | cw20 (address : Addr)
  deriving DecidableEq, Repr

/-- The address of the cw20 token or the denom of the native one. -/
def Token.denom : Token → String
  | .native denom => denom
  | .cw20 address => address

/-- The derived order: native tokens come before cw20 ones, and each kind is ordered by its
string. -/
def Token.key : Token → ℕ ×ₗ String
  | .native denom => toLex (0, denom)
  | .cw20 address => toLex (1, address)

theorem Token.key_injective : Function.Injective Token.key := by
  rintro (a | a) (b | b) h <;> cases h <;> rfl

instance : LinearOrder Token := LinearOrder.lift' Token.key Token.key_injective

/-- Universal coin type which is either a native coin, or cw20 coin. -/
structure Coin where
  denom : Token
  amount : Uint128
  deriving DecidableEq

inductive CoinError where
  | incorrectDenoms (operation : String) (denom1 denom2 : Token)
  | overflow
  deriving DecidableEq

instance : HasFault CoinError := ⟨fun _ => .overflow⟩

def Coin.checkedSub (a b : Coin) : Except CoinError Coin := do
  ensure (a.denom = b.denom) (.incorrectDenoms "subtraction" a.denom b.denom)
  let amount ← a.amount.sub b.amount
  return ⟨a.denom, amount⟩

/-- `Token::amount` and `Token::into_coin`. -/
def Token.amount (t : Token) (amount : Uint128) : Coin := ⟨t, amount⟩

/-- The price ratio of a sold market token and a bought common token. -/
structure PriceRate where
  buyDenom : Token
  sellDenom : Token
  rateSellPerBuy : Decimal
  deriving DecidableEq

inductive PriceError where
  | fault (f : Fault)
  | mulPrice (incorrect correct : Token)
  deriving DecidableEq

instance : HasFault PriceError := ⟨.fault⟩

/-- Multiplies a coin in the sell denom by the price rate, giving a coin in the
buy denom. Returns an error if the coin has another denom. -/
def coinTimesPriceRate (coin : Coin) (price : PriceRate) : Except PriceError Coin := do
  ensure (coin.denom = price.sellDenom) (.mulPrice coin.denom price.sellDenom)
  let amount ← coin.amount.mulDecimal price.rateSellPerBuy
  return price.buyDenom.amount amount

theorem coinTimesPriceRate_eq_ok {coin c : Coin} {price : PriceRate} :
    coinTimesPriceRate coin price = .ok c ↔
      coin.denom = price.sellDenom ∧ c.denom = price.buyDenom ∧
      c.amount.val = coin.amount.val * price.rateSellPerBuy.atomics.val / fractional := by
  simp only [coinTimesPriceRate, bind_eq_ok, ensure_eq_ok, Uint128.mulDecimal_eq_ok, pure_eq_ok]
  constructor
  · rintro ⟨-, hd, a, ha, rfl⟩
    exact ⟨hd, rfl, ha⟩
  · rintro ⟨hd, hb, ha⟩
    exact ⟨(), hd, c.amount, ha, by cases c; cases hb; rfl⟩

end WyndLend.Utils
