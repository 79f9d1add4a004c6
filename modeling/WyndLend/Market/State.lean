import WyndLend.Utils.Amount
import WyndLend.Utils.CreditLine
import WyndLend.Utils.Interest

/-!
# Storage of the market contract

The configuration record, the debt ledger and the contract's errors. The debt
ledger holds a number of points for each account, the total of the points, and
one multiplier that turns points into base tokens.
-/

namespace WyndLend.Market

open CosmWasm Utils

def secondsInYear : Uint128 := 31_536_000

inductive Error where
  | fault (f : Fault)
  | price (e : PriceError)
  | unauthorized
  | unrecognisedToken (token : Addr)
  | invalidDenom (denom : String)
  /-- Fatal: market token price is zero. -/
  | zeroPrice
  /-- Fatal: market collateral ratio is zero. -/
  | zeroCollateralRatio
  | zeroLiquidationPrice
  | cannotBorrow (amount : Uint128) (account : Addr)
  | cannotWithdraw (account : Addr) (amount : Uint128)
  | liquidationInsufficientDebt (account : Addr) (debt : Uint128)
  /-- The sender must be the market's credit agency. -/
  | requiresCreditAgency
  | invalidCommonTokenDenom (e : InvalidCommonTokenDenom)
  | interest (e : InterestError)
  | depositOverCap (attemptedDeposit ctokenBaseSupply cap : Uint128)
  | requiresExactlyOneCoin
  | estimateHigherThanLimit (estimate sellLimit : Uint128)
  /-- The cw20 variant of `swap_msg` is `unimplemented!()`. -/
  | unimplemented
  /-- A query to another contract failed. -/
  | querier
  deriving DecidableEq

instance : HasFault Error := ⟨.fault⟩

structure Config where
  ctokenContract : Addr
  /-- The contract that controls this contract and is allowed to adjust its parameters. -/
  governanceContract : Addr
  tokenId : ℕ
  /-- Denom for current market. -/
  marketToken : Token
  /-- An optional cap on total number of tokens deposited into the market. -/
  marketCap : Option Uint128
  /-- Interest rate calculation. -/
  rates : ValidatedInterest
  /-- In seconds, as `lastCharged`; both are `u64` in the source and no operation on
  them exceeds the block time. -/
  interestChargePeriod : ℕ
  lastCharged : ℕ
  /-- Denom common amongst markets within same credit agency. -/
  commonToken : Token
  collateralRatio : Decimal
  /-- Maximum percentage of the credit limit that can be borrowed. -/
  borrowLimitRatio : Decimal
  /-- Address of the oracle's contract. -/
  priceOracle : Addr
  /-- Address of the credit agency. -/
  creditAgency : Addr
  reserveFactor : Decimal
  deriving DecidableEq

/-! ## The debt ledger -/

namespace Debt

structure DebtInfo where
  /-- Total amount of debt. -/
  totalPoints : Uint128
  /-- The multiplier used to convert the `totalPoints` to base tokens. -/
  multiplier : Decimal
  deriving DecidableEq

/-- `DEBT_INFO` and `DEBT`. -/
structure Ledger where
  info : DebtInfo
  debt : Map Addr Uint128

/-- `Decimal::from_ratio(1u128, 100_000u128)`. -/
def initialMultiplier : Decimal := ⟨10_000_000_000_000⟩

example : (Decimal.fromRatio 1 100_000 : Except Error Decimal) = .ok initialMultiplier := by
  decide

/-- `debt::init`, on the empty storage of a new contract. -/
def init : Ledger := ⟨⟨0, initialMultiplier⟩, ∅⟩

namespace Ledger

def points (l : Ledger) (account : Addr) : Uint128 := (l.debt.mayLoad account).getD 0

/-- The sum over all accounts of their points. -/
def sumPoints (l : Ledger) : ℕ := l.debt.sum Uint128.val

end Ledger

/-- The total amount of debt in base tokens, as well as the multiplier. -/
def total (l : Ledger) : Except Error (Uint128 × Decimal) := do
  let total ← tokenToBase l.info.totalPoints l.info.multiplier
  return (total, l.info.multiplier)

/-- The amount of debt in base tokens for the given address. -/
def of (l : Ledger) (address : Addr) : Except Error Uint128 :=
  tokenToBase (l.points address) l.info.multiplier

/-- Changes the multiplier by the given ratio. -/
def rebase (l : Ledger) (ratio : Decimal) : Except Error Ledger := do
  let multiplier ← l.info.multiplier.mul ratio
  return { l with info := { l.info with multiplier } }

/-- `change_amount`. The closure runs first on the total and then on the account;
what it captures is threaded from the first run into the second. -/
def changeAmount {κ : Type} (l : Ledger) (account : Addr)
    (change : Uint128 → Decimal → κ → Except Error (Uint128 × κ)) (captured : κ) :
    Except Error (Ledger × κ) := do
  let (totalPoints, captured) ← change l.info.totalPoints l.info.multiplier captured
  let info := { l.info with totalPoints }
  let (newDebt, captured) ← change (l.points account) info.multiplier captured
  return (⟨info, l.debt.save account newDebt⟩, captured)

/-- Increases the debt by the given amount of base tokens. -/
def increase (l : Ledger) (recipient : Addr) (baseAmount : Uint128) : Except Error Ledger :=
  if baseAmount = 0 then .ok l
  else do
    let (l, _) ← changeAmount l recipient (fun oldAmount multiplier _ => do
      let points ← baseToToken baseAmount multiplier
      return (← oldAmount.add points, ())) ()
    return l

/-- The closure of `decrease`; the captured variable is the surplus. -/
def decreaseChange (baseAmount oldAmount : Uint128) (multiplier : Decimal) (surplus : Uint128) :
    Except Error (Uint128 × Uint128) := do
  let points ← baseToToken baseAmount multiplier
  if oldAmount ≤ points then
    let surplus ← tokenToBase (← points.sub oldAmount) multiplier
    return (0, surplus)
  else
    return (← oldAmount.sub points, surplus)

/-- Decrease the debt by the given amount of base tokens.
Returns the leftover amount of base tokens. -/
def decrease (l : Ledger) (account : Addr) (baseAmount : Uint128) :
    Except Error (Ledger × Uint128) :=
  if baseAmount = 0 then .ok (l, 0)
  else changeAmount l account (decreaseChange baseAmount) 0

end Debt

/-- The contract's storage. `charged` is a history variable that the source does
not store: the sum of the epochs that `chargeInterest` has handed to
`calculateInterest` so far. No handler reads it. -/
structure State where
  config : Config
  debt : Debt.Ledger
  charged : ℕ

end WyndLend.Market
