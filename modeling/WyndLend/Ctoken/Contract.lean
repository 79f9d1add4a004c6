import WyndLend.CosmWasm.Native
import WyndLend.Utils.Amount
import WyndLend.Utils.Token

/-!
# The ctoken contract

`isotonic-token`: a rebasing token whose controller mints, burns, rebases and
moves it, with a side ledger that distributes rewards to its holders. Balances
and supply are raw token amounts; the multiplier turns them into base tokens.

The points of the side ledger are computed in native `u128` and `i128`, as the
release build does: they wrap, and the message goes on. All results about the
contract are about that build.

Addresses in messages have passed `addr_validate`. Event attributes and the
token's display data are not modelled. A response is the list of messages it
sends out.
-/

namespace WyndLend.Ctoken

open CosmWasm Utils

/-- How many points is the worth of a single token in token distribution. -/
def pointsScale : Uint128 := 4_000_000_000

inductive Error where
  | fault (f : Fault)
  | unauthorized
  /-- Cannot process zero tokens. -/
  | invalidZeroAmount
  | cannotTransfer (maxTransferable : Uint128)
  | insufficientTokens (available needed : Uint128)
  | noHoldersToDistributeTo
  /-- A query to another contract failed. -/
  | querier
  deriving DecidableEq

instance : HasFault Error := ⟨.fault⟩

structure Distribution where
  /-- Token distributed by this contract. -/
  denom : Token
  /-- How much points is a single division of the token worth at this point. -/
  pointsPerToken : Uint128
  /-- Points which were not fully distributed on previous distribution. -/
  pointsLeftover : Uint128
  /-- Total funds distributed by this contract. -/
  distributedTotal : Uint128
  /-- Total funds not yet withdrawn. -/
  withdrawableTotal : Uint128
  deriving DecidableEq

structure WithdrawAdjustment where
  /-- How much points should be added to or removed from calculated funds. -/
  pointsCorrection : Int128
  /-- How much funds was already withdrawn. -/
  withdrawnFunds : Uint128
  deriving DecidableEq, Inhabited

structure State where
  totalSupply : Uint128
  controller : Addr
  balances : Map Addr Uint128
  multiplier : Decimal
  distribution : Distribution
  withdrawAdjustment : Map Addr WithdrawAdjustment

/-- What the contract learns from the rest of the chain. -/
structure Querier where
  /-- The controller's answer to `ControllerQuery::TransferableAmount`. -/
  transferableAmount (controller token account : Addr) : Except Error Uint128
  /-- `Token::query_balance`. -/
  balance (denom : Token) (address : Addr) : Uint128

inductive ExecuteMsg where
  | transfer (recipient : Addr) (amount : Uint128)
  | transferFrom (sender recipient : Addr) (amount : Uint128)
  | transferBaseFrom (sender recipient : Addr) (amount : Uint128)
  | send (contract : Addr) (amount : Uint128)
  | mint (recipient : Addr) (amount : Uint128)
  | mintBase (recipient : Addr) (amount : Uint128)
  | burnFrom (owner : Addr) (amount : Uint128)
  | burnBaseFrom (owner : Addr) (amount : Uint128)
  | rebase (ratio : Decimal)
  | distribute
  | withdrawFunds
  deriving DecidableEq

/-- Messages the contract sends out. -/
inductive Message where
  | sendTokens (coin : Coin) (recipient : Addr)
  /-- `Cw20ReceiveMsg` to the contract the tokens were sent to. -/
  | receive (contract sender : Addr) (amount : Uint128)
  deriving DecidableEq

/-- `Decimal::from_ratio(1u128, 100_000u128)`. -/
def initialMultiplier : Decimal := ⟨10_000_000_000_000⟩

example : (Decimal.fromRatio 1 100_000 : Except Error Decimal) = .ok initialMultiplier := by
  decide

def instantiate (controller : Addr) (distributedToken : Token) : State where
  totalSupply := 0
  controller := controller
  balances := ∅
  multiplier := initialMultiplier
  distribution := ⟨distributedToken, 0, 0, 0, 0⟩
  withdrawAdjustment := ∅

/-! ## Queries -/

namespace State

def balance (s : State) (address : Addr) : Uint128 := (s.balances.mayLoad address).getD 0

variable {ε : Type} [HasFault ε]

/-- The balance in base tokens, `QueryMsg::BaseBalance`. -/
def baseBalance (s : State) (address : Addr) : Except ε Uint128 :=
  tokenToBase (s.balance address) s.multiplier

/-- The total supply, in base tokens: `TokenInfoResponse::total_supply_base`. -/
def totalSupplyBase (s : State) : Except ε Uint128 :=
  tokenToBase s.totalSupply s.multiplier

def adjustment (s : State) (address : Addr) : WithdrawAdjustment :=
  (s.withdrawAdjustment.mayLoad address).getD default

end State

/-- Calculates withdrawable funds from distribution and adjustment info. -/
def withdrawableFunds (s : State) (owner : Addr) : Except Error Coin := do
  let adjustment := s.adjustment owner
  let points := (s.distribution.pointsPerToken.wrappingMul (s.balance owner)).asI128
  let points := points.add adjustment.pointsCorrection
  let amount ← points.asU128.div pointsScale
  let amount := amount.wrappingSub adjustment.withdrawnFunds
  return s.distribution.denom.amount amount

/-! ## Handlers -/

/-- Applies points correction for given address; `diff` is the weight change. -/
def applyPointsCorrection (s : State) (addr : Addr) (ppt : Uint128) (diff : Int128) :
    Except Error State := do
  let old := s.adjustment addr
  let pointsCorrection := old.pointsCorrection.sub (ppt.asI128.mul diff)
  return { s with
    withdrawAdjustment := s.withdrawAdjustment.save addr { old with pointsCorrection } }

/-- `BALANCES.update` with `checked_sub`. -/
def debit (s : State) (owner : Addr) (amount : Uint128) : Except Error State := do
  let balance := s.balance owner
  let rest ← (balance.sub amount).mapError fun (_ : Fault) => .insufficientTokens balance amount
  return { s with balances := s.balances.save owner rest }

/-- `BALANCES.update` with an addition. -/
def credit (s : State) (recipient : Addr) (amount : Uint128) : Except Error State := do
  let balance ← (s.balance recipient).add amount
  return { s with balances := s.balances.save recipient balance }

/-- Ensures that tokens can be transferred from given account. -/
def canTransfer (q : Querier) (self : Addr) (s : State) (account : Addr) (amount : Uint128) :
    Except Error Unit := do
  let transferable ← q.transferableAmount s.controller self account
  ensure (amount ≤ transferable) (.cannotTransfer transferable)

/-- Performs tokens transfer. The recipient is read after the sender is written,
so a transfer to oneself takes and gives back. -/
def transferTokens (s : State) (sender recipient : Addr) (amount : Uint128) :
    Except Error State := do
  ensure (amount ≠ 0) .invalidZeroAmount
  let ppt := s.distribution.pointsPerToken
  let s ← debit s sender amount
  let s ← applyPointsCorrection s sender ppt amount.asI128.neg
  let s ← credit s recipient amount
  applyPointsCorrection s recipient ppt amount.asI128

def transfer (q : Querier) (self sender : Addr) (s : State) (recipient : Addr)
    (amount : Uint128) : Except Error State := do
  canTransfer q self s sender amount
  transferTokens s sender recipient amount

def transferFrom (caller : Addr) (s : State) (sender recipient : Addr) (amount : Uint128) :
    Except Error State := do
  ensure (caller = s.controller) .unauthorized
  transferTokens s sender recipient amount

/-- The `TransferBaseFrom` arm of `execute`; the controller is checked twice. -/
def transferBaseFrom (caller : Addr) (s : State) (sender recipient : Addr) (amount : Uint128) :
    Except Error State := do
  ensure (caller = s.controller) .unauthorized
  let amount ← baseToToken amount s.multiplier
  transferFrom caller s sender recipient amount

def mint (caller : Addr) (s : State) (recipient : Addr) (amount : Uint128) :
    Except Error State := do
  ensure (caller = s.controller) .unauthorized
  ensure (amount ≠ 0) .invalidZeroAmount
  let ppt := s.distribution.pointsPerToken
  let s ← credit s recipient amount
  let s ← applyPointsCorrection s recipient ppt amount.asI128
  let totalSupply ← s.totalSupply.add amount
  return { s with totalSupply }

def mintBase (caller : Addr) (s : State) (recipient : Addr) (amount : Uint128) :
    Except Error State := do
  let amount ← baseToToken amount s.multiplier
  mint caller s recipient amount

def burnFrom (caller : Addr) (s : State) (owner : Addr) (amount : Uint128) :
    Except Error State := do
  ensure (caller = s.controller) .unauthorized
  ensure (amount ≠ 0) .invalidZeroAmount
  let ppt := s.distribution.pointsPerToken
  let s ← debit s owner amount
  let s ← applyPointsCorrection s owner ppt amount.asI128.neg
  let supply := s.totalSupply
  let totalSupply ←
    (supply.sub amount).mapError fun (_ : Fault) => .insufficientTokens supply amount
  return { s with totalSupply }

def burnBaseFrom (caller : Addr) (s : State) (owner : Addr) (amount : Uint128) :
    Except Error State := do
  let amount ← baseToToken amount s.multiplier
  burnFrom caller s owner amount

/-- `multiplier *= ratio`. -/
def rebase (caller : Addr) (s : State) (ratio : Decimal) : Except Error State := do
  ensure (caller = s.controller) .unauthorized
  let multiplier ← s.multiplier.mul ratio
  return { s with multiplier }

/-- Distributes whatever the contract holds above `withdrawable_total`. The
points that do not divide evenly are kept for the next distribution. -/
def distribute (q : Querier) (self : Addr) (s : State) : Except Error State := do
  ensure (s.totalSupply ≠ 0) .noHoldersToDistributeTo
  let d := s.distribution
  let amount := (q.balance d.denom self).wrappingSub d.withdrawableTotal
  if amount = 0 then return s
  else
    let points := (amount.wrappingMul pointsScale).wrappingAdd d.pointsLeftover
    let pointsPerToken ← points.div s.totalSupply
    let pointsLeftover ← points.rem s.totalSupply
    let pointsPerToken ← d.pointsPerToken.add pointsPerToken
    let distributedTotal ← d.distributedTotal.add amount
    let withdrawableTotal ← d.withdrawableTotal.add amount
    return { s with distribution :=
      { d with pointsPerToken, pointsLeftover, distributedTotal, withdrawableTotal } }

def withdrawFunds (sender : Addr) (s : State) : Except Error (State × List Message) := do
  let token ← withdrawableFunds s sender
  if token.amount = 0 then return (s, [])
  else
    let adjustment := s.adjustment sender
    let withdrawnFunds ← adjustment.withdrawnFunds.add token.amount
    let withdrawableTotal ← s.distribution.withdrawableTotal.sub token.amount
    return ({ s with
      withdrawAdjustment := s.withdrawAdjustment.save sender { adjustment with withdrawnFunds }
      distribution := { s.distribution with withdrawableTotal } },
      [.sendTokens token sender])

/-- Execution entry point. -/
def execute (q : Querier) (self sender : Addr) (msg : ExecuteMsg) (s : State) :
    Except Error (State × List Message) :=
  match msg with
  | .transfer recipient amount => do return (← transfer q self sender s recipient amount, [])
  | .transferFrom source recipient amount => do
    return (← transferFrom sender s source recipient amount, [])
  | .transferBaseFrom source recipient amount => do
    return (← transferBaseFrom sender s source recipient amount, [])
  | .send contract amount => do
    return (← transfer q self sender s contract amount, [.receive contract sender amount])
  | .mint recipient amount => do return (← mint sender s recipient amount, [])
  | .mintBase recipient amount => do return (← mintBase sender s recipient amount, [])
  | .burnFrom owner amount => do return (← burnFrom sender s owner amount, [])
  | .burnBaseFrom owner amount => do return (← burnBaseFrom sender s owner amount, [])
  | .rebase ratio => do return (← rebase sender s ratio, [])
  | .distribute => do return (← distribute q self s, [])
  | .withdrawFunds => withdrawFunds sender s

end WyndLend.Ctoken
