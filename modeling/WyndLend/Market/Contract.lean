import WyndLend.Market.Query

/-!
# The market contract

`isotonic-market`: deposits and withdrawals of the market token, borrowing and
repaying, and the calls reserved to the credit agency and to governance. A
response is the list of messages it sends out, in order: submessages and messages
are executed in the order in which they were added, after the handler.
-/

namespace WyndLend.Market

open CosmWasm Utils

/-- `cosmwasm_std::MessageInfo`; funds are native denoms with amounts. -/
structure MessageInfo where
  sender : Addr
  funds : List (String × Uint128)
  deriving DecidableEq

/-- What a cw20 contract forwards to the market together with tokens. -/
inductive ReceiveMsg where
  | deposit
  | repay
  | repayTo (account : Addr)
  deriving DecidableEq

inductive ExecuteMsg where
  /-- X market_token must be sent along with this message. -/
  | deposit
  | withdraw (amount : Uint128)
  | borrow (amount : Uint128)
  | repay
  | repayTo (account : Addr)
  | transferFrom (source destination : Addr) (amount : Uint128) (liquidationPrice : Decimal)
  | adjustCommonToken (newToken : Token)
  | swapWithdrawFrom (account : Addr) (buy : Coin) (sellLimit : Uint128)
  | adjustCollateralRatio (newRatio : Decimal)
  | adjustReserveFactor (newFactor : Decimal)
  | adjustPriceOracle (newOracle : Addr)
  | adjustMarketCap (newCap : Option Uint128)
  | adjustInterestRates (newInterestRates : Interest)
  /-- `Cw20ReceiveMsg`: the original sender of the tokens and their amount. -/
  | receive (sender : Addr) (amount : Uint128) (msg : ReceiveMsg)
  deriving DecidableEq

/-- Messages the contract sends out. -/
inductive Message where
  | ctoken (contract : Addr) (msg : Ctoken.ExecuteMsg)
  | enterMarket (creditAgency account : Addr)
  | send (token : Token) (recipient : Addr) (amount : Uint128)
  /-- `ExecuteSwapOperations`, with the funds that are sold. -/
  | swap (multiHop : Addr) (operations : List Oracle.SwapOperation) (minimumReceive : Uint128)
      (funds : Coin)
  deriving DecidableEq

structure InstantiateMsg where
  distributedToken : Token
  tokenId : ℕ
  marketToken : Token
  marketCap : Option Uint128
  interestRate : Interest
  interestChargePeriod : ℕ
  commonToken : Token
  collateralRatio : Decimal
  priceOracle : Addr
  reserveFactor : Decimal
  govContract : Addr
  borrowLimitRatio : Decimal

/-- The remainder by a zero period aborts. The contract address of the ctokens is
overwritten in the reply. -/
def instantiate (sender : Addr) (time : ℕ) (msg : InstantiateMsg) : Except Error State := do
  let rates ← msg.interestRate.validate.mapError .interest
  ensure (msg.interestChargePeriod ≠ 0) (.fault .divideByZero)
  let config : Config :=
    { ctokenContract := ""
      governanceContract := msg.govContract
      tokenId := msg.tokenId
      marketToken := msg.marketToken
      marketCap := msg.marketCap
      rates
      interestChargePeriod := msg.interestChargePeriod
      lastCharged := time - time % msg.interestChargePeriod
      commonToken := msg.commonToken
      collateralRatio := msg.collateralRatio
      borrowLimitRatio := msg.borrowLimitRatio
      priceOracle := msg.priceOracle
      creditAgency := sender
      reserveFactor := msg.reserveFactor }
  return ⟨config, Debt.init, 0⟩

/-- `token_instantiate_reply`. -/
def tokenInstantiateReply (s : State) (ctokenContract : Addr) : State :=
  { s with config := { s.config with ctokenContract } }

/-- Checks if `funds` contains only one denom and returns the coin version of it. -/
def requireSingleDenom (funds : List (String × Uint128)) : Except Error Coin :=
  match funds with
  | [(denom, amount)] => .ok ⟨.native denom, amount⟩
  | _ => .error .requiresExactlyOneCoin

/-- Helper struct for the return of `chargeInterest`. -/
structure Ratios where
  messages : List Message
  ctokenRatio : Decimal
  debtRatio : Decimal

def Ratios.unchanged : Ratios := ⟨[], Decimal.one, Decimal.one⟩

/-- The reserve is minted as ctokens to the governance contract, unless it is zero. -/
def mintReserve (cfg : Config) (reserve : Uint128) : List Message :=
  if reserve = 0 then []
  else [.ctoken cfg.ctokenContract (.mintBase cfg.governanceContract reserve)]

/-- Supposed to be called before every mint/burn operation. It adjusts the debt
multiplier and returns at most two messages: one to rebase the ctokens and one to
mint any reserve. -/
def chargeInterest (q : Querier) (time : ℕ) (s : State) : Except Error (State × Ratios) := do
  let epochs ← epochsPassed s.config time
  if epochs = 0 then return (s, Ratios.unchanged)
  else
    let config := { s.config with
      lastCharged := s.config.lastCharged + epochs * s.config.interestChargePeriod }
    let s := { s with config, charged := s.charged + epochs }
    match ← calculateInterest s q.ctoken epochs with
    | none => return (s, Ratios.unchanged)
    | some update =>
      let debtRatio ← update.debtRatio.add Decimal.one
      let debt ← Debt.rebase s.debt debtRatio
      let ctokenRatio ← update.ctokenRatio.add Decimal.one
      return ({ s with debt },
        ⟨.ctoken config.ctokenContract (.rebase ctokenRatio) :: mintReserve config update.reserve,
          ctokenRatio, debtRatio⟩)

/-! ## Handlers -/

/-- Check if funds sent increase total deposit over max cap in terms of base token. -/
def ensureUnderCap (q : Querier) (s : State) (received : Uint128) : Except Error Unit :=
  match s.config.marketCap with
  | none => .ok ()
  | some cap => do
    let ctokenBaseSupply ← q.ctoken.totalSupplyBase
    let supply ← ctokenBaseSupply.add received
    ensure (supply ≤ cap) (.depositOverCap received ctokenBaseSupply cap)

/-- Handler for `ExecuteMsg::Deposit`. The cap is checked against the supply
before interest is charged. -/
def deposit (q : Querier) (time : ℕ) (s : State) (address : Addr) (receivedTokens : Coin) :
    Except Error (State × List Message) := do
  let cfg := s.config
  ensure (receivedTokens.denom = cfg.marketToken) (.invalidDenom cfg.marketToken.denom)
  ensureUnderCap q s receivedTokens.amount
  let (s, charge) ← chargeInterest q time s
  return (s, charge.messages ++
    [.ctoken cfg.ctokenContract (.mintBase address receivedTokens.amount),
      .enterMarket cfg.creditAgency address])

/-- Handler for `ExecuteMsg::Withdraw`. -/
def withdraw (q : Querier) (time : ℕ) (s : State) (sender : Addr) (amount : Uint128) :
    Except Error (State × List Message) := do
  let cfg := s.config
  let transferable ← CrUtils.transferableAmount q s sender
  ensure (amount ≤ transferable) (.cannotWithdraw sender amount)
  let (s, charge) ← chargeInterest q time s
  return (s, charge.messages ++
    [.ctoken cfg.ctokenContract (.burnBaseFrom sender amount),
      .send cfg.marketToken sender amount])

/-- Handler for `ExecuteMsg::Borrow`. -/
def borrow (q : Querier) (time : ℕ) (s : State) (sender : Addr) (amount : Uint128) :
    Except Error (State × List Message) := do
  let cfg := s.config
  let can ← CrUtils.canBorrow q s sender amount
  ensure (can = true) (.cannotBorrow amount sender)
  let (s, charge) ← chargeInterest q time s
  let debt ← Debt.increase s.debt sender amount
  return ({ s with debt }, charge.messages ++
    [.enterMarket cfg.creditAgency sender, .send cfg.marketToken sender amount])

/-- Handler for `ExecuteMsg::Repay`. The surplus is sent back. -/
def repay (q : Querier) (time : ℕ) (s : State) (repayTokens : Coin) (sender : Addr) :
    Except Error (State × List Message) := do
  let cfg := s.config
  ensure (repayTokens.denom = cfg.marketToken) (.invalidDenom cfg.marketToken.denom)
  let (s, charge) ← chargeInterest q time s
  let (debt, sendBack) ← Debt.decrease s.debt sender repayTokens.amount
  return ({ s with debt }, charge.messages ++
    if sendBack = 0 then [] else [.send cfg.marketToken sender sendBack])

/-- Handler for `ExecuteMsg::RepayTo`. Requires the sender to be the credit agency.
The debt is compared before interest is charged. -/
def repayTo (q : Querier) (time : ℕ) (s : State) (sender : Addr) (repayTokens : Coin)
    (account : Addr) : Except Error (State × List Message) := do
  let cfg := s.config
  ensure (cfg.creditAgency = sender) .requiresCreditAgency
  ensure (repayTokens.denom = cfg.marketToken) (.invalidDenom cfg.marketToken.denom)
  let debt ← Debt.of s.debt account
  ensure (repayTokens.amount ≤ debt) (.liquidationInsufficientDebt account debt)
  let (s, charge) ← chargeInterest q time s
  let (debt, _) ← Debt.decrease s.debt account repayTokens.amount
  return ({ s with debt }, charge.messages)

/-- Handler for `ExecuteMsg::TransferFrom`. Requires the sender to be the credit
agency; the amount is in the common denom. -/
def transferFrom (q : Querier) (time : ℕ) (s : State) (sender source destination : Addr)
    (amount : Uint128) (liquidationPrice : Decimal) : Except Error (State × List Message) := do
  let cfg := s.config
  ensure (cfg.creditAgency = sender) .requiresCreditAgency
  let (s, charge) ← chargeInterest q time s
  let price ← Query.priceMarketLocalPerCommon q s
  let repaidValue ← CrUtils.divide amount (← price.rateSellPerBuy.mul liquidationPrice) .zeroPrice
  return (s, charge.messages ++
    [.enterMarket cfg.creditAgency destination,
      .ctoken cfg.ctokenContract (.transferBaseFrom source destination repaidValue)])

def adjustCommonToken (s : State) (sender : Addr) (newToken : Token) :
    Except Error (State × List Message) := do
  ensure (sender = s.config.creditAgency) .unauthorized
  return ({ s with config := { s.config with commonToken := newToken } }, [])

/-- The swaps that lead from the market token to the token to buy. -/
def swapOperations (cfg : Config) (buy : Token) : List Oracle.SwapOperation :=
  if cfg.marketToken = cfg.commonToken then [.wyndexSwap cfg.commonToken buy]
  else if cfg.commonToken = buy then [.wyndexSwap cfg.marketToken buy]
  else [.wyndexSwap cfg.marketToken cfg.commonToken, .wyndexSwap cfg.commonToken buy]

/-- `Token::swap_msg`; a cw20 token is `unimplemented!()`. -/
def swapMsg (token : Token) (multiHop : Addr) (operations : List Oracle.SwapOperation)
    (minimumReceive sellLimit : Uint128) : Except Error Message :=
  match token with
  | .native _ => .ok (.swap multiHop operations minimumReceive (token.amount sellLimit))
  | .cw20 _ => .error .unimplemented

/-- Handler for `ExecuteMsg::SwapWithdrawFrom`. Burns the ctokens that the estimate
is worth and sells `sellLimit`; interest is not charged here. -/
def swapWithdrawFrom (q : Querier) (s : State) (sender account : Addr) (buy : Coin)
    (sellLimit : Uint128) : Except Error (State × List Message) := do
  let cfg := s.config
  ensure (cfg.creditAgency = sender) .requiresCreditAgency
  let sendMsg := Message.send buy.denom sender buy.amount
  -- if swap is between same denoms, only send tokens
  if cfg.marketToken = buy.denom then return (s, [sendMsg])
  else
    let operations := swapOperations cfg buy.denom
    let estimate ← q.simulateReverseSwap cfg.priceOracle buy.amount operations
    ensure (estimate ≤ sellLimit) (.estimateHigherThanLimit estimate sellLimit)
    let tokens ← baseToToken estimate q.ctoken.multiplier
    let multiHop ← q.multiHop cfg.priceOracle
    let swap ← swapMsg cfg.marketToken multiHop operations buy.amount sellLimit
    return (s, [.ctoken cfg.ctokenContract (.burnFrom account tokens), swap, sendMsg])

def receiveCw20Message (q : Querier) (time : ℕ) (s : State) (contract sender : Addr)
    (amount : Uint128) (msg : ReceiveMsg) : Except Error (State × List Message) :=
  match msg with
  | .deposit => deposit q time s sender ⟨.cw20 contract, amount⟩
  | .repay => repay q time s ⟨.cw20 contract, amount⟩ sender
  | .repayTo account => repayTo q time s sender ⟨.cw20 contract, amount⟩ account

/-! ## Calls reserved to governance -/

namespace Restricted

/-- Governance replaces some part of the configuration. -/
def adjust (s : State) (sender : Addr) (change : Config → Config) :
    Except Error (State × List Message) := do
  ensure (s.config.governanceContract = sender) .unauthorized
  return ({ s with config := change s.config }, [])

def adjustCollateralRatio (s : State) (sender : Addr) (newRatio : Decimal) :
    Except Error (State × List Message) :=
  adjust s sender fun cfg => { cfg with collateralRatio := newRatio }

def adjustReserveFactor (s : State) (sender : Addr) (newFactor : Decimal) :
    Except Error (State × List Message) :=
  adjust s sender fun cfg => { cfg with reserveFactor := newFactor }

def adjustPriceOracle (s : State) (sender newOracle : Addr) :
    Except Error (State × List Message) :=
  adjust s sender fun cfg => { cfg with priceOracle := newOracle }

def adjustMarketCap (s : State) (sender : Addr) (newCap : Option Uint128) :
    Except Error (State × List Message) :=
  adjust s sender fun cfg => { cfg with marketCap := newCap }

/-- Interest is charged for the past, and then the configuration that was loaded
before is written back with the new curve. -/
def adjustInterestRates (q : Querier) (time : ℕ) (s : State) (sender : Addr)
    (newInterestRates : Interest) : Except Error (State × List Message) := do
  let cfg := s.config
  ensure (cfg.governanceContract = sender) .unauthorized
  let (s, charge) ← chargeInterest q time s
  let rates ← newInterestRates.validate.mapError .interest
  return ({ s with config := { cfg with rates } }, charge.messages)

end Restricted

/-- Execution entry point. -/
def execute (q : Querier) (time : ℕ) (info : MessageInfo) (msg : ExecuteMsg) (s : State) :
    Except Error (State × List Message) :=
  match msg with
  | .deposit => do
    deposit q time s info.sender (← requireSingleDenom info.funds)
  | .withdraw amount => withdraw q time s info.sender amount
  | .borrow amount => borrow q time s info.sender amount
  | .repay => do
    repay q time s (← requireSingleDenom info.funds) info.sender
  | .repayTo account => do
    repayTo q time s info.sender (← requireSingleDenom info.funds) account
  | .transferFrom source destination amount liquidationPrice => do
    ensure (liquidationPrice ≠ Decimal.zero) .zeroLiquidationPrice
    transferFrom q time s info.sender source destination amount liquidationPrice
  | .adjustCommonToken newToken => adjustCommonToken s info.sender newToken
  | .swapWithdrawFrom account buy sellLimit =>
    swapWithdrawFrom q s info.sender account buy sellLimit
  | .adjustCollateralRatio newRatio => Restricted.adjustCollateralRatio s info.sender newRatio
  | .adjustReserveFactor newFactor => Restricted.adjustReserveFactor s info.sender newFactor
  | .adjustPriceOracle newOracle => Restricted.adjustPriceOracle s info.sender newOracle
  | .adjustMarketCap newCap => Restricted.adjustMarketCap s info.sender newCap
  | .adjustInterestRates newInterestRates =>
    Restricted.adjustInterestRates q time s info.sender newInterestRates
  | .receive sender amount msg => receiveCw20Message q time s info.sender sender amount msg

/-- `migrate`. -/
def migrate (s : State) (isotonicTokenId : Option ℕ) : State :=
  match isotonicTokenId with
  | none => s
  | some tokenId => { s with config := { s.config with tokenId } }

end WyndLend.Market
