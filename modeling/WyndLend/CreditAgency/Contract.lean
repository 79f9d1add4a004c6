import WyndLend.Market.Contract
import WyndLend.Utils.TokenKey

/-!
# The credit agency

`isotonic-credit-agency` creates markets, keeps for each account the set of markets
it has entered, sums the account's credit over them, and liquidates. A market is
registered in two steps: `createMarket` reserves the token and sends an instantiate
message, and the reply to that message stores the address.
-/

namespace WyndLend.CreditAgency

open CosmWasm Utils

inductive Error where
  | std (e : StdError)
  | fault (f : Fault)
  | price (e : PriceError)
  | coin (e : CoinError)
  | unauthorized
  /-- Collateral ratio must be lower than liquidation price. -/
  | marketCfgCollateralFailure
  | noMarket (denom : String)
  | marketCreating (denom : String)
  | marketAlreadyExists (denom : String)
  | liquidationNotAllowed
  | liquidationOnlyOneDenomRequired
  | invalidCommonTokenDenom (e : InvalidCommonTokenDenom)
  | marketSearchError (market : Addr)
  | notOnMarket (address market : Addr)
  | debtOnMarket (address market : Addr) (debt : Coin)
  | notEnoughCollat (debt creditLine collateral : Uint128)
  | repayingLoanUsingCollateralFailed
  /-- `REPLY_IDS.load` of an unknown id. -/
  | notFound (replyId : ℕ)
  /-- A query to another contract failed. -/
  | querier
  deriving DecidableEq

instance : HasFault Error := ⟨.fault⟩

structure Config where
  /-- The address that controls the credit agency and can set up markets. -/
  govContract : Addr
  isotonicMarketId : ℕ
  isotonicTokenId : ℕ
  /-- Token which would be distributed as reward token to ctoken holders. -/
  rewardToken : Token
  /-- Common token, same for all markets. -/
  commonToken : Token
  /-- Price for collateral in exchange for paying debt during liquidation. -/
  liquidationPrice : Decimal
  /-- Maximum percentage of the credit limit that can be borrowed. -/
  borrowLimitRatio : Decimal
  deriving DecidableEq

/-- Possible states of a market. -/
inductive MarketState where
  | instantiating
  | ready (address : Addr)
  deriving DecidableEq

def MarketState.toAddr : MarketState → Option Addr
  | .instantiating => none
  | .ready address => some address

structure State where
  config : Config
  /-- Which base asset a given instantiating contract will handle. -/
  replyIds : Map ℕ Token
  /-- The next unused reply id, a `u64`. -/
  nextReplyId : ℕ
  markets : Map Token MarketState
  /-- A set of entered markets for each account. -/
  enteredMarkets : Map Addr (BTreeSet Addr)

/-- The markets that the account has entered. -/
def State.entered (s : State) (account : Addr) : BTreeSet Addr :=
  (s.enteredMarkets.mayLoad account).getD ∅

/-- The answers of the contract at an address to queries for a market. -/
structure Querier where
  creditLine (market account : Addr) : Except Error CreditLineResponse
  priceMarketLocalPerCommon (market : Addr) : Except Error PriceRate
  tokensBalance (market account : Addr) : Except Error Market.Query.TokensBalance
  configuration (market : Addr) : Except Error Market.Config

structure MarketConfig where
  marketToken : Token
  /-- An optional cap on total number of tokens deposited into the market. -/
  marketCap : Option Uint128
  interestRate : Interest
  /-- Define interest's charged period (in seconds). -/
  interestChargePeriod : ℕ
  /-- Ratio of how much tokens can be borrowed for one unit. -/
  collateralRatio : Decimal
  /-- Address of contract to query for price. -/
  priceOracle : Addr
  /-- The portion of borrower interest that is converted into reserves. -/
  reserveFactor : Decimal

inductive ExecuteMsg where
  | createMarket (cfg : MarketConfig)
  /-- Tries to perform liquidation on the account using collateral's denom. -/
  | liquidate (account : Addr) (collateralDenom : Token)
  /-- Ensures a given account has entered a market. Meant to be called by a specific
  market contract, so the sender of the message would be the market. -/
  | enterMarket (account : Addr)
  | exitMarket (market : Addr)
  | repayWithCollateral (maxCollateral amountToRepay : Coin)
  /-- `Cw20ReceiveMsg` with the only message there is for it, a liquidation. -/
  | receive (sender : Addr) (amount : Uint128) (account : Addr) (collateralDenom : Token)
  | adjustMarketId (newMarketId : ℕ)
  | adjustTokenId (newTokenId : ℕ)
  | adjustCommonToken (newCommonToken : Token)
  | migrateMarket (contract : Addr) (isotonicTokenId : Option ℕ)

/-- Messages the contract sends out. -/
inductive Message where
  /-- Instantiate a market; the reply carries the id. -/
  | instantiateMarket (replyId codeId : ℕ) (msg : Market.InstantiateMsg)
  /-- `RepayTo` with a native coin attached, or with tokens sent through their cw20 contract. -/
  | repayTo (market : Addr) (coin : Coin) (account : Addr)
  | transferFrom (market source destination : Addr) (amount : Uint128)
      (liquidationPrice : Decimal)
  /-- The message has no sell limit here. -/
  | swapWithdrawFrom (market account : Addr) (buy : Coin)
  | adjustCommonToken (market : Addr) (newToken : Token)
  | migrate (market : Addr) (newCodeId : ℕ) (isotonicTokenId : Option ℕ)

def instantiate (config : Config) : State := ⟨config, ∅, 0, ∅, ∅⟩

/-! ## Queries -/

namespace Query

/-- The address of the market of the token. An error if the market does not exist or is
being created. -/
def market (s : State) (marketToken : Token) : Except Error Addr := do
  let state ← okOr (s.markets.mayLoad marketToken) (.noMarket marketToken.denom)
  okOr state.toAddr (.marketCreating marketToken.denom)

/-- The credit line of the account on one market, in the expected denom. -/
def creditLine (q : Querier) (commonToken : Token) (account market : Addr) :
    Except Error CreditLineValues := do
  let response ← q.creditLine market account
  (response.validate commonToken).mapError .invalidCommonTokenDenom

/-- The credit lines of the account on a list of markets, in order. -/
def creditLines (q : Querier) (commonToken : Token) (account : Addr) (markets : List Addr) :
    Except Error (List CreditLineValues) :=
  markets.mapM (creditLine q commonToken account)

/-- Handler for `QueryMsg::TotalCreditLine`. The sum over all markets the account is
participating in. -/
def totalCreditLine (q : Querier) (s : State) (account : Addr) :
    Except Error CreditLineResponse := do
  let values ← creditLines q s.config.commonToken account (s.entered account).toList
  let total ← CreditLineValues.sum values
  return total.makeResponse s.config.commonToken

def maxLimit : ℕ := 30
def defaultLimit : ℕ := 10

structure MarketResponse where
  marketToken : Token
  market : Addr
  deriving DecidableEq

section

-- the storage library reads the two parts of a token's key back
variable (pairFromVec : Bytes → Except StdError (UInt8 × String))

/-- The response for a stored market, if it is ready. -/
def readMarket (m : Bytes × MarketState) : Except StdError (Option MarketResponse) := do
  let marketToken ← Token.fromVec pairFromVec m.1
  return m.2.toAddr.map fun addr => ⟨marketToken, addr⟩

/-- Handler for `QueryMsg::ListMarkets`: a page of the markets that are ready. -/
def listMarkets (s : State) (startAfter : Option Token) (limit : Option ℕ) :
    Except Error (List MarketResponse) :=
  let limit := min (limit.getD defaultLimit) maxLimit
  let start := startAfter.map joinedKey
  let markets := (s.markets.rangeRaw start).filterMap fun m => transpose (readMarket pairFromVec m)
  ((markets.take limit).mapM id).mapError .std

end

/-- Handler for `QueryMsg::ListEnteredMarkets`. -/
def enteredMarkets (s : State) (account : Addr) (startAfter : Option Addr) (limit : Option ℕ) :
    List Addr :=
  let markets := (s.entered account).toList
  let markets := match startAfter with
    | none => markets
    | some start => (markets.dropWhile fun market => market ≠ start).drop 1
  markets.take (limit.getD (2 ^ 32 - 1))

structure LiquidationResponse where
  canLiquidate : Bool
  debt : List (Addr × Coin)
  collateral : List (Addr × Coin)

/-- Handler for `QueryMsg::Liquidation`. Coins of the same denom are compared. -/
def liquidation (q : Querier) (s : State) (account : Addr) :
    Except Error LiquidationResponse := do
  let total ← totalCreditLine q s account
  let data ← (s.entered account).toList.mapM fun market => do
    let balances ← q.tokensBalance market account
    return (market, balances)
  return {
    canLiquidate := total.creditLine.amount < total.debt.amount
    debt := (data.filter fun d => d.2.debt.amount ≠ 0).map fun d => (d.1, d.2.debt)
    collateral :=
      (data.filter fun d => d.2.collateral.amount ≠ 0).map fun d => (d.1, d.2.collateral) }

end Query

/-! ## Handlers -/

/-- The message that instantiates a market under the agency's own configuration. -/
def Config.instantiateMsg (config : Config) (cfg : MarketConfig) : Market.InstantiateMsg where
  distributedToken := config.rewardToken
  tokenId := config.isotonicTokenId
  marketToken := cfg.marketToken
  marketCap := cfg.marketCap
  interestRate := cfg.interestRate
  interestChargePeriod := cfg.interestChargePeriod
  commonToken := config.commonToken
  collateralRatio := cfg.collateralRatio
  priceOracle := cfg.priceOracle
  reserveFactor := cfg.reserveFactor
  govContract := config.govContract
  borrowLimitRatio := config.borrowLimitRatio

/-- The token waits for its market under the next reply id. -/
def State.reserve (s : State) (marketToken : Token) : State :=
  { s with
    markets := s.markets.save marketToken .instantiating
    nextReplyId := s.nextReplyId + 1
    replyIds := s.replyIds.save (s.nextReplyId + 1) marketToken }

/-- Reserve the token and send the instantiate message. -/
def createMarket (s : State) (sender : Addr) (cfg : MarketConfig) :
    Except Error (State × List Message) := do
  ensure (sender = s.config.govContract) .unauthorized
  -- Collateral ratio must be lower than liquidation price, otherwise liquidation could
  -- decrease debt less than it decreases potential credit.
  ensure (cfg.collateralRatio < s.config.liquidationPrice) .marketCfgCollateralFailure
  match s.markets.mayLoad cfg.marketToken with
  | some .instantiating => throw (.marketCreating cfg.marketToken.denom)
  | some (.ready _) => throw (.marketAlreadyExists cfg.marketToken.denom)
  | none =>
    ensure (s.nextReplyId + 1 < 2 ^ 64) (.fault .overflow)
    return (s.reserve cfg.marketToken,
      [.instantiateMarket (s.nextReplyId + 1) s.config.isotonicMarketId
        (s.config.instantiateMsg cfg)])

/-- The liquidation of native or cw20 tokens: the coins repay debt in their market, and
their value is claimed from the collateral. -/
def liquidate (q : Querier) (s : State) (sender account : Addr) (coins : Coin)
    (collateralDenom : Token) : Except Error (State × List Message) := do
  let cfg := s.config
  -- assert that given account actually has more debt than credit
  let response ← Query.totalCreditLine q s account
  let total ← (response.validate cfg.commonToken).mapError .invalidCommonTokenDenom
  ensure (total.creditLine < total.debt) .liquidationNotAllowed
  let debtMarket ← Query.market s coins.denom
  let price ← q.priceMarketLocalPerCommon debtMarket
  let collateralMarket ← Query.market s collateralDenom
  let repaid ← (coinTimesPriceRate coins price).mapError .price
  return (s, [.repayTo debtMarket coins account,
    .transferFrom collateralMarket account sender repaid.amount cfg.liquidationPrice])

/-- Whoever calls this is taken for a market. -/
def enterMarket (s : State) (sender account : Addr) : State :=
  { s with enteredMarkets := s.enteredMarkets.save account ((s.entered account).insert sender) }

def exitMarket (q : Querier) (s : State) (sender market : Addr) :
    Except Error (State × List Message) := do
  let commonToken := s.config.commonToken
  let markets := s.entered sender
  ensure (market ∈ markets) (.notOnMarket sender market)
  let marketCreditLine ← q.creditLine market sender
  ensure (marketCreditLine.debt.amount = 0) (.debtOnMarket sender market marketCreditLine.debt)
  -- the reduced credit line is without this market
  let markets := markets.remove market
  let values ← Query.creditLines q commonToken sender markets.toList
  let reduced ← CreditLineValues.sum values
  ensure (reduced.debt ≤ reduced.creditLine)
    (.notEnoughCollat reduced.debt reduced.creditLine reduced.collateral)
  return ({ s with enteredMarkets := s.enteredMarkets.save sender markets }, [])

/-- Repay a part of a debt with collateral that is sold on the exchange. All coins that
are compared are in the common token. -/
def repayWithCollateral (q : Querier) (s : State) (sender : Addr)
    (maxCollateral amountToRepay : Coin) : Except Error (State × List Message) := do
  let collateralMarket ← Query.market s maxCollateral.denom
  let debtMarket ← Query.market s amountToRepay.denom
  let markets := s.entered sender
  ensure (collateralMarket ∈ markets) (.notOnMarket sender collateralMarket)
  ensure (debtMarket ∈ markets) (.notOnMarket sender debtMarket)
  let tcr ← Query.totalCreditLine q s sender
  let cfg := s.config
  let collateralMarketCfg ← q.configuration collateralMarket
  let collateralRate ← q.priceMarketLocalPerCommon collateralMarket
  let collateral ← maxCollateral.amount.mulDecimal collateralRate.rateSellPerBuy
  let debtRate ← q.priceMarketLocalPerCommon debtMarket
  let repaid ← amountToRepay.amount.mulDecimal debtRate.rateSellPerBuy
  let credit ← collateral.mulDecimal collateralMarketCfg.collateralRatio
  let simulatedCreditLine ←
    (tcr.creditLine.checkedSub (cfg.commonToken.amount credit)).mapError .coin
  let simulatedDebt ← (tcr.debt.checkedSub (cfg.commonToken.amount repaid)).mapError .coin
  ensure (simulatedDebt.amount ≤ simulatedCreditLine.amount) .repayingLoanUsingCollateralFailed
  return (s, [.swapWithdrawFrom collateralMarket sender amountToRepay,
    .repayTo debtMarket amountToRepay sender])

namespace Restricted

/-- Governance replaces some part of the configuration. -/
def adjust (s : State) (sender : Addr) (change : Config → Config) : Except Error State := do
  ensure (s.config.govContract = sender) .unauthorized
  return { s with config := change s.config }

def adjustMarketId (s : State) (sender : Addr) (newMarketId : ℕ) :
    Except Error (State × List Message) := do
  return (← adjust s sender fun cfg => { cfg with isotonicMarketId := newMarketId }, [])

def adjustTokenId (s : State) (sender : Addr) (newTokenId : ℕ) :
    Except Error (State × List Message) := do
  return (← adjust s sender fun cfg => { cfg with isotonicTokenId := newTokenId }, [])

/-- The new common token is sent to all registered markets. -/
def adjustCommonToken (s : State) (sender : Addr) (newCommonToken : Token) :
    Except Error (State × List Message) := do
  let s ← adjust s sender fun cfg => { cfg with commonToken := newCommonToken }
  return (s, (s.markets.range.filterMap fun e => e.2.toAddr).map fun market =>
    .adjustCommonToken market newCommonToken)

def findMarket (s : State) (market : Addr) : Bool :=
  s.markets.range.any fun e => e.2 = .ready market

def migrateMarket (s : State) (sender contract : Addr) (isotonicTokenId : Option ℕ) :
    Except Error (State × List Message) := do
  ensure (s.config.govContract = sender) .unauthorized
  ensure (findMarket s contract = true) (.marketSearchError contract)
  return (s, [.migrate contract s.config.isotonicMarketId isotonicTokenId])

end Restricted

/-- Execution entry point. -/
def execute (q : Querier) (info : Market.MessageInfo) (msg : ExecuteMsg) (s : State) :
    Except Error (State × List Message) :=
  match msg with
  | .createMarket cfg => createMarket s info.sender cfg
  | .liquidate account collateralDenom =>
    -- assert that only one native denom was sent
    match info.funds with
    | [(denom, amount)] => liquidate q s info.sender account ⟨.native denom, amount⟩ collateralDenom
    | _ => .error .liquidationOnlyOneDenomRequired
  | .enterMarket account => .ok (enterMarket s info.sender account, [])
  | .exitMarket market => exitMarket q s info.sender market
  | .repayWithCollateral maxCollateral amountToRepay =>
    repayWithCollateral q s info.sender maxCollateral amountToRepay
  | .receive sender amount account collateralDenom =>
    liquidate q s sender account ⟨.cw20 info.sender, amount⟩ collateralDenom
  | .adjustMarketId newMarketId => Restricted.adjustMarketId s info.sender newMarketId
  | .adjustTokenId newTokenId => Restricted.adjustTokenId s info.sender newTokenId
  | .adjustCommonToken newCommonToken =>
    Restricted.adjustCommonToken s info.sender newCommonToken
  | .migrateMarket contract isotonicTokenId =>
    Restricted.migrateMarket s info.sender contract isotonicTokenId

/-- `handle_market_instantiation_response`. -/
def reply (s : State) (id : ℕ) (contractAddress : Addr) : Except Error State := do
  let marketToken ← okOr (s.replyIds.mayLoad id) (.notFound id)
  return { s with markets := s.markets.save marketToken (.ready contractAddress) }

end WyndLend.CreditAgency
