import WyndLend.CreditAgency.Effects
import WyndLend.Market.Positions

/-!
# The credit agency with its markets

A transaction goes to the credit agency or to one of its markets. The messages it
sends are delivered in order within the transaction: markets enter accounts at the
credit agency, the credit agency instantiates markets and calls them.

Queries see the contracts as they were before the message. Contracts that are no
markets of the platform answer as they like, and so do the oracle and the exchange.
Accounts other than those of the markets are not tracked, so the credit agency is
taken to own whatever it sends.
-/

namespace WyndLend

open CosmWasm Utils

structure Platform where
  /-- The address of the credit agency. -/
  address : Addr
  agency : CreditAgency.State
  /-- The markets that the credit agency has instantiated, by address. -/
  markets : Map Addr Market.System

namespace Platform

/-- The block of a transaction, and what the rest of the chain decides in it. -/
structure Env where
  time : ℕ
  twap (oracle : Addr) (offer ask : Token) : Except Market.Error Oracle.TwapResponse
  simulateReverseSwap (oracle : Addr) (askAmount : Uint128)
    (operations : List Oracle.SwapOperation) : Except Market.Error Uint128
  multiHop (oracle : Addr) : Except Market.Error Addr
  rewardBalance : Uint128
  /-- The answers of contracts that are no markets of the platform. -/
  foreign : CreditAgency.Querier
  /-- The addresses that the contracts of a new market get. -/
  newMarket : Addr
  newCtoken : Addr
  /-- The field of `SwapWithdrawFrom` that the credit agency does not fill in. -/
  sellLimit : Uint128

inductive Error where
  | agency (e : CreditAgency.Error)
  | market (e : Market.System.Error)
  | noContract (address : Addr)
  | addressTaken (address : Addr)

/-! ## Queries between the contracts -/

/-- A market's view of the chain, given the credit agency's answers. -/
def Env.market (env : Env)
    (totalCreditLine : Addr → Addr → Except Market.Error CreditLineResponse) : Market.Env where
  time := env.time
  totalCreditLine := totalCreditLine
  twap := env.twap
  simulateReverseSwap := env.simulateReverseSwap
  multiHop := env.multiHop
  rewardBalance := env.rewardBalance

/-- A market that is asked by the credit agency does not ask back. -/
def Env.leaf (env : Env) : Market.Env := env.market fun _ _ => .error .querier

def querier (p : Platform) (env : Env) : CreditAgency.Querier where
  creditLine market account :=
    match p.markets.mayLoad market with
    | some sys => (Market.Query.creditLine (sys.querier env.leaf) sys.market env.time
        account).mapError fun _ => .querier
    | none => env.foreign.creditLine market account
  priceMarketLocalPerCommon market :=
    match p.markets.mayLoad market with
    | some sys => (Market.Query.priceMarketLocalPerCommon (sys.querier env.leaf)
        sys.market).mapError fun _ => .querier
    | none => env.foreign.priceMarketLocalPerCommon market
  tokensBalance market account :=
    match p.markets.mayLoad market with
    | some sys => (Market.Query.tokensBalance (sys.querier env.leaf) sys.market env.time
        account).mapError fun _ => .querier
    | none => env.foreign.tokensBalance market account
  configuration market :=
    match p.markets.mayLoad market with
    | some sys => (Market.Query.config sys.market env.time).mapError fun _ => .querier
    | none => env.foreign.configuration market

/-- The credit agency's answer to `TotalCreditLine`. -/
def totalCreditLine (p : Platform) (env : Env) (account : Addr) :
    Except CreditAgency.Error CreditLineResponse :=
  CreditAgency.Query.totalCreditLine (p.querier env) p.agency account

/-- What a market sees during a transaction. -/
def marketEnv (p : Platform) (env : Env) : Market.Env :=
  env.market fun creditAgency account =>
    if creditAgency = p.address then (p.totalCreditLine env account).mapError fun _ => .querier
    else .error .querier

/-! ## Transactions -/

def find (p : Platform) (market : Addr) : Except Error Market.System :=
  okOr (p.markets.mayLoad market) (.noContract market)

/-- The market is in a new state, and the accounts have entered it. -/
def update (p : Platform) (market : Addr) (sys : Market.System) (entered : List Addr) : Platform :=
  { p with
    agency := entered.foldl (fun agency account => CreditAgency.enterMarket agency market account)
      p.agency
    markets := p.markets.save market sys }

def executeMarket (env : Env) (market : Addr) (info : Market.MessageInfo) (msg : Market.ExecuteMsg)
    (p : Platform) : Except Error Platform := do
  let sys ← p.find market
  let (sys, entered) ← (sys.execute (p.marketEnv env) info msg).mapError .market
  return p.update market sys entered

/-- `create_repay_to_submessage`: native coins are attached to the message, cw20 tokens
are sent through their own contract. -/
def repayTo (env : Env) (market : Addr) (coin : Coin) (account : Addr) (p : Platform) :
    Except Error Platform :=
  match coin.denom with
  | .native denom =>
    executeMarket env market ⟨p.address, [(denom, coin.amount)]⟩ (.repayTo account) p
  | .cw20 contract =>
    executeMarket env market ⟨contract, []⟩ (.receive p.address coin.amount (.repayTo account)) p

/-- The instantiation of a market, and the reply with its address. -/
def instantiateMarket (env : Env) (replyId : ℕ) (msg : Market.InstantiateMsg) (p : Platform) :
    Except Error Platform := do
  ensure ((p.markets.mayLoad env.newMarket).isNone = true) (.addressTaken env.newMarket)
  let sys ← (Market.System.instantiate p.address env.newMarket env.newCtoken env.time msg).mapError
    .market
  let agency ← (CreditAgency.reply p.agency replyId env.newMarket).mapError .agency
  return { p with agency, markets := p.markets.save env.newMarket sys }

def migrate (market : Addr) (isotonicTokenId : Option ℕ) (p : Platform) :
    Except Error Platform := do
  let sys ← p.find market
  return p.update market { sys with market := Market.migrate sys.market isotonicTokenId } []

/-- Deliver a message of the credit agency. -/
def deliver (env : Env) (p : Platform) : CreditAgency.Message → Except Error Platform
  | .instantiateMarket replyId _ msg => instantiateMarket env replyId msg p
  | .repayTo market coin account => repayTo env market coin account p
  | .transferFrom market source destination amount liquidationPrice =>
    executeMarket env market ⟨p.address, []⟩
      (.transferFrom source destination amount liquidationPrice) p
  | .swapWithdrawFrom market account buy =>
    executeMarket env market ⟨p.address, []⟩ (.swapWithdrawFrom account buy env.sellLimit) p
  | .adjustCommonToken market newToken =>
    executeMarket env market ⟨p.address, []⟩ (.adjustCommonToken newToken) p
  | .migrate market _ isotonicTokenId => migrate market isotonicTokenId p

def deliverAll (env : Env) (msgs : List CreditAgency.Message) (p : Platform) :
    Except Error Platform :=
  msgs.foldlM (deliver env) p

inductive Action where
  | agency (info : Market.MessageInfo) (msg : CreditAgency.ExecuteMsg)
  | market (address : Addr) (info : Market.MessageInfo) (msg : Market.ExecuteMsg)
  /-- A message of anyone to the ctoken contract of a market. -/
  | ctoken (market sender : Addr) (msg : Ctoken.ExecuteMsg)
  /-- A transfer of market tokens to a market. -/
  | donate (market : Addr) (amount : Uint128)

structure Tx where
  env : Env
  action : Action

def step (tx : Tx) (p : Platform) : Except Error Platform :=
  match tx.action with
  | .agency info msg => do
    let (agency, msgs) ←
      (CreditAgency.execute (p.querier tx.env) info msg p.agency).mapError .agency
    deliverAll tx.env msgs { p with agency }
  | .market address info msg => executeMarket tx.env address info msg p
  | .ctoken market sender msg => do
    let sys ← p.find market
    let sys ← (sys.executeCtoken (p.marketEnv tx.env) sender msg).mapError .market
    return p.update market sys []
  | .donate market amount => do
    let sys ← p.find market
    let sys ← (Market.System.step ⟨p.marketEnv tx.env, .donate amount⟩ sys).mapError .market
    return p.update market sys []

/-- The credit agency right after its instantiation. -/
def start (address : Addr) (config : CreditAgency.Config) : Platform :=
  ⟨address, CreditAgency.instantiate config, ∅⟩

end Platform

end WyndLend
