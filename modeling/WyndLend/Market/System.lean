import WyndLend.CosmWasm.Run
import WyndLend.Ctoken.Effects
import WyndLend.Market.Effects

/-!
# A market with its ctokens and its funds

The market contract, the ctoken contract it controls and the market tokens in its
account. A transaction credits the attached tokens, runs the handler and delivers
the messages it sent, in order; if any part aborts, nothing happens.

Everything else on the chain is an `Env` that answers the queries of one
transaction. Nothing is assumed about it.
-/

namespace WyndLend.Market

open CosmWasm Utils

/-- What the two contracts hold besides the market's storage. -/
structure Holdings where
  ctoken : Ctoken.State
  /-- Market tokens in the account of the market contract. -/
  cash : Uint128

structure System extends Holdings where
  /-- The address of the market contract. -/
  address : Addr
  market : State
  /-- The time of the block that the last transaction was in. -/
  time : ℕ

/-- The block of a transaction, and what other contracts answer in it. -/
structure Env where
  time : ℕ
  totalCreditLine (creditAgency account : Addr) : Except Error CreditLineResponse
  twap (oracle : Addr) (offer ask : Token) : Except Error Oracle.TwapResponse
  simulateReverseSwap (oracle : Addr) (askAmount : Uint128)
    (operations : List Oracle.SwapOperation) : Except Error Uint128
  multiHop (oracle : Addr) : Except Error Addr
  /-- The reward tokens in the account of the ctoken contract. -/
  rewardBalance : Uint128

inductive System.Error where
  | fault (f : Fault)
  | market (e : Market.Error)
  | ctoken (e : Ctoken.Error)
  /-- The account does not hold the tokens it is to send. -/
  | insufficientFunds
  deriving DecidableEq

instance : HasFault System.Error := ⟨.fault⟩

namespace System

def querier (sys : System) (env : Env) : Querier where
  ctoken := sys.ctoken
  totalCreditLine := env.totalCreditLine
  twap := env.twap
  simulateReverseSwap := env.simulateReverseSwap
  multiHop := env.multiHop
  ownBalance := sys.cash

/-- The controller's answer to the ctoken contract. -/
def ctokenQuerier (sys : System) (env : Env) : Ctoken.Querier where
  transferableAmount controller token account :=
    if controller = sys.address then
      (Query.transferableAmount (sys.querier env) sys.market token account).mapError
        fun _ => .querier
    else .error .querier
  balance _ _ := env.rewardBalance

end System

/-! ## Delivering messages -/

/-- Market tokens leave the account of the market. -/
def Holdings.pay (h : Holdings) (amount : Uint128) : Except System.Error Holdings := do
  ensure (amount ≤ h.cash) .insufficientFunds
  let cash ← h.cash.sub amount
  return { h with cash }

/-- Market tokens arrive in the account of the market. -/
def Holdings.receive (h : Holdings) (amount : Uint128) : Except System.Error Holdings := do
  let cash ← h.cash.add amount
  return { h with cash }

/-- The handlers that the market calls query no other contract. -/
def silent : Ctoken.Querier := ⟨fun _ _ _ => .error .querier, fun _ _ => 0⟩

def Holdings.callCtoken (h : Holdings) (caller contract : Addr) (msg : Ctoken.ExecuteMsg) :
    Except System.Error Holdings := do
  let (ctoken, _) ← (Ctoken.execute silent contract caller msg h.ctoken).mapError .ctoken
  return { h with ctoken }

/-- Deliver a message of the market at `self`. Entering a market is up to the credit
agency; tokens other than the market token are not in these holdings. -/
def deliver (self : Addr) (marketToken : Token) (h : Holdings) :
    Message → Except System.Error Holdings
  | .ctoken contract msg => h.callCtoken self contract msg
  | .enterMarket _ _ => .ok h
  | .send token _ amount => if token = marketToken then h.pay amount else .ok h
  | .swap _ _ _ funds => if funds.denom = marketToken then h.pay funds.amount else .ok h

def deliverAll (self : Addr) (marketToken : Token) (msgs : List Message) (h : Holdings) :
    Except System.Error Holdings :=
  msgs.foldlM (deliver self marketToken) h

/-- The accounts that the credit agency is told to enter in the market. -/
def enteredAccounts (msgs : List Message) : List Addr :=
  msgs.filterMap fun msg =>
    match msg with
    | .enterMarket _ account => some account
    | _ => none

/-- The market tokens that come with a message: attached native coins, or the
tokens that the market token's own cw20 contract reports. -/
def received (marketToken : Token) (info : MessageInfo) (msg : ExecuteMsg) :
    Except System.Error Uint128 :=
  match marketToken, msg with
  | .native denom, _ =>
    (info.funds.filter fun c => c.1 = denom).foldlM (fun sum c => sum.add c.2) 0
  | .cw20 contract, .receive _ amount _ => .ok (if info.sender = contract then amount else 0)
  | .cw20 _, _ => .ok 0

namespace System

/-! ## Transactions -/

/-- A message to the market. The accounts to enter are returned for the credit agency. -/
def execute (env : Env) (info : MessageInfo) (msg : ExecuteMsg) (sys : System) :
    Except Error (System × List Addr) := do
  let funds ← received sys.market.config.marketToken info msg
  let holdings ← sys.receive funds
  let before : System := { sys with toHoldings := holdings }
  let (market, msgs) ← (Market.execute (before.querier env) env.time info msg sys.market).mapError
    .market
  let holdings ← deliverAll sys.address sys.market.config.marketToken msgs holdings
  return ({ sys with toHoldings := holdings, market, time := env.time }, enteredAccounts msgs)

/-- A message of anyone to the ctoken contract. -/
def executeCtoken (env : Env) (sender : Addr) (msg : Ctoken.ExecuteMsg) (sys : System) :
    Except Error System := do
  let (ctoken, _) ← (Ctoken.execute (sys.ctokenQuerier env) sys.market.config.ctokenContract
    sender msg sys.ctoken).mapError .ctoken
  return { sys with ctoken, time := env.time }

inductive Action where
  | execute (info : MessageInfo) (msg : ExecuteMsg)
  | ctoken (sender : Addr) (msg : Ctoken.ExecuteMsg)
  /-- A transfer of market tokens to the market contract. -/
  | donate (amount : Uint128)

structure Tx where
  env : Env
  action : Action

def step (tx : Tx) (sys : System) : Except Error System :=
  match tx.action with
  | .execute info msg => do
    let (sys, _) ← execute tx.env info msg sys
    return sys
  | .ctoken sender msg => executeCtoken tx.env sender msg sys
  | .donate amount => do
    let holdings ← sys.receive amount
    return { sys with toHoldings := holdings, time := tx.env.time }

/-- A market at `address` after its instantiation by `sender`, which instantiates
the ctoken contract at `ctokenContract`. -/
def instantiate (sender address ctokenContract : Addr) (time : ℕ) (msg : InstantiateMsg) :
    Except Error System := do
  let market ← (Market.instantiate sender time msg).mapError .market
  return { ctoken := Ctoken.instantiate address msg.distributedToken
           cash := 0
           address
           market := tokenInstantiateReply market ctokenContract
           time }

end System

end WyndLend.Market
