import WyndLend.Utils.Token

/-!
# The oracle contract

`wyndex-oracle` keeps the addresses of liquidity pools and forwards price and
swap queries to them and to the multi-hop contract. An `AssetInfo` of the
exchange is a native denom or a cw20 address, as a `Token` is, and the two are
converted into each other without loss; one type stands for both.
-/

namespace WyndLend.Oracle

open CosmWasm Utils

/-- The time-weighted average prices of a pair contract: `aPerB` is the amount of
asset `a` for one `b`. The pair names its assets in its own order. -/
structure TwapResponse where
  a : Token
  b : Token
  aPerB : Decimal
  bPerA : Decimal
  deriving DecidableEq

inductive SwapOperation where
  | wyndexSwap (offerAssetInfo askAssetInfo : Token)
  deriving DecidableEq

inductive Error where
  | unauthorized
  /-- There is no info about the contract address of the pair. -/
  | noPool (denom1 denom2 : Token)
  /-- A query to another contract failed. -/
  | querier
  deriving DecidableEq

/-- The sample period is an enumeration of the exchange that the oracle only
passes on. -/
structure TwapParams (SamplePeriod : Type) where
  startAge : ℕ
  samplePeriod : SamplePeriod

structure Config (SamplePeriod : Type) where
  controller : Addr
  multiHop : Addr
  twapParams : TwapParams SamplePeriod

/-- The list of all pools the oracle is aware of is keyed by the two denoms in
ascending order. -/
structure State (SamplePeriod : Type) where
  config : Config SamplePeriod
  pools : Map (String × String) Addr

/-- What the oracle learns from the exchange. -/
structure Querier (SamplePeriod : Type) where
  /-- The pair contract's answer to `Twap { duration, start_age, end_age }`. -/
  twap (pool : Addr) (duration : SamplePeriod) (startAge : ℕ) (endAge : Option ℕ) :
    Except Error TwapResponse
  /-- The multi-hop contract's answer; the amount is the one field that is used. -/
  simulateReverseSwap (multiHop : Addr) (askAmount : Uint128) (operations : List SwapOperation) :
    Except Error Uint128

variable {SamplePeriod : Type}

def sortedTuple {α : Type} [LT α] [DecidableLT α] (elem1 elem2 : α) : α × α :=
  if elem1 < elem2 then (elem1, elem2) else (elem2, elem1)

def instantiate (controller multiHop : Addr) (startAge : ℕ) (samplePeriod : SamplePeriod) :
    State SamplePeriod :=
  ⟨⟨controller, multiHop, ⟨startAge, samplePeriod⟩⟩, ∅⟩

/-- Register a liquidity pool for a given trading pair. Only callable by the
controller. The order of denoms doesn't matter. -/
def registerPool (s : State SamplePeriod) (sender pairContract : Addr) (denom1 denom2 : Token) :
    Except Error (State SamplePeriod) := do
  ensure (sender = s.config.controller) .unauthorized
  return { s with pools := s.pools.save (sortedTuple denom1.denom denom2.denom) pairContract }

namespace Query

def poolAddress (s : State SamplePeriod) (denom1 denom2 : Token) : Except Error Addr :=
  okOr (s.pools.mayLoad (sortedTuple denom1.denom denom2.denom)) (.noPool denom1 denom2)

/-- The offer and ask assets select the pool and are not passed on to it. -/
def twap (q : Querier SamplePeriod) (s : State SamplePeriod) (offer ask : Token) (startAge : ℕ)
    (duration : SamplePeriod) : Except Error TwapResponse := do
  let pool ← poolAddress s offer ask
  q.twap pool duration startAge (some 0)

def simulateReverseSwapOperations (q : Querier SamplePeriod) (s : State SamplePeriod)
    (askAmount : Uint128) (operations : List SwapOperation) : Except Error Uint128 :=
  q.simulateReverseSwap s.config.multiHop askAmount operations

end Query

/-- `QueryMsg::Twap`. -/
def queryTwap (q : Querier SamplePeriod) (s : State SamplePeriod) (offer ask : Token) :
    Except Error TwapResponse :=
  Query.twap q s offer ask s.config.twapParams.startAge s.config.twapParams.samplePeriod

end WyndLend.Oracle
