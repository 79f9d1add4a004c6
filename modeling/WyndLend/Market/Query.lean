import WyndLend.Market.Interest
import WyndLend.Oracle.Contract

/-!
# Queries of the market contract

The answers the market gives about an account or about itself, and the helpers
of `cr_utils` that decide how much an account may borrow or withdraw. Amounts of
the common token are turned into amounts of the market token by dividing by the
price.
-/

namespace WyndLend.Market

open CosmWasm Utils

/-- What the contract learns from the rest of the chain. -/
structure Querier where
  /-- The ctoken contract, for its token info and balances. -/
  ctoken : Ctoken.State
  /-- The credit agency's answer to `TotalCreditLine`. -/
  totalCreditLine (creditAgency account : Addr) : Except Error CreditLineResponse
  /-- The oracle's answers to `Twap`, `SimulateReverseSwapOperations` and `Config`. -/
  twap (oracle : Addr) (offer ask : Token) : Except Error Oracle.TwapResponse
  simulateReverseSwap (oracle : Addr) (askAmount : Uint128)
    (operations : List Oracle.SwapOperation) : Except Error Uint128
  multiHop (oracle : Addr) : Except Error Addr
  /-- `Token::query_balance` of the market token, for the contract itself. -/
  ownBalance : Uint128

namespace Query

/-- Returns the ratio of the twap of the market token over the common token. -/
def priceMarketLocalPerCommon (q : Querier) (s : State) : Except Error PriceRate :=
  let cfg := s.config
  if cfg.commonToken = cfg.marketToken then
    .ok ⟨cfg.commonToken, cfg.marketToken, Decimal.one⟩
  else do
    let priceResponse ← q.twap cfg.priceOracle cfg.marketToken cfg.commonToken
    return ⟨cfg.commonToken, cfg.marketToken, priceResponse.aPerB⟩

end Query

/-! ## Available credit line helpers -/

namespace CrUtils

/-- The product with the denominator aborts on overflow; `onZero` is the error a
caller makes of a division by zero. -/
def divide (top : Uint128) (bottom : Decimal) (onZero : Error) : Except Error Uint128 := do
  let scaled ← top.mul Decimal.one.atomics
  ensure (bottom.atomics ≠ 0) onZero
  scaled.div bottom.atomics

/-- Price is defined as common/local. -/
def availableLocalTokens (q : Querier) (s : State) (commonTokens : Uint128) :
    Except Error Uint128 := do
  let price ← Query.priceMarketLocalPerCommon q s
  divide commonTokens price.rateSellPerBuy .zeroPrice

/-- The validated answer of the credit agency. -/
def queryCredit (q : Querier) (s : State) (account : Addr) : Except Error CreditLineValues := do
  let credit ← q.totalCreditLine s.config.creditAgency account
  (credit.validate s.config.commonToken).mapError .invalidCommonTokenDenom

/-- Returns how many market tokens it is possible to borrow given a `CreditLineValues`. -/
def queryBorrowableTokensWithCreditvalues (q : Querier) (s : State) (credit : CreditLineValues) :
    Except Error Uint128 :=
  availableLocalTokens q s (credit.borrowLimit.saturatingSub credit.debt)

/-- Returns the amount of local tokens that can be borrowed. -/
def queryBorrowableTokens (q : Querier) (s : State) (account : Addr) : Except Error Uint128 := do
  let credit ← queryCredit q s account
  queryBorrowableTokensWithCreditvalues q s credit

/-- Helper that determines if an address can borrow the specified amount. -/
def canBorrow (q : Querier) (s : State) (account : Addr) (amount : Uint128) :
    Except Error Bool := do
  let available ← queryBorrowableTokens q s account
  return decide (amount ≤ available)

/-- Helper returning amount of tokens available to transfer/withdraw. Without debt
it is a number of ctokens, with debt a number of base tokens. -/
def transferableAmount (q : Querier) (s : State) (account : Addr) : Except Error Uint128 := do
  let credit ← queryCredit q s account
  let available ← queryBorrowableTokensWithCreditvalues q s credit
  let canTransfer ← divide available s.config.collateralRatio .zeroCollateralRatio
  if credit.debt = 0 then
    let tokens ← baseToToken canTransfer q.ctoken.multiplier
    return max tokens (q.ctoken.balance account)
  else
    return canTransfer

@[simp] theorem divide_eq_ok {top result : Uint128} {bottom : Decimal} {e : Error} :
    divide top bottom e = .ok result ↔
      top.val * fractional < 2 ^ 128 ∧ bottom.atomics ≠ 0 ∧
      result.val = top.val * fractional / bottom.atomics.val := by
  simp only [divide, bind_eq_ok, Uint128.mul_eq_ok, ensure_eq_ok, Uint128.div_eq_ok,
    Decimal.atomics_one]
  constructor
  · rintro ⟨scaled, hs, -, hb, -, hr⟩
    rw [← hs]
    exact ⟨scaled.isLt, hb, hr⟩
  · rintro ⟨hlt, hb, hr⟩
    exact ⟨⟨_, hlt⟩, rfl, (), hb, hb, hr⟩

end CrUtils

namespace Query

/-- `TokensBalanceResponse`. -/
structure TokensBalance where
  collateral : Coin
  debt : Coin
  deriving DecidableEq

structure InterestResponse where
  interest : Decimal
  utilisation : Decimal
  chargePeriod : ℕ
  deriving DecidableEq

structure ApyResponse where
  /-- How much % interest will a borrower have to pay. -/
  borrower : Decimal
  /-- How much % interest will a lender earn. -/
  lender : Decimal
  deriving DecidableEq

/-- Handler for `QueryMsg::Config`. -/
def config (s : State) (time : ℕ) : Except Error Config := do
  let unhandled ← epochsPassed s.config time
  return { s.config with
    lastCharged := s.config.lastCharged + unhandled * s.config.interestChargePeriod }

/-- `amount += amount * ratio`. -/
def accrue (amount : Uint128) (ratio : Decimal) : Except Error Uint128 := do
  let interest ← amount.mulDecimal ratio
  amount.add interest

/-- Collateral and debt of the account in market tokens, with interest simulated
for any periods `chargeInterest` wasn't called for yet. -/
def simulatedBalance (q : Querier) (s : State) (time : ℕ) (account : Addr) :
    Except Error (Uint128 × Uint128) := do
  let collateral ← q.ctoken.baseBalance account
  let debt ← Debt.of s.debt account
  let epochs ← epochsPassed s.config time
  match ← calculateInterest s q.ctoken epochs with
  | none => return (collateral, debt)
  | some update => do
    let collateral ← accrue collateral update.ctokenRatio
    let debt ← accrue debt update.debtRatio
    return (collateral, debt)

/-- Handler for `QueryMsg::TokensBalance`. -/
def tokensBalance (q : Querier) (s : State) (time : ℕ) (account : Addr) :
    Except Error TokensBalance := do
  let (collateral, debt) ← simulatedBalance q s time account
  return ⟨s.config.marketToken.amount collateral, s.config.marketToken.amount debt⟩

/-- Handler for `QueryMsg::TransferableAmount`. -/
def transferableAmount (q : Querier) (s : State) (token account : Addr) :
    Except Error Uint128 := do
  ensure (token = s.config.ctokenContract) (.unrecognisedToken token)
  CrUtils.transferableAmount q s account

/-- Handler for `QueryMsg::Withdrawable`. -/
def withdrawable (q : Querier) (s : State) (account : Addr) : Except Error Coin := do
  let transferable ← CrUtils.transferableAmount q s account
  let ctokenBalance ← q.ctoken.baseBalance account
  let allowedToWithdraw := min transferable ctokenBalance
  return s.config.marketToken.amount (min allowedToWithdraw q.ownBalance)

/-- Handler for `QueryMsg::Borrowable`. -/
def borrowable (q : Querier) (s : State) (account : Addr) : Except Error Coin := do
  let borrowable ← CrUtils.queryBorrowableTokens q s account
  return s.config.marketToken.amount (min borrowable q.ownBalance)

/-- Handler for `QueryMsg::Interest`. -/
def interest (q : Querier) (s : State) : Except Error InterestResponse := do
  let supplied ← q.ctoken.totalSupplyBase
  let (borrowed, _) ← Debt.total s.debt
  let utilisation ← utilisation supplied borrowed
  let interest ← s.config.rates.calculateInterestRate utilisation
  return ⟨interest, utilisation, s.config.interestChargePeriod⟩

/-- Handler for `QueryMsg::CreditLine`.
Returns the debt and credit situation of the `account` after applying interests. -/
def creditLine (q : Querier) (s : State) (time : ℕ) (account : Addr) :
    Except Error CreditLineResponse := do
  let cfg := s.config
  let (collateral, debt) ← simulatedBalance q s time account
  if collateral = 0 ∧ debt = 0 then return CreditLineValues.zero.makeResponse cfg.commonToken
  else
    let priceRatio ← priceMarketLocalPerCommon q s
    let collateral ← (coinTimesPriceRate (cfg.marketToken.amount collateral) priceRatio).mapError
      .price
    let debt ← (coinTimesPriceRate (cfg.marketToken.amount debt) priceRatio).mapError .price
    let creditLine ← collateral.amount.mulDecimal cfg.collateralRatio
    let borrowLimit ← creditLine.mulDecimal cfg.borrowLimitRatio
    return (CreditLineValues.mk collateral.amount creditLine borrowLimit debt.amount).makeResponse
      cfg.commonToken

/-- Handler for `QueryMsg::Reserve`. -/
def reserve (q : Querier) (s : State) (time : ℕ) : Except Error Uint128 := do
  let epochs ← epochsPassed s.config time
  let update ← calculateInterest s q.ctoken epochs
  return (update.map InterestUpdate.reserve).getD 0

/-- Handler for `QueryMsg::Apy`. The number of periods is cast to `u32`. -/
def apy (q : Querier) (s : State) : Except Error ApyResponse := do
  let chargePeriods ← secondsInYear.div (← Uint128.narrow s.config.interestChargePeriod)
  let (borrowed, _) ← Debt.total s.debt
  let supplied ← q.ctoken.totalSupplyBase
  let utilisation ← utilisation supplied borrowed
  let rate ← s.config.rates.calculateInterestRate utilisation
  let growth ← (← Decimal.one.add (← rate.divUint chargePeriods)).checkedPow
    (chargePeriods.val % 2 ^ 32)
  let borrower ← growth.sub Decimal.one
  let lender ← (← borrower.mul utilisation).mul (← Decimal.one.sub s.config.reserveFactor)
  return ⟨borrower, lender⟩

end Query

end WyndLend.Market
