import WyndLend.Market.Clock

/-!
# Credit checks of large positions

`divide` scales by the denominator of a decimal in 128 bits before it divides, where the
conversion of base tokens to ctokens takes a 256-bit product. The credit checks divide
twice, by the price and by the collateral ratio, and return exactly when both scaled
amounts fit.
-/

namespace WyndLend.Market.CrUtils

open CosmWasm Utils

variable {q : Querier} {s : State} {account : Addr} {credit : CreditLineValues}
  {price : PriceRate}

/-- Common tokens that the account may still borrow. -/
def freeCommon (credit : CreditLineValues) : ℕ := credit.borrowLimit.val - credit.debt.val

/-- The market tokens they are worth. -/
def freeLocal (credit : CreditLineValues) (price : PriceRate) : ℕ :=
  freeCommon credit * fractional / price.rateSellPerBuy.atomics.val

/-- The collateral behind a credit line of that many market tokens. -/
def freeCollateral (credit : CreditLineValues) (price : PriceRate) (ratio : Decimal) : ℕ :=
  freeLocal credit price * fractional / ratio.atomics.val

/-- The credit line values of the account and all resulting token amounts fit in 128 bits,
and neither price nor collateral ratio is zero. -/
structure Fitting (q : Querier) (s : State) (account : Addr) (credit : CreditLineValues)
    (price : PriceRate) : Prop where
  answered : queryCredit q s account = .ok credit
  priced : Query.priceMarketLocalPerCommon q s = .ok price
  price_ne : price.rateSellPerBuy.atomics ≠ 0
  ratio_ne : s.config.collateralRatio.atomics ≠ 0
  borrowable : freeLocal credit price < 2 ^ 128
  withdrawable : freeCollateral credit price s.config.collateralRatio < 2 ^ 128
  /-- Without debt the collateral is turned into ctokens. -/
  tokens : credit.debt = 0 → q.ctoken.multiplier.atomics.val ≠ 0 ∧
    freeCollateral credit price s.config.collateralRatio * fractional /
      q.ctoken.multiplier.atomics.val < 2 ^ 128

theorem divide_returns_iff {top : Uint128} {bottom : Decimal} {e : Error}
    (hb : bottom.atomics ≠ 0) (hfit : top.val * fractional / bottom.atomics.val < 2 ^ 128) :
    (∃ result : Uint128, divide top bottom e = .ok result ∧
      result.val = top.val * fractional / bottom.atomics.val) ↔
        top.val * fractional < 2 ^ 128 := by
  constructor
  · rintro ⟨result, h, -⟩
    exact (divide_eq_ok.mp h).1
  · intro hlt
    obtain ⟨result, hval⟩ := Uint128.exists_val hfit
    exact ⟨result, divide_eq_ok.mpr ⟨hlt, hb, hval⟩, hval⟩

/-- What the account may borrow is one division by the price. -/
theorem queryBorrowable_eq_ok (h : Fitting q s account credit price) {amount : Uint128} :
    queryBorrowableTokensWithCreditvalues q s credit = .ok amount ↔
      freeCommon credit * fractional < 2 ^ 128 ∧ amount.val = freeLocal credit price := by
  simp only [queryBorrowableTokensWithCreditvalues, availableLocalTokens, h.priced, bind_eq_ok,
    Except.ok.injEq, exists_eq_left', divide_eq_ok, Uint128.val_saturatingSub]
  constructor
  · rintro ⟨hlt, -, hval⟩
    exact ⟨hlt, hval⟩
  · rintro ⟨hlt, hval⟩
    exact ⟨hlt, h.price_ne, hval⟩

theorem queryBorrowableTokens_returns_iff (h : Fitting q s account credit price) :
    (∃ amount, queryBorrowableTokens q s account = .ok amount) ↔
      freeCommon credit * fractional < 2 ^ 128 := by
  simp only [queryBorrowableTokens, h.answered, bind_eq_ok, Except.ok.injEq, exists_eq_left',
    queryBorrowable_eq_ok h]
  constructor
  · rintro ⟨amount, hlt, -⟩
    exact hlt
  · intro hlt
    obtain ⟨available, hlocal⟩ := Uint128.exists_val h.borrowable
    exact ⟨available, hlt, hlocal⟩

/-- What a transfer and a withdrawal are checked against: without debt a number of ctokens,
with debt a number of base tokens. -/
def allowance (q : Querier) (s : State) (account : Addr) (credit : CreditLineValues)
    (price : PriceRate) : ℕ :=
  if credit.debt = 0 then
    max (freeCollateral credit price s.config.collateralRatio * fractional /
      q.ctoken.multiplier.atomics.val) (q.ctoken.balance account).val
  else freeCollateral credit price s.config.collateralRatio

/-- The amounts before the two divisions fit in 128 bits. -/
structure Scaled (credit : CreditLineValues) (price : PriceRate) : Prop where
  common : freeCommon credit * fractional < 2 ^ 128
  tokens : freeLocal credit price * fractional < 2 ^ 128

/-- The credit line and the price are what they are answered to be. -/
theorem Fitting.unique {credit' : CreditLineValues} {price' : PriceRate}
    (h : Fitting q s account credit price) (h' : Fitting q s account credit' price') :
    credit' = credit ∧ price' = price := by
  refine ⟨?_, ?_⟩
  · cases h.answered.symm.trans h'.answered
    rfl
  · cases h.priced.symm.trans h'.priced
    rfl

theorem allowance_of_debt (h : credit.debt ≠ 0) : allowance q s account credit price =
    freeCollateral credit price s.config.collateralRatio := if_neg h

theorem Fitting.allowance_lt (h : Fitting q s account credit price) :
    allowance q s account credit price < 2 ^ 128 := by
  unfold allowance
  split_ifs with hdebt
  · exact max_lt (h.tokens hdebt).2 (q.ctoken.balance account).isLt
  · exact h.withdrawable

/-- The account may transfer what a second division gives, by the collateral ratio. -/
theorem transferableAmount_eq_ok {amount : Uint128} :
    transferableAmount q s account = .ok amount ↔
      ∃ credit price, Fitting q s account credit price ∧ Scaled credit price ∧
        amount.val = allowance q s account credit price := by
  simp only [transferableAmount, queryBorrowableTokensWithCreditvalues, availableLocalTokens,
    bind_eq_ok, divide_eq_ok, Uint128.val_saturatingSub]
  constructor
  · rintro ⟨credit, answered, available, ⟨price, priced, hcommon, hprice, hlocal⟩, canTransfer,
      ⟨htokens, hratio, hcollateral⟩, h⟩
    have hlocal : available.val = freeLocal credit price := hlocal
    have hcollateral : canTransfer.val =
        freeCollateral credit price s.config.collateralRatio := by
      rw [hcollateral, hlocal]
      rfl
    refine ⟨credit, price, ⟨answered, priced, hprice, hratio, hlocal ▸ available.isLt,
      hcollateral ▸ canTransfer.isLt, ?_⟩, ⟨hcommon, hlocal ▸ htokens⟩, ?_⟩
    · intro hdebt
      rw [if_pos hdebt] at h
      simp only [bind_eq_ok, baseToToken_eq_ok] at h
      obtain ⟨tokens, ⟨hm, hval⟩, -⟩ := h
      rw [hcollateral] at hval
      exact ⟨hm, hval ▸ tokens.isLt⟩
    · unfold allowance
      split_ifs at h ⊢ with hdebt
      · simp only [bind_eq_ok, baseToToken_eq_ok, pure_eq_ok] at h
        obtain ⟨tokens, ⟨-, hval⟩, rfl⟩ := h
        rw [hcollateral] at hval
        rw [← hval]
        exact Uint128.val_max _ _
      · cases h
        exact hcollateral
  · rintro ⟨credit, price, h, ⟨hcommon, htokens⟩, hamount⟩
    obtain ⟨available, hlocal⟩ := Uint128.exists_val h.borrowable
    obtain ⟨canTransfer, hcollateral⟩ := Uint128.exists_val h.withdrawable
    refine ⟨credit, h.answered, available, ⟨price, h.priced, hcommon, h.price_ne, hlocal⟩,
      canTransfer, ⟨hlocal ▸ htokens, h.ratio_ne, ?_⟩, ?_⟩
    · rw [hcollateral, hlocal]
      rfl
    · unfold allowance at hamount
      split_ifs at hamount ⊢ with hdebt
      · obtain ⟨hm, hlt⟩ := h.tokens hdebt
        obtain ⟨tokens, hval⟩ := Uint128.exists_val hlt
        simp only [bind_eq_ok, baseToToken_eq_ok, pure_eq_ok]
        refine ⟨tokens, ⟨hm, by rw [hval, hcollateral]⟩, Uint128.ext ?_⟩
        rw [hamount, ← hval]
        exact Uint128.val_max _ _
      · exact congrArg _ (Uint128.ext (hcollateral.trans hamount.symm))

theorem transferableAmount_returns_iff (h : Fitting q s account credit price) :
    (∃ amount, transferableAmount q s account = .ok amount) ↔
      freeCommon credit * fractional < 2 ^ 128 ∧ freeLocal credit price * fractional < 2 ^ 128 := by
  simp only [transferableAmount_eq_ok]
  constructor
  · rintro ⟨amount, credit', price', h', ⟨hcommon, htokens⟩, -⟩
    obtain ⟨rfl, rfl⟩ := h.unique h'
    exact ⟨hcommon, htokens⟩
  · rintro ⟨hcommon, htokens⟩
    obtain ⟨amount, hval⟩ := Uint128.exists_val h.allowance_lt
    exact ⟨amount, credit, price, h, ⟨hcommon, htokens⟩, hval⟩

/-- The division returns its quotient, and the credit checks of an account whose amounts
all fit return, exactly when the scaled amounts fit in 128 bits as well. -/
theorem credit_checks_return_iff (q : Querier) (s : State) (account : Addr) :
    (∀ (top : Uint128) (bottom : Decimal) (e : Error), bottom.atomics ≠ 0 →
      top.val * fractional / bottom.atomics.val < 2 ^ 128 →
      ((∃ result : Uint128, divide top bottom e = .ok result ∧
        result.val = top.val * fractional / bottom.atomics.val) ↔
          top.val * fractional < 2 ^ 128)) ∧
    ∀ (credit : CreditLineValues) (price : PriceRate), Fitting q s account credit price →
      (((∃ amount, queryBorrowableTokens q s account = .ok amount) ∧
          ∃ amount, transferableAmount q s account = .ok amount) ↔
        freeCommon credit * fractional < 2 ^ 128 ∧
          freeLocal credit price * fractional < 2 ^ 128) := by
  refine ⟨fun top bottom e hb hfit => divide_returns_iff hb hfit, ?_⟩
  intro credit price h
  rw [queryBorrowableTokens_returns_iff h, transferableAmount_returns_iff h]
  exact ⟨fun hboth => hboth.2, fun hscaled => ⟨hscaled.1, hscaled⟩⟩

/-! ## A large lender -/

/-- The chain of the sample market, on which everyone may borrow `limit` common tokens. -/
def lenderQuerier (sys : System) (limit : Uint128) : Querier :=
  { sys.querier (System.sampleEnv 0) with
    totalCreditLine := fun _ _ =>
      .ok ((CreditLineValues.mk limit limit limit 0).makeResponse (.native "juno")) }

/-- 400 tokens of eighteen decimals may be borrowed, at price one and collateral ratio a
half. All amounts are below `2 ^ 87`, and neither check returns. -/
theorem large_credit_aborts : ∃ init credit price, System.sample = .ok init ∧
    Fitting (lenderQuerier init 400_000_000_000_000_000_000) init.market "lender" credit price ∧
    (queryBorrowableTokens (lenderQuerier init 400_000_000_000_000_000_000) init.market
      "lender").toOption = none ∧
    (transferableAmount (lenderQuerier init 400_000_000_000_000_000_000) init.market
      "lender").toOption = none := by
  refine ⟨_, ⟨400_000_000_000_000_000_000, 400_000_000_000_000_000_000,
    400_000_000_000_000_000_000, 0⟩, ⟨.native "juno", .native "atom", Decimal.one⟩, rfl,
    ⟨rfl, rfl, ?_, ?_, ?_, ?_, ?_⟩, rfl, rfl⟩
  all_goals decide

/-- With 300 tokens both return. -/
theorem credit_checks_return_iff_example : ∃ init credit price, System.sample = .ok init ∧
    Fitting (lenderQuerier init 300_000_000_000_000_000_000) init.market "lender" credit price ∧
    (∃ amount, queryBorrowableTokens (lenderQuerier init 300_000_000_000_000_000_000) init.market
      "lender" = .ok amount) ∧
    ∃ amount, transferableAmount (lenderQuerier init 300_000_000_000_000_000_000) init.market
      "lender" = .ok amount := by
  have hfit : ∃ init, System.sample = .ok init ∧
      Fitting (lenderQuerier init 300_000_000_000_000_000_000) init.market "lender"
        ⟨300_000_000_000_000_000_000, 300_000_000_000_000_000_000,
          300_000_000_000_000_000_000, 0⟩ ⟨.native "juno", .native "atom", Decimal.one⟩ := by
    refine ⟨_, rfl, ⟨rfl, rfl, ?_, ?_, ?_, ?_, ?_⟩⟩
    all_goals decide
  obtain ⟨init, hi, hfit⟩ := hfit
  exact ⟨init, _, _, hi, hfit,
    ((credit_checks_return_iff _ _ _).2 _ _ hfit).mpr ⟨by decide, by decide⟩⟩

end WyndLend.Market.CrUtils
