import WyndLend.Platform.Safety

/-!
# What a liquidation takes

The credit agency values the repaid coins in the common token, and the collateral market
divides that value by a unit price: the price of its token times the liquidation price,
truncated. A collateral ratio below the liquidation price is meant to keep the collateral
that is taken from carrying more credit than the debt that is repaid. It does so exactly
when the truncation of the unit price does not use up the difference.
-/

namespace WyndLend.Platform

open CosmWasm Utils Rebasing CreditAgency

/-- A liquidation by `sender`, with native coins or with tokens that their contract sent. -/
inductive Liquidates : Action → Addr → Addr → Coin → Token → Prop where
  | native {sender account denom amount token} :
    Liquidates (.agency ⟨sender, [(denom, amount)]⟩ (.liquidate account token)) sender account
      ⟨.native denom, amount⟩ token
  | cw20 {contract funds sender account amount token} :
    Liquidates (.agency ⟨contract, funds⟩ (.receive sender amount account token)) sender account
      ⟨.cw20 contract, amount⟩ token

/-- A liquidation that went through: the repayment, and then the transfer of collateral at
the collateral market. -/
structure Seizure (env : Env) (p p' : Platform) (sender account : Addr) (coins : Coin)
    (token : Token) where
  debtMarket : Addr
  collateralMarket : Addr
  debtPrice : PriceRate
  /-- The repaid coins, valued in the common token. -/
  value : Coin
  /-- The platform and the collateral market between the two calls. -/
  paid : Platform
  sys : Market.System
  collateralPrice : PriceRate
  /-- The collateral price times the liquidation price. -/
  unit : Decimal
  /-- The collateral that is taken, in base tokens. -/
  moved : Uint128
  settled : Market.System
  left : Market.System
  debt : Query.market p.agency coins.denom = .ok debtMarket
  collateral : Query.market p.agency token = .ok collateralMarket
  priced : (p.querier env).priceMarketLocalPerCommon debtMarket = .ok debtPrice
  valued : coinTimesPriceRate coins debtPrice = .ok value
  repaid : repayTo env debtMarket coins account p = .ok paid
  found : paid.markets.mayLoad collateralMarket = some sys
  collateralPriced : Market.Query.priceMarketLocalPerCommon (sys.querier (paid.marketEnv env))
    sys.market = .ok collateralPrice
  unitPrice : collateralPrice.rateSellPerBuy.mul p.agency.config.liquidationPrice =
    .ok (ε := Market.Error) unit
  divided : Market.CrUtils.divide value.amount unit .zeroPrice = .ok moved
  settles : Market.System.settle (paid.marketEnv env) sys = .ok settled
  applied : Market.System.Op.apply settled (.transferFrom account sender moved) = .ok left
  after : p' = paid.update collateralMarket left [sender]

variable {env : Env} {tx : Tx} {p p' : Platform} {sender account : Addr} {coins : Coin}
  {token : Token} {txs : List Tx} {address : Addr} {config : Config}

/-- The collateral market is asked for a transfer and does nothing else. -/
theorem execute_transferFrom {env : Market.Env} {caller source destination : Addr}
    {amount : Uint128} {liquidationPrice : Decimal} {sys sys' : Market.System}
    {entered : List Addr}
    (h : sys.execute env ⟨caller, []⟩
      (.transferFrom source destination amount liquidationPrice) = .ok (sys', entered)) :
    ∃ price unit moved settled,
      Market.Query.priceMarketLocalPerCommon (sys.querier env) sys.market = .ok price ∧
      price.rateSellPerBuy.mul liquidationPrice = .ok (ε := Market.Error) unit ∧
      Market.CrUtils.divide amount unit .zeroPrice = .ok moved ∧
      Market.System.settle env sys = .ok settled ∧
      Market.System.Op.apply settled (.transferFrom source destination moved) = .ok sys' ∧
      entered = [destination] := by
  cases Market.System.unfunded_outcome (by simp) h with
  | transferFrom hmsg _ settled price unitPrice value applied =>
    cases hmsg
    exact ⟨_, _, _, _, price, unitPrice, value, settled, applied, rfl⟩
  | _ => grind [Market.ExecuteMsg.plain]

theorem seizure_of_messages {msgs : List Message}
    (hl : CreditAgency.Liquidation (p.querier env) p.agency sender account coins token msgs)
    (hd : deliverAll env msgs p = .ok p') :
    Nonempty (Seizure env p p' sender account coins token) := by
  cases hl with
  | @mk values debtMarket collateralMarket price repaid total excess debt rate collateral worth =>
    obtain ⟨paid, hrepaid, hd⟩ := bind_eq_ok.mp hd
    obtain ⟨q, htransfer, hd⟩ := bind_eq_ok.mp hd
    cases hd
    obtain ⟨sys, left, entered, found, he, hafter⟩ := executeMarket_spec htransfer
    obtain ⟨cp, unit, moved, settled, hprice, hunit, hdiv, hs, ha, rfl⟩ := execute_transferFrom he
    exact ⟨{
      debtMarket := debtMarket
      collateralMarket := collateralMarket
      debtPrice := price
      value := repaid
      paid := paid
      sys := sys
      collateralPrice := cp
      unit := unit
      moved := moved
      settled := settled
      left := left
      debt := debt
      collateral := collateral
      priced := rate
      valued := worth
      repaid := hrepaid
      found := found
      collateralPriced := hprice
      unitPrice := hunit
      divided := hdiv
      settles := hs
      applied := ha
      after := hafter }⟩

/-- Every successful liquidation takes collateral in this way. -/
theorem step_seizure (hl : Liquidates tx.action sender account coins token)
    (h : step tx p = .ok p') : Nonempty (Seizure tx.env p p' sender account coins token) := by
  obtain ⟨env, action⟩ := tx
  cases hl with
  | native =>
    simp only [step, bind_eq_ok, mapError_eq_ok] at h
    obtain ⟨⟨agency, msgs⟩, he, hd⟩ := h
    obtain ⟨rfl, hliquidation⟩ := liquidate_spec he
    exact seizure_of_messages hliquidation hd
  | cw20 =>
    simp only [step, bind_eq_ok, mapError_eq_ok] at h
    obtain ⟨⟨agency, msgs⟩, he, hd⟩ := h
    obtain ⟨rfl, hliquidation⟩ := liquidate_spec he
    exact seizure_of_messages hliquidation hd

namespace Seizure

variable (s : Seizure env p p' sender account coins token)

def ratio : Decimal := s.sys.market.config.collateralRatio

/-- The credit that the taken collateral carried is at most the repaid value, exactly. -/
def WithinRepaid : Prop :=
  (s.moved.val : ℚ) * (s.collateralPrice.rateSellPerBuy.atomics.val / fractional) *
    (s.ratio.atomics.val / fractional) ≤ s.value.amount.val

end Seizure

/-- The truncated unit price is at least the price times the collateral ratio. -/
def UnitCovers (price liquidationPrice ratio : Decimal) : Prop :=
  price.atomics.val * ratio.atomics.val ≤
    price.atomics.val * liquidationPrice.atomics.val / fractional * fractional

/-- Or it is not, and the remainder of the value's division by it makes up for that. -/
def RemainderCovers (value : Uint128) (price liquidationPrice ratio : Decimal) : Prop :=
  let unit := price.atomics.val * liquidationPrice.atomics.val / fractional
  value.val * fractional / unit * (price.atomics.val * ratio.atomics.val - unit * fractional) ≤
    value.val * fractional % unit * fractional

/-- The collateral of a value, weighed by price and ratio, against the value. -/
theorem divide_within_iff {price liquidationPrice ratio unit : Decimal} {value moved : Uint128}
    {e : Market.Error} (hunit : price.mul liquidationPrice = .ok (ε := Market.Error) unit)
    (hdiv : Market.CrUtils.divide value unit e = .ok moved) :
    (moved.val : ℚ) * (price.atomics.val / fractional) * (ratio.atomics.val / fractional) ≤
        value.val ↔
      UnitCovers price liquidationPrice ratio ∨
        RemainderCovers value price liquidationPrice ratio := by
  obtain ⟨-, hne, hmoved⟩ := Market.CrUtils.divide_eq_ok.mp hdiv
  have hunit := Decimal.mul_eq_ok.mp hunit
  have hF : (0 : ℚ) < fractional := by exact_mod_cast fractional_pos
  have hnat : (moved.val : ℚ) * (price.atomics.val / fractional) *
        (ratio.atomics.val / fractional) ≤ value.val ↔
      value.val * fractional / unit.atomics.val * (price.atomics.val * ratio.atomics.val) ≤
        value.val * fractional * fractional := by
    rw [← hmoved, ← Nat.cast_le (α := ℚ)]
    push_cast
    constructor
    · intro h
      have hmul := mul_le_mul_of_nonneg_right h (mul_nonneg hF.le hF.le)
      calc (moved.val : ℚ) * (price.atomics.val * ratio.atomics.val)
          = moved.val * (price.atomics.val / fractional) * (ratio.atomics.val / fractional) *
              (fractional * fractional) := by field_simp
        _ ≤ value.val * (fractional * fractional) := hmul
        _ = value.val * fractional * fractional := by ring
    · intro h
      calc (moved.val : ℚ) * (price.atomics.val / fractional) * (ratio.atomics.val / fractional)
          = moved.val * (price.atomics.val * ratio.atomics.val) / (fractional * fractional) := by
            field_simp
        _ ≤ value.val * fractional * fractional / (fractional * fractional) := by gcongr
        _ = value.val := by field_simp
  rw [hnat, div_mul_le_mul_iff, hunit]
  rfl

/-- A unit price that does not cover a ratio below the liquidation price is so small that it
is a value one can repay. -/
theorem unit_fits {price liquidationPrice ratio unit : Decimal}
    (hratio : ratio < liquidationPrice) (hle : liquidationPrice ≤ Decimal.one)
    (hunit : price.mul liquidationPrice = .ok (ε := Market.Error) unit)
    (hnot : ¬ UnitCovers price liquidationPrice ratio) :
    unit.atomics.val * fractional < 2 ^ 128 := by
  have hatomics := Decimal.mul_eq_ok.mp hunit
  rw [Decimal.lt_def] at hratio
  rw [Decimal.le_def, Decimal.atomics_one] at hle
  unfold UnitCovers at hnot
  rw [← hatomics, not_le] at hnot
  have hgap : price.atomics.val * ratio.atomics.val + price.atomics.val ≤
      price.atomics.val * liquidationPrice.atomics.val := Nat.mul_le_mul_left _ hratio
  have htruncated : price.atomics.val * liquidationPrice.atomics.val <
      unit.atomics.val * fractional + fractional := by
    rw [hatomics]
    exact Nat.lt_div_mul_add fractional_pos
  have hprice : price.atomics.val < fractional := by omega
  have hsmall : unit.atomics.val ≤ price.atomics.val := by
    rw [hatomics]
    exact Nat.div_le_of_le_mul ((Nat.mul_le_mul_left _ hle).trans_eq (Nat.mul_comm _ _))
  unfold fractional at *
  omega

/-- A ratio below the liquidation price keeps every value within only if the unit price
covers the ratio. -/
theorem unitCovers_iff {price liquidationPrice ratio unit : Decimal}
    (hratio : ratio < liquidationPrice) (hle : liquidationPrice ≤ Decimal.one)
    (hunit : price.mul liquidationPrice = .ok (ε := Market.Error) unit)
    (hne : unit.atomics ≠ 0) :
    UnitCovers price liquidationPrice ratio ↔
      ∀ (value moved : Uint128) (e : Market.Error),
        Market.CrUtils.divide value unit e = .ok moved →
        (moved.val : ℚ) * (price.atomics.val / fractional) * (ratio.atomics.val / fractional) ≤
          value.val := by
  constructor
  · intro hcovers value moved e hdiv
    exact (divide_within_iff hunit hdiv).mpr (.inl hcovers)
  · -- The value that is the unit price itself leaves no remainder.
    intro hall
    by_contra hnot
    have hatomics := Decimal.mul_eq_ok.mp hunit
    have hfits := unit_fits hratio hle hunit hnot
    have hpos := Uint128.val_pos.mpr hne
    obtain ⟨moved, hmoved⟩ := Uint128.exists_val (n := fractional) (by decide)
    have hdiv : Market.CrUtils.divide unit.atomics unit .zeroPrice = .ok moved := by
      rw [Market.CrUtils.divide_eq_ok, hmoved, Nat.mul_div_cancel_left _ hpos]
      exact ⟨hfits, hne, rfl⟩
    rcases (divide_within_iff hunit hdiv).mp (hall _ _ _ hdiv) with hcovers | hcovers
    · exact hnot hcovers
    · unfold RemainderCovers at hcovers
      dsimp only at hcovers
      rw [← hatomics, Nat.mul_div_cancel_left _ hpos, Nat.mul_mod_right, Nat.zero_mul] at hcovers
      rcases Nat.mul_eq_zero.mp (Nat.le_zero.mp hcovers) with hzero | hzero
      · exact fractional_ne_zero hzero
      · unfold UnitCovers at hnot
        rw [← hatomics] at hnot
        omega

/-- What a successful liquidation takes carries no more credit than the debt that it repays,
if and only if the truncated unit price covers the collateral ratio or the remainder makes up
for it. With a ratio below a liquidation price of at most one, the former is what it takes for
every value. -/
theorem liquidation_within_repaid_iff (hl : Liquidates tx.action sender account coins token)
    (h : step tx p = .ok p') :
    Nonempty (Seizure tx.env p p' sender account coins token) ∧
    ∀ s : Seizure tx.env p p' sender account coins token,
      (s.WithinRepaid ↔
        UnitCovers s.collateralPrice.rateSellPerBuy p.agency.config.liquidationPrice s.ratio ∨
        RemainderCovers s.value.amount s.collateralPrice.rateSellPerBuy
          p.agency.config.liquidationPrice s.ratio) ∧
      (s.ratio < p.agency.config.liquidationPrice →
        p.agency.config.liquidationPrice ≤ Decimal.one →
        (UnitCovers s.collateralPrice.rateSellPerBuy p.agency.config.liquidationPrice s.ratio ↔
          ∀ (value moved : Uint128) (e : Market.Error),
            Market.CrUtils.divide value s.unit e = .ok moved →
            (moved.val : ℚ) * (s.collateralPrice.rateSellPerBuy.atomics.val / fractional) *
              (s.ratio.atomics.val / fractional) ≤ value.val)) := by
  refine ⟨step_seizure hl h, fun s => ⟨divide_within_iff s.unitPrice s.divided, ?_⟩⟩
  intro hratio hle
  exact unitCovers_iff hratio hle s.unitPrice (Market.CrUtils.divide_eq_ok.mp s.divided).2.1

/-! ## Atom at a few units -/

/-- Bob has atom of eighteen decimals at a price of 4 units and owes 700 dollars. -/
def cheapTxs : List Tx :=
  sampleCollateral ⟨4⟩ ⟨600_000_000_000_000_000⟩ Decimal.zero 500_000_000_000_000_000_000 ++
    [sampleBorrow (sampleEnv "" "" ⟨4⟩) 700]

/-- The numbers of Carol's liquidation of Bob at a price, as the contracts compute them. -/
def SampleNumbers (price : Decimal) (p : Platform) : Prop :=
  (Query.market p.agency (.native "usd")).toOption = some "usd market" ∧
  (Query.market p.agency (.native "atom")).toOption = some "atom market" ∧
  p.agency.config.liquidationPrice = ⟨920_000_000_000_000_000⟩ ∧
  (∃ debtPrice ∈ ((p.querier (sampleEnv "" "" price)).priceMarketLocalPerCommon
      "usd market").toOption,
    ∃ value ∈ (coinTimesPriceRate ⟨.native "usd", 1⟩ debtPrice).toOption, value.amount = 1) ∧
  ∃ paid ∈ (repayTo (sampleEnv "" "" price) "usd market" ⟨.native "usd", 1⟩ "bob" p).toOption,
    ∃ sys ∈ paid.markets.mayLoad "atom market",
      sys.market.config.collateralRatio = ⟨600_000_000_000_000_000⟩ ∧
      ∃ rate ∈ (Market.Query.priceMarketLocalPerCommon
          (sys.querier (paid.marketEnv (sampleEnv "" "" price))) sys.market).toOption,
        rate.rateSellPerBuy = price

instance (price : Decimal) : DecidablePred (SampleNumbers price) := fun _ =>
  inferInstanceAs (Decidable (_ ∧ _ ∧ _ ∧ _ ∧ _))

/-- They are the numbers of every seizure in that liquidation. -/
theorem sampleNumbers_seizure {price : Decimal} (hn : SampleNumbers price p)
    (s : Seizure (sampleLiquidation (sampleEnv "" "" price)).env p p' "carol" "bob"
      ⟨.native "usd", 1⟩ (.native "atom")) :
    s.collateralPrice.rateSellPerBuy = price ∧ s.value.amount = 1 ∧
      s.ratio = ⟨600_000_000_000_000_000⟩ := by
  obtain ⟨hdebt, hcollateral, -, ⟨debtPrice, hdp, value, hv, hone⟩, paid, hpaid, sys, hsys, hratio,
    rate, hrate, hprice⟩ := hn
  simp only [Option.mem_def, toOption_eq_some] at hdebt hcollateral hdp hv hpaid hsys hrate
  obtain ⟨dm, cm, dp, v, q, sys', cp, unit, moved, settled, left, debt, collateral, priced, valued,
    repaid, found, collateralPriced, -, -, -, -, -⟩ := s
  cases hdebt.symm.trans debt
  cases hcollateral.symm.trans collateral
  cases hdp.symm.trans priced
  cases hv.symm.trans valued
  cases hpaid.symm.trans repaid
  cases hsys.symm.trans found
  cases hrate.symm.trans collateralPriced
  exact ⟨hprice, hone, hratio⟩

theorem exists_sampleLiquidation (price : Decimal) (txs : List Tx)
    (h : (runAll step (fun _ _ => True) txs (start "agency" sampleConfig)).any (fun p => decide
      (SampleNumbers price p ∧
        (step (sampleLiquidation (sampleEnv "" "" price)) p).toOption.isSome = true)) = true) :
    ∃ p p', Run step (fun _ _ => True) (start "agency" sampleConfig) txs p ∧
      step (sampleLiquidation (sampleEnv "" "" price)) p = .ok p' ∧ SampleNumbers price p := by
  obtain ⟨p, hrun, hn, hs⟩ := exists_run_of_runAll h
  obtain ⟨p', hs⟩ := Option.isSome_iff_exists.mp hs
  exact ⟨p, p', hrun, toOption_eq_some.mp hs, hn⟩

/-- At a price of three quarters of a dollar the unit price is exact. -/
theorem liquidation_within_repaid_iff_example : ∃ p p', Run step (fun _ _ => True)
      (start "agency" sampleConfig)
      (sampleCollateral Decimal.one ⟨600_000_000_000_000_000⟩ Decimal.zero 1_000 ++
        [sampleBorrow (sampleEnv "" "" Decimal.one) 500]) p ∧
    step (sampleLiquidation (sampleEnv "" "" ⟨750_000_000_000_000_000⟩)) p = .ok p' ∧
    ∃ s : Seizure (sampleLiquidation (sampleEnv "" "" ⟨750_000_000_000_000_000⟩)).env p p'
      "carol" "bob" ⟨.native "usd", 1⟩ (.native "atom"), s.WithinRepaid := by
  obtain ⟨p, p', hrun, hs, hn⟩ := exists_sampleLiquidation ⟨750_000_000_000_000_000⟩
    (sampleCollateral Decimal.one ⟨600_000_000_000_000_000⟩ Decimal.zero 1_000 ++
      [sampleBorrow (sampleEnv "" "" Decimal.one) 500]) (by decide +kernel)
  obtain ⟨⟨s⟩, hiff⟩ := liquidation_within_repaid_iff .native hs
  refine ⟨p, p', hrun, hs, s, (hiff s).1.mpr (.inl ?_)⟩
  obtain ⟨hprice, -, hratio⟩ := sampleNumbers_seizure hn s
  rw [hprice, hn.2.2.1, hratio]
  unfold UnitCovers
  decide

/-- A price of 2 units times the liquidation price of 0.92 is truncated to 1 unit, and one
dollar takes atom that is worth two dollars and carried 1.2 dollars of credit. -/
theorem truncated_unit_takes_more : ∃ p p', Run step (fun _ _ => True)
      (start "agency" sampleConfig) cheapTxs p ∧
    step (sampleLiquidation (sampleEnv "" "" ⟨2⟩)) p = .ok p' ∧
    ∃ s : Seizure (sampleLiquidation (sampleEnv "" "" ⟨2⟩)).env p p' "carol" "bob"
      ⟨.native "usd", 1⟩ (.native "atom"),
      s.ratio < p.agency.config.liquidationPrice ∧
      p.agency.config.liquidationPrice ≤ Decimal.one ∧ ¬ s.WithinRepaid := by
  obtain ⟨p, p', hrun, hs, hn⟩ := exists_sampleLiquidation ⟨2⟩ cheapTxs (by decide +kernel)
  obtain ⟨s⟩ := step_seizure .native hs
  obtain ⟨hprice, hvalue, hratio⟩ := sampleNumbers_seizure hn s
  refine ⟨p, p', hrun, hs, s, ?_, ?_, ?_⟩
  · rw [hratio, hn.2.2.1]
    decide
  · rw [hn.2.2.1]
    decide
  · unfold Seizure.WithinRepaid
    rw [divide_within_iff s.unitPrice s.divided, hprice, hvalue, hratio, hn.2.2.1]
    unfold UnitCovers RemainderCovers
    decide

end WyndLend.Platform
