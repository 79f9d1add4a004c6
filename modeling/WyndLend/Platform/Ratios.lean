import WyndLend.Platform.Outcome

/-!
# Collateral ratios and the liquidation price

A market is only created with a collateral ratio below the liquidation price of the
credit agency, and the liquidation price never changes. But governance adjusts the
ratio at the market, which does not know the liquidation price.
-/

namespace WyndLend.Platform

open CosmWasm Utils CreditAgency

variable {tx : Tx} {p p' : Platform} {env : Env} {market : Addr} {sys : Market.System}
  {txs : List Tx} {address : Addr} {config : CreditAgency.Config}

def RatiosBelow (p : Platform) : Prop :=
  ∀ market sys, p.markets.mayLoad market = some sys →
    sys.market.config.collateralRatio < p.agency.config.liquidationPrice

/-- The market and the collateral ratio that governance wants it to have. -/
def Action.newRatio : Action → Option (Addr × Decimal)
  | .market market _ (.adjustCollateralRatio newRatio) => some (market, newRatio)
  | _ => none

/-- A collateral ratio is only adjusted to one that the market could be created with. -/
def RatioChecked (p : Platform) (tx : Tx) : Prop :=
  ∀ e ∈ tx.action.newRatio, e.2 < p.agency.config.liquidationPrice

instance (p : Platform) (tx : Tx) : Decidable (RatioChecked p tx) :=
  inferInstanceAs (Decidable (∀ e ∈ tx.action.newRatio, e.2 < p.agency.config.liquidationPrice))

theorem update_ratiosBelow {entered : List Addr} (hi : RatiosBelow p)
    (hnew : sys.market.config.collateralRatio < p.agency.config.liquidationPrice) :
    RatiosBelow (p.update market sys entered) := by
  intro m s hs
  rw [update_registry.1]
  exact forall_save hi hnew m s hs

/-- The credit agency never calls for another ratio. -/
theorem call_ratiosBelow (hi : RatiosBelow p) (h : Call env p p') : RatiosBelow p' := by
  cases h with
  | execute found call executed =>
    refine update_ratiosBelow hi ?_
    rw [(Market.System.execute_keeps executed).collateralRatio call]
    exact hi _ _ found
  | @migrate _ sys isotonicTokenId found =>
    refine update_ratiosBelow hi ?_
    rw [(Market.migrate_frame sys.market isotonicTokenId).2.2]
    exact hi _ _ found

theorem step_ratiosBelow (hi : RatiosBelow p) (hg : RatioChecked p tx) (h : step tx p = .ok p') :
    RatiosBelow p' := by
  cases step_effect h with
  | @market _ _ _ _ msg _ action found executed =>
    have hkeeps := Market.System.execute_keeps executed
    refine update_ratiosBelow hi ?_
    by_cases hmsg : ∃ ratio, msg = .adjustCollateralRatio ratio
    · obtain ⟨ratio, rfl⟩ := hmsg
      rw [hkeeps.newRatio ratio rfl]
      exact hg (_, ratio) (by rw [action]; rfl)
    · rw [hkeeps.collateralRatio (not_exists.mp hmsg)]
      exact hi _ _ found
  | held found _ same =>
    refine update_ratiosBelow hi ?_
    rw [same]
    exact hi _ _ found
  | created ratio _ instantiated ready =>
    subst ready
    obtain ⟨-, -, hratio, -⟩ := instantiate_spec instantiated
    exact forall_save hi (by rw [hratio]; exact ratio)
  | entered => exact hi
  | exited _ left =>
    subst left
    exact hi
  | called hprice calls =>
    refine calls_preserve calls ?_ fun _ _ => call_ratiosBelow
    intro m s hs
    rw [hprice]
    exact hi m s hs

/-- An adjustment is what the market has afterwards, so the check is needed. -/
theorem step_ratiosBelow_iff (hi : RatiosBelow p) (h : step tx p = .ok p') :
    RatiosBelow p' ↔ RatioChecked p tx := by
  refine ⟨?_, fun hg => step_ratiosBelow hi hg h⟩
  obtain ⟨env, action⟩ := tx
  rintro hafter ⟨market, ratio⟩ he
  obtain ⟨info, rfl⟩ : ∃ info, action = .market market info (.adjustCollateralRatio ratio) := by
    cases action with
    | market m info msg =>
      cases msg with
      | adjustCollateralRatio newRatio =>
        cases he
        exact ⟨info, rfl⟩
      | _ => cases he
    | _ => cases he
  obtain ⟨sys, sys', entered, -, he, rfl⟩ := executeMarket_spec h
  have hratio := hafter market sys' (Map.mayLoad_save_self _ _ _)
  rwa [(Market.System.execute_keeps he).newRatio ratio rfl, update_registry.1] at hratio

/-- If every adjustment is checked against the liquidation price, then every market that
is ready has a collateral ratio below it. -/
theorem ready_ratio_below (h : Run step RatioChecked (start address config) txs p) :
    ∀ token market, p.agency.markets.mayLoad token = some (.ready market) →
      ∃ sys, p.markets.mayLoad market = some sys ∧
        sys.market.config.collateralRatio < p.agency.config.liquidationPrice := by
  intro token market hready
  obtain ⟨sys, hf⟩ := (run_linked h).ready token market hready
  have hbelow : RatiosBelow p :=
    h.invariant (fun _ _ hs => absurd hs not_found_start) fun _ _ _ hi hg hs =>
      step_ratiosBelow hi hg hs
  exact ⟨sys, hf, hbelow market sys hf⟩

/-! ## A market for atom -/

def sampleConfig : CreditAgency.Config where
  govContract := "gov"
  isotonicMarketId := 1
  isotonicTokenId := 2
  rewardToken := .native "reward"
  commonToken := .native "usd"
  liquidationPrice := ⟨920_000_000_000_000_000⟩
  borrowLimitRatio := Decimal.one

def sampleMarket (denom : String) : MarketConfig where
  marketToken := .native denom
  marketCap := none
  interestRate := .linear Decimal.zero Decimal.zero
  interestChargePeriod := 31_536_000
  collateralRatio := ⟨500_000_000_000_000_000⟩
  priceOracle := "oracle"
  reserveFactor := Decimal.zero

/-- A block in which one of any token is worth `price` of the common token. -/
def sampleEnv (newMarket newCtoken : Addr) (price : Decimal) : Env where
  time := 0
  twap _ offer ask := .ok ⟨ask, offer, price, price⟩
  simulateReverseSwap _ amount _ := .ok amount
  multiHop _ := .ok "multihop"
  rewardBalance := 0
  foreign := ⟨fun _ _ => .error .querier, fun _ => .error .querier, fun _ _ => .error .querier,
    fun _ => .error .querier⟩
  newMarket := newMarket
  newCtoken := newCtoken
  sellLimit := 0

/-- Governance creates a market and adjusts its ratio. -/
def sampleTxs (newRatio : Decimal) : List Tx :=
  [⟨sampleEnv "atom market" "atom ctoken" Decimal.one,
      .agency ⟨"gov", []⟩ (.createMarket (sampleMarket "atom"))⟩,
    ⟨sampleEnv "" "" Decimal.one,
      .market "atom market" ⟨"gov", []⟩ (.adjustCollateralRatio newRatio)⟩]

theorem ready_ratio_below_example : ∃ p sys,
    Run step RatioChecked (start "agency" sampleConfig)
      (sampleTxs ⟨900_000_000_000_000_000⟩) p ∧
    p.markets.mayLoad "atom market" = some sys ∧
    sys.market.config.collateralRatio < p.agency.config.liquidationPrice := by
  obtain ⟨p, hrun, hready⟩ : ∃ p, Run step RatioChecked (start "agency" sampleConfig)
      (sampleTxs ⟨900_000_000_000_000_000⟩) p ∧
      p.agency.markets.mayLoad (.native "atom") = some (.ready "atom market") :=
    exists_run_of_runAll (by decide +kernel)
  obtain ⟨sys, hf, hlt⟩ := ready_ratio_below hrun _ _ hready
  exact ⟨p, sys, hrun, hf, hlt⟩

/-- The market accepts a collateral ratio of one, above the liquidation price of 0.92. -/
theorem ratio_above_price : ∃ p sys,
    Run step (fun _ _ => True) (start "agency" sampleConfig) (sampleTxs Decimal.one) p ∧
    p.agency.markets.mayLoad (.native "atom") = some (.ready "atom market") ∧
    p.markets.mayLoad "atom market" = some sys ∧
    ¬ sys.market.config.collateralRatio < p.agency.config.liquidationPrice := by
  obtain ⟨p, hrun, hready, hany⟩ : ∃ p, Run step (fun _ _ => True) (start "agency" sampleConfig)
      (sampleTxs Decimal.one) p ∧
      p.agency.markets.mayLoad (.native "atom") = some (.ready "atom market") ∧
      ∃ sys ∈ p.markets.mayLoad "atom market",
        ¬ sys.market.config.collateralRatio < p.agency.config.liquidationPrice :=
    exists_run_of_runAll (by decide +kernel)
  obtain ⟨sys, hf, hlt⟩ := hany
  exact ⟨p, sys, hrun, hready, hf, hlt⟩

end WyndLend.Platform
