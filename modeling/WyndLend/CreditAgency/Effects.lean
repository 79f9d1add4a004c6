import WyndLend.CreditAgency.Contract

/-!
# What a message to the credit agency amounts to

`Response` has a case for every kind of message, with all that it sends. For the registry
it comes down to `Outcome`: only a market creation writes the registry, only entering and
exiting write the entered markets, and everything else at most replaces the configuration
and sends messages to registered markets.
-/

namespace WyndLend.CreditAgency

open CosmWasm Utils

variable {q : Querier} {info : Market.MessageInfo} {msg : ExecuteMsg} {s s' : State}
  {msgs : List Message} {sender account market : Addr} {token : Token} {id : ℕ}

/-- The address is registered as a market that is ready. -/
def State.Registered (s : State) (address : Addr) : Prop :=
  ∃ token, s.markets.mayLoad token = some (.ready address)

theorem findMarket_iff {address : Addr} :
    Restricted.findMarket s address = true ↔ s.Registered address := by
  simp only [Restricted.findMarket, List.any_eq_true, decide_eq_true_eq, Prod.exists,
    Map.mem_range, State.Registered]
  constructor
  · rintro ⟨token, _, ht, rfl⟩
    exact ⟨token, ht⟩
  · rintro ⟨token, ht⟩
    exact ⟨token, _, ht, rfl⟩

instance (s : State) (address : Addr) : Decidable (s.Registered address) :=
  decidable_of_iff _ findMarket_iff

/-- The ids under which the messages instantiate markets. -/
def instantiations (msgs : List Message) : List ℕ :=
  msgs.filterMap fun msg =>
    match msg with
    | .instantiateMarket replyId _ _ => some replyId
    | _ => none

/-- The total that a liquidation found, and what it sends to the two markets. -/
inductive Liquidation (q : Querier) (s : State) (sender account : Addr) (coins : Coin)
    (token : Token) : List Message → Prop where
  | mk {values : CreditLineValues} {debtMarket collateralMarket price repaid}
    (total : Query.totalCreditLine q s account =
      .ok (values.makeResponse s.config.commonToken))
    (excess : values.creditLine < values.debt)
    (debt : Query.market s coins.denom = .ok debtMarket)
    (rate : q.priceMarketLocalPerCommon debtMarket = .ok price)
    (collateral : Query.market s token = .ok collateralMarket)
    (worth : coinTimesPriceRate coins price = .ok repaid) :
    Liquidation q s sender account coins token
      [.repayTo debtMarket coins account,
        .transferFrom collateralMarket account sender repaid.amount s.config.liquidationPrice]

/-- A successful message, the state it leaves and the messages it sends. -/
inductive Response (q : Querier) (info : Market.MessageInfo) (s : State) :
    ExecuteMsg → State → List Message → Prop where
  | created {cfg} (sender : info.sender = s.config.govContract)
    (ratio : cfg.collateralRatio < s.config.liquidationPrice)
    (vacant : s.markets.mayLoad cfg.marketToken = none) :
    Response q info s (.createMarket cfg) (s.reserve cfg.marketToken)
      [.instantiateMarket (s.nextReplyId + 1) s.config.isotonicMarketId
        (s.config.instantiateMsg cfg)]
  | liquidated {account : Addr} {collateralDenom : Token} {denom : String} {amount : Uint128}
    {msgs : List Message} (funds : info.funds = [(denom, amount)]) (liquidation :
      Liquidation q s info.sender account ⟨.native denom, amount⟩ collateralDenom msgs) :
    Response q info s (.liquidate account collateralDenom) s msgs
  | entered {account : Addr} :
    Response q info s (.enterMarket account) (enterMarket s info.sender account) []
  | exited {market : Addr} (member : market ∈ s.entered info.sender) :
    Response q info s (.exitMarket market)
      { s with enteredMarkets :=
          s.enteredMarkets.save info.sender ((s.entered info.sender).remove market) } []
  | repaid {maxCollateral amountToRepay collateralMarket debtMarket} :
    Response q info s (.repayWithCollateral maxCollateral amountToRepay) s
      [.swapWithdrawFrom collateralMarket info.sender amountToRepay,
        .repayTo debtMarket amountToRepay info.sender]
  | received {sender account : Addr} {amount : Uint128} {collateralDenom : Token}
    {msgs : List Message} (liquidation :
      Liquidation q s sender account ⟨.cw20 info.sender, amount⟩ collateralDenom msgs) :
    Response q info s (.receive sender amount account collateralDenom) s msgs
  | idAdjusted {msg : ExecuteMsg} {isotonicMarketId isotonicTokenId} :
    Response q info s msg
      { s with config := { s.config with isotonicMarketId, isotonicTokenId } } []
  | commonTokenAdjusted {newCommonToken} :
    Response q info s (.adjustCommonToken newCommonToken)
      { s with config := { s.config with commonToken := newCommonToken } }
      ((s.markets.range.filterMap fun e => e.2.toAddr).map fun market =>
        .adjustCommonToken market newCommonToken)
  | migrated {contract isotonicTokenId} :
    Response q info s (.migrateMarket contract isotonicTokenId) s
      [.migrate contract s.config.isotonicMarketId isotonicTokenId]

/-- What a successful message did. -/
inductive Outcome (q : Querier) (info : Market.MessageInfo) (s : State) :
    ExecuteMsg → State → List Message → Prop where
  | created {cfg} (sender : info.sender = s.config.govContract)
    (ratio : cfg.collateralRatio < s.config.liquidationPrice)
    (vacant : s.markets.mayLoad cfg.marketToken = none) :
    Outcome q info s (.createMarket cfg) (s.reserve cfg.marketToken)
      [.instantiateMarket (s.nextReplyId + 1) s.config.isotonicMarketId
        (s.config.instantiateMsg cfg)]
  | entered {account : Addr} :
    Outcome q info s (.enterMarket account) (enterMarket s info.sender account) []
  | exited {market : Addr} (member : market ∈ s.entered info.sender) :
    Outcome q info s (.exitMarket market)
      { s with enteredMarkets :=
          s.enteredMarkets.save info.sender ((s.entered info.sender).remove market) } []
  | forwarded {msg config msgs} (govContract : config.govContract = s.config.govContract)
    (liquidationPrice : config.liquidationPrice = s.config.liquidationPrice)
    (none : instantiations msgs = []) :
    Outcome q info s msg { s with config } msgs

/-! ## One lemma for each handler -/

theorem createMarket_spec {cfg : MarketConfig}
    (h : createMarket s info.sender cfg = .ok (s', msgs)) :
    Response q info s (.createMarket cfg) s' msgs := by
  simp only [createMarket, bind_eq_ok, ensure_eq_ok] at h
  obtain ⟨-, hs, -, hr, h⟩ := h
  split at h
  · cases h
  · cases h
  · next hv =>
    simp only [bind_eq_ok, ensure_eq_ok] at h
    obtain ⟨-, -, h⟩ := h
    cases h
    exact .created hs hr hv

/-- The debt in the market has no value, and the other markets cover their own debts. -/
theorem exitMarket_spec (h : exitMarket q s sender market = .ok (s', msgs)) :
    market ∈ s.entered sender ∧
    (∃ response, q.creditLine market sender = .ok response ∧ response.debt.amount = 0) ∧
    (∃ values reduced, Query.creditLines q s.config.commonToken sender
        ((s.entered sender).remove market).toList = .ok values ∧
      CreditLineValues.sum values = .ok (ε := Error) reduced ∧
      reduced.debt ≤ reduced.creditLine) ∧
    s' = { s with enteredMarkets :=
      s.enteredMarkets.save sender ((s.entered sender).remove market) } ∧ msgs = [] := by
  simp only [exitMarket, bind_eq_ok, ensure_eq_ok] at h
  obtain ⟨-, hm, response, hr, -, hd, values, hv, reduced, hsum, -, hle, h⟩ := h
  cases h
  exact ⟨hm, ⟨response, hr, hd⟩, ⟨values, reduced, hv, hsum, hle⟩, rfl, rfl⟩

/-- A liquidation is only allowed when the debt exceeds the credit line. -/
theorem liquidate_spec {coins : Coin}
    (h : liquidate q s sender account coins token = .ok (s', msgs)) :
    s' = s ∧ Liquidation q s sender account coins token msgs := by
  simp only [liquidate, bind_eq_ok, ensure_eq_ok, mapError_eq_ok,
    CreditLineResponse.validate_eq_ok] at h
  obtain ⟨_, ht, values, rfl, -, hlt, _, hdebt, _, hprice, _, hcollateral, _, hrepaid, h⟩ := h
  cases h
  exact ⟨rfl, .mk ht hlt hdebt hprice hcollateral hrepaid⟩

theorem repayWithCollateral_spec {maxCollateral amountToRepay : Coin}
    (h : repayWithCollateral q s sender maxCollateral amountToRepay = .ok (s', msgs)) :
    s' = s ∧ ∃ collateralMarket debtMarket,
      msgs = [.swapWithdrawFrom collateralMarket sender amountToRepay,
        .repayTo debtMarket amountToRepay sender] := by
  simp only [repayWithCollateral, bind_eq_ok] at h
  obtain ⟨_, -, _, -, _, -, _, -, _, -, _, -, _, -, _, -, _, -, _, -, _, -, _, -, _, -, _, -,
    h⟩ := h
  cases h
  exact ⟨rfl, _, _, rfl⟩

theorem adjust_spec {change : Config → Config} (h : Restricted.adjust s sender change = .ok s') :
    s' = { s with config := change s.config } := by
  simp only [Restricted.adjust, bind_eq_ok] at h
  obtain ⟨-, -, h⟩ := h
  cases h
  rfl

/-! ## All messages -/

/-- Everything a successful message can do, with all that it sends. -/
theorem execute_response (h : execute q info msg s = .ok (s', msgs)) :
    Response q info s msg s' msgs := by
  cases msg with
  | createMarket cfg => exact createMarket_spec h
  | liquidate account collateralDenom =>
    rw [execute] at h
    split at h
    · next denom amount hfunds =>
      obtain ⟨rfl, hl⟩ := liquidate_spec h
      exact .liquidated hfunds hl
    · cases h
  | enterMarket account =>
    cases h
    exact .entered
  | exitMarket market =>
    obtain ⟨hm, -, -, rfl, rfl⟩ := exitMarket_spec h
    exact .exited hm
  | repayWithCollateral maxCollateral amountToRepay =>
    obtain ⟨rfl, collateralMarket, debtMarket, rfl⟩ := repayWithCollateral_spec h
    exact .repaid
  | receive sender amount account collateralDenom =>
    obtain ⟨rfl, hl⟩ := liquidate_spec h
    exact .received hl
  | adjustMarketId newMarketId =>
    simp only [execute, Restricted.adjustMarketId, bind_eq_ok] at h
    obtain ⟨_, ha, h⟩ := h
    cases h
    rw [adjust_spec ha]
    exact .idAdjusted
  | adjustTokenId newTokenId =>
    simp only [execute, Restricted.adjustTokenId, bind_eq_ok] at h
    obtain ⟨_, ha, h⟩ := h
    cases h
    rw [adjust_spec ha]
    exact .idAdjusted
  | adjustCommonToken newCommonToken =>
    simp only [execute, Restricted.adjustCommonToken, bind_eq_ok] at h
    obtain ⟨_, ha, h⟩ := h
    cases h
    rw [adjust_spec ha]
    exact .commonTokenAdjusted
  | migrateMarket contract isotonicTokenId =>
    simp only [execute, Restricted.migrateMarket, bind_eq_ok] at h
    obtain ⟨-, -, -, -, h⟩ := h
    cases h
    exact .migrated

theorem instantiations_adjust {markets : List Addr} :
    instantiations (markets.map fun market => .adjustCommonToken market token) = [] := by
  unfold instantiations
  rw [List.filterMap_map]
  exact List.filterMap_eq_nil_iff.mpr fun _ _ => rfl

/-- What a message does to the registry and to the entered markets. -/
theorem execute_outcome (h : execute q info msg s = .ok (s', msgs)) :
    Outcome q info s msg s' msgs := by
  cases execute_response h with
  | created sender ratio vacant => exact .created sender ratio vacant
  | entered => exact .entered
  | exited member => exact .exited member
  | liquidated _ liquidation | received liquidation =>
    cases liquidation
    exact .forwarded rfl rfl rfl
  | repaid | idAdjusted | migrated => exact .forwarded rfl rfl rfl
  | commonTokenAdjusted => exact .forwarded rfl rfl instantiations_adjust

/-- A reply stores the address for the token that its id was issued for. -/
theorem reply_spec {address : Addr} (h : reply s id address = .ok s') :
    ∃ token, s.replyIds.mayLoad id = some token ∧
      s' = { s with markets := s.markets.save token (.ready address) } := by
  simp only [reply, bind_eq_ok, okOr_eq_ok] at h
  obtain ⟨token, ht, h⟩ := h
  cases h
  exact ⟨token, ht, rfl⟩

/-! ## Entered markets -/

theorem entered_enterMarket {other : Addr} :
    (enterMarket s sender account).entered other =
      if other = account then (s.entered account).insert sender else s.entered other := by
  unfold enterMarket State.entered
  rw [Map.mayLoad_save]
  split_ifs <;> rfl

theorem mem_entered_enterMarket {other : Addr} :
    market ∈ (enterMarket s sender account).entered other ↔
      (other = account ∧ market = sender) ∨ market ∈ s.entered other := by
  rw [entered_enterMarket]
  split_ifs with h
  · subst h
    simp
  · simp [h]

theorem entered_save {markets : BTreeSet Addr} {other : Addr} :
    State.entered { s with enteredMarkets := s.enteredMarkets.save account markets } other =
      if other = account then markets else s.entered other := by
  unfold State.entered
  rw [Map.mayLoad_save]
  split_ifs <;> rfl

end WyndLend.CreditAgency
