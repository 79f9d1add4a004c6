import WyndLend.Market.System

/-!
# What a transaction of the market amounts to

Every message that moves tokens first settles the pending interest and then
performs one primitive operation on the settled system. `Outcome` lists, message
by message, what a successful transaction checked and did; later modules argue
by cases on it and never unfold the dispatch.
-/

namespace WyndLend.Market

open CosmWasm Utils

/-- A cw20 token forwards what a user would send directly with native coins. -/
def ExecuteMsg.plain : ExecuteMsg → ExecuteMsg
  | .receive _ _ .deposit => .deposit
  | .receive _ _ .repay => .repay
  | .receive _ _ (.repayTo account) => .repayTo account
  | msg => msg

/-- Who sent the tokens that come with a message. -/
def origin (info : MessageInfo) : ExecuteMsg → Addr
  | .receive sender _ _ => sender
  | _ => info.sender

/-- The single coin that comes with a message. -/
def incoming (info : MessageInfo) : ExecuteMsg → Except Error Coin
  | .receive _ amount _ => .ok ⟨.cw20 info.sender, amount⟩
  | _ => requireSingleDenom info.funds

namespace System

/-- Charge interest for all pending periods and deliver the messages of the charge. -/
def settle (env : Env) (sys : System) : Except Error System := do
  let (market, charge) ← (chargeInterest (sys.querier env) env.time sys.market).mapError .market
  let holdings ← deliverAll sys.address sys.market.config.marketToken charge.messages
    sys.toHoldings
  return { sys with toHoldings := holdings, market, time := env.time }

/-- The operations on a settled system; every amount is in market tokens. -/
inductive Op where
  | deposit (account : Addr) (amount : Uint128)
  | withdraw (account : Addr) (amount : Uint128)
  | borrow (account : Addr) (amount : Uint128)
  | repay (account : Addr) (amount : Uint128)
  | repayTo (account : Addr) (amount : Uint128)
  | transferFrom (source destination : Addr) (amount : Uint128)

def callCtoken (sys : System) (msg : Ctoken.ExecuteMsg) : Except Error Holdings :=
  sys.toHoldings.callCtoken sys.address sys.market.config.ctokenContract msg

def Op.apply (sys : System) : Op → Except Error System
  | .deposit account amount => do
    let holdings ← sys.callCtoken (.mintBase account amount)
    return { sys with toHoldings := holdings }
  | .withdraw account amount => do
    let holdings ← sys.callCtoken (.burnBaseFrom account amount)
    let holdings ← holdings.pay amount
    return { sys with toHoldings := holdings }
  | .borrow account amount => do
    let debt ← (Debt.increase sys.market.debt account amount).mapError .market
    let holdings ← sys.pay amount
    return { sys with toHoldings := holdings, market := { sys.market with debt } }
  | .repay account amount => do
    let (debt, sendBack) ← (Debt.decrease sys.market.debt account amount).mapError .market
    let holdings ← sys.pay sendBack
    return { sys with toHoldings := holdings, market := { sys.market with debt } }
  | .repayTo account amount => do
    let (debt, _) ← (Debt.decrease sys.market.debt account amount).mapError .market
    return { sys with market := { sys.market with debt } }
  | .transferFrom source destination amount => do
    let holdings ← sys.callCtoken (.transferBaseFrom source destination amount)
    return { sys with toHoldings := holdings }

/-- The messages that leave everything but the configuration alone. -/
inductive Adjusts (env : Env) (info : MessageInfo) (sys : System) : ExecuteMsg → Config → Prop where
  | commonToken {token} (sender : info.sender = sys.market.config.creditAgency) :
    Adjusts env info sys (.adjustCommonToken token)
      { sys.market.config with commonToken := token }
  | collateralRatio {ratio} (sender : sys.market.config.governanceContract = info.sender) :
    Adjusts env info sys (.adjustCollateralRatio ratio)
      { sys.market.config with collateralRatio := ratio }
  | reserveFactor {factor} (sender : sys.market.config.governanceContract = info.sender) :
    Adjusts env info sys (.adjustReserveFactor factor)
      { sys.market.config with reserveFactor := factor }
  | priceOracle {oracle} (sender : sys.market.config.governanceContract = info.sender) :
    Adjusts env info sys (.adjustPriceOracle oracle)
      { sys.market.config with priceOracle := oracle }
  | marketCap {cap} (sender : sys.market.config.governanceContract = info.sender) :
    Adjusts env info sys (.adjustMarketCap cap)
      { sys.market.config with marketCap := cap }

/-- What a successful message did to the system `sys` to which its tokens were
credited, and which accounts it made the credit agency enter. -/
inductive Outcome (env : Env) (info : MessageInfo) (sys : System) (msg : ExecuteMsg) :
    System → List Addr → Prop where
  | deposit {coin mid sys'} (plain : msg.plain = .deposit)
    (brought : incoming info msg = .ok coin) (denom : coin.denom = sys.market.config.marketToken)
    (cap : ensureUnderCap (sys.querier env) sys.market coin.amount = .ok ())
    (settled : settle env sys = .ok mid)
    (applied : Op.apply mid (.deposit (origin info msg) coin.amount) = .ok sys') :
    Outcome env info sys msg sys' [origin info msg]
  | withdraw {amount transferable mid sys'} (plain : msg = .withdraw amount)
    (check : CrUtils.transferableAmount (sys.querier env) sys.market info.sender = .ok transferable)
    (le : amount ≤ transferable) (settled : settle env sys = .ok mid)
    (applied : Op.apply mid (.withdraw info.sender amount) = .ok sys') :
    Outcome env info sys msg sys' []
  | borrow {amount mid sys'} (plain : msg = .borrow amount)
    (check : CrUtils.canBorrow (sys.querier env) sys.market info.sender amount = .ok true)
    (settled : settle env sys = .ok mid)
    (applied : Op.apply mid (.borrow info.sender amount) = .ok sys') :
    Outcome env info sys msg sys' [info.sender]
  | repay {coin mid sys'} (plain : msg.plain = .repay)
    (brought : incoming info msg = .ok coin) (denom : coin.denom = sys.market.config.marketToken)
    (settled : settle env sys = .ok mid)
    (applied : Op.apply mid (.repay (origin info msg) coin.amount) = .ok sys') :
    Outcome env info sys msg sys' []
  | repayTo {account coin debt mid sys'} (plain : msg.plain = .repayTo account)
    (sender : sys.market.config.creditAgency = origin info msg)
    (brought : incoming info msg = .ok coin) (denom : coin.denom = sys.market.config.marketToken)
    (owed : Debt.of sys.market.debt account = .ok debt) (le : coin.amount ≤ debt)
    (settled : settle env sys = .ok mid)
    (applied : Op.apply mid (.repayTo account coin.amount) = .ok sys') :
    Outcome env info sys msg sys' []
  | transferFrom {source destination amount liquidationPrice rate unit repaid mid sys'}
    (plain : msg = .transferFrom source destination amount liquidationPrice)
    (sender : sys.market.config.creditAgency = info.sender)
    (settled : settle env sys = .ok mid)
    (price : Query.priceMarketLocalPerCommon (sys.querier env) sys.market = .ok rate)
    (unitPrice : rate.rateSellPerBuy.mul liquidationPrice = .ok (ε := Market.Error) unit)
    (value : CrUtils.divide amount unit .zeroPrice = .ok repaid)
    (applied : Op.apply mid (.transferFrom source destination repaid) = .ok sys') :
    Outcome env info sys msg sys' [destination]
  | adjust {config} (adjusts : Adjusts env info sys msg config) :
    Outcome env info sys msg
      { sys with market := { sys.market with config }, time := env.time } []
  | rates {curve mid} {rates : ValidatedInterest} (plain : msg = .adjustInterestRates curve)
    (sender : sys.market.config.governanceContract = info.sender) (valid : rates.inner = curve)
    (settled : settle env sys = .ok mid) :
    Outcome env info sys msg
      { mid with market := { mid.market with config := { sys.market.config with rates } } } []
  | send {account buy sellLimit holdings} (plain : msg = .swapWithdrawFrom account buy sellLimit)
    (sender : sys.market.config.creditAgency = info.sender)
    (denom : buy.denom = sys.market.config.marketToken)
    (paid : sys.pay buy.amount = .ok holdings) :
    Outcome env info sys msg { sys with toHoldings := holdings, time := env.time } []
  | swap {account buy sellLimit estimate tokens rest holdings}
    (plain : msg = .swapWithdrawFrom account buy sellLimit)
    (sender : sys.market.config.creditAgency = info.sender)
    (denom : buy.denom ≠ sys.market.config.marketToken)
    (estimated : env.simulateReverseSwap sys.market.config.priceOracle buy.amount
      (swapOperations sys.market.config buy.denom) = .ok estimate)
    (le : estimate ≤ sellLimit)
    (worth : baseToToken estimate sys.ctoken.multiplier = .ok (ε := Market.Error) tokens)
    (burned : sys.callCtoken (.burnFrom account tokens) = .ok rest)
    (paid : rest.pay sellLimit = .ok holdings) :
    Outcome env info sys msg { sys with toHoldings := holdings, time := env.time } []

/-- What a successful transaction did: the market handled a message, or only its holdings
moved. -/
inductive Transition (tx : Tx) (sys : System) : System → Prop where
  | executed {info msg sys' entered} (action : tx.action = .execute info msg)
    (executed : execute tx.env info msg sys = .ok (sys', entered)) : Transition tx sys sys'
  | ctoken {sender msg ctoken msgs} (action : tx.action = .ctoken sender msg)
    (executed : Ctoken.execute (sys.ctokenQuerier tx.env) sys.market.config.ctokenContract sender
      msg sys.ctoken = .ok (ctoken, msgs)) :
    Transition tx sys { sys with ctoken, time := tx.env.time }
  | donated {amount holdings} (action : tx.action = .donate amount)
    (credited : sys.receive amount = .ok holdings) :
    Transition tx sys { sys with toHoldings := holdings, time := tx.env.time }

-- `grind [ExecuteMsg.plain]` refutes the outcomes of other messages.
attribute [grind cases] Adjusts

/-! ## Every transaction has an outcome -/

variable {env : Env} {info : MessageInfo} {msg : ExecuteMsg} {sys sys' mid : System}
  {msgs : List Message} {entered : List Addr} {charge : Ratios} {market market' : State}
  {holdings holdings' : Holdings}

theorem deliverAll_append {self : Addr} {token : Token} {msgs' : List Message}
    {h h' : Holdings} : deliverAll self token (msgs ++ msgs') h = .ok h' ↔
      ∃ mid, deliverAll self token msgs h = .ok mid ∧ deliverAll self token msgs' mid = .ok h' :=
  foldlM_append_eq_ok

@[simp] theorem deliverAll_nil {self : Addr} {token : Token} {h h' : Holdings} :
    deliverAll self token [] h = .ok h' ↔ h = h' := pure_eq_ok

@[simp] theorem deliverAll_cons {self : Addr} {token : Token} {msg : Message} {h h' : Holdings} :
    deliverAll self token (msg :: msgs) h = .ok h' ↔
      ∃ mid, deliver self token h msg = .ok mid ∧ deliverAll self token msgs mid = .ok h' :=
  bind_eq_ok

/-- A charge talks to the ctoken contract only. -/
theorem enteredAccounts_charge {q : Querier} {time : ℕ} {s s' : State} {more : List Message}
    (h : chargeInterest q time s = .ok (s', charge)) :
    enteredAccounts (charge.messages ++ more) = enteredAccounts more := by
  obtain ⟨n, u, -, -, -, hu⟩ := chargeInterest_spec h
  unfold enteredAccounts
  cases u with
  | none => rw [hu.2, List.nil_append]
  | some u =>
    rw [hu.messages, mintReserve]
    split_ifs <;> rfl

/-- The parts of the configuration that a charge does not write. -/
theorem config_charge {q : Querier} {time : ℕ} {s s' : State}
    (h : chargeInterest q time s = .ok (s', charge)) :
    ∃ lastCharged, s'.config = { s.config with lastCharged } := by
  obtain ⟨n, -, hc, -⟩ := chargeInterest_frame h
  exact ⟨_, hc⟩

/-- A charge whose messages were delivered settles the system. -/
theorem settle_of_charge (hch : chargeInterest (sys.querier env) env.time sys.market =
      .ok (market, charge))
    (hd : deliverAll sys.address sys.market.config.marketToken charge.messages sys.toHoldings =
      .ok holdings) :
    settle env sys = .ok { sys with toHoldings := holdings, market, time := env.time } := by
  simp only [settle, bind_eq_ok, mapError_eq_ok, pure_eq_ok]
  exact ⟨_, hch, holdings, hd, rfl⟩

theorem deposit_outcome {account : Addr} {coin : Coin}
    (h : Market.deposit (sys.querier env) env.time sys.market account coin = .ok (market, msgs))
    (hd : deliverAll sys.address sys.market.config.marketToken msgs sys.toHoldings = .ok holdings) :
    coin.denom = sys.market.config.marketToken ∧
    ensureUnderCap (sys.querier env) sys.market coin.amount = .ok () ∧
    enteredAccounts msgs = [account] ∧ ∃ mid, settle env sys = .ok mid ∧
      Op.apply mid (.deposit account coin.amount) =
        .ok { sys with toHoldings := holdings, market, time := env.time } := by
  obtain ⟨hden, hcap, charge, hch, rfl⟩ := deposit_spec h
  refine ⟨hden, hcap, enteredAccounts_charge hch, ?_⟩
  obtain ⟨h₁, hd₁, hd₂⟩ := deliverAll_append.mp hd
  refine ⟨_, settle_of_charge hch hd₁, ?_⟩
  obtain ⟨c, hc⟩ := config_charge hch
  simp only [deliverAll_cons, deliverAll_nil, deliver] at hd₂
  obtain ⟨h₂, hcall, h₃, hent, rfl⟩ := hd₂
  cases hent
  simp only [Op.apply, callCtoken, bind_eq_ok, pure_eq_ok]
  exact ⟨h₂, by rw [hc]; exact hcall, rfl⟩

theorem withdraw_outcome {sender : Addr} {amount : Uint128}
    (h : Market.withdraw (sys.querier env) env.time sys.market sender amount = .ok (market, msgs))
    (hd : deliverAll sys.address sys.market.config.marketToken msgs sys.toHoldings = .ok holdings) :
    (∃ transferable, CrUtils.transferableAmount (sys.querier env) sys.market sender =
      .ok transferable ∧ amount ≤ transferable) ∧
    enteredAccounts msgs = [] ∧ ∃ mid, settle env sys = .ok mid ∧
      Op.apply mid (.withdraw sender amount) =
        .ok { sys with toHoldings := holdings, market, time := env.time } := by
  obtain ⟨hcheck, charge, hch, rfl⟩ := withdraw_spec h
  refine ⟨hcheck, enteredAccounts_charge hch, ?_⟩
  obtain ⟨h₁, hd₁, hd₂⟩ := deliverAll_append.mp hd
  refine ⟨_, settle_of_charge hch hd₁, ?_⟩
  obtain ⟨c, hc⟩ := config_charge hch
  simp only [deliverAll_cons, deliverAll_nil, deliver, if_true] at hd₂
  obtain ⟨h₂, hcall, h₃, hpay, rfl⟩ := hd₂
  simp only [Op.apply, callCtoken, bind_eq_ok, pure_eq_ok]
  exact ⟨h₂, by rw [hc]; exact hcall, h₃, hpay, rfl⟩

theorem borrow_outcome {sender : Addr} {amount : Uint128}
    (h : Market.borrow (sys.querier env) env.time sys.market sender amount = .ok (market, msgs))
    (hd : deliverAll sys.address sys.market.config.marketToken msgs sys.toHoldings = .ok holdings) :
    CrUtils.canBorrow (sys.querier env) sys.market sender amount = .ok true ∧
    enteredAccounts msgs = [sender] ∧ ∃ mid, settle env sys = .ok mid ∧
      Op.apply mid (.borrow sender amount) =
        .ok { sys with toHoldings := holdings, market, time := env.time } := by
  obtain ⟨hcheck, s₁, charge, debt, hch, hdebt, rfl, rfl⟩ := borrow_spec h
  refine ⟨hcheck, enteredAccounts_charge hch, ?_⟩
  obtain ⟨h₁, hd₁, hd₂⟩ := deliverAll_append.mp hd
  refine ⟨_, settle_of_charge hch hd₁, ?_⟩
  simp only [deliverAll_cons, deliverAll_nil, deliver, if_true] at hd₂
  obtain ⟨h₂, hent, h₃, hpay, rfl⟩ := hd₂
  cases hent
  simp only [Op.apply, bind_eq_ok, mapError_eq_ok, pure_eq_ok]
  exact ⟨debt, hdebt, h₃, hpay, rfl⟩

@[simp] theorem pay_zero {h : Holdings} : h.pay 0 = .ok h := by
  obtain ⟨ctoken, cash⟩ := h
  simp only [Holdings.pay, bind_eq_ok, ensure_eq_ok, Uint128.sub_eq_ok, pure_eq_ok]
  exact ⟨(), Nat.zero_le _, cash, rfl, rfl⟩

theorem repay_outcome {sender : Addr} {coin : Coin}
    (h : Market.repay (sys.querier env) env.time sys.market coin sender = .ok (market, msgs))
    (hd : deliverAll sys.address sys.market.config.marketToken msgs sys.toHoldings = .ok holdings) :
    coin.denom = sys.market.config.marketToken ∧
    enteredAccounts msgs = [] ∧ ∃ mid, settle env sys = .ok mid ∧
      Op.apply mid (.repay sender coin.amount) =
        .ok { sys with toHoldings := holdings, market, time := env.time } := by
  obtain ⟨hden, s₁, charge, debt, sendBack, hch, hdec, rfl, rfl⟩ := repay_spec h
  refine ⟨hden, ?_, ?_⟩
  · rw [enteredAccounts_charge hch]
    split_ifs <;> rfl
  obtain ⟨h₁, hd₁, hd₂⟩ := deliverAll_append.mp hd
  refine ⟨_, settle_of_charge hch hd₁, ?_⟩
  simp only [Op.apply, bind_eq_ok, mapError_eq_ok, pure_eq_ok]
  refine ⟨(debt, sendBack), hdec, holdings, ?_, rfl⟩
  split_ifs at hd₂ with h0
  · subst h0
    exact pay_zero.trans (congrArg _ (deliverAll_nil.mp hd₂))
  · simp only [deliverAll_cons, deliverAll_nil, deliver, if_true] at hd₂
    obtain ⟨h₂, hpay, rfl⟩ := hd₂
    exact hpay

theorem repayTo_outcome {sender account : Addr} {coin : Coin}
    (h : Market.repayTo (sys.querier env) env.time sys.market sender coin account =
      .ok (market, msgs))
    (hd : deliverAll sys.address sys.market.config.marketToken msgs sys.toHoldings = .ok holdings) :
    sys.market.config.creditAgency = sender ∧ coin.denom = sys.market.config.marketToken ∧
    (∃ debt, Debt.of sys.market.debt account = .ok debt ∧ coin.amount ≤ debt) ∧
    enteredAccounts msgs = [] ∧ ∃ mid, settle env sys = .ok mid ∧
      Op.apply mid (.repayTo account coin.amount) =
        .ok { sys with toHoldings := holdings, market, time := env.time } := by
  obtain ⟨hs, hden, howed, s₁, charge, debt, sendBack, hch, hdec, rfl, rfl⟩ := repayTo_spec h
  have hent : enteredAccounts (charge.messages ++ []) = [] := enteredAccounts_charge hch
  rw [List.append_nil] at hent
  refine ⟨hs, hden, howed, hent, _, settle_of_charge hch hd, ?_⟩
  simp only [Op.apply, bind_eq_ok, mapError_eq_ok, pure_eq_ok]
  exact ⟨(debt, sendBack), hdec, rfl⟩

theorem transferFrom_outcome {sender source destination : Addr} {amount : Uint128}
    {price : Decimal}
    (h : Market.transferFrom (sys.querier env) env.time sys.market sender source destination amount
      price = .ok (market, msgs))
    (hd : deliverAll sys.address sys.market.config.marketToken msgs sys.toHoldings = .ok holdings) :
    sys.market.config.creditAgency = sender ∧ enteredAccounts msgs = [destination] ∧
    ∃ rate unit repaid mid,
      Query.priceMarketLocalPerCommon (sys.querier env) sys.market = .ok rate ∧
      rate.rateSellPerBuy.mul price = .ok (ε := Market.Error) unit ∧
      CrUtils.divide amount unit .zeroPrice = .ok repaid ∧ settle env sys = .ok mid ∧
      Op.apply mid (.transferFrom source destination repaid) =
        .ok { sys with toHoldings := holdings, market, time := env.time } := by
  obtain ⟨hs, charge, rate, unit, repaid, hch, hrate, hunit, hval, rfl⟩ := transferFrom_spec h
  refine ⟨hs, enteredAccounts_charge hch, rate, unit, repaid, ?_⟩
  obtain ⟨h₁, hd₁, hd₂⟩ := deliverAll_append.mp hd
  obtain ⟨c, hc⟩ := config_charge hch
  refine ⟨_, ?_, hunit, hval, settle_of_charge hch hd₁, ?_⟩
  · rw [← hrate, Query.priceMarketLocalPerCommon, Query.priceMarketLocalPerCommon, hc]
  · simp only [deliverAll_cons, deliverAll_nil, deliver] at hd₂
    obtain ⟨h₂, hent, h₃, hcall, rfl⟩ := hd₂
    cases hent
    simp only [Op.apply, callCtoken, bind_eq_ok, pure_eq_ok]
    exact ⟨h₃, by rw [hc]; exact hcall, rfl⟩

theorem adjust_outcome {change : Config → Config}
    (h : Restricted.adjust sys.market info.sender change = .ok (market, msgs))
    (hd : deliverAll sys.address sys.market.config.marketToken msgs sys.toHoldings = .ok holdings)
    (hadj : sys.market.config.governanceContract = info.sender →
      Adjusts env info sys msg (change sys.market.config)) :
    Outcome env info sys msg { sys with toHoldings := holdings, market, time := env.time }
      (enteredAccounts msgs) := by
  obtain ⟨hs, rfl, rfl⟩ := adjust_spec h
  cases deliverAll_nil.mp hd
  exact .adjust (hadj hs)

/-- A message whose tokens were credited and whose messages were delivered. -/
theorem handler_outcome
    (h : Market.execute (sys.querier env) env.time info msg sys.market = .ok (market, msgs))
    (hd : deliverAll sys.address sys.market.config.marketToken msgs sys.toHoldings = .ok holdings) :
    Outcome env info sys msg { sys with toHoldings := holdings, market, time := env.time }
      (enteredAccounts msgs) := by
  cases msg with
  | deposit =>
    simp only [Market.execute, bind_eq_ok] at h
    obtain ⟨coin, hcoin, h⟩ := h
    obtain ⟨hden, hcap, hent, mid, hs, ha⟩ := deposit_outcome h hd
    rw [hent]
    exact .deposit rfl hcoin hden hcap hs ha
  | withdraw amount =>
    obtain ⟨⟨_, hcheck, hle⟩, hent, mid, hs, ha⟩ := withdraw_outcome h hd
    rw [hent]
    exact .withdraw rfl hcheck hle hs ha
  | borrow amount =>
    obtain ⟨hcheck, hent, mid, hs, ha⟩ := borrow_outcome h hd
    rw [hent]
    exact .borrow rfl hcheck hs ha
  | repay =>
    simp only [Market.execute, bind_eq_ok] at h
    obtain ⟨coin, hcoin, h⟩ := h
    obtain ⟨hden, hent, mid, hs, ha⟩ := repay_outcome h hd
    rw [hent]
    exact .repay rfl hcoin hden hs ha
  | repayTo account =>
    simp only [Market.execute, bind_eq_ok] at h
    obtain ⟨coin, hcoin, h⟩ := h
    obtain ⟨hsender, hden, ⟨_, howed, hle⟩, hent, mid, hs, ha⟩ := repayTo_outcome h hd
    rw [hent]
    exact .repayTo rfl hsender hcoin hden howed hle hs ha
  | transferFrom source destination amount price =>
    simp only [Market.execute, bind_eq_ok, ensure_eq_ok] at h
    obtain ⟨-, -, h⟩ := h
    obtain ⟨hsender, hent, _, _, _, mid, hrate, hunit, hval, hs, ha⟩ := transferFrom_outcome h hd
    rw [hent]
    exact .transferFrom rfl hsender hs hrate hunit hval ha
  | adjustCommonToken token =>
    simp only [Market.execute, adjustCommonToken, bind_eq_ok, ensure_eq_ok] at h
    obtain ⟨-, hs, h⟩ := h
    cases h
    cases deliverAll_nil.mp hd
    exact .adjust (.commonToken hs)
  | swapWithdrawFrom account buy sellLimit =>
    obtain ⟨hs, rfl, ⟨hden, rfl⟩ | ⟨hden, estimate, tokens, multiHop, he, hle, ht, rfl⟩⟩ :=
      swapWithdrawFrom_spec h
    · simp only [deliverAll_cons, deliverAll_nil, deliver, hden, if_true] at hd
      obtain ⟨_, hpay, rfl⟩ := hd
      exact .send rfl hs hden.symm hpay
    · simp only [deliverAll_cons, deliverAll_nil, deliver, Token.amount, if_true,
        if_neg (Ne.symm hden)] at hd
      obtain ⟨rest, hburn, paid, hpay, _, hsend, rfl⟩ := hd
      cases hsend
      exact .swap rfl hs (Ne.symm hden) he hle ht hburn hpay
  | adjustCollateralRatio ratio =>
    rw [Market.execute, Restricted.adjustCollateralRatio] at h
    exact adjust_outcome h hd .collateralRatio
  | adjustReserveFactor factor =>
    rw [Market.execute, Restricted.adjustReserveFactor] at h
    exact adjust_outcome h hd .reserveFactor
  | adjustPriceOracle oracle =>
    rw [Market.execute, Restricted.adjustPriceOracle] at h
    exact adjust_outcome h hd .priceOracle
  | adjustMarketCap cap =>
    rw [Market.execute, Restricted.adjustMarketCap] at h
    exact adjust_outcome h hd .marketCap
  | adjustInterestRates curve =>
    obtain ⟨hs, s₁, charge, rates, hch, hr, rfl, rfl⟩ := adjustInterestRates_spec h
    have hent : enteredAccounts (charge.messages ++ []) = [] := enteredAccounts_charge hch
    rw [List.append_nil] at hent
    rw [hent]
    exact .rates rfl hs hr (settle_of_charge hch hd)
  | receive sender amount msg =>
    have hbrought : incoming info (.receive sender amount msg) =
        .ok ⟨.cw20 info.sender, amount⟩ := rfl
    cases msg with
    | deposit =>
      obtain ⟨hden, hcap, hent, mid, hs, ha⟩ := deposit_outcome h hd
      rw [hent]
      exact .deposit rfl hbrought hden hcap hs ha
    | repay =>
      obtain ⟨hden, hent, mid, hs, ha⟩ := repay_outcome h hd
      rw [hent]
      exact .repay rfl hbrought hden hs ha
    | repayTo account =>
      obtain ⟨hsender, hden, ⟨_, howed, hle⟩, hent, mid, hs, ha⟩ := repayTo_outcome h hd
      rw [hent]
      exact .repayTo rfl hsender hbrought hden howed hle hs ha

/-- Everything a successful transaction of the market can do. -/
theorem execute_outcome (h : execute env info msg sys = .ok (sys', entered)) :
    ∃ funds holdings, received sys.market.config.marketToken info msg = .ok funds ∧
      sys.receive funds = .ok holdings ∧
      Outcome env info { sys with toHoldings := holdings } msg sys' entered := by
  simp only [execute, bind_eq_ok, mapError_eq_ok] at h
  obtain ⟨funds, hf, holdings, hr, ⟨market, msgs⟩, hm, holdings', hd, h⟩ := h
  cases h
  exact ⟨funds, holdings, hf, hr, handler_outcome hm hd⟩

theorem step_transition {tx : Tx} (h : step tx sys = .ok sys') : Transition tx sys sys' := by
  obtain ⟨env, action⟩ := tx
  cases action with
  | execute info msg =>
    simp only [step, bind_eq_ok, pure_eq_ok] at h
    obtain ⟨⟨_, entered⟩, h, rfl⟩ := h
    exact .executed rfl h
  | ctoken sender msg =>
    simp only [step, executeCtoken, bind_eq_ok, mapError_eq_ok, pure_eq_ok] at h
    obtain ⟨⟨ct, msgs⟩, hct, rfl⟩ := h
    exact .ctoken rfl hct
  | donate amount =>
    simp only [step, bind_eq_ok, pure_eq_ok] at h
    obtain ⟨holdings, hr, rfl⟩ := h
    exact .donated rfl hr

/-! ## Frames -/

/-- What a settlement is made of. -/
theorem settle_eq_ok : settle env sys = .ok mid ↔ ∃ market charge holdings,
    chargeInterest (sys.querier env) env.time sys.market = .ok (market, charge) ∧
    deliverAll sys.address sys.market.config.marketToken charge.messages sys.toHoldings =
      .ok holdings ∧
    mid = { sys with toHoldings := holdings, market, time := env.time } := by
  simp only [settle, bind_eq_ok, mapError_eq_ok, pure_eq_ok, Prod.exists]
  constructor
  · rintro ⟨market, charge, hch, holdings, hd, rfl⟩
    exact ⟨market, charge, holdings, hch, hd, rfl⟩
  · rintro ⟨market, charge, holdings, hch, hd, rfl⟩
    exact ⟨market, charge, hch, holdings, hd, rfl⟩

/-- A settlement charges all elapsed epochs; points stay as they are. -/
theorem settle_frame (h : settle env sys = .ok mid) :
    ∃ n, epochsPassed sys.market.config env.time = .ok n ∧
      mid.market.config = (sys.market.advance n).config ∧
      mid.market.charged = sys.market.charged + n ∧
      mid.market.debt.debt = sys.market.debt.debt ∧
      mid.market.debt.info.totalPoints = sys.market.debt.info.totalPoints ∧
      mid.address = sys.address ∧ mid.time = env.time := by
  obtain ⟨market, charge, holdings, hch, -, rfl⟩ := settle_eq_ok.mp h
  obtain ⟨n, hn, hc, hcharged, hdebt, hpoints⟩ := chargeInterest_frame hch
  exact ⟨n, hn, hc, hcharged, hdebt, hpoints, rfl, rfl⟩

/-- An operation writes neither the configuration nor the clock. -/
theorem apply_frame {op : Op} (h : op.apply mid = .ok sys') :
    sys'.market.config = mid.market.config ∧ sys'.market.charged = mid.market.charged ∧
      sys'.address = mid.address ∧ sys'.time = mid.time := by
  cases op <;> simp only [Op.apply, bind_eq_ok, mapError_eq_ok, pure_eq_ok] at h
  case deposit => obtain ⟨_, _, rfl⟩ := h; exact ⟨rfl, rfl, rfl, rfl⟩
  case withdraw => obtain ⟨_, _, _, _, rfl⟩ := h; exact ⟨rfl, rfl, rfl, rfl⟩
  case borrow => obtain ⟨_, _, _, _, rfl⟩ := h; exact ⟨rfl, rfl, rfl, rfl⟩
  case repay => obtain ⟨_, _, _, _, rfl⟩ := h; exact ⟨rfl, rfl, rfl, rfl⟩
  case repayTo => obtain ⟨_, _, rfl⟩ := h; exact ⟨rfl, rfl, rfl, rfl⟩
  case transferFrom => obtain ⟨_, _, rfl⟩ := h; exact ⟨rfl, rfl, rfl, rfl⟩

end System

end WyndLend.Market
