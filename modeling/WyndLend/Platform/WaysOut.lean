import WyndLend.Market.CreditCheck
import WyndLend.Platform.Isolation
import WyndLend.Platform.Safety

/-!
# Two ways out

A transfer of ctokens and the withdrawal of their base value are checked against one
number. Without debt it is a number of ctokens, which an account's own ctokens never
exceed. With debt it is a number of base tokens, with which a transfer compares ctokens.
-/

namespace WyndLend

open CosmWasm Utils

namespace Market.System

open CrUtils

variable {env : Env} {sys : System} {account : Addr} {tokens base : Uint128}

/-- The ctoken contract lets the account transfer or send the ctokens. -/
def TransferAccepted (env : Env) (sys : System) (account : Addr) (tokens : Uint128) : Prop :=
  Ctoken.canTransfer (sys.ctokenQuerier env) sys.market.config.ctokenContract sys.ctoken account
    tokens = .ok ()

/-- The market lets the account withdraw the base tokens. -/
def WithdrawAccepted (env : Env) (sys : System) (account : Addr) (base : Uint128) : Prop :=
  ∃ transferable, transferableAmount (sys.querier env) sys.market account = .ok transferable ∧
    base ≤ transferable

theorem transferAccepted_iff (hc : sys.ctoken.controller = sys.address) :
    TransferAccepted env sys account tokens ↔ WithdrawAccepted env sys account tokens := by
  simp only [TransferAccepted, WithdrawAccepted, Ctoken.canTransfer, ctokenQuerier, if_pos hc,
    Query.transferableAmount, bind_eq_ok, ensure_eq_ok, mapError_eq_ok]
  constructor
  · rintro ⟨transferable, ⟨-, -, h⟩, hle⟩
    exact ⟨transferable, h, hle⟩
  · rintro ⟨transferable, h, hle⟩
    exact ⟨transferable, ⟨(), trivial, h⟩, hle⟩

theorem withdrawAccepted_iff : WithdrawAccepted env sys account base ↔
    ∃ credit price, Fitting (sys.querier env) sys.market account credit price ∧
      Scaled credit price ∧
      base.val ≤ allowance (sys.querier env) sys.market account credit price := by
  simp only [WithdrawAccepted, transferableAmount_eq_ok]
  constructor
  · rintro ⟨transferable, ⟨credit, price, hfit, hscaled, hval⟩, hle⟩
    exact ⟨credit, price, hfit, hscaled, hval ▸ hle⟩
  · rintro ⟨credit, price, hfit, hscaled, hle⟩
    obtain ⟨transferable, hval⟩ := Uint128.exists_val hfit.allowance_lt
    exact ⟨transferable, ⟨credit, price, hfit, hscaled, hval⟩, Uint128.le_def.mpr (hval ▸ hle)⟩

theorem withdrawAccepted_of_fitting {credit : CreditLineValues} {price : PriceRate}
    (hfit : Fitting (sys.querier env) sys.market account credit price)
    (hscaled : Scaled credit price) : WithdrawAccepted env sys account base ↔
      base.val ≤ allowance (sys.querier env) sys.market account credit price := by
  rw [withdrawAccepted_iff]
  constructor
  · rintro ⟨credit', price', hfit', -, hle⟩
    obtain ⟨rfl, rfl⟩ := hfit.unique hfit'
    exact hle
  · intro hle
    exact ⟨credit, price, hfit, hscaled, hle⟩

/-- The number of the check does not separate the ctokens from their base value: without debt
the value is within what is free or held, with debt both or neither are within the free
collateral. -/
def Unseparated (sys : System) (account : Addr) (tokens base : Uint128)
    (credit : CreditLineValues) (price : PriceRate) : Prop :=
  let free := freeCollateral credit price sys.market.config.collateralRatio
  if credit.debt = 0 then
    base.val ≤ max (free * fractional / sys.ctoken.multiplier.atomics.val)
      (sys.ctoken.balance account).val
  else free < min tokens.val base.val ∨ max tokens.val base.val ≤ free

instance (sys : System) (account : Addr) (tokens base : Uint128) (credit : CreditLineValues)
    (price : PriceRate) : Decidable (Unseparated sys account tokens base credit price) :=
  inferInstanceAs (Decidable (ite _ _ _))

theorem unseparated_iff {credit : CreditLineValues} {price : PriceRate}
    (hle : tokens ≤ sys.ctoken.balance account) :
    Unseparated sys account tokens base credit price ↔
      (tokens.val ≤ allowance (sys.querier env) sys.market account credit price ↔
        base.val ≤ allowance (sys.querier env) sys.market account credit price) := by
  unfold Unseparated
  by_cases hdebt : credit.debt = 0
  · have hbalance : (sys.ctoken.balance account).val ≤
        allowance (sys.querier env) sys.market account credit price := by
      rw [allowance, if_pos hdebt]
      exact le_max_right _ _
    have hheld := (Uint128.le_def.mp hle).trans hbalance
    rw [if_pos hdebt, iff_true_left hheld, allowance, if_pos hdebt]
    rfl
  · rw [if_neg hdebt, allowance_of_debt hdebt]
    omega

/-- As long as a ctoken is worth at most one base token, the value of what an account without
debt holds is not separated from it. -/
theorem unseparated_of_no_debt {credit : CreditLineValues} {price : PriceRate}
    (hle : tokens ≤ sys.ctoken.balance account) (hm : sys.ctoken.multiplier ≤ Decimal.one)
    (hworth : tokenToBase tokens sys.ctoken.multiplier = .ok (ε := Market.Error) base)
    (hdebt : credit.debt = 0) : Unseparated sys account tokens base credit price := by
  have hvalue : base.val ≤ tokens.val := by
    rw [tokenToBase_eq_ok.mp hworth]
    exact Nat.div_le_of_le_mul ((Nat.mul_le_mul_left _ hm).trans_eq (Nat.mul_comm _ _))
  unfold Unseparated
  rw [if_pos hdebt]
  exact le_max_of_le_right (hvalue.trans hle)

/-- The two checks of a balance agree if and only if the number does not separate them. -/
theorem checks_agree_iff (hc : sys.ctoken.controller = sys.address)
    (hle : tokens ≤ sys.ctoken.balance account) :
    (TransferAccepted env sys account tokens ↔ WithdrawAccepted env sys account base) ↔
      ∀ credit price, Fitting (sys.querier env) sys.market account credit price →
        Scaled credit price → Unseparated sys account tokens base credit price := by
  rw [transferAccepted_iff hc]
  by_cases hanswered : ∃ credit price,
      Fitting (sys.querier env) sys.market account credit price ∧ Scaled credit price
  · obtain ⟨credit, price, hfit, hscaled⟩ := hanswered
    rw [withdrawAccepted_of_fitting hfit hscaled, withdrawAccepted_of_fitting hfit hscaled,
      ← unseparated_iff hle]
    constructor
    · intro h credit' price' hfit' _
      obtain ⟨rfl, rfl⟩ := hfit.unique hfit'
      exact h
    · intro h
      exact h credit price hfit hscaled
  · -- Without an answer both checks abort.
    have hreject : ∀ amount, ¬ WithdrawAccepted env sys account amount := by
      intro amount haccepted
      obtain ⟨credit, price, hfit, hscaled, -⟩ := withdrawAccepted_iff.mp haccepted
      exact hanswered ⟨credit, price, hfit, hscaled⟩
    refine iff_of_true (iff_of_false (hreject _) (hreject _)) ?_
    intro credit price hfit hscaled
    exact absurd ⟨credit, price, hfit, hscaled⟩ hanswered

end Market.System

namespace Platform

open Market.System (TransferAccepted WithdrawAccepted Unseparated)
open Market.CrUtils (Fitting Scaled)

variable {env : Env} {p : Platform} {market account address : Addr} {sys : Market.System}
  {config : CreditAgency.Config} {txs : List Tx} {tokens base : Uint128}

/-- In every market of the platform, a transfer of ctokens is accepted exactly when the
withdrawal of their base value is, if and only if the number that both are checked against
does not separate the ctokens from their value. Without debt it does not as long as a ctoken
is worth at most one base token. -/
theorem ways_out_agree_iff {guard : Platform → Tx → Prop}
    (h : Run step guard (start address config) txs p)
    (found : p.markets.mayLoad market = some sys) (hle : tokens ≤ sys.ctoken.balance account)
    (hworth : tokenToBase tokens sys.ctoken.multiplier = .ok (ε := Market.Error) base) :
    ((TransferAccepted (p.marketEnv env) sys account tokens ↔
        WithdrawAccepted (p.marketEnv env) sys account base) ↔
      ∀ credit price, Fitting (sys.querier (p.marketEnv env)) sys.market account credit price →
        Scaled credit price → Unseparated sys account tokens base credit price) ∧
    (sys.ctoken.multiplier ≤ Decimal.one → ∀ credit price, credit.debt = 0 →
      Unseparated sys account tokens base credit price) := by
  have haddress := (run_linked h).address market sys found
  refine ⟨?_, ?_⟩
  · exact Market.System.checks_agree_iff
      ((run_controlled h market sys found).trans haddress.symm) hle
  · intro hm credit price hdebt
    exact Market.System.unseparated_of_no_debt hle hm hworth hdebt

/-- Bob has 1000 atom and owes 300 dollars. -/
def indebtedTxs : List Tx :=
  sampleCollateral Decimal.one ⟨600_000_000_000_000_000⟩ Decimal.zero 1_000 ++
    [sampleBorrow (sampleEnv "" "" Decimal.one) 300]

/-- The lender owes nothing and may take a dollar out either way. Bob may take out all of his
atom neither way, and so few ctokens either way that they are worth nothing. -/
theorem ways_out_agree_iff_example : ∃ p usd atom,
    Run step (fun _ _ => True) (start "agency" sampleConfig) indebtedTxs p ∧
    p.markets.mayLoad "usd market" = some usd ∧ p.markets.mayLoad "atom market" = some atom ∧
    (TransferAccepted (p.marketEnv (sampleEnv "" "" Decimal.one)) usd "lender" 100_000 ↔
      WithdrawAccepted (p.marketEnv (sampleEnv "" "" Decimal.one)) usd "lender" 1) ∧
    (TransferAccepted (p.marketEnv (sampleEnv "" "" Decimal.one)) atom "bob" 100_000_000 ↔
      WithdrawAccepted (p.marketEnv (sampleEnv "" "" Decimal.one)) atom "bob" 1_000) ∧
    (TransferAccepted (p.marketEnv (sampleEnv "" "" Decimal.one)) atom "bob" 500 ↔
      WithdrawAccepted (p.marketEnv (sampleEnv "" "" Decimal.one)) atom "bob" 0) := by
  obtain ⟨p, hrun, ⟨usd, found, hle, hworth, hm, hdebt⟩, atom, found', hle', hworth', hfew,
      hnothing, hunseparated⟩ : ∃ p,
      Run step (fun _ _ => True) (start "agency" sampleConfig) indebtedTxs p ∧
      (∃ sys ∈ p.markets.mayLoad "usd market",
        (100_000 : Uint128) ≤ sys.ctoken.balance "lender" ∧
        tokenToBase 100_000 sys.ctoken.multiplier = .ok (ε := Market.Error) 1 ∧
        sys.ctoken.multiplier ≤ Decimal.one ∧
        ∀ credit ∈ (Market.CrUtils.queryCredit
          (sys.querier (p.marketEnv (sampleEnv "" "" Decimal.one))) sys.market
            "lender").toOption, credit.debt = 0) ∧
      ∃ sys ∈ p.markets.mayLoad "atom market",
        (100_000_000 : Uint128) ≤ sys.ctoken.balance "bob" ∧
        tokenToBase 100_000_000 sys.ctoken.multiplier = .ok (ε := Market.Error) 1_000 ∧
        (500 : Uint128) ≤ sys.ctoken.balance "bob" ∧
        tokenToBase 500 sys.ctoken.multiplier = .ok (ε := Market.Error) 0 ∧
        ∀ credit ∈ (Market.CrUtils.queryCredit
            (sys.querier (p.marketEnv (sampleEnv "" "" Decimal.one))) sys.market "bob").toOption,
          ∀ price ∈ (Market.Query.priceMarketLocalPerCommon
            (sys.querier (p.marketEnv (sampleEnv "" "" Decimal.one))) sys.market).toOption,
            credit.debt ≠ 0 ∧ Unseparated sys "bob" 100_000_000 1_000 credit price ∧
              Unseparated sys "bob" 500 0 credit price :=
    exists_run_of_runAll (by decide +kernel)
  obtain ⟨hagree, hfree⟩ := ways_out_agree_iff hrun found hle hworth
  have hbob : ∀ credit price, Fitting (atom.querier (p.marketEnv (sampleEnv "" "" Decimal.one)))
      atom.market "bob" credit price → Unseparated atom "bob" 100_000_000 1_000 credit price ∧
        Unseparated atom "bob" 500 0 credit price := fun credit price hfit =>
    (hunseparated credit (toOption_eq_some.mpr hfit.answered) price
      (toOption_eq_some.mpr hfit.priced)).2
  refine ⟨p, usd, atom, hrun, found, found', hagree.mpr ?_, ?_, ?_⟩
  · intro credit price hfit _
    exact hfree hm credit price (hdebt credit (toOption_eq_some.mpr hfit.answered))
  · exact (ways_out_agree_iff hrun found' hle' hworth').1.mpr fun credit price hfit _ =>
      (hbob credit price hfit).1
  · exact (ways_out_agree_iff hrun found' hfew hnothing).1.mpr fun credit price hfit _ =>
      (hbob credit price hfit).2

/-- Of Bob's 1000 atom 500 are free. He may withdraw 100 of them, and not transfer the ten
million ctokens that they are. -/
theorem indebted_transfer_rejected : ∃ p sys,
    Run step (fun _ _ => True) (start "agency" sampleConfig) indebtedTxs p ∧
    p.markets.mayLoad "atom market" = some sys ∧
    Market.epochsPassed sys.market.config 0 = .ok 0 ∧
    10_000_000 ≤ sys.ctoken.balance "bob" ∧
    tokenToBase 10_000_000 sys.ctoken.multiplier = .ok (ε := Market.Error) 100 ∧
    WithdrawAccepted (p.marketEnv (sampleEnv "" "" Decimal.one)) sys "bob" 100 ∧
    ¬ TransferAccepted (p.marketEnv (sampleEnv "" "" Decimal.one)) sys "bob" 10_000_000 := by
  obtain ⟨p, hrun, sys, found, hn, hle, hworth, ⟨transferable, ht, hw⟩, hno⟩ : ∃ p,
      Run step (fun _ _ => True) (start "agency" sampleConfig) indebtedTxs p ∧
      ∃ sys ∈ p.markets.mayLoad "atom market",
        Market.epochsPassed sys.market.config 0 = .ok 0 ∧
        (10_000_000 : Uint128) ≤ sys.ctoken.balance "bob" ∧
        tokenToBase 10_000_000 sys.ctoken.multiplier = .ok (ε := Market.Error) 100 ∧
        (∃ transferable ∈ (Market.CrUtils.transferableAmount
          (sys.querier (p.marketEnv (sampleEnv "" "" Decimal.one))) sys.market
            "bob").toOption, (100 : Uint128) ≤ transferable) ∧
        (Ctoken.canTransfer (sys.ctokenQuerier (p.marketEnv (sampleEnv "" "" Decimal.one)))
          sys.market.config.ctokenContract sys.ctoken "bob" 10_000_000).toOption = none :=
    exists_run_of_runAll (by decide +kernel)
  refine ⟨p, sys, hrun, found, hn, hle, hworth, ⟨transferable, toOption_eq_some.mp ht, hw⟩, ?_⟩
  intro haccepted
  rw [TransferAccepted] at haccepted
  rw [haccepted] at hno
  cases hno

end Platform

end WyndLend
