import WyndLend.Market.Books

/-!
# The market cap

`Deposit` compares the cap with the ctoken base supply that it finds and charges interest
afterwards, which raises the supply by the interest and by the reserve. The cap holds after
the deposit if there is nothing to charge.
-/

namespace WyndLend.Market.System

open CosmWasm Utils Rebasing

variable {env : Env} {info : MessageInfo} {msg : ExecuteMsg} {sys sys' : System}
  {entered : List Addr} {coin : Coin} {cap : Uint128}

/-- A charge adds nothing: no period has elapsed, or nobody owes anything. -/
def NothingToCharge (env : Env) (sys : System) : Prop :=
  epochsPassed sys.market.config env.time = .ok 0 ∨ sys.owed = 0

instance (env : Env) (sys : System) : Decidable (NothingToCharge env sys) :=
  inferInstanceAs (Decidable (_ ∨ _))

/-- Then the charge leaves the claims of the lenders as they are. -/
theorem settled_claims (h : NothingToCharge env sys) :
    (settled env sys).supply = sys.pool.supply ∧
      (settled env sys).supplyMultiplier = sys.pool.supplyMultiplier := by
  rcases h with hn | howed
  · rw [settled_idle hn]
    exact ⟨rfl, rfl⟩
  · have hcharged : ∀ rate, sys.pool.charged fractional rate = 0 := fun rate => by
      have howed : sys.pool.owed fractional = 0 := howed
      rw [Pool.charged, howed, Nat.zero_mul, Nat.zero_div]
    unfold settled
    cases pendingRate env sys with
    | none => exact ⟨rfl, rfl⟩
    | some rate =>
      simp [settledPool, pendingReserve, hcharged, Pool.accrue, Pool.mint, toPoints, grow,
        fractional_pos]

/-- A deposit is checked against the cap, then interest is settled, then ctokens are minted. -/
theorem execute_deposit (hm : msg.plain = .deposit) (hc : incoming info msg = .ok coin)
    (h : execute env info msg sys = .ok (sys', entered)) :
    (∀ cap, sys.market.config.marketCap = some cap → sys.claims + coin.amount.val ≤ cap.val) ∧
      sys'.pool =
        ((settled env sys).receive coin.amount.val).mint fractional coin.amount.val := by
  obtain ⟨funds, holdings, hf, hr, hout⟩ := execute_outcome h
  cases hout with
  | deposit _ hc' hd hcap hs ha =>
    cases hc.symm.trans hc'
    have hfunds := received_eq hc hd hf
    have hct := (Holdings.receive_eq_ok.mp hr).1
    refine ⟨fun cap hsome => ?_, ?_⟩
    · obtain ⟨base, hbase, hle⟩ := ensureUnderCap_eq_ok.mp hcap cap hsome
      have hclaims : base.val = sys.claims := by
        rw [← totalSupplyBase_eq_ok (ε := Market.Error), ← hct]
        exact hbase
      omega
    · rw [apply_deposit ha, (settle_pool hs).1, credited_settled hr, hfunds]
  | _ => grind [ExecuteMsg.plain]

/-- The claims after a deposit are those after the charge and the amount, less what its
conversion drops. -/
theorem deposit_claims_le_iff (hm : msg.plain = .deposit) (hc : incoming info msg = .ok coin)
    (h : execute env info msg sys = .ok (sys', entered)) (limit : ℕ) :
    sys'.claims ≤ limit ↔
      value fractional (settled env sys).supply (settled env sys).supplyMultiplier +
          coin.amount.val <
        limit + 1 + dropped fractional coin.amount.val (settled env sys).supplyMultiplier := by
  unfold claims
  rw [(execute_deposit hm hc h).2]
  exact Pool.claims_mint_le_iff _ fractional_pos _ _

/-- A successful deposit keeps the cap if there is nothing to charge. Once a charge raises the
claims by two tokens and the worth of a ctoken, the deposit that fills the cap goes beyond
it. -/
theorem deposit_within_cap (hcap : sys.market.config.marketCap = some cap)
    (hm : msg.plain = .deposit) (hc : incoming info msg = .ok coin)
    (h : execute env info msg sys = .ok (sys', entered)) :
    (NothingToCharge env sys → sys'.claims ≤ cap.val) ∧
      (sys.claims + coin.amount.val = cap.val →
        sys.claims + 2 + (settled env sys).supplyMultiplier / fractional ≤
          (settled env sys).claims fractional →
        cap.val < sys'.claims) := by
  obtain ⟨hchecked, hpool⟩ := execute_deposit hm hc h
  refine ⟨fun hnothing => ?_, fun hfilled hraised => ?_⟩
  · obtain ⟨hsupply, hmultiplier⟩ := settled_claims hnothing
    have hclaims : (settled env sys).claims fractional = sys.claims := by
      unfold Pool.claims
      rw [hsupply, hmultiplier]
      rfl
    have hmint : sys'.claims ≤ (settled env sys).claims fractional + coin.amount.val := by
      unfold claims
      rw [hpool]
      exact Pool.claims_mint_le _
    exact hmint.trans (hclaims ▸ hchecked cap hcap)
  · by_contra hle
    have hroom := (deposit_claims_le_iff hm hc h cap.val).mp (not_lt.mp hle)
    generalize settled env sys = after at hraised hroom
    have hvalue := toBase_le_value fractional after.supply after.supplyMultiplier
    have hpos : 0 < after.supplyMultiplier := by
      by_contra hzero
      rw [Pool.claims, Nat.eq_zero_of_not_pos hzero, toBase, Nat.mul_zero, Nat.zero_div] at hraised
      omega
    have hdropped := dropped_lt fractional_pos coin.amount.val hpos
    have hworth := lt_cast_div_add_one after.supplyMultiplier fractional
    have hover : (cap.val + 2 + (after.supplyMultiplier / fractional : ℕ) : ℚ) ≤
        toBase fractional after.supply after.supplyMultiplier + coin.amount.val := by
      rw [← hfilled]
      exact_mod_cast (by unfold Pool.claims at hraised; omega)
    linarith

/-! ## A cap of 2100 -/

def cappedSample : Except Error System :=
  instantiate "agency" "market" "ctoken" 0 { sampleMsg with marketCap := some 2100 }

def cappedTxs : List Tx :=
  [sampleTx 0 "lender" 2000 .deposit, sampleTx 0 "bob" 0 (.borrow 1000)]

/-- Within the first year the cap holds. After a year it holds as long as nobody has borrowed;
if Bob has, 100 more tokens fill the cap as the check sees it, and go beyond. -/
theorem deposit_within_cap_example : ∃ init lent sys, cappedSample = .ok init ∧
    Run step Ordered init [sampleTx 0 "lender" 2000 .deposit] lent ∧
    Run step Ordered init cappedTxs sys ∧
    (∃ sys' entered, execute (sampleEnv 1000) ⟨"carol", [("atom", 50)]⟩ .deposit sys =
      .ok (sys', entered) ∧ sys'.claims ≤ 2100) ∧
    (∃ sys' entered, execute (sampleEnv 31_536_000) ⟨"carol", [("atom", 50)]⟩ .deposit lent =
      .ok (sys', entered) ∧ sys'.claims ≤ 2100) ∧
    ∃ sys' entered, execute (sampleEnv 31_536_000) ⟨"carol", [("atom", 100)]⟩ .deposit sys =
      .ok (sys', entered) ∧ 2100 < sys'.claims := by
  obtain ⟨init, lent, hi, hlent, hcap, howed, hd⟩ : ∃ init sys, cappedSample = .ok init ∧
      Run step Ordered init [sampleTx 0 "lender" 2000 .deposit] sys ∧
      sys.market.config.marketCap = some 2100 ∧ sys.owed = 0 ∧
      (execute (sampleEnv 31_536_000) ⟨"carol", [("atom", 50)]⟩ .deposit sys).toOption.isSome =
        true := exists_run_of_start (by decide)
  obtain ⟨init', sys, hi', hrun, hcap', hidle, hearly, hclaims, hraised, hlate⟩ :
      ∃ init sys, cappedSample = .ok init ∧ Run step Ordered init cappedTxs sys ∧
        sys.market.config.marketCap = some 2100 ∧
        (epochsPassed sys.market.config 1000).toOption = some 0 ∧
        (execute (sampleEnv 1000) ⟨"carol", [("atom", 50)]⟩ .deposit sys).toOption.isSome = true ∧
        sys.claims + 100 = 2100 ∧
        sys.claims + 2 + (settled (sampleEnv 31_536_000) sys).supplyMultiplier / fractional ≤
          (settled (sampleEnv 31_536_000) sys).claims fractional ∧
        (execute (sampleEnv 31_536_000) ⟨"carol", [("atom", 100)]⟩ .deposit sys).toOption.isSome =
          true := exists_run_of_start (by decide)
  cases hi.symm.trans hi'
  obtain ⟨r, hd⟩ := Option.isSome_iff_exists.mp hd
  obtain ⟨r', hearly⟩ := Option.isSome_iff_exists.mp hearly
  obtain ⟨r'', hlate⟩ := Option.isSome_iff_exists.mp hlate
  rw [toOption_eq_some] at hd hearly hlate
  refine ⟨init, lent, sys, hi, hlent, hrun, ⟨_, _, hearly, ?_⟩, ⟨_, _, hd, ?_⟩, _, _, hlate, ?_⟩
  · exact (deposit_within_cap hcap' rfl rfl hearly).1 (.inl (toOption_eq_some.mp hidle))
  · exact (deposit_within_cap hcap rfl rfl hd).1 (.inr howed)
  · exact (deposit_within_cap hcap' rfl rfl hlate).2 hclaims hraised

/-- After a year 50 more tokens pass the check against 2000 and leave a supply of 2294. Had
the year been charged by an earlier message of the block, the deposit would be rejected. -/
theorem deposit_over_cap : ∃ init sys sys' entered, cappedSample = .ok init ∧
    Run step Ordered init cappedTxs sys ∧
    execute (sampleEnv 31_536_000) ⟨"carol", [("atom", 50)]⟩ .deposit sys = .ok (sys', entered) ∧
    ¬ sys'.claims ≤ 2100 ∧
    ∃ charged, step (sampleTx 31_536_000 "bob" 1 .repay) sys = .ok charged ∧
      (execute (sampleEnv 31_536_000) ⟨"carol", [("atom", 50)]⟩ .deposit charged).toOption.isSome =
        false := by
  obtain ⟨init, sys, hi, hrun, hd, hcharged⟩ : ∃ init sys, cappedSample = .ok init ∧
      Run step Ordered init cappedTxs sys ∧
      (execute (sampleEnv 31_536_000) ⟨"carol", [("atom", 50)]⟩ .deposit sys).toOption.any
        (fun r => decide (¬ r.1.claims ≤ 2100)) = true ∧
      (step (sampleTx 31_536_000 "bob" 1 .repay) sys).toOption.any (fun charged =>
        decide ((execute (sampleEnv 31_536_000) ⟨"carol", [("atom", 50)]⟩ .deposit
          charged).toOption.isSome = false)) = true :=
    exists_run_of_start (by decide)
  obtain ⟨⟨sys', entered⟩, hd, hover⟩ := exists_ok_of_any hd
  exact ⟨init, sys, sys', entered, hi, hrun, hd, hover, exists_ok_of_any hcharged⟩

end WyndLend.Market.System
