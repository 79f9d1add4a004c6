import WyndLend.Market.Outcome

/-!
# Migrations of a market

A migration stores another code id for the ctoken contract. No handler reads it, so a
migrated market handles every transaction as it would have without the migration.
-/

namespace WyndLend.Market

open CosmWasm Utils

/-- The same market with another token id. -/
def State.relabel (s : State) (tokenId : ℕ) : State :=
  { s with config := { s.config with tokenId } }

variable {q : Querier} {time tokenId tokenId' : ℕ} {s : State}

@[simp] theorem State.relabel_relabel : (s.relabel tokenId).relabel tokenId' = s.relabel tokenId' :=
  rfl

@[simp] theorem State.relabel_self : s.relabel s.config.tokenId = s := rfl

theorem chargeInterest_relabel : chargeInterest q time (s.relabel tokenId) =
    (fun r => (r.1.relabel tokenId, r.2)) <$> chargeInterest q time s := by
  simp only [chargeInterest, map_bind]
  refine bind_congr fun epochs => ?_
  split_ifs
  · rfl
  · simp only [map_bind]
    refine bind_congr fun update => ?_
    cases update with
    | none => rfl
    | some update =>
      simp only [map_bind]
      rfl

/-- A swap charges no interest, and sells the same tokens for the same tokens. -/
theorem swapWithdrawFrom_relabel (sender account : Addr) (buy : Coin) (sellLimit : Uint128) :
    swapWithdrawFrom q (s.relabel tokenId) sender account buy sellLimit =
      (fun r => (r.1.relabel tokenId, r.2)) <$>
        swapWithdrawFrom q s sender account buy sellLimit := by
  have hsame : (s.relabel tokenId).config.marketToken = s.config.marketToken := rfl
  simp only [swapWithdrawFrom, map_bind, hsame]
  refine bind_congr fun _ => ?_
  split_ifs
  · rfl
  · simp only [map_bind]
    rfl

/-- Every message has the same response, and leaves the same state but for the token id. -/
theorem execute_relabel (info : MessageInfo) (msg : ExecuteMsg) :
    execute q time info msg (s.relabel tokenId) =
      (fun r => (r.1.relabel tokenId, r.2)) <$> execute q time info msg s := by
  cases msg with
  | deposit =>
    simp only [execute, deposit, chargeInterest_relabel, map_bind, bind_map_left]
    rfl
  | withdraw amount =>
    simp only [execute, withdraw, chargeInterest_relabel, map_bind, bind_map_left]
    rfl
  | borrow amount =>
    simp only [execute, borrow, chargeInterest_relabel, map_bind, bind_map_left]
    rfl
  | repay =>
    simp only [execute, repay, chargeInterest_relabel, map_bind, bind_map_left]
    rfl
  | repayTo account =>
    simp only [execute, repayTo, chargeInterest_relabel, map_bind, bind_map_left]
    rfl
  | transferFrom source destination amount liquidationPrice =>
    simp only [execute, transferFrom, chargeInterest_relabel, map_bind, bind_map_left]
    rfl
  | adjustCommonToken | adjustCollateralRatio | adjustReserveFactor | adjustPriceOracle
  | adjustMarketCap =>
    simp only [execute, adjustCommonToken, Restricted.adjustCollateralRatio,
      Restricted.adjustReserveFactor, Restricted.adjustPriceOracle, Restricted.adjustMarketCap,
      Restricted.adjust, map_bind]
    rfl
  | swapWithdrawFrom account buy sellLimit => exact swapWithdrawFrom_relabel _ _ _ _
  | adjustInterestRates curve =>
    simp only [execute, Restricted.adjustInterestRates, chargeInterest_relabel, map_bind,
      bind_map_left]
    rfl
  | receive sender amount msg =>
    cases msg with
    | deposit =>
      simp only [execute, receiveCw20Message, deposit, chargeInterest_relabel, map_bind,
        bind_map_left]
      rfl
    | repay =>
      simp only [execute, receiveCw20Message, repay, chargeInterest_relabel, map_bind,
        bind_map_left]
      rfl
    | repayTo account =>
      simp only [execute, receiveCw20Message, repayTo, chargeInterest_relabel, map_bind,
        bind_map_left]
      rfl

namespace System

variable {env : Env} {sys sys' : System} {entered : List Addr}

def relabel (sys : System) (tokenId : ℕ) : System :=
  { sys with market := sys.market.relabel tokenId }

@[simp] theorem relabel_relabel : (sys.relabel tokenId).relabel tokenId' = sys.relabel tokenId' :=
  rfl

@[simp] theorem relabel_self : sys.relabel sys.market.config.tokenId = sys := rfl

theorem execute_relabel {info : MessageInfo} {msg : ExecuteMsg}
    (h : execute env info msg sys = .ok (sys', entered)) :
    execute env info msg (sys.relabel tokenId) = .ok (sys'.relabel tokenId, entered) := by
  simp only [execute, bind_eq_ok, mapError_eq_ok, pure_eq_ok] at h ⊢
  obtain ⟨funds, hf, holdings, hr, ⟨market, msgs⟩, hm, holdings', hd, h⟩ := h
  cases h
  refine ⟨funds, hf, holdings, hr, (market.relabel tokenId, msgs), ?_, holdings', hd, rfl⟩
  have hrelabel : Market.execute (({ sys with toHoldings := holdings }).querier env) env.time info
      msg (sys.market.relabel tokenId) = _ := Market.execute_relabel info msg
  rw [hm] at hrelabel
  exact hrelabel

/-- A transaction of the market does the same to it under any token id. -/
theorem step_relabel (tx : Tx) (h : step tx sys = .ok sys') :
    step tx (sys.relabel tokenId) = .ok (sys'.relabel tokenId) := by
  obtain ⟨env, action⟩ := tx
  cases action with
  | execute info msg =>
    simp only [step, bind_eq_ok, pure_eq_ok] at h ⊢
    obtain ⟨⟨_, entered⟩, h, rfl⟩ := h
    exact ⟨_, execute_relabel h, rfl⟩
  | ctoken sender msg =>
    simp only [step, executeCtoken, bind_eq_ok, pure_eq_ok] at h ⊢
    obtain ⟨r, h, rfl⟩ := h
    exact ⟨r, h, rfl⟩
  | donate amount =>
    simp only [step, bind_eq_ok, pure_eq_ok] at h ⊢
    obtain ⟨holdings, h, rfl⟩ := h
    exact ⟨holdings, h, rfl⟩

end System

end WyndLend.Market
