import WyndLend.Interleaving.Product
import WyndLend.Platform.Safety

/-!
# The order of transactions

Borrowing, withdrawing and moving ctokens ask the credit agency about all markets. Every
other message to a market or to its ctokens is handled there alone, so it does not matter
how such messages to different markets are ordered: not for whether they succeed, and not
for what they lead to.
-/

namespace WyndLend

open CosmWasm Utils Interleaving

/-! ## Messages that stay in their market -/

/-- The message makes the market ask for a total credit line. -/
def Market.ExecuteMsg.asksCredit : Market.ExecuteMsg → Bool
  | .withdraw _ | .borrow _ => true
  | _ => false

def Ctoken.ExecuteMsg.asksCredit : Ctoken.ExecuteMsg → Bool
  | .transfer .. | .send .. => true
  | _ => false

namespace Platform

variable {env : Env} {tx : Tx} {txs txs' : List Tx} {p p' q : Platform} {market account : Addr}
  {sys sys' : Market.System} {info : Market.MessageInfo} {entered : List Addr}

/-- The market that handles the transaction alone. -/
def Tx.place (tx : Tx) : Option Addr :=
  match tx.action with
  | .market market _ msg => if msg.asksCredit then none else some market
  | .ctoken market _ msg => if msg.asksCredit then none else some market
  | .donate market _ => some market
  | .agency .. => none

/-- What the transaction does to the market that it is for, without the credit agency. -/
def localStep (tx : Tx) (sys : Market.System) :
    Except Market.System.Error (Market.System × List Addr) :=
  match tx.action with
  | .market _ info msg => sys.execute tx.env.leaf info msg
  | .ctoken _ sender msg => do return (← sys.executeCtoken tx.env.leaf sender msg, [])
  | .donate _ amount => do
    return (← Market.System.step ⟨tx.env.leaf, .donate amount⟩ sys, [])
  | .agency .. => .ok (sys, [])

theorem execute_leaf {msg : Market.ExecuteMsg} (h : msg.asksCredit = false) :
    sys.execute (p.marketEnv env) info msg = sys.execute env.leaf info msg := by
  cases msg with
  | withdraw | borrow => cases h
  | receive sender amount msg => cases msg <;> rfl
  | _ => rfl

theorem executeCtoken_leaf {sender : Addr} {msg : Ctoken.ExecuteMsg} (h : msg.asksCredit = false) :
    sys.executeCtoken (p.marketEnv env) sender msg = sys.executeCtoken env.leaf sender msg := by
  cases msg with
  | transfer | send => cases h
  | _ => rfl

theorem step_local (h : tx.place = some market) : step tx p = .ok p' ↔
    ∃ sys sys' entered, p.markets.mayLoad market = some sys ∧
      localStep tx sys = .ok (sys', entered) ∧ p.update market sys' entered = p' := by
  obtain ⟨env, action⟩ := tx
  cases action with
  | market other info msg =>
    obtain ⟨hasks, rfl⟩ : msg.asksCredit = false ∧ other = market := by
      simpa [Tx.place] using h
    simp only [step, executeMarket, bind_eq_ok, find_eq_ok, mapError_eq_ok, pure_eq_ok,
      execute_leaf hasks, localStep, Prod.exists]
    grind
  | ctoken other sender msg =>
    obtain ⟨hasks, rfl⟩ : msg.asksCredit = false ∧ other = market := by
      simpa [Tx.place] using h
    simp only [step, bind_eq_ok, find_eq_ok, mapError_eq_ok, pure_eq_ok, executeCtoken_leaf hasks,
      localStep, Prod.mk.injEq]
    grind
  | donate other amount =>
    obtain rfl : other = market := by simpa [Tx.place] using h
    have hleaf : ∀ sys, Market.System.step ⟨p.marketEnv env, .donate amount⟩ sys =
        Market.System.step ⟨env.leaf, .donate amount⟩ sys := fun _ => rfl
    simp only [step, bind_eq_ok, find_eq_ok, mapError_eq_ok, pure_eq_ok, hleaf, localStep,
      Prod.mk.injEq]
    grind
  | agency => cases h

/-! ## The platform as a product of its markets -/

/-- What concerns one market: its state, and the accounts that have entered it. -/
abbrev Share := Option Market.System × Set Addr

def share (p : Platform) : Option Addr → Share
  | none => (none, ∅)
  | some market => (p.markets.mayLoad market, {account | market ∈ p.agency.entered account})

/-- A transaction moves the share of its market. -/
inductive Handles (tx : Tx) : Share → Share → Prop where
  | mk {sys sys' entered accounts} (handled : localStep tx sys = .ok (sys', entered)) :
    Handles tx (some sys, accounts) (some sys', {account | account ∈ entered} ∪ accounts)

theorem share_update {k : Option Addr} : (p.update market sys' entered).share k =
    if k = some market then
      (some sys', {account | account ∈ entered} ∪ (p.share (some market)).2)
    else p.share k := by
  cases k with
  | none => rfl
  | some m =>
    simp only [share, Option.some.injEq, mem_entered_update]
    split_ifs with hm
    · subst hm
      refine Prod.ext (Map.mayLoad_save_self _ _ _) ?_
      ext account
      simp
    · refine Prod.ext (Map.mayLoad_save_ne _ _ hm) ?_
      ext account
      simp [hm]

theorem moves_of_step (h : tx.place = some market) (hs : step tx p = .ok p') :
    Moves Tx.place Handles tx p.share p'.share := by
  obtain ⟨sys, sys', entered, found, handled, rfl⟩ := (step_local h).mp hs
  refine ⟨?_, fun k hk => ?_⟩
  · rw [h, share_update, if_pos rfl]
    simp only [share, found]
    exact .mk handled
  · rw [share_update, if_neg (by rwa [h] at hk)]

theorem step_of_moves {w : Option Addr → Share}
    (h : Moves Tx.place Handles tx p.share w) :
    ∃ market p', tx.place = some market ∧ step tx p = .ok p' ∧ p'.share = w := by
  obtain ⟨hmoved, hkept⟩ := h
  cases hplace : tx.place with
  | none =>
    rw [hplace] at hmoved
    cases hmoved
  | some market =>
    rw [hplace] at hmoved hkept
    generalize hw : w (some market) = after at hmoved
    cases found : p.markets.mayLoad market with
    | none =>
      simp only [share, found] at hmoved
      cases hmoved
    | some sys =>
      simp only [share, found] at hmoved
      cases hmoved with
      | @mk _ sys' entered _ handled =>
        refine ⟨market, _, rfl, (step_local hplace).mpr ⟨_, _, _, found, handled, rfl⟩, ?_⟩
        funext k
        rw [share_update]
        split_ifs with hk
        · rw [hk, hw]
          rfl
        · exact (hkept k hk).symm

/-! ## Runs -/

/-- The transaction is handled by one market alone. -/
def Local (_ : Platform) (tx : Tx) : Prop := tx.place.isSome

instance (p : Platform) (tx : Tx) : Decidable (Local p tx) :=
  inferInstanceAs (Decidable (tx.place.isSome = true))

theorem exec_of_run (h : Run step Local p txs q) :
    Exec (Moves Tx.place Handles) txs p.share q.share := by
  induction h with
  | nil => exact .nil _
  | snoc _ hlocal hs ih =>
    obtain ⟨market, hplace⟩ := Option.isSome_iff_exists.mp hlocal
    exact Exec.append_iff.mpr ⟨_, ih, .cons (moves_of_step hplace hs) (.nil _)⟩

theorem run_of_exec {w : Option Addr → Share} (h : Exec (Moves Tx.place Handles) txs p.share w) :
    ∃ q, Run step Local p txs q ∧ q.share = w := by
  generalize hp : p.share = v at h
  induction h generalizing p with
  | nil => exact ⟨p, .nil p, hp⟩
  | @cons tx txs _ u _ hmoves _ ih =>
    subst hp
    obtain ⟨market, p', hplace, hs, rfl⟩ := step_of_moves hmoves
    obtain ⟨q, hrun, rfl⟩ := ih rfl
    have hlocal : Local p tx := by simp [Local, hplace]
    exact ⟨q, ((Run.nil p).snoc hlocal hs).trans hrun, rfl⟩

theorem update_agency : (p.update market sys entered).agency = { p.agency with
    enteredMarkets := (p.update market sys entered).agency.enteredMarkets } := by
  unfold update
  dsimp only
  generalize p.agency = agency
  induction entered generalizing agency with
  | nil => rfl
  | cons account entered ih => exact ih (CreditAgency.enterMarket agency market account)

/-- Of the credit agency only the entered markets change. -/
theorem run_local_agency (h : Run step Local p txs q) : q.address = p.address ∧
    q.agency = { p.agency with enteredMarkets := q.agency.enteredMarkets } := by
  refine h.invariant (I := fun q => q.address = p.address ∧
    q.agency = { p.agency with enteredMarkets := q.agency.enteredMarkets }) ⟨rfl, rfl⟩ ?_
  rintro u tx v ⟨haddress, hagency⟩ hlocal hs
  obtain ⟨market, hplace⟩ := Option.isSome_iff_exists.mp hlocal
  obtain ⟨sys, sys', entered, -, -, rfl⟩ := (step_local hplace).mp hs
  refine ⟨haddress, ?_⟩
  rw [update_agency, hagency]

/-- Sets of markets with the same elements are the same. -/
theorem entered_ext (h : p'.share = q.share) (account : Addr) :
    p'.agency.entered account = q.agency.entered account := by
  refine BTreeSet.ext (List.Pairwise.eq_of_mem_iff (BTreeSet.sorted _) (BTreeSet.sorted _) ?_)
  intro market
  have haccounts := congrArg Prod.snd (congrFun h (some market))
  exact Set.ext_iff.mp haccounts account

/-- Transactions that are each handled by one market alone may be reordered in any way that
keeps the order at every market: they all succeed again, every market ends in the same state
and every account has entered the same markets. -/
theorem local_reorder (h : Run step Local p txs q)
    (hsame : ∀ place, project Tx.place place txs = project Tx.place place txs') :
    ∃ q', Run step Local p txs' q' ∧
      (∀ market, q'.markets.mayLoad market = q.markets.mayLoad market) ∧
      (∀ account, q'.agency.entered account = q.agency.entered account) ∧
      q'.address = q.address ∧
      q'.agency = { q.agency with enteredMarkets := q'.agency.enteredMarkets } := by
  obtain ⟨q', hrun, hshare⟩ := run_of_exec ((exec_reorder hsame).mp (exec_of_run h))
  obtain ⟨haddress, hagency⟩ := run_local_agency h
  obtain ⟨haddress', hagency'⟩ := run_local_agency hrun
  refine ⟨q', hrun, fun market => ?_, entered_ext hshare, haddress'.trans haddress.symm, ?_⟩
  · exact congrArg Prod.fst (congrFun hshare (some market))
  · rw [hagency, hagency']

/-- The lender deposits dollars. -/
def sampleDollars : Tx :=
  ⟨sampleEnv "" "" Decimal.one, .market "usd market" ⟨"lender", [("usd", 1_000)]⟩ .deposit⟩

/-- Governance takes a reserve of the interest on dollars. -/
def sampleReserve : Tx :=
  ⟨sampleEnv "" "" Decimal.one,
    .market "usd market" ⟨"gov", []⟩ (.adjustReserveFactor ⟨100_000_000_000_000_000⟩)⟩

/-- Bob deposits atom. -/
def sampleAtom : Tx :=
  ⟨sampleEnv "" "" Decimal.one, .market "atom market" ⟨"bob", [("atom", 40)]⟩ .deposit⟩

/-- Bob's deposit of atom may as well come last. -/
theorem local_reorder_example : ∃ p q q', Run step (fun _ _ => True) (start "agency" sampleConfig)
      ((sampleCollateral Decimal.one sampleHalf Decimal.zero 40).take 2) p ∧
    Run step Local p [sampleDollars, sampleAtom, sampleReserve] q ∧
    Run step Local p [sampleDollars, sampleReserve, sampleAtom] q' ∧
    (∀ market, q'.markets.mayLoad market = q.markets.mayLoad market) ∧
    ∀ account, q'.agency.entered account = q.agency.entered account := by
  obtain ⟨p, hrun, hany⟩ : ∃ p, Run step (fun _ _ => True) (start "agency" sampleConfig)
      ((sampleCollateral Decimal.one sampleHalf Decimal.zero 40).take 2) p ∧
      (runAll step Local [sampleDollars, sampleAtom, sampleReserve] p).any
        (fun _ => decide True) = true :=
    exists_run_of_runAll (by decide +kernel)
  obtain ⟨q, hlocal, -⟩ := exists_run_of_runAll hany
  have hsame : ∀ place, project Tx.place place [sampleDollars, sampleAtom, sampleReserve] =
      project Tx.place place [sampleDollars, sampleReserve, sampleAtom] := by
    intro place
    simp only [project_cons, project_nil]
    have hdollars : sampleReserve.place = some "usd market" := rfl
    have hatom : sampleAtom.place = some "atom market" := rfl
    rw [hdollars, hatom]
    grind
  obtain ⟨q', hlocal', hmarkets, hentered, -⟩ := local_reorder hlocal hsame
  exact ⟨p, q, q', hrun, hlocal, hlocal', hmarkets, hentered⟩

end Platform

end WyndLend
