import WyndLend.Platform.Footprint

/-!
# What keeps apart

Transactions see no more of the platform than they read. So whatever becomes of a market, those
who keep away from it go on as before; and transactions that have nothing to do with each other
may come in either order, those that ask for credit included.
-/

namespace WyndLend.Platform

open CosmWasm Utils Interleaving

variable {tx tx' : Tx} {txs txs' : List Tx} {p p' q : Platform} {parts : Set Part}

/-! ## Failures -/

/-- The transaction looks at none of the parts. -/
def Avoids (parts : Set Part) (p : Platform) (tx : Tx) : Prop := ∀ k ∈ reads tx p, k ∉ parts

instance (k : Part) (p : Platform) (tx : Tx) : Decidable (Avoids {k} p tx) :=
  decidable_of_iff (k ∉ reads tx p) ⟨fun h _ hk heq => h (heq ▸ hk), fun h hk => h k hk rfl⟩

/-- Let anything happen to some parts of the platform. A run that looks at none of them goes
on from there as before: every transaction succeeds again, all other parts come to look the
same, and these parts stay as they are. -/
theorem failure_contained (h : Run step (Avoids parts) p txs p')
    (hsame : AgreeOn view partsᶜ p q) :
    ∃ q', Run step (Avoids parts) q txs q' ∧ AgreeOn view partsᶜ p' q' ∧
      AgreeOn view parts p p' ∧ AgreeOn view parts q q' := by
  refine h.simulate (R := fun a b => AgreeOn view partsᶜ a b ∧ AgreeOn view parts p a ∧
    AgreeOn view parts q b) ⟨hsame, .refl p, .refl q⟩ ?_
  rintro a b tx a' ⟨hab, hpa, hqb⟩ havoids hs
  have hspares : Disjoint {k | k ∈ reads tx a} parts := Set.disjoint_left.mpr havoids
  obtain ⟨b', hs', hab', haa', hbb'⟩ := accesses.spare hs hspares hab
  have hreads : reads tx b = reads tx a := reads_eq (hab.mono havoids)
  refine ⟨?_, b', hs', hab', hpa.trans haa', hqb.trans hbb'⟩
  unfold Avoids
  rwa [hreads]

/-- The lender deposits another 1000 dollars and withdraws 500. -/
def sampleDollarsOnly : List Tx :=
  [sampleDollars, withdrawal (sampleEnv "" "" Decimal.one) "usd market" ("lender", 500)]

/-- The atom market has lost all its atoms: nothing that the lender is concerned with. -/
theorem failure_contained_example : ∃ p p' sys q',
    Run step (fun _ _ => True) (start "agency" sampleConfig)
      (sampleCollateral Decimal.one sampleHalf Decimal.zero 40) p ∧
    Run step (Avoids {.market "atom market"}) p sampleDollarsOnly p' ∧
    p.markets.mayLoad "atom market" = some sys ∧
    Run step (Avoids {.market "atom market"})
      { p with markets := p.markets.save "atom market" { sys with cash := 0 } }
      sampleDollarsOnly q' ∧
    q'.markets.mayLoad "usd market" = p'.markets.mayLoad "usd market" := by
  obtain ⟨p, hrun, ⟨sys, found, -⟩, hany⟩ : ∃ p, Run step (fun _ _ => True)
      (start "agency" sampleConfig) (sampleCollateral Decimal.one sampleHalf Decimal.zero 40) p ∧
      (∃ sys ∈ p.markets.mayLoad "atom market", sys.cash = 40) ∧
      (runAll step (Avoids {.market "atom market"}) sampleDollarsOnly p).any
        (fun _ => decide True) = true := exists_run_of_runAll (by decide +kernel)
  obtain ⟨p', havoids, -⟩ := exists_run_of_runAll hany
  have hsame : AgreeOn view {Part.market "atom market"}ᶜ p
      { p with markets := p.markets.save "atom market" { sys with cash := 0 } } := by
    intro k hk
    cases k with
    | registry | entered => rfl
    | market other =>
      have hne : other ≠ "atom market" := fun heq => hk (congrArg Part.market heq)
      simp only [view, Map.mayLoad_save_ne _ _ hne]
  obtain ⟨q', hq', hagree, -⟩ := failure_contained havoids hsame
  refine ⟨p, p', sys, q', hrun, havoids, found, hq', ?_⟩
  exact (view_market (hagree (.market "usd market") (by simp))).symm

/-! ## Swaps -/

/-- Neither transaction writes what the other one reads. -/
def Apart (p : Platform) (tx tx' : Tx) : Prop :=
  (∀ k ∈ writes tx p, k ∉ reads tx' p) ∧ ∀ k ∈ writes tx' p, k ∉ reads tx p

instance (p : Platform) (tx tx' : Tx) : Decidable (p.Apart tx tx') :=
  inferInstanceAs (Decidable (_ ∧ _))

/-- Two neighbours that are apart when their turn comes have been swapped. -/
def Swap (p : Platform) (txs txs' : List Tx) : Prop :=
  ∃ before tx tx' after, txs = before ++ tx :: tx' :: after ∧
    txs' = before ++ tx' :: tx :: after ∧
    ∀ u, Run step (fun _ _ => True) p before u → u.Apart tx tx'

/-- Transactions may be reordered by swapping neighbours that are apart, as often as one
likes: they all succeed again, and every part of the platform ends up looking the same. -/
theorem swaps_commute (h : Run step (fun _ _ => True) p txs p')
    (hswaps : Relation.ReflTransGen p.Swap txs txs') :
    ∃ q, Run step (fun _ _ => True) p txs' q ∧ ∀ k, view k p' = view k q := by
  have hswaps : Relation.ReflTransGen (Swapped (fun tx p p' => step tx p = .ok p')
      (fun tx p => {k | k ∈ reads tx p}) (fun tx p => {k | k ∈ writes tx p}) p) txs txs' := by
    refine Relation.ReflTransGen.mono ?_ _ _ hswaps
    rintro _ _ ⟨before, tx, tx', after, rfl, rfl, hapart⟩
    refine ⟨before, tx, tx', after, rfl, rfl, fun u hu => ?_⟩
    obtain ⟨hleft, hright⟩ := hapart u (Run.exec_iff.mpr hu)
    exact ⟨Set.disjoint_left.mpr hleft, Set.disjoint_left.mpr hright⟩
  obtain ⟨q, hq, hsame⟩ := accesses.exec_reordered (Run.exec_iff.mp h) hswaps
  exact ⟨q, Run.exec_iff.mpr hq, fun k => hsame k (Set.mem_univ k)⟩

/-- Bob deposits atoms before the lender withdraws dollars, or after that. -/
theorem swaps_commute_example : ∃ p p' q,
    Run step (fun _ _ => True) (start "agency" sampleConfig)
      (sampleCollateral Decimal.one sampleHalf Decimal.zero 40) p ∧
    Run step (fun _ _ => True) p
      [sampleAtom, withdrawal (sampleEnv "" "" Decimal.one) "usd market" ("lender", 500)] p' ∧
    Run step (fun _ _ => True) p
      [withdrawal (sampleEnv "" "" Decimal.one) "usd market" ("lender", 500), sampleAtom] q ∧
    ∀ k, view k p' = view k q := by
  obtain ⟨p, hrun, hapart, hany⟩ : ∃ p, Run step (fun _ _ => True)
      (start "agency" sampleConfig) (sampleCollateral Decimal.one sampleHalf Decimal.zero 40) p ∧
      p.Apart sampleAtom
        (withdrawal (sampleEnv "" "" Decimal.one) "usd market" ("lender", 500)) ∧
      (runAll step (fun _ _ => True) [sampleAtom,
        withdrawal (sampleEnv "" "" Decimal.one) "usd market" ("lender", 500)] p).any
          (fun _ => decide True) = true := exists_run_of_runAll (by decide +kernel)
  obtain ⟨p', hrun', -⟩ := exists_run_of_runAll hany
  have hswap : p.Swap [sampleAtom,
      withdrawal (sampleEnv "" "" Decimal.one) "usd market" ("lender", 500)]
      [withdrawal (sampleEnv "" "" Decimal.one) "usd market" ("lender", 500), sampleAtom] := by
    refine ⟨[], _, _, [], rfl, rfl, fun u hu => ?_⟩
    have hnil : Run step (fun _ _ => True) p [] p := .nil p
    rwa [← hnil.unique hu]
  obtain ⟨q, hq, hsame⟩ := swaps_commute hrun' (.single hswap)
  exact ⟨p, p', q, hrun, hrun', hq, hsame⟩

end WyndLend.Platform
