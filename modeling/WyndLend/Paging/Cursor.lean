import Mathlib.Data.List.Sort
import Mathlib.Order.Basic

/-!
# Paging with a cursor

A list in the order of its keys is handed out in pages. A page starts after the last key
that the reader has seen, so the pages follow each other without a gap and an empty page
means that everything was listed. Elements may leave the list between two pages.
-/

namespace Paging

variable {α κ ι ε : Type*} (key : α → κ)

/-- The last key of the page, or the old cursor if the page is empty. -/
def cursor (start : Option κ) (page : List α) : Option κ :=
  (page.getLast?.map key).or start

/-- Ask for one page after the other, up to an empty one. -/
def browse (query : Option κ → ι → Except ε (List α)) (start : Option κ) :
    List ι → Except ε (List (List α))
  | [] => return []
  | i :: is => do
    let page ← query start i
    if page.isEmpty then return [page]
    let pages ← browse query (cursor key start page) is
    return page :: pages

section

variable {key} {query : Option κ → ι → Except ε (List α)} {start : Option κ} {i : ι} {is : List ι}

theorem browse_of_empty (h : query start i = .ok []) :
    browse key query start (i :: is) = .ok [[]] := by
  unfold browse
  rw [h]
  rfl

theorem browse_of_ne_nil {page : List α} {pages : List (List α)} (h : query start i = .ok page)
    (hne : page ≠ []) (hpages : browse key query (cursor key start page) is = .ok pages) :
    browse key query start (i :: is) = .ok (page :: pages) := by
  unfold browse
  rw [h]
  obtain ⟨a, rest, rfl⟩ := List.exists_cons_of_ne_nil hne
  change (browse key query _ is >>= fun pages => pure ((a :: rest) :: pages)) = _
  rw [hpages]
  rfl

end

/-! ## Sorted lists -/

variable [LinearOrder κ]

/-- What comes after the cursor; before the first page there is none. -/
def after (start : Option κ) (l : List α) : List α :=
  l.filter fun a => start.all fun k => k < key a

variable {key} {l : List α}

@[simp] theorem after_none (l : List α) : after key none l = l :=
  List.filter_eq_self.mpr fun _ _ => rfl

theorem mem_after {start : Option κ} {a : α} :
    a ∈ after key start l ↔ a ∈ l ∧ ∀ k ∈ start, k < key a := by
  unfold after
  rw [List.mem_filter, Option.all_eq_true]
  simp only [decide_eq_true_eq, Option.mem_def]

/-- Past the last element of a sorted prefix comes the rest. -/
theorem after_append {xs ys : List α} {a : α}
    (h : (xs ++ a :: ys).Pairwise fun a b => key a < key b) :
    after key (some (key a)) (xs ++ a :: ys) = ys := by
  obtain ⟨-, hys, hxs⟩ := List.pairwise_append.mp h
  obtain ⟨ha, -⟩ := List.pairwise_cons.mp hys
  have hle : ∀ x ∈ xs, ¬key a < key x := fun x hx => (hxs x hx a List.mem_cons_self).not_gt
  unfold after
  rw [List.filter_append, List.filter_cons_of_neg (by simp), List.filter_eq_nil_iff.mpr,
    List.nil_append, List.filter_eq_self.mpr]
  · intro y hy
    exact decide_eq_true (ha y hy)
  · intro x hx
    simpa using hle x hx

/-- A later cursor can be applied to what is left after an earlier one. -/
theorem after_after {start : Option κ} {k : κ} (h : ∀ k' ∈ start, k' ≤ k) :
    after key (some k) (after key start l) = after key (some k) l := by
  unfold after
  rw [List.filter_filter]
  refine List.filter_congr fun a _ => ?_
  cases start with
  | none => simp
  | some k' =>
    have hle : k' ≤ k := h k' rfl
    simp only [Option.all_some, Bool.and_eq_left_iff_imp, decide_eq_true_eq]
    exact hle.trans_lt

/-- After a page comes what it left out. -/
theorem after_cursor (h : l.Pairwise fun a b => key a < key b) (start : Option κ) (n : ℕ) :
    after key (cursor key start ((after key start l).take n)) l =
      (after key start l).drop n := by
  have hsorted : (after key start l).Pairwise fun a b => key a < key b := h.filter _
  have hsplit := List.take_append_drop n (after key start l)
  rcases List.eq_nil_or_concat ((after key start l).take n) with hpage | ⟨xs, a, hpage⟩
  · rw [hpage, List.nil_append] at hsplit
    rw [hpage, hsplit]
    rfl
  · rw [hpage, List.concat_eq_append] at hsplit ⊢
    have hmem : a ∈ after key start l := by
      rw [← hsplit]
      simp
    have hcursor : cursor key start (xs ++ [a]) = some (key a) := by
      unfold cursor
      rw [List.getLast?_append, List.getLast?_singleton]
      rfl
    have hle : ∀ k ∈ start, k ≤ key a := fun k hk => ((mem_after.mp hmem).2 k hk).le
    generalize (after key start l).drop n = rest at hsplit ⊢
    rw [hcursor, ← after_after hle, ← hsplit, List.append_assoc, List.singleton_append]
    rw [← hsplit, List.append_assoc, List.singleton_append] at hsorted
    exact after_append hsorted

/-- The pages list a sorted list in order, and all of it once a page is empty. That happens
at the latest when there are more pages than elements. -/
theorem browse_spec {query : Option κ → ι → Except ε (List α)} {size : ι → ℕ} {is : List ι}
    (h : l.Pairwise fun a b => key a < key b)
    (hquery : ∀ start i, query start i = .ok ((after key start l).take (size i)))
    (hpos : ∀ i ∈ is, 0 < size i) (start : Option κ) :
    ∃ pages, browse key query start is = .ok pages ∧
      ([] ∈ pages → pages.flatten = after key start l) ∧
      ((after key start l).length < is.length → [] ∈ pages) := by
  induction is generalizing start with
  | nil =>
    refine ⟨[], rfl, fun hmem => absurd hmem List.not_mem_nil, fun hlt => ?_⟩
    exact absurd hlt (Nat.not_lt_zero _)
  | cons i is ih =>
    have hsize := hpos i List.mem_cons_self
    have hpage := hquery start i
    obtain ⟨pages, hpages, hlisted, hempty⟩ :=
      ih (fun j hj => hpos j (List.mem_cons_of_mem _ hj))
        (cursor key start ((after key start l).take (size i)))
    rw [after_cursor h] at hlisted hempty
    by_cases hnil : after key start l = []
    · rw [hnil, List.take_nil] at hpage
      refine ⟨[[]], browse_of_empty hpage, fun _ => hnil.symm, fun _ => List.mem_singleton_self _⟩
    have hne : (after key start l).take (size i) ≠ [] := by
      rw [Ne, List.take_eq_nil_iff, not_or]
      exact ⟨hsize.ne', hnil⟩
    refine ⟨_, browse_of_ne_nil hpage hne hpages, fun hmem => ?_, fun hlt => ?_⟩
    · have hmem := (List.mem_cons.mp hmem).resolve_left hne.symm
      rw [List.flatten_cons, hlisted hmem, List.take_append_drop]
    · refine List.mem_cons_of_mem _ (hempty ?_)
      have hlength := List.length_pos_iff.mpr hnil
      rw [List.length_drop]
      rw [List.length_cons] at hlt
      omega

/-! ## Elements leave -/

/-- The listed elements are in order, and what is not among them comes after them. -/
structure Listed (key : α → κ) (listed l : List α) : Prop where
  sorted : listed.Pairwise fun a b => key a < key b
  rest : ∀ a ∈ l, a ∈ listed ∨ ∀ b ∈ listed, key b < key a

variable {listed : List α}

theorem Listed.start (l : List α) : Listed key [] l :=
  ⟨.nil, fun _ _ => .inr fun _ hb => absurd hb List.not_mem_nil⟩

/-- The cursor is at the end of the listed elements. -/
theorem forall_lt_iff (h : listed.Pairwise fun a b => key a < key b) {k : κ} :
    (∀ b ∈ listed, key b < k) ↔ ∀ k' ∈ listed.getLast?.map key, k' < k := by
  rcases List.eq_nil_or_concat listed with rfl | ⟨xs, a, rfl⟩
  · simp
  · rw [List.concat_eq_append] at h ⊢
    obtain ⟨-, -, hxs⟩ := List.pairwise_append.mp h
    rw [List.getLast?_append, List.getLast?_singleton]
    constructor
    · intro hlt k' hk'
      cases hk'
      exact hlt a (by simp)
    · intro hlt b hb
      have ha : key a < k := hlt _ rfl
      rcases List.mem_append.mp hb with hb | hb
      · exact (hxs b hb a (List.mem_singleton_self a)).trans ha
      · rwa [List.mem_singleton.mp hb]

theorem Listed.leave {l' : List α} (h : Listed key listed l) (hsub : ∀ a ∈ l', a ∈ l) :
    Listed key listed l' :=
  ⟨h.sorted, fun a ha => h.rest a (hsub a ha)⟩

theorem Listed.page (h : Listed key listed l) (hl : l.Pairwise fun a b => key a < key b) (n : ℕ) :
    Listed key (listed ++ (after key (listed.getLast?.map key) l).take n) l := by
  have hafter : ∀ a ∈ after key (listed.getLast?.map key) l, ∀ b ∈ listed, key b < key a :=
    fun a ha => (forall_lt_iff h.sorted).mpr (mem_after.mp ha).2
  have hsorted : (after key (listed.getLast?.map key) l).Pairwise fun a b => key a < key b :=
    hl.filter _
  have hsplit := List.take_append_drop n (after key (listed.getLast?.map key) l)
  refine ⟨List.pairwise_append.mpr ⟨h.sorted, hsorted.take, fun b hb a ha => ?_⟩, fun a ha => ?_⟩
  · exact hafter a (List.mem_of_mem_take ha) b hb
  rw [List.mem_append]
  rcases h.rest a ha with hmem | hlt
  · exact .inl (.inl hmem)
  -- an element that is not yet listed is on the page or comes after it
  have hmem := mem_after.mpr ⟨ha, (forall_lt_iff h.sorted).mp hlt⟩
  rw [← hsplit, List.mem_append] at hmem
  rcases hmem with htake | hdrop
  · exact .inl (.inr htake)
  · refine .inr fun b hb => ?_
    rcases List.mem_append.mp hb with hb | hb
    · exact hlt b hb
    · rw [← hsplit] at hsorted
      exact (List.pairwise_append.mp hsorted).2.2 b hb a hdrop

/-- Nothing comes after the cursor, so everything that is left was listed. -/
theorem Listed.complete (h : Listed key listed l)
    (hdone : after key (listed.getLast?.map key) l = []) : ∀ a ∈ l, a ∈ listed := by
  intro a ha
  refine (h.rest a ha).resolve_right fun hlt => ?_
  have hmem := mem_after.mpr ⟨ha, (forall_lt_iff h.sorted).mp hlt⟩
  rw [hdone] at hmem
  exact absurd hmem List.not_mem_nil

end Paging
