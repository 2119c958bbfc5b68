/-
Two sorts of a list.

# Stable sort

What a stable sort makes of a list without duplicates: an element stands
before another exactly where it is smaller, or as small and before it in
the list (`mergeSort_pairwise_before`).

# Exchange sort

One entry after the other is compared with all behind it and exchanged
with each that should stand before it. `sweep` is one round of it on a
list, `exchangeSort` all rounds, for any test `gt`. Whatever the test, the
entries stay the same (`exchangeSort_perm`). With one that compares a key,
the key ascends (`exchangeSort_sorted`), and any test that answers as it
does where it is asked sorts as it does (`exchangeSort_congr`). Entries
that a round does not exchange stay where they are (`sweep_append`).
-/
import Mathlib.Data.List.Nodup
import Mathlib.Data.List.Pairwise
import Mathlib.Data.List.Perm.Basic
import Mathlib.Order.Lattice

namespace PrimiHub.Lib

-- ============================================================ stable sort

section StableSort

variable {α : Type*} {le : α → α → Bool}

/-- `a` may stand before `b` in the list `xs`, sorted by `le`. -/
def Before (le : α → α → Bool) (xs : List α) (a b : α) : Prop :=
  le a b ∧ (le b a → [a, b].Sublist xs)

/-- Two elements stand in one order only. -/
theorem not_sublist_swap {xs : List α} (hnodup : xs.Nodup) {a b : α}
    (hab : [a, b].Sublist xs) : ¬ [b, a].Sublist xs := by
  intro hba
  have hne : a ≠ b := (List.nodup_cons.mp (hnodup.sublist hab)).1 ∘
    fun h => h ▸ List.mem_singleton_self b
  induction xs with
  | nil => cases hab
  | cons x xs ih =>
      obtain ⟨hx, hxs⟩ := List.nodup_cons.mp hnodup
      cases hab with
      | cons _ hab =>
          cases hba with
          | cons _ hba => exact ih hxs hab hba
          | cons_cons _ hba =>
              exact hx (hab.subset (List.mem_cons_of_mem a
                (List.mem_singleton_self _)))
      | cons_cons _ hab =>
          cases hba with
          | cons _ hba =>
              exact hx (hba.subset (List.mem_cons_of_mem b
                (List.mem_singleton_self _)))
          | cons_cons _ hba => exact hne rfl

/-- Two elements of a list stand in some order. -/
theorem sublist_or_sublist {xs : List α} {a b : α} (ha : a ∈ xs)
    (hb : b ∈ xs) (hne : a ≠ b) :
    [a, b].Sublist xs ∨ [b, a].Sublist xs := by
  induction xs with
  | nil => cases ha
  | cons x xs ih =>
      obtain rfl | hxa := List.mem_cons.mp ha
      · obtain rfl | hxb := List.mem_cons.mp hb
        · exact absurd rfl hne
        · exact Or.inl ((List.singleton_sublist.mpr hxb).cons_cons a)
      · obtain rfl | hxb := List.mem_cons.mp hb
        · exact Or.inr ((List.singleton_sublist.mpr hxa).cons_cons b)
        · exact (ih hxa hxb).imp (List.Sublist.cons x) (List.Sublist.cons x)

/-- Two images stand in the order of their elements. -/
theorem pair_sublist_map {β : Type*} {f : α → β} {xs : List α} {x y : β}
    (h : [x, y].Sublist (xs.map f)) :
    ∃ a b, [a, b].Sublist xs ∧ f a = x ∧ f b = y := by
  obtain ⟨pair, hpair, heq⟩ := List.sublist_map_iff.mp h
  have hlength := congrArg List.length heq
  rw [List.length_map] at hlength
  obtain ⟨a, b, rfl⟩ := List.length_eq_two.mp hlength.symm
  obtain ⟨ha, heq⟩ := List.cons_eq_cons.mp heq
  exact ⟨a, b, hpair, ha.symm, (List.cons_eq_cons.mp heq).1.symm⟩

section

variable (trans : ∀ a b c, le a b → le b c → le a c)
  (total : ∀ a b, le a b || le b a)
include trans total

/-- The sorted list is in this order. -/
theorem mergeSort_pairwise_before {xs : List α} (hnodup : xs.Nodup) :
    (xs.mergeSort le).Pairwise (Before le xs) := by
  rw [List.pairwise_iff_forall_sublist]
  intro a b hab
  have hle := List.rel_of_pairwise_cons
    ((List.pairwise_mergeSort trans total xs).sublist hab)
    (List.mem_singleton_self b)
  refine ⟨hle, ?_⟩
  intro hge
  have hsorted : (xs.mergeSort le).Nodup :=
    (List.mergeSort_perm xs le).nodup_iff.mpr hnodup
  have hmem : ∀ c ∈ [a, b], c ∈ xs := fun c hc =>
    (List.mergeSort_perm xs le).mem_iff.mp (hab.subset hc)
  have hne : a ≠ b := by
    intro h
    subst h
    exact List.nodup_iff_sublist.mp hsorted a hab
  obtain h | hba := sublist_or_sublist (hmem a List.mem_cons_self)
    (hmem b (List.mem_cons_of_mem a (List.mem_singleton_self b))) hne
  · exact h
  · have hswap := List.pair_sublist_mergeSort trans total hge hba
    exact absurd hswap (not_sublist_swap hsorted hab)

end

end StableSort

-- =============================================================== exchange

section ExchangeSort

variable {α β : Type*} {gt : α → α → Bool}

/-- `c` against each entry in turn, exchanged where `gt` says so: what
stands in its place after that, and the entries behind. -/
def sweep (gt : α → α → Bool) (c : α) : List α → α × List α
  | [] => (c, [])
  | x :: xs =>
      if gt c x then ((sweep gt x xs).1, c :: (sweep gt x xs).2)
      else ((sweep gt c xs).1, x :: (sweep gt c xs).2)

theorem sweep_perm (gt : α → α → Bool) (c : α) (xs : List α) :
    ((sweep gt c xs).1 :: (sweep gt c xs).2).Perm (c :: xs) := by
  induction xs generalizing c with
  | nil => exact List.Perm.refl _
  | cons x xs ih =>
      rw [sweep]
      split
      · exact (List.Perm.swap ..).trans ((ih x).cons c)
      · exact ((List.Perm.swap ..).trans ((ih c).cons x)).trans
          (List.Perm.swap ..)

@[simp] theorem length_sweep (gt : α → α → Bool) (c : α) (xs : List α) :
    (sweep gt c xs).2.length = xs.length :=
  Nat.succ.inj (sweep_perm gt c xs).length_eq

/-- Entries that `c` is not exchanged with. -/
theorem sweep_append {c : α} {ws : List α} (h : ∀ w ∈ ws, gt c w = false)
    (xs : List α) :
    sweep gt c (ws ++ xs) = ((sweep gt c xs).1, ws ++ (sweep gt c xs).2) := by
  induction ws with
  | nil => rfl
  | cons w ws ih =>
      rw [List.forall_mem_cons] at h
      simp [sweep, h.1, ih h.2]

/-- All rounds. -/
def exchangeSort (gt : α → α → Bool) : List α → List α
  | [] => []
  | x :: xs => (sweep gt x xs).1 :: exchangeSort gt (sweep gt x xs).2
  termination_by xs => xs.length
  decreasing_by simp

theorem exchangeSort_perm (gt : α → α → Bool) (xs : List α) :
    (exchangeSort gt xs).Perm xs := by
  induction xs using exchangeSort.induct gt with
  | case1 => simp [exchangeSort]
  | case2 x xs ih =>
      rw [exchangeSort]
      exact (ih.cons _).trans (sweep_perm gt x xs)

-- ======================================================= what it compares

/-- The pairs a round compares. -/
def sweepPairs (gt : α → α → Bool) (c : α) : List α → List (α × α)
  | [] => []
  | x :: xs => (c, x) :: sweepPairs gt (if gt c x then x else c) xs

/-- The pairs all rounds compare. -/
def comparedPairs (gt : α → α → Bool) : List α → List (α × α)
  | [] => []
  | x :: xs => sweepPairs gt x xs ++ comparedPairs gt (sweep gt x xs).2
  termination_by xs => xs.length
  decreasing_by simp

theorem mem_of_mem_sweepPairs {c : α} {xs : List α} {p : α × α}
    (h : p ∈ sweepPairs gt c xs) : p.1 ∈ c :: xs ∧ p.2 ∈ c :: xs := by
  induction xs generalizing c with
  | nil => cases h
  | cons x xs ih =>
      rcases List.mem_cons.mp h with rfl | h
      · simp
      · have hp := ih h
        split at hp
        · exact ⟨List.mem_cons_of_mem c hp.1, List.mem_cons_of_mem c hp.2⟩
        · have hsub : c :: xs ⊆ c :: x :: xs :=
            List.cons_subset_cons c (List.subset_cons_self x xs)
          exact ⟨hsub hp.1, hsub hp.2⟩

/-- Only entries are compared. -/
theorem mem_of_mem_comparedPairs {xs : List α} {p : α × α}
    (h : p ∈ comparedPairs gt xs) : p.1 ∈ xs ∧ p.2 ∈ xs := by
  induction xs using exchangeSort.induct gt with
  | case1 => simp [comparedPairs] at h
  | case2 x xs ih =>
      rw [comparedPairs] at h
      rcases List.mem_append.mp h with h | h
      · exact mem_of_mem_sweepPairs h
      · have hsub : (sweep gt x xs).2 ⊆ x :: xs := fun y hy =>
          (sweep_perm gt x xs).subset (List.mem_cons_of_mem _ hy)
        exact ⟨hsub (ih h).1, hsub (ih h).2⟩

variable {gt' : α → α → Bool}

theorem sweep_congr {c : α} {xs : List α}
    (h : ∀ p ∈ sweepPairs gt c xs, gt' p.1 p.2 = gt p.1 p.2) :
    sweep gt' c xs = sweep gt c xs := by
  induction xs generalizing c with
  | nil => rfl
  | cons x xs ih =>
      rw [sweepPairs, List.forall_mem_cons] at h
      rw [sweep, sweep, h.1]
      split
      · rename_i hgt
        rw [if_pos hgt] at h
        rw [ih h.2]
      · rename_i hgt
        rw [if_neg hgt] at h
        rw [ih h.2]

/-- Two tests that agree on what one of them compares. -/
theorem exchangeSort_congr {xs : List α}
    (h : ∀ p ∈ comparedPairs gt xs, gt' p.1 p.2 = gt p.1 p.2) :
    exchangeSort gt' xs = exchangeSort gt xs := by
  induction xs using exchangeSort.induct gt with
  | case1 => simp [exchangeSort]
  | case2 x xs ih =>
      rw [comparedPairs, List.forall_mem_append] at h
      rw [exchangeSort, exchangeSort, sweep_congr h.1, ih h.2]

-- ============================================================== the order

variable [LinearOrder β] (key : α → β)

/-- The test that compares the key. -/
def keyGt (a b : α) : Bool := key b < key a

theorem keyGt_iff {a b : α} : keyGt key a b = true ↔ key b < key a :=
  decide_eq_true_iff

/-- What a round puts in front has the least key. -/
theorem sweep_le (c : α) (xs : List α) :
    key (sweep (keyGt key) c xs).1 ≤ key c
      ∧ ∀ y ∈ (sweep (keyGt key) c xs).2,
          key (sweep (keyGt key) c xs).1 ≤ key y := by
  induction xs generalizing c with
  | nil => simp [sweep]
  | cons x xs ih =>
      rw [sweep]
      by_cases hlt : keyGt key c x = true
      · rw [if_pos hlt]
        rw [keyGt_iff] at hlt
        have hle := le_trans (ih x).1 (le_of_lt hlt)
        exact ⟨hle, List.forall_mem_cons.mpr ⟨hle, (ih x).2⟩⟩
      · rw [if_neg hlt]
        rw [keyGt_iff] at hlt
        have hle := le_trans (ih c).1 (not_lt.mp hlt)
        exact ⟨(ih c).1, List.forall_mem_cons.mpr ⟨hle, (ih c).2⟩⟩

theorem exchangeSort_sorted (xs : List α) :
    (exchangeSort (keyGt key) xs).Pairwise fun a b => key a ≤ key b := by
  induction xs using exchangeSort.induct (keyGt key) with
  | case1 => simp [exchangeSort]
  | case2 x xs ih =>
      rw [exchangeSort, List.pairwise_cons]
      refine ⟨?_, ih⟩
      intro y hy
      exact (sweep_le key x xs).2 y ((exchangeSort_perm _ _).subset hy)

end ExchangeSort

end PrimiHub.Lib
