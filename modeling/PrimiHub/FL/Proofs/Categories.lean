/-
What the columns of a table are to the encoders: their categories, the
indices of these, and what the sum of the clients' sketches counts.

The categories of a column are its values in order, with nan at the end if
it occurs, so they depend on what occurs and not on where
(`unique_congr`): the union of the clients' categories is the categories
of all rows. Without nan the categories go with how often each occurs
(`removeMissing_fitted`), and the server's sketch counts what the clients
sent (`count_mergedSketch`).
-/
import Mathlib.Algebra.Order.BigOperators.Group.List
import Mathlib.Algebra.Order.Group.Nat
import Mathlib.Data.List.Sort
import PrimiHub.FL.Encoder

namespace PrimiHub.FL.Encoder

open Lib Horizontal

variable {clients d : Nat} {β : Type} [LinearOrder β]

/-- How often a category occurs in a column. -/
def occurrences (X : Table d β) (j : Fin d) (c : β) : Nat :=
  (column X j).count (some c)

/-- The rows of a party; the server has none. -/
def rowsOf (parts : Fin clients → Table d β) :
    Horizontal.Party clients → Table d β
  | .server => []
  | .client i => parts i

/-- The rows of the clients, one client after the other. -/
def pooled (parts : Fin clients → Table d β) : Table d β :=
  (allClients clients).flatMap (rowsOf parts)

-- ============================================================== categories

section Columns

variable {xs ys : List (Option β)} {c : β}

@[simp] theorem mem_values : c ∈ values xs ↔ some c ∈ xs := by
  rw [values, List.mem_mergeSort, List.mem_dedup,
    List.reduceOption_mem_iff]

theorem nodup_values (xs : List (Option β)) : (values xs).Nodup :=
  (List.mergeSort_perm _ _).nodup_iff.mpr (List.nodup_dedup _)

/-- The order of the values is that of the type. -/
theorem pairwise_values (xs : List (Option β)) :
    (values xs).Pairwise (· ≤ ·) :=
  List.pairwise_mergeSort' (· ≤ ·) _

theorem values_congr (h : ∀ c, some c ∈ xs ↔ some c ∈ ys) :
    values xs = values ys := by
  refine List.Perm.eq_of_pairwise (fun a b _ _ hab hba => le_antisymm hab hba)
    (pairwise_values xs) (pairwise_values ys) ?_
  refine (List.perm_ext_iff_of_nodup (nodup_values xs)
    (nodup_values ys)).mpr fun c => ?_
  rw [mem_values, mem_values, h]

@[simp] theorem mem_unique {x : Option β} : x ∈ unique xs ↔ x ∈ xs := by
  rw [unique, List.mem_append, List.mem_map]
  cases x with
  | none =>
      by_cases h : none ∈ xs
      · simp [h]
      · simp [h]
  | some c =>
      by_cases h : none ∈ xs
      · simp [h]
      · simp [h]

theorem nodup_unique (xs : List (Option β)) : (unique xs).Nodup := by
  refine List.Nodup.append
    ((nodup_values xs).map (Option.some_injective β)) ?_ ?_
  · split
    · exact List.nodup_singleton none
    · exact List.nodup_nil
  · intro x hx hnone
    obtain ⟨c, -, rfl⟩ := List.mem_map.mp hx
    split at hnone
    · exact absurd (List.mem_singleton.mp hnone) (Option.some_ne_none c)
    · cases hnone

/-- The categories depend on what occurs. -/
theorem unique_congr (h : ∀ x, x ∈ xs ↔ x ∈ ys) : unique xs = unique ys := by
  unfold unique
  rw [values_congr fun c => h (some c)]
  exact congrArg _ (if_congr (h none) rfl rfl)

/-- The categories of what occurs in all lists. -/
theorem unique_flatMap {α : Type} (parts : List α)
    (f : α → List (Option β)) :
    unique (parts.flatMap fun a => unique (f a))
      = unique (parts.flatMap f) := by
  refine unique_congr fun x => ?_
  simp only [List.mem_flatMap, mem_unique]

theorem idxOf_map_some (c : β) (cs : List β) :
    (cs.map some).idxOf (some c) = cs.idxOf c := by
  induction cs with
  | nil => rfl
  | cons b cs ih =>
      rw [List.map_cons, List.idxOf_cons, List.idxOf_cons, ih,
        Option.some_beq_some]

theorem whereEq_unique (h : c ∈ values xs) :
    whereEq (unique xs) (some c) = .ok ((values xs).idxOf c) := by
  have hmem : some c ∈ unique xs := mem_unique.mpr (mem_values.mp h)
  rw [whereEq, if_pos ⟨rfl, hmem⟩, unique, List.idxOf_append_of_mem
    (List.mem_map.mpr ⟨c, h, rfl⟩), idxOf_map_some]

/-- The place of nan, if it occurs. -/
theorem missingIndex_unique (xs : List (Option β)) :
    missingIndex (unique xs)
      = if none ∈ xs then some (values xs).length else none := by
  unfold missingIndex unique
  by_cases h : none ∈ xs
  · simp [h]
  · have hlast : ((values xs).map some).getLast? ≠ some none := by
      rw [List.getLast?_map]
      cases (values xs).getLast? <;> simp
    rw [if_neg h, if_neg h, List.append_nil, if_neg hlast]

end Columns

-- ================================================================== counts

/-- The categories a client counts, nan apart. -/
theorem removeMissing_fitted (X : Table d β) (j : Fin d) :
    removeMissing (fitted X) j
      = (values (column X j)).map fun c =>
        (some c, occurrences X j c) := by
  have hzip : ((values (column X j)).map some).zip
        (((values (column X j)).map some).map (column X j).count)
      = (values (column X j)).map fun c =>
        (some c, occurrences X j c) := by
    rw [List.map_map, List.zip_map']
    rfl
  unfold removeMissing fitted
  dsimp only
  rw [missingIndex_unique]
  unfold unique
  by_cases h : none ∈ column X j
  · rw [if_pos h, if_pos h]
    simp only [List.map_append, List.map_cons, List.map_nil]
    rw [List.eraseIdx_append_of_length_le (by rw [List.length_map]),
      List.eraseIdx_append_of_length_le
        (by rw [List.length_map, List.length_map])]
    simpa using hzip
  · rw [if_neg h, if_neg h, List.append_nil]
    exact hzip

/-- What a client puts in its sketch for a column: the categories whose
count it sends. -/
def sentItems (sends : Nat → Bool) (X : Table d β) (j : Fin d) :
    List (Option β × Nat) :=
  (removeMissing (fitted X) j).filter fun row => sends row.2

theorem mem_sentItems {sends : Nat → Bool} {X : Table d β} {j : Fin d}
    {x : Option β} {n : Nat} :
    (x, n) ∈ sentItems sends X j
      ↔ ∃ c ∈ values (column X j), x = some c
        ∧ n = occurrences X j c ∧ sends n = true := by
  rw [sentItems, removeMissing_fitted, List.mem_filter, List.mem_map]
  constructor
  · intro h
    obtain ⟨⟨c, hc, heq⟩, hsends⟩ := h
    obtain ⟨rfl, rfl⟩ := Prod.mk.inj heq
    exact ⟨c, hc, rfl, rfl, hsends⟩
  · intro h
    obtain ⟨c, hc, rfl, rfl, hsends⟩ := h
    exact ⟨⟨c, hc, rfl⟩, hsends⟩

theorem nodup_sentItems (sends : Nat → Bool) (X : Table d β) (j : Fin d) :
    ((sentItems sends X j).map Prod.fst).Nodup := by
  have hall : (((values (column X j)).map fun c =>
      (some c, occurrences X j c)).map Prod.fst).Nodup := by
    rw [List.map_map]
    exact (nodup_values _).map (Option.some_injective β)
  rw [sentItems, removeMissing_fitted]
  exact hall.sublist (List.filter_sublist.map Prod.fst)

/-- What a client sends of a category. -/
theorem weight_sentItems (sends : Nat → Bool) (X : Table d β) (j : Fin d)
    (c : β) :
    Tally.weight (sentItems sends X j) (some c)
      = if sends (occurrences X j c) then occurrences X j c else 0 := by
  by_cases hc : c ∈ values (column X j)
  · split
    · next hsends =>
      exact Tally.weight_eq_of_mem (nodup_sentItems sends X j)
        (mem_sentItems.mpr ⟨c, hc, rfl, rfl, hsends⟩)
    · next hsends =>
      refine Tally.weight_eq_zero fun hmem => ?_
      obtain ⟨⟨x, n⟩, hrow, rfl⟩ := List.mem_map.mp hmem
      obtain ⟨b, -, hb, rfl, hsent⟩ := mem_sentItems.mp hrow
      exact hsends (Option.some.inj hb ▸ hsent)
  · have hzero : occurrences X j c = 0 :=
      List.count_eq_zero.mpr fun h => hc (mem_values.mpr h)
    have hweight : Tally.weight (sentItems sends X j) (some c) = 0 := by
      refine Tally.weight_eq_zero fun hmem => ?_
      obtain ⟨⟨x, n⟩, hrow, rfl⟩ := List.mem_map.mp hmem
      obtain ⟨b, hb, heq, -⟩ := mem_sentItems.mp hrow
      exact hc (Option.some.inj heq ▸ hb)
    rw [hweight, hzero, ite_self]

theorem weight_sentItems_none (sends : Nat → Bool) (X : Table d β)
    (j : Fin d) : Tally.weight (sentItems sends X j) none = 0 := by
  refine Tally.weight_eq_zero fun hmem => ?_
  obtain ⟨⟨x, n⟩, hrow, rfl⟩ := List.mem_map.mp hmem
  obtain ⟨b, -, heq, -⟩ := mem_sentItems.mp hrow
  cases heq

/-- What all clients send of a category. -/
def sent (sends : Nat → Bool) (parts : Fin clients → Table d β)
    (j : Fin d) (c : β) : Nat :=
  ((allClients clients).map fun p =>
    if sends (occurrences (rowsOf parts p) j c) then
      occurrences (rowsOf parts p) j c
    else 0).sum

/-- The sum of the clients' sketches. -/
def mergedSketch (sends : Nat → Bool) (parts : Fin clients → Table d β) :
    Sketches d β := fun j =>
  (allClients clients).foldl
    (fun t p => t.merge
      (localFiSketch (sentItems sends (rowsOf parts p)) j)) .empty

theorem count_mergedSketch_eq_sum (sends : Nat → Bool)
    (parts : Fin clients → Table d β) (j : Fin d) (x : Option β) :
    (mergedSketch sends parts j).count x
      = ((allClients clients).map fun p =>
        Tally.weight (sentItems sends (rowsOf parts p) j) x).sum := by
  rw [mergedSketch, Tally.count_foldl_merge, Tally.count_empty,
    Nat.zero_add]
  congr 1
  refine List.map_congr_left fun p _ => ?_
  rw [localFiSketch, Tally.count_updateAll, Tally.count_empty,
    Nat.zero_add]

/-- The server's sketch counts what the clients sent. -/
theorem count_mergedSketch (sends : Nat → Bool)
    (parts : Fin clients → Table d β) (j : Fin d) (c : β) :
    (mergedSketch sends parts j).count (some c) = sent sends parts j c := by
  rw [count_mergedSketch_eq_sum, sent]
  congr 1
  exact List.map_congr_left fun p _ =>
    weight_sentItems sends (rowsOf parts p) j c

/-- Nobody sends nan. -/
theorem count_mergedSketch_none (sends : Nat → Bool)
    (parts : Fin clients → Table d β) (j : Fin d) :
    (mergedSketch sends parts j).count none = 0 := by
  rw [count_mergedSketch_eq_sum, List.sum_eq_zero_iff_forall_eq_nat]
  intro n hn
  obtain ⟨p, -, rfl⟩ := List.mem_map.mp hn
  exact weight_sentItems_none sends (rowsOf parts p) j

/-- If everything is sent, the server counts all rows. -/
theorem sent_all (parts : Fin clients → Table d β) (j : Fin d) (c : β) :
    sent (fun _ => true) parts j c = occurrences (pooled parts) j c := by
  unfold sent occurrences column pooled
  rw [List.map_flatMap, List.count_flatMap]
  rfl

/-- A client sends no more than there is. -/
theorem sent_le (sends : Nat → Bool) (parts : Fin clients → Table d β)
    (j : Fin d) (c : β) :
    sent sends parts j c ≤ occurrences (pooled parts) j c := by
  rw [← sent_all, sent, sent]
  refine List.sum_le_sum fun p _ => ?_
  split
  · rfl
  · exact Nat.zero_le _

end PrimiHub.FL.Encoder
