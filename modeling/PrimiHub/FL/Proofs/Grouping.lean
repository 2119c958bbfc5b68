/-
One column in the server's search for infrequent categories: what the
indices mark, given the items the sketch returns.

Without `max_categories` the marked categories are the returned items whose
count is below the threshold (`infrequentBelow_spec`); with it they are all
that were not returned (`infrequentOutside_spec`). In both cases the search
does not fail, and `_infrequent_mappings` does not as long as no index is
that of nan.
-/
import Mathlib.Data.Nat.Cast.Order.Ring
import PrimiHub.FL.Proofs.Categories

namespace PrimiHub.FL.Encoder

open Lib Horizontal

variable {β : Type}

/-- The number of categories without nan, where that is ignored. -/
def nCats (categories : List (Option β)) (missing : Option Nat) : Nat :=
  if missing.isSome then categories.length - 1 else categories.length

/-- The mapping exists if nan is not among the infrequent indices. -/
theorem infrequentMapping_ok {categories : List (Option β)}
    {missing : Option Nat} {indices : Option (List Nat)}
    (h : ∀ i ∈ indices.getD [], i < nCats categories missing) :
    ∃ mapping, infrequentMapping categories missing indices
      = .ok mapping := by
  cases indices with
  | none => exact ⟨none, rfl⟩
  | some infreqIdx =>
      refine ⟨_, if_neg fun hex => ?_⟩
      obtain ⟨i, hi, hle⟩ := hex
      exact absurd (h i hi) (Nat.not_lt.mpr hle)

variable [LinearOrder β]

/-- The indices mark a category, which may be nan, as infrequent. -/
def Marks (categories : List (Option β)) (indices : Option (List Nat))
    (x : Option β) : Prop :=
  ∃ i ∈ indices.getD [], categories[i]? = some x

section Column

variable {xs : List (Option β)} {rows : List (Option β × Nat)}

theorem values_length_le (xs : List (Option β)) :
    (values xs).length ≤ (unique xs).length := by
  rw [unique, List.length_append, List.length_map]
  exact Nat.le_add_right _ _

theorem values_length_le_nCats {missing : Option Nat}
    (h : missing = none ∨ missing = missingIndex (unique xs)) :
    (values xs).length ≤ nCats (unique xs) missing := by
  obtain rfl | rfl := h
  · exact values_length_le xs
  · rw [missingIndex_unique]
    by_cases hnan : none ∈ xs
    · rw [if_pos hnan, unique, if_pos hnan]
      show _ ≤ (_ ++ [none]).length - 1
      rw [List.length_append, List.length_map]
      exact Nat.le_refl _
    · rw [if_neg hnan]
      exact values_length_le xs

theorem idxOf_unique {c : β} (hc : c ∈ values xs) :
    (unique xs).idxOf (some c) = (values xs).idxOf c := by
  rw [unique, List.idxOf_append_of_mem (List.mem_map.mpr ⟨c, hc, rfl⟩),
    idxOf_map_some]

/-- A category is marked by its own index only. -/
theorem marks_iff {indices : Option (List Nat)} {x : Option β}
    (hx : x ∈ unique xs) :
    Marks (unique xs) indices x
      ↔ (unique xs).idxOf x ∈ indices.getD [] := by
  constructor
  · intro h
    obtain ⟨i, hi, heq⟩ := h
    obtain ⟨hlt, rfl⟩ := List.getElem?_eq_some_iff.mp heq
    rwa [(nodup_unique xs).idxOf_getElem]
  · intro h
    exact ⟨_, h, List.getElem?_idxOf hx⟩

/-- Only nan may be left out of the places. -/
theorem idxOf_lt_nCats {missing : Option Nat}
    (hmissing : missing = none ∨ missing = missingIndex (unique xs))
    {x : Option β} (hx : x ∈ unique xs) (hnan : x = none → missing = none) :
    (unique xs).idxOf x < nCats (unique xs) missing := by
  cases x with
  | none =>
      rw [hnan rfl]
      exact List.idxOf_lt_length_of_mem hx
  | some c =>
      have hc : c ∈ values xs := mem_values.mpr (mem_unique.mp hx)
      rw [idxOf_unique hc]
      exact Nat.lt_of_lt_of_le (List.idxOf_lt_length_of_mem hc)
        (values_length_le_nCats hmissing)

-- ============================================================ below a count

/-- The lookups of categories succeed. -/
theorem mapM_whereEq (h : ∀ row ∈ rows, ∃ c ∈ values xs, row.1 = some c) :
    rows.mapM (fun row => whereEq (unique xs) row.1)
      = .ok (rows.map fun row => (unique xs).idxOf row.1) := by
  refine mapM_ok fun row hrow => ?_
  obtain ⟨c, hc, heq⟩ := h row hrow
  have hmem : row.1 ∈ unique xs := by
    rw [heq, mem_unique]
    exact mem_values.mp hc
  rw [whereEq, if_pos ⟨by rw [heq]; rfl, hmem⟩]

/-- Without `max_categories`, the items below the threshold are marked, and
nan, which is none of them, is not. -/
theorem infrequentBelow_spec
    (hrows : ∀ row ∈ rows, ∃ c ∈ values xs, row.1 = some c)
    (hsorted : rows.Pairwise fun a b => b.2 ≤ a.2) (thr : ℚ) :
    ∃ indices, infrequentBelow thr (unique xs) rows = .ok indices
      ∧ (∀ i ∈ indices.getD [], i < (values xs).length)
      ∧ ∀ x ∈ unique xs, Marks (unique xs) indices x
        ↔ ∃ n : Nat, (x, n) ∈ rows ∧ (n : ℚ) < thr := by
  unfold infrequentBelow
  have hmem : ∀ row : Option β × Nat,
      row ∈ rows.dropWhile (fun row => thr ≤ (row.2 : ℚ))
        ↔ row ∈ rows ∧ (row.2 : ℚ) < thr := by
    intro row
    rw [mem_dropWhile_iff, decide_eq_false_iff_not, not_le]
    exact hsorted.imp fun hab hb => decide_eq_true
      ((of_decide_eq_true hb).trans (Nat.cast_le.mpr hab))
  generalize rows.dropWhile (fun row => thr ≤ (row.2 : ℚ)) = items at hmem
  have hitems : ∀ row ∈ items, ∃ c ∈ values xs, row.1 = some c :=
    fun row hrow => hrows row ((hmem row).mp hrow).1
  have hmark : ∀ x ∈ unique xs,
      (unique xs).idxOf x ∈ items.map (fun row => (unique xs).idxOf row.1)
        ↔ ∃ n : Nat, (x, n) ∈ rows ∧ (n : ℚ) < thr := by
    intro x hx
    rw [List.mem_map]
    constructor
    · intro h
      obtain ⟨⟨y, n⟩, hrow, heq⟩ := h
      obtain ⟨b, hb, rfl⟩ := hitems _ hrow
      have hb' : some b ∈ unique xs := mem_unique.mpr (mem_values.mp hb)
      obtain rfl := (List.idxOf_inj hb').mp heq
      exact ⟨n, (hmem _).mp hrow⟩
    · intro h
      obtain ⟨n, hn⟩ := h
      exact ⟨(x, n), (hmem _).mpr hn, rfl⟩
  have hlt : ∀ i ∈ items.map (fun row => (unique xs).idxOf row.1),
      i < (values xs).length := by
    intro i hi
    obtain ⟨row, hrow, rfl⟩ := List.mem_map.mp hi
    obtain ⟨c, hc, heq⟩ := hitems row hrow
    rw [heq, idxOf_unique hc]
    exact List.idxOf_lt_length_of_mem hc
  cases items with
  | nil =>
      refine ⟨none, rfl, nofun, fun x hx => ?_⟩
      rw [marks_iff hx, ← hmark x hx]
      rfl
  | cons first rest =>
      simp only [mapM_whereEq hitems]
      refine ⟨_, rfl, ?_, fun x hx => ?_⟩
      · intro i hi
        exact hlt i (List.mem_mergeSort.mp hi)
      · rw [marks_iff hx, ← hmark x hx]
        exact List.mem_mergeSort

-- ======================================================= outside the limit

/-- Clearing the mask of the returned items. -/
theorem clearMask_spec {mask : List Bool}
    (hrows : ∀ row ∈ rows, ∃ c ∈ values xs, row.1 = some c)
    (hlen : (values xs).length ≤ mask.length) :
    ∃ mask', clearMask (unique xs) mask rows = .ok mask'
      ∧ mask'.length = mask.length
      ∧ ∀ i, mask'[i]? = some true
        ↔ mask[i]? = some true
          ∧ ∀ row ∈ rows, (unique xs).idxOf row.1 ≠ i := by
  induction rows generalizing mask with
  | nil => exact ⟨mask, rfl, rfl, fun i => by simp⟩
  | cons row rest ih =>
      obtain ⟨c, hc, heq⟩ := hrows row List.mem_cons_self
      have hwhere : whereEq (unique xs) row.1
          = .ok ((unique xs).idxOf row.1) := by
        rw [heq, whereEq_unique hc, idxOf_unique hc]
      have hlt : (unique xs).idxOf row.1 < mask.length := by
        rw [heq, idxOf_unique hc]
        exact Nat.lt_of_lt_of_le (List.idxOf_lt_length_of_mem hc) hlen
      have hset : (values xs).length
          ≤ (mask.set ((unique xs).idxOf row.1) false).length := by
        rwa [List.length_set]
      obtain ⟨mask', hok, hlen', hmask⟩ :=
        ih (fun r hr => hrows r (List.mem_cons_of_mem _ hr)) hset
      refine ⟨mask', ?_, by rw [hlen', List.length_set], fun i => ?_⟩
      · rw [clearMask, hwhere]
        show (if (unique xs).idxOf row.1 < mask.length then _ else _) = _
        rw [if_pos hlt, hok]
      · rw [hmask, List.getElem?_set, List.forall_mem_cons]
        by_cases hi : (unique xs).idxOf row.1 = i
        · simp [hi, hi ▸ hlt]
        · simp [hi]

/-- With `max_categories`, the categories that are not returned are marked,
nan among them unless it is ignored. -/
theorem infrequentOutside_spec {missing : Option Nat}
    (hmissing : missing = none ∨ missing = missingIndex (unique xs))
    (hrows : ∀ row ∈ rows, ∃ c ∈ values xs, row.1 = some c) :
    ∃ indices, infrequentOutside (unique xs) missing rows = .ok indices
      ∧ (∀ i ∈ indices.getD [], i < nCats (unique xs) missing)
      ∧ ∀ x ∈ unique xs, (x = none → missing = none) →
        (Marks (unique xs) indices x ↔ x ∉ rows.map Prod.fst) := by
  have hsize := values_length_le_nCats hmissing
  have hreplicate : (values xs).length
      ≤ (List.replicate (nCats (unique xs) missing) true).length := by
    rwa [List.length_replicate]
  -- the mask starts full, and the rows that are returned clear their places
  obtain ⟨mask, hok, hlen, hmask⟩ := clearMask_spec hrows hreplicate
  have hmem : ∀ i, i ∈ (List.range (nCats (unique xs) missing)).filter
        (fun i => mask[i]? = some true)
      ↔ i < nCats (unique xs) missing
        ∧ ∀ row ∈ rows, (unique xs).idxOf row.1 ≠ i := by
    intro i
    rw [List.mem_filter, List.mem_range, decide_eq_true_eq, hmask]
    constructor
    · exact fun h => ⟨h.1, h.2.2⟩
    · intro h
      refine ⟨h.1, ?_, h.2⟩
      rw [List.getElem?_replicate, if_pos h.1]
  have hmark : ∀ x ∈ unique xs, (x = none → missing = none) →
      ((unique xs).idxOf x ∈ (List.range (nCats (unique xs) missing)).filter
        (fun i => mask[i]? = some true)
      ↔ x ∉ rows.map Prod.fst) := by
    intro x hx hnan
    rw [hmem]
    constructor
    · intro h hrow
      obtain ⟨row, hrow', heq⟩ := List.mem_map.mp hrow
      exact h.2 row hrow' (heq ▸ rfl)
    · intro h
      refine ⟨idxOf_lt_nCats hmissing hx hnan, fun row hrow heq => h ?_⟩
      rw [(List.idxOf_inj hx).mp heq.symm]
      exact List.mem_map_of_mem hrow
  unfold infrequentOutside
  rw [show (if missing.isSome then (unique xs).length - 1
    else (unique xs).length) = nCats (unique xs) missing from rfl]
  simp only [hok]
  refine ⟨_, rfl, ?_, fun x hx hnan => ?_⟩
  · intro i hi
    split at hi
    · cases hi
    · exact ((hmem i).mp hi).1
  · rw [marks_iff hx, ← hmark x hx hnan]
    split
    · next hnil =>
      rw [hnil]
      rfl
    · rfl

-- ================================================================ all of them

/-- `np.arange` marks every category. -/
theorem marks_range {x : Option β} (hx : x ∈ unique xs) :
    Marks (unique xs) (some (List.range (unique xs).length)) x :=
  (marks_iff hx).mpr
    (List.mem_range.mpr (List.idxOf_lt_length_of_mem hx))

/-- Where nan is ignored, it must not be an infrequent index. -/
theorem infrequentMapping_range (hnan : none ∈ xs) :
    infrequentMapping (unique xs) (missingIndex (unique xs))
      (some (List.range (unique xs).length)) = .error .indexError := by
  rw [missingIndex_unique, if_pos hnan]
  have hpos : 0 < (unique xs).length :=
    List.length_pos_of_mem (mem_unique.mpr hnan)
  refine if_pos ⟨(unique xs).length - 1, ?_, Nat.le_refl _⟩
  rw [List.mem_range]
  omega

end Column

end PrimiHub.FL.Encoder
