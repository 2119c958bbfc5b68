/-
Which ids the ranges of the MySQL alignment are.

The ranges of a round are consecutive, and so are the full rounds
(`flatMap_range'`). The last round begins at the product of the rounds
before, the batch size and its own number of threads; after a full round
this is inside what was asked for already (`ranges_perm_iff`). A statement
for a single id ends in a comma, which happens when one id is left over
after the thousands (`statements_accepted_iff`).
-/
import Mathlib.Data.List.Count
import Mathlib.Data.List.Nodup
import PrimiHub.Align.Mysql

namespace PrimiHub.Align

open Lib

-- ================================================================== ranges

/-- Consecutive ranges of one width. -/
theorem flatMap_range' (base width count : Nat) :
    ((List.range count).flatMap fun j => List.range' (base + width * j) width)
      = List.range' base (width * count) := by
  induction count with
  | zero => rfl
  | succ count ih =>
      rw [List.range_succ, List.flatMap_append, ih, List.flatMap_singleton,
        Nat.mul_succ]
      have happend := @List.range'_append base (width * count) width 1
      rw [Nat.one_mul] at happend
      exact happend

/-- The indices of a round. -/
theorem indices_roundRanges (currIter batchSize numThread : Nat) :
    (roundRanges currIter batchSize numThread).flatMap indices
      = List.range' (currIter * batchSize * numThread)
          (batchSize * numThread) := by
  rw [← flatMap_range', roundRanges, List.flatMap_map]
  apply List.flatMap_congr
  intro j _
  show List.range' _ (_ + batchSize - _) = _
  rw [Nat.add_sub_cancel_left]

theorem batchSizeFor_pos (n : Nat) : 0 < batchSizeFor n := by
  unfold batchSizeFor
  split_ifs <;> decide

/-- A batch is whole thousands. -/
theorem batchSizeFor_mod (n : Nat) : batchSizeFor n % 1000 = 0 := by
  unfold batchSizeFor
  split_ifs <;> rfl

/-- The indices of all ranges, in order. -/
theorem indices_allRanges (n numThread : Nat) :
    (allRanges n numThread).flatMap indices
      = List.range' 0
          (batchSizeFor n * numThread * (n / batchSizeFor n / numThread))
        ++ (if n / batchSizeFor n % numThread ≠ 0 then
            List.range' (n / batchSizeFor n / numThread * batchSizeFor n
                * (n / batchSizeFor n % numThread))
              (batchSizeFor n * (n / batchSizeFor n % numThread))
          else [])
        ++ List.range' (n / batchSizeFor n * batchSizeFor n)
            (n % batchSizeFor n) := by
  unfold allRanges groupRanges roundGroups restGroups
  simp only [List.flatten_append, List.flatMap_append]
  congr 1
  · congr 1
    · rw [← flatMap_range', ← List.flatMap_def, List.flatMap_assoc]
      apply List.flatMap_congr
      intro i _
      rw [indices_roundRanges]
      congr 1
      rw [Nat.zero_add, Nat.mul_assoc, Nat.mul_comm]
    · split
      · rw [List.flatten_singleton, indices_roundRanges]
      · rfl
  · split
    · show List.range' _ (_ + n % batchSizeFor n - _) ++ [] = _
      rw [Nat.add_sub_cancel_left, List.append_nil]
    · next hzero =>
      rw [not_not] at hzero
      rw [hzero]
      rfl

/-- Two consecutive ranges. -/
theorem range'_append_range' (start m n : Nat) :
    List.range' start m ++ List.range' (start + m) n
      = List.range' start (m + n) := by
  have happend := @List.range'_append start m n 1
  rwa [Nat.one_mul] at happend

/-- Where the rounds fit the ranges are the whole list, in order. -/
theorem indices_of_roundsFit {n numThread : Nat}
    (h : RoundsFit n numThread) :
    (allRanges n numThread).flatMap indices = List.range n := by
  have hbatches := Nat.div_add_mod (n / batchSizeFor n) numThread
  have hwhole : List.range' 0
        (batchSizeFor n * numThread * (n / batchSizeFor n / numThread))
      ++ (if n / batchSizeFor n % numThread ≠ 0 then
          List.range' (n / batchSizeFor n / numThread * batchSizeFor n
              * (n / batchSizeFor n % numThread))
            (batchSizeFor n * (n / batchSizeFor n % numThread))
        else [])
      = List.range' 0 (batchSizeFor n * (n / batchSizeFor n)) := by
    obtain hround | hlast := h
    · -- no full round: the last one begins at 0
      rw [hround, Nat.mul_zero, Nat.zero_add] at hbatches
      rw [hround, Nat.mul_zero, Nat.zero_mul, Nat.zero_mul, hbatches,
        List.range'_zero, List.nil_append]
      split
      · rfl
      · next hzero =>
        rw [not_not] at hzero
        rw [hzero, Nat.mul_zero, List.range'_zero]
    · -- no last round
      rw [hlast, Nat.add_zero] at hbatches
      rw [if_neg (not_not.mpr hlast), List.append_nil, Nat.mul_assoc,
        hbatches]
  have hstart : n / batchSizeFor n * batchSizeFor n
      = 0 + batchSizeFor n * (n / batchSizeFor n) := by
    rw [Nat.zero_add, Nat.mul_comm]
  rw [indices_allRanges, hwhole, hstart, range'_append_range',
    Nat.div_add_mod, List.range_eq_range']

/-- The last round after a full one begins inside it. -/
theorem ranges_perm_iff {n numThread : Nat} (hthread : 1 ≤ numThread) :
    ((allRanges n numThread).flatMap indices).Perm (List.range n)
      ↔ RoundsFit n numThread := by
  constructor
  · intro hperm
    by_contra hfit
    unfold RoundsFit at hfit
    rw [not_or] at hfit
    have hnodup := hperm.nodup_iff.mpr List.nodup_range
    rw [indices_allRanges, if_pos hfit.2, List.nodup_append] at hnodup
    have hdisjoint := (List.nodup_append.mp hnodup.1).2.2
    have hpos := batchSizeFor_pos n
    have hmod := Nat.mod_lt (n / batchSizeFor n) hthread
    have hbatch : 0 < batchSizeFor n * (n / batchSizeFor n % numThread) :=
      Nat.mul_pos hpos (Nat.pos_of_ne_zero hfit.2)
    have hinside : n / batchSizeFor n / numThread * batchSizeFor n
          * (n / batchSizeFor n % numThread)
        < batchSizeFor n * numThread * (n / batchSizeFor n / numThread) := by
      rw [Nat.mul_assoc, Nat.mul_comm _ (n / batchSizeFor n / numThread)]
      apply Nat.mul_lt_mul_of_pos_left _ (Nat.pos_of_ne_zero hfit.1)
      exact Nat.mul_lt_mul_of_pos_left hmod hpos
    have hfirst : n / batchSizeFor n / numThread * batchSizeFor n
          * (n / batchSizeFor n % numThread) ∈ List.range' 0
        (batchSizeFor n * numThread * (n / batchSizeFor n / numThread)) := by
      rw [List.mem_range'_1]
      exact ⟨Nat.zero_le _, by rwa [Nat.zero_add]⟩
    have hagain : n / batchSizeFor n / numThread * batchSizeFor n
          * (n / batchSizeFor n % numThread) ∈ List.range'
        (n / batchSizeFor n / numThread * batchSizeFor n
          * (n / batchSizeFor n % numThread))
        (batchSizeFor n * (n / batchSizeFor n % numThread)) := by
      rw [List.mem_range'_1]
      exact ⟨Nat.le_refl _, Nat.lt_add_of_pos_right hbatch⟩
    exact hdisjoint _ hfirst _ hagain rfl
  · intro hfit
    rw [indices_of_roundsFit hfit]

-- ================================================================= slices

section Slices

variable {α : Type}

theorem length_slice {xs : List α} {start stop : Nat}
    (h : stop ≤ xs.length) : (slice xs start stop).length = stop - start := by
  rw [slice, List.length_take, List.length_drop]
  omega

/-- Two slices, one after the other. -/
theorem slice_append (xs : List α) {a b c : Nat} (hab : a ≤ b)
    (hbc : b ≤ c) : slice xs a b ++ slice xs b c = slice xs a c := by
  unfold slice
  have hdrop : xs.drop b = (xs.drop a).drop (b - a) := by
    rw [List.drop_drop]
    congr 1
    omega
  have hsum : c - a = (b - a) + (c - b) := by omega
  rw [hdrop, hsum, List.take_add]

theorem slice_self (xs : List α) (a : Nat) : slice xs a a = [] := by
  rw [slice, Nat.sub_self, List.take_zero]

theorem slice_all (xs : List α) : slice xs 0 xs.length = xs := by
  rw [slice, List.drop_zero, Nat.sub_zero, List.take_length]

/-- Slices of one width, one after the other. -/
theorem flatMap_slice (xs : List α) (base width count : Nat) :
    ((List.range count).flatMap fun i =>
        slice xs (base + i * width) (base + i * width + width))
      = slice xs base (base + count * width) := by
  induction count with
  | zero =>
      rw [Nat.zero_mul, Nat.add_zero, slice_self]
      rfl
  | succ count ih =>
      rw [List.range_succ, List.flatMap_append, ih, List.flatMap_singleton,
        slice_append xs (Nat.le_add_right _ _) (Nat.le_add_right _ _),
        Nat.succ_mul, Nat.add_assoc]

/-- A slice is the elements at its indices. -/
theorem slice_eq_filterMap (xs : List α) (start stop : Nat) :
    slice xs start stop
      = (indices (start, stop)).filterMap fun i => xs[i]? := by
  unfold slice indices
  generalize stop - start = width
  induction width generalizing start with
  | zero => rfl
  | succ width ih =>
      rw [List.range'_succ, List.filterMap_cons, ← ih]
      by_cases h : start < xs.length
      · rw [List.drop_eq_getElem_cons h, List.take_succ_cons,
          List.getElem?_eq_getElem h]
      · rw [List.getElem?_eq_none (Nat.le_of_not_lt h),
          List.drop_eq_nil_of_le (Nat.le_of_not_lt h),
          List.drop_eq_nil_of_le (by omega), List.take_nil, List.take_nil]

theorem slice_sublist_take (xs : List α) (start stop : Nat) :
    (slice xs start stop).Sublist (xs.take stop) := by
  rw [slice, ← List.drop_take]
  exact List.drop_sublist _ _

/-- The slices of ranges are the elements at their indices. -/
theorem flatMap_slice_eq (xs : List α) (ranges : List (Nat × Nat)) :
    (ranges.flatMap fun range => slice xs range.1 range.2)
      = (ranges.flatMap indices).filterMap fun i => xs[i]? := by
  rw [List.filterMap_flatMap]
  apply List.flatMap_congr
  intro range _
  exact slice_eq_filterMap xs range.1 range.2

theorem filterMap_range (xs : List α) :
    (List.range xs.length).filterMap (fun i => xs[i]?) = xs := by
  have hslice := slice_eq_filterMap xs 0 xs.length
  rw [slice_all, indices, Nat.sub_zero, ← List.range_eq_range'] at hslice
  exact hslice.symm

/-- Ranges whose indices are a permutation of all cut the list into a
permutation of it. -/
theorem flatMap_slice_perm {xs : List α} {ranges : List (Nat × Nat)}
    (h : (ranges.flatMap indices).Perm (List.range xs.length)) :
    (ranges.flatMap fun range => slice xs range.1 range.2).Perm xs := by
  have hperm := h.filterMap fun i => xs[i]?
  rwa [← flatMap_slice_eq, filterMap_range] at hperm

/-- Slices that are a permutation of a list without duplicates have the
indices of the list. -/
theorem indices_perm_of_slices {xs : List α} (hnodup : xs.Nodup)
    {ranges : List (Nat × Nat)}
    (hranges : ∀ range ∈ ranges, range.2 ≤ xs.length)
    (h : (ranges.flatMap fun range => slice xs range.1 range.2).Perm xs) :
    (ranges.flatMap indices).Perm (List.range xs.length) := by
  have hbound : ∀ i ∈ ranges.flatMap indices, i < xs.length := by
    intro i hi
    obtain ⟨range, hrange, hi⟩ := List.mem_flatMap.mp hi
    rw [indices, List.mem_range'_1] at hi
    have hstop := hranges range hrange
    omega
  rw [flatMap_slice_eq] at h
  generalize ranges.flatMap indices = is at hbound h
  have hmap : (is.filterMap fun i => xs[i]?).map some
      = is.map fun i => xs[i]? := by
    rw [List.map_filterMap, ← List.filterMap_eq_map]
    apply List.filterMap_congr
    intro i hi
    rw [Function.comp_apply, List.getElem?_eq_getElem (hbound i hi)]
    rfl
  have hindices : (is.map fun i => xs[i]?).Nodup := by
    rw [← hmap]
    exact (h.nodup_iff.mpr hnodup).map fun _ _ => Option.some.inj
  have hlength := congrArg List.length hmap
  rw [List.length_map, List.length_map, h.length_eq] at hlength
  apply (List.subperm_of_subset (List.Nodup.of_map _ hindices)
    fun i hi => List.mem_range.mpr (hbound i hi)).perm_of_length_le
  exact Nat.le_of_eq (List.length_range.trans hlength)

end Slices

/-- The statements of a thread ask for its range. -/
theorem threadLists_flatten (ids : List String) {start stop : Nat}
    (h : start ≤ stop) :
    (threadLists ids start stop).flatten = slice ids start stop := by
  have hdiv := Nat.div_add_mod (stop - start) 1000
  have hstop : start + (stop - start) / 1000 * 1000 + (stop - start) % 1000
      = stop := by omega
  unfold threadLists
  rw [List.flatten_append, ← List.flatMap_def, flatMap_slice]
  split
  · rw [List.flatten_singleton, slice_append ids (Nat.le_add_right _ _)
      (Nat.le_add_right _ _), hstop]
  · next hzero =>
    rw [not_not] at hzero
    rw [hzero, Nat.add_zero] at hstop
    rw [hstop, List.flatten_nil, List.append_nil]

/-- A thread asks for ids of the list. -/
theorem threadLists_subset {ids : List String} {start stop : Nat}
    (h : start ≤ stop) {list : List String}
    (hlist : list ∈ threadLists ids start stop) : list ⊆ ids := by
  have hslice : (slice ids start stop).Sublist ids :=
    (List.take_sublist _ _).trans (List.drop_sublist _ _)
  rw [← threadLists_flatten ids h] at hslice
  exact ((List.sublist_flatten_of_mem hlist).trans hslice).subset

/-- The statements of a thread have a thousand ids or what is left over. -/
theorem length_of_mem_threadLists {ids : List String} {start stop : Nat}
    (h : start ≤ stop) (hstop : stop ≤ ids.length) {list : List String}
    (hlist : list ∈ threadLists ids start stop) :
    list.length = 1000
      ∨ (stop - start) % 1000 ≠ 0 ∧ list.length = (stop - start) % 1000 := by
  have hdiv := Nat.div_add_mod (stop - start) 1000
  unfold threadLists at hlist
  rw [List.mem_append] at hlist
  obtain hfull | hrest := hlist
  · obtain ⟨i, hi, rfl⟩ := List.mem_map.mp hfull
    rw [List.mem_range] at hi
    left
    rw [length_slice (by omega)]
    omega
  · split at hrest
    · next hzero =>
      rw [List.mem_singleton] at hrest
      right
      refine ⟨hzero, ?_⟩
      rw [hrest, length_slice (by omega)]
      omega
    · cases hrest

-- ============================================================= statements

section Statements

variable {ρ κ : Type} (db : Mysql ρ κ)

/-- A list of several ids is accepted. -/
theorem statement_accepted_iff (ids : List String) :
    (db.statement ids).Accepted ↔ 2 ≤ ids.length := by
  unfold Statement.Accepted Mysql.statement
  rw [readInList_pyTuple]
  split
  · next htwo => exact iff_of_true rfl htwo
  · next htwo => exact iff_of_false Bool.false_ne_true htwo

/-- A range of a round whose threads start at most at their own place. -/
theorem mem_roundRanges {n i threads : Nat} {range : Nat × Nat}
    (hfits : i * threads + threads ≤ n / batchSizeFor n)
    (h : range ∈ roundRanges i (batchSizeFor n) threads) :
    range.1 ≤ range.2 ∧ range.2 ≤ n / batchSizeFor n * batchSizeFor n
      ∧ range.2 - range.1 = batchSizeFor n := by
  obtain ⟨j, hj, rfl⟩ := List.mem_map.mp h
  rw [List.mem_range] at hj
  refine ⟨Nat.le_add_right _ _, ?_, Nat.add_sub_cancel_left _ _⟩
  calc i * batchSizeFor n * threads + batchSizeFor n * j + batchSizeFor n
      = (i * threads + (j + 1)) * batchSizeFor n := by
        rw [Nat.mul_right_comm, Nat.mul_comm (batchSizeFor n) j,
          Nat.add_mul, Nat.succ_mul, Nat.add_assoc]
    _ ≤ n / batchSizeFor n * batchSizeFor n :=
        Nat.mul_le_mul_right _ (by omega)

/-- A full round is within the batches. -/
theorem full_fits {numBatch numThread i : Nat}
    (hi : i < numBatch / numThread) :
    i * numThread + numThread ≤ numBatch := by
  calc i * numThread + numThread
      = numThread * (i + 1) := by rw [Nat.mul_succ, Nat.mul_comm]
    _ ≤ numThread * (numBatch / numThread) := Nat.mul_le_mul_left _ hi
    _ ≤ numBatch := Nat.mul_div_le _ _

/-- So is the last round, which may begin before its place. -/
theorem last_fits {numBatch numThread : Nat} (hthread : 1 ≤ numThread) :
    numBatch / numThread * (numBatch % numThread) + numBatch % numThread
      ≤ numBatch := by
  have hbatches := Nat.div_add_mod numBatch numThread
  have hmod := Nat.mod_lt numBatch hthread
  have hmul := Nat.mul_le_mul_left (numBatch / numThread)
    (Nat.le_of_lt hmod)
  rw [Nat.mul_comm _ numThread] at hmul
  omega

/-- A group of the rounds is a round of at least one thread. -/
theorem mem_roundGroups {n numThread : Nat} (hthread : 1 ≤ numThread)
    {group : List (Nat × Nat)} (h : group ∈ roundGroups n numThread) :
    ∃ i threads, 1 ≤ threads ∧ i * threads + threads ≤ n / batchSizeFor n
      ∧ group = roundRanges i (batchSizeFor n) threads := by
  unfold roundGroups at h
  dsimp only at h
  obtain hfull | hlast := List.mem_append.mp h
  · obtain ⟨i, hi, hgroup⟩ := List.mem_map.mp hfull
    rw [List.mem_range] at hi
    exact ⟨i, numThread, hthread, full_fits hi, hgroup.symm⟩
  · split at hlast
    · next hremain =>
      rw [List.mem_singleton] at hlast
      exact ⟨_, _, Nat.pos_of_ne_zero hremain, last_fits hthread, hlast⟩
    · cases hlast

/-- The group of the rest, if there is one. -/
theorem mem_restGroups {n : Nat} {group : List (Nat × Nat)} :
    group ∈ restGroups n ↔ n % batchSizeFor n ≠ 0
      ∧ group = [(n / batchSizeFor n * batchSizeFor n,
          n / batchSizeFor n * batchSizeFor n + n % batchSizeFor n)] := by
  unfold restGroups
  dsimp only
  split
  · next hrest =>
    rw [List.mem_singleton, and_iff_right hrest]
  · next hrest =>
    constructor
    · intro h
      cases h
    · intro h
      exact absurd h.1 hrest

/-- A range lies within the ids and is as wide as a batch, or it is the
rest. -/
theorem mem_groupRanges {n numThread : Nat} (hthread : 1 ≤ numThread)
    {group : List (Nat × Nat)} (h : group ∈ groupRanges n numThread)
    {range : Nat × Nat} (hrange : range ∈ group) :
    range.1 ≤ range.2 ∧ range.2 ≤ n
      ∧ (range.2 - range.1 = batchSizeFor n
        ∨ n % batchSizeFor n ≠ 0
          ∧ range.2 - range.1 = n % batchSizeFor n) := by
  obtain hround | hrest := List.mem_append.mp h
  · obtain ⟨i, threads, -, hfits, rfl⟩ := mem_roundGroups hthread hround
    obtain ⟨hle, hn, hwidth⟩ := mem_roundRanges hfits hrange
    exact ⟨hle, Nat.le_trans hn (Nat.div_mul_le_self _ _), Or.inl hwidth⟩
  · obtain ⟨hzero, rfl⟩ := mem_restGroups.mp hrest
    rw [List.mem_singleton] at hrange
    rw [hrange]
    have hn := Nat.div_add_mod n (batchSizeFor n)
    rw [Nat.mul_comm] at hn
    exact ⟨Nat.le_add_right _ _, Nat.le_of_eq hn,
      Or.inr ⟨hzero, Nat.add_sub_cancel_left _ _⟩⟩

/-- The ranges go from left to right. -/
theorem groupRanges_le {n numThread : Nat} (hthread : 1 ≤ numThread) :
    ∀ group ∈ groupRanges n numThread, ∀ range ∈ group,
      range.1 ≤ range.2 :=
  fun _ hgroup _ hrange => (mem_groupRanges hthread hgroup hrange).1

/-- No group is empty. -/
theorem groupRanges_ne_nil {n numThread : Nat} (hthread : 1 ≤ numThread)
    {group : List (Nat × Nat)} (h : group ∈ groupRanges n numThread) :
    group ≠ [] := by
  obtain hround | hrest := List.mem_append.mp h
  · obtain ⟨i, threads, hpos, -, rfl⟩ := mem_roundGroups hthread hround
    rw [roundRanges, ne_eq, List.map_eq_nil_iff, List.range_eq_nil]
    omega
  · obtain ⟨-, rfl⟩ := mem_restGroups.mp hrest
    exact List.cons_ne_nil _ _

/-- Batches are whole thousands, so what is left over of them leaves over
as many as all ids do. -/
theorem rest_mod (n : Nat) : n % batchSizeFor n % 1000 = n % 1000 :=
  Nat.mod_mod_of_dvd n (Nat.dvd_of_mod_eq_zero (batchSizeFor_mod n))

/-- SQL accepts the statements for a range unless one id is left over after
the thousands. -/
theorem range_accepted_iff {ids : List String} {start stop : Nat}
    (h : start ≤ stop) (hstop : stop ≤ ids.length) :
    (∀ list ∈ threadLists ids start stop, (db.statement list).Accepted)
      ↔ (stop - start) % 1000 ≠ 1 := by
  have hdiv := Nat.div_add_mod (stop - start) 1000
  constructor
  · intro haccepted hone
    have hlist : slice ids (start + (stop - start) / 1000 * 1000)
          (start + (stop - start) / 1000 * 1000 + (stop - start) % 1000)
        ∈ threadLists ids start stop := by
      unfold threadLists
      simp only [if_pos (show (stop - start) % 1000 ≠ 0 by omega)]
      exact List.mem_append_right _ (List.mem_singleton.mpr rfl)
    have htwo := (statement_accepted_iff db _).mp (haccepted _ hlist)
    rw [length_slice (by omega)] at htwo
    omega
  · intro hone list hlist
    rw [statement_accepted_iff]
    obtain hlength | ⟨hrest, hlength⟩ :=
      length_of_mem_threadLists h hstop hlist
    · omega
    · omega

/-- SQL accepts the statements for the rest unless it leaves over one id. -/
theorem rest_accepted_iff (ids : List String) :
    (∀ list ∈ threadLists ids
          (ids.length / batchSizeFor ids.length * batchSizeFor ids.length)
          (ids.length / batchSizeFor ids.length * batchSizeFor ids.length
            + ids.length % batchSizeFor ids.length),
        (db.statement list).Accepted)
      ↔ ids.length % 1000 ≠ 1 := by
  have hn := Nat.div_add_mod ids.length (batchSizeFor ids.length)
  rw [Nat.mul_comm] at hn
  rw [range_accepted_iff db (Nat.le_add_right _ _) (Nat.le_of_eq hn),
    Nat.add_sub_cancel_left, rest_mod]

/-- SQL accepts all statements unless one id is left over after the
thousands. -/
theorem statements_accepted_iff {numThread : Nat} (hthread : 1 ≤ numThread)
    (ids : List String) :
    (∀ range ∈ allRanges ids.length numThread,
        ∀ list ∈ threadLists ids range.1 range.2,
          (db.statement list).Accepted)
      ↔ ids.length % 1000 ≠ 1 := by
  constructor
  · intro haccepted hone
    have hzero : ids.length % batchSizeFor ids.length ≠ 0 := by
      intro hzero
      have hmod := rest_mod ids.length
      rw [hzero, hone] at hmod
      cases hmod
    have hgroup := mem_restGroups.mpr ⟨hzero, rfl⟩
    have hmem := List.mem_append_right (roundGroups ids.length numThread)
      hgroup
    have hrest := haccepted _
      (List.mem_flatten.mpr ⟨_, hmem, List.mem_singleton_self _⟩)
    exact (rest_accepted_iff db ids).mp hrest hone
  · intro hone range hrange
    obtain ⟨group, hgroup, hmem⟩ := List.mem_flatten.mp hrange
    obtain ⟨hle, hn, hwidth⟩ := mem_groupRanges hthread hgroup hmem
    rw [range_accepted_iff db hle hn]
    obtain hwidth | ⟨-, hwidth⟩ := hwidth
    · rw [hwidth, batchSizeFor_mod]
      decide
    · rwa [hwidth, rest_mod]

end Statements

end PrimiHub.Align
