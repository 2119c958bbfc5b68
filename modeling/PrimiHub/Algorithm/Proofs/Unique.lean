/-
`aby3ML::unique_unsorted` is the erasing scan of the first entries.

The inner loop erases from the vector it walks along. Its two bounds agree
because entries and erasures together are always `size`
(`eraseEqual_step`); this is also why neither loop leaves the vector. What
the inner loop does to the entries behind is `skim`, by its recursion
(`eraseEqual_eq`), and the outer loop is `eraseScan` (`scans_eq`): once it
has passed the last entry that is left, the inner loop has nothing to do
(`scans_idle`).

What the scan leaves is then the library's: `uniqueRight_iff`.
-/
import PrimiHub.Algorithm.Proofs.Sort

namespace PrimiHub.Algorithm.Aby3ML

open Aby3 (I64)
open Lib

variable {size c : Nat}

-- ============================================================ the inner loop

theorem toSize_sub (hsize : size < 2 ^ 64) (h : c ≤ size) :
    toSize (size - c) = size - c := by
  unfold toSize
  omega

theorem eq_iff (a b : I64) : eq a b = true ↔ b = a := by
  rw [eq, isZero, beq_iff_eq, BitVec.sub_eq_iff_eq_add]
  simp [eq_comm]

/-- Past the last entry the inner loop stops. -/
theorem eraseEqual_stop (hsize : size < 2 ^ 64) {i j : Nat} {s : Scan}
    (hle : s.count ≤ size) (h : size - s.count ≤ j) :
    eraseEqual size i j s = some s := by
  rw [eraseEqual, if_neg]
  rw [toSize_sub hsize hle]
  exact Nat.not_lt_of_le h

/-- One turn of the inner loop, at two places of which the entries are
known. -/
theorem eraseEqual_step (hsize : size < 2 ^ 64) (front mid rest : List I64)
    (v x : I64)
    (h : front.length + 1 + mid.length + (rest.length + 1) + c = size) :
    eraseEqual size front.length (front.length + 1 + mid.length)
      ⟨front ++ v :: (mid ++ x :: rest), c⟩
    = eraseEqual size front.length (front.length + 1 + mid.length + 1)
        (if x = v then ⟨front ++ v :: (mid ++ rest), c + 1⟩
          else ⟨front ++ v :: (mid ++ x :: rest), c⟩) := by
  have hplace : front.length + 1 + mid.length - front.length
      = mid.length + 1 := by omega
  have hle : front.length ≤ front.length + 1 + mid.length := by omega
  have herase : (front ++ v :: (mid ++ x :: rest)).eraseIdx
      (front.length + 1 + mid.length) = front ++ v :: (mid ++ rest) := by
    rw [List.eraseIdx_append_of_length_le hle, hplace,
      List.eraseIdx_cons_succ, List.eraseIdx_append_of_length_le (le_refl _),
      Nat.sub_self, List.eraseIdx_cons_zero]
  have hmore : front.length + 1 + mid.length < toSize (size - c) := by
    rw [toSize_sub hsize (by omega)]
    omega
  rw [eraseEqual, if_pos hmore, getElem?_front, getElem?_behind, herase]
  simp only [Option.bind_eq_bind, Option.bind_some, eq_iff]

/-- The inner loop skims what is behind its entry. -/
theorem eraseEqual_eq (hsize : size < 2 ^ 64) (front mid rest : List I64)
    (v : I64) (h : front.length + 1 + mid.length + rest.length + c = size) :
    eraseEqual size front.length (front.length + 1 + mid.length)
      ⟨front ++ v :: (mid ++ rest), c⟩
    = some ⟨front ++ v :: (mid ++ skim v rest),
        c + (rest.length - (skim v rest).length)⟩ := by
  induction rest using skim.induct v generalizing mid c with
  | case1 =>
      apply eraseEqual_stop hsize
      · dsimp only
        omega
      · dsimp only
        rw [List.length_nil] at h
        omega
  | case2 =>
      rw [eraseEqual_step hsize front mid [] v v h, if_pos rfl,
        eraseEqual_stop hsize]
      · simp [skim]
      · dsimp only
        rw [List.length_cons] at h
        omega
      · dsimp only
        rw [List.length_cons, List.length_nil] at h
        omega
  | case3 x hx =>
      rw [eraseEqual_step hsize front mid [] v x h, if_neg hx,
        eraseEqual_stop hsize]
      · simp [skim, hx]
      · dsimp only
        omega
      · dsimp only
        rw [List.length_cons, List.length_nil] at h
        omega
  | case4 y ys ih =>
      rw [eraseEqual_step hsize front mid (y :: ys) v v h, if_pos rfl]
      -- an equal entry is taken out, and the one behind it moves up and is
      -- passed over
      have htail := ih (mid ++ [y]) (c := c + 1) (by
        simp only [List.length_append, List.length_cons,
          List.length_nil] at h ⊢
        omega)
      simp only [List.length_append, List.length_singleton,
        List.append_assoc, List.singleton_append] at htail
      rw [Nat.add_assoc _ mid.length 1, htail]
      have hlen := (skim_sublist v ys).length_le
      simp [skim]
      omega
  | case5 x y ys hx ih =>
      rw [eraseEqual_step hsize front mid (y :: ys) v x h, if_neg hx]
      have htail := ih (mid ++ [x]) (c := c) (by
        simp only [List.length_append, List.length_cons,
          List.length_nil] at h ⊢
        omega)
      simp only [List.length_append, List.length_singleton,
        List.append_assoc, List.singleton_append] at htail
      rw [Nat.add_assoc _ mid.length 1, htail]
      simp [skim, hx]

-- ============================================================== all of it

/-- Past the last entry the outer loop changes nothing. -/
theorem scans_idle (hsize : size < 2 ^ 64) {s : Scan} {i : Nat}
    (hlen : s.Y.length + s.count = size) (hi : s.Y.length ≤ i) (k : Nat) :
    (List.range' i k).foldlM (fun s i => eraseEqual size i (i + 1) s) s
      = some s := by
  induction k generalizing i with
  | zero => rfl
  | succ k ih =>
      have hstop : eraseEqual size i (i + 1) s = some s :=
        eraseEqual_stop hsize (by omega) (by omega)
      rw [List.range'_succ, List.foldlM_cons, hstop]
      exact ih (Nat.le_succ_of_le hi)

/-- The outer loop, with the places before `todo` done. -/
theorem scans_eq (hsize : size < 2 ^ 64) (done todo : List I64) {k : Nat}
    (hlen : done.length + todo.length + c = size)
    (hk : todo.length ≤ k) :
    (List.range' done.length k).foldlM
        (fun s i => eraseEqual size i (i + 1) s) ⟨done ++ todo, c⟩
      = some ⟨done ++ eraseScan todo,
          c + (todo.length - (eraseScan todo).length)⟩ := by
  induction todo using eraseScan.induct generalizing done c k with
  | case1 =>
      rw [scans_idle hsize (by simpa using hlen) (by simp)]
      simp [eraseScan]
  | case2 v xs ih =>
      rw [List.length_cons] at hlen hk
      obtain ⟨k, rfl⟩ : ∃ k', k = k' + 1 := ⟨k - 1, by omega⟩
      have hshort := (skim_sublist v xs).length_le
      have hinner := eraseEqual_eq (c := c) hsize done [] xs v (by
        rw [List.length_nil]
        omega)
      rw [List.length_nil, Nat.add_zero, List.nil_append,
        List.nil_append] at hinner
      have htail := ih (done ++ [v])
        (c := c + (xs.length - (skim v xs).length)) (k := k) (by
          simp only [List.length_append, List.length_cons, List.length_nil]
          omega) (by omega)
      simp only [List.length_append, List.length_singleton,
        List.append_assoc, List.singleton_append] at htail
      have hless := length_eraseScan_le (skim v xs)
      rw [List.range'_succ, List.foldlM_cons, hinner, Option.bind_eq_bind,
        Option.bind_some, htail, eraseScan]
      simp
      omega

theorem uniqueLoops_eq (hsize : size < 2 ^ 64) {Y : List I64}
    (h : Y.length = size) :
    uniqueLoops size ⟨Y, 0⟩
      = some ⟨eraseScan Y, size - (eraseScan Y).length⟩ := by
  have hall := scans_eq (c := 0) (k := size) hsize [] Y (by simpa using h)
    (Nat.le_of_eq h)
  rw [uniqueLoops, List.range_eq_range']
  rw [Nat.zero_add, h] at hall
  exact hall

/-- What `unique_unsorted` comes to. -/
theorem uniqueUnsorted_eq {X : List I64} {n : Nat} (h : n ≤ X.length)
    (hn : 2 ≤ n) (dest : List I64) (destSize : Nat) :
    uniqueUnsorted X n dest destSize =
      if n < 2 ^ 31 ∧ (eraseScan (X.take n)).length ≤ dest.length then
        some ⟨1, eraseScan (X.take n)
          ++ dest.drop (eraseScan (X.take n)).length,
          (eraseScan (X.take n)).length⟩
      else none := by
  have htake : (X.take n).length = n := by simpa using h
  have hless := length_eraseScan_le (X.take n)
  have hlong : ¬(X.length < 2 ∨ n < 2) := by omega
  rw [uniqueUnsorted, if_neg hlong]
  by_cases hint : n < 2 ^ 31
  · have hleft : toSize (n - (n - (eraseScan (X.take n)).length : Nat))
        = (eraseScan (X.take n)).length := by
      rw [toSize_sub (by omega) (Nat.sub_le ..)]
      omega
    simp only [Nat.not_le_of_lt hint, hint, copy_replicate h,
      uniqueLoops_eq (by omega) htake, hleft, copy_eq (Nat.le_refl _),
      Option.bind_eq_bind, Option.bind_some, if_false, true_and,
      List.take_length]
    split <;> rfl
  · rw [if_pos (Nat.le_of_not_lt hint), if_neg fun hall => hint hall.1]

-- ============================================================ the property

/-- `unique_unsorted` is right exactly where `UniqueFits` says. -/
theorem uniqueRight_iff {X : List I64} {n : Nat} (h : n ≤ X.length)
    (dest : List I64) (destSize : Nat) :
    UniqueRight X n dest destSize ↔ UniqueFits X n dest destSize := by
  have htake : (X.take n).length = n := by simpa using h
  rw [UniqueRight, UniqueFits]
  by_cases hn : n < 2
  · have hnodup : (X.take n).Nodup := by
      rcases hL : X.take n with _ | ⟨x, _ | ⟨y, rest⟩⟩
      · exact List.nodup_nil
      · exact List.nodup_singleton x
      · rw [hL, List.length_cons, List.length_cons] at htake
        omega
    have hrun : uniqueUnsorted X n dest destSize = some ⟨0, dest, destSize⟩ :=
      if_pos (Or.inr hn)
    rw [if_pos hn, hrun]
    constructor
    · rintro ⟨r, heq, hle, hdistinct⟩
      cases heq
      dsimp only at hle hdistinct
      rw [distinctInOrder_iff_of_nodup hnodup] at hdistinct
      have hsize : destSize = n := by
        rw [← htake, ← hdistinct, List.length_take, Nat.min_eq_left hle]
      rw [hsize] at hdistinct
      exact ⟨hsize, hdistinct⟩
    · rintro ⟨rfl, heq⟩
      refine ⟨_, rfl, ?_, ?_⟩
      · dsimp only
        rw [← htake, ← heq, List.length_take]
        exact Nat.min_le_right ..
      · exact (distinctInOrder_iff_of_nodup hnodup).mpr heq
  · rw [if_neg hn, uniqueUnsorted_eq h (Nat.le_of_not_lt hn),
      ← distinctInOrder_eraseScan_iff]
    constructor
    · rintro ⟨r, heq, -, hdistinct⟩
      split at heq
      · rename_i hfits
        cases heq
        rw [List.take_left' rfl] at hdistinct
        rw [← hdistinct.length]
        exact ⟨hfits.1, hfits.2, hdistinct⟩
      · cases heq
    · rintro ⟨hint, hroom, hdistinct⟩
      rw [← hdistinct.length] at hroom
      rw [if_pos ⟨hint, hroom⟩]
      refine ⟨_, rfl, ?_, ?_⟩
      · simp
      · rw [List.take_left' rfl]
        exact hdistinct

/-- Where the sort compares no entries too far apart, it is right. It is
right for all orders of the entries exactly if it compares none in any of
them. The deduplication is right exactly where `UniqueFits` says. -/
theorem sort_uniqueUnsorted_right {X : List I64} {n : Nat}
    (h : n ≤ X.length) (dest : List I64) (destSize : Nat) :
    (SortFits X n dest → SortRight X n dest)
    ∧ ((∀ Y : List I64, Y.Perm (X.take n) → SortRight (Y ++ X.drop n) n dest)
        ↔ ∀ Y : List I64, Y.Perm (X.take n) →
            SortFits (Y ++ X.drop n) n dest)
    ∧ (UniqueRight X n dest destSize ↔ UniqueFits X n dest destSize) :=
  ⟨sortRight_of_fits h, sortRight_orders_iff h dest,
    uniqueRight_iff h dest destSize⟩

/-- Three entries, two of them equal. -/
theorem sort_uniqueUnsorted_right_three :
    SortRight [2, 1, 2] 3 [0, 0, 0] ∧ UniqueRight [2, 1, 2] 3 [0, 0, 0] 0 := by
  have hsort : SortFits [2, 1, 2] 3 [0, 0, 0] :=
    sortFits_of_near (by decide) (by decide) (by simp)
  have hunique : UniqueFits [2, 1, 2] 3 [0, 0, 0] 0 :=
    ⟨by decide, by decide, by decide⟩
  have hall := sort_uniqueUnsorted_right (X := [2, 1, 2]) (n := 3) (by decide)
    [0, 0, 0] 0
  exact ⟨hall.1 hsort, hall.2.2.mpr hunique⟩

/-- Of three equal entries two are left. -/
theorem not_uniqueRight_ones : ¬UniqueRight [1, 1, 1] 3 [0, 0, 0] 0 := by
  rw [uniqueRight_iff (by decide)]
  rintro ⟨-, -, hseparated⟩
  exact absurd hseparated (by decide)

end PrimiHub.Algorithm.Aby3ML
