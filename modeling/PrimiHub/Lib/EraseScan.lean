/-
Removing repetitions from a list by erasing while scanning.

`skim v` scans a list and erases what equals `v`, but steps past the entry
that moves up into an erased place without looking at it. `eraseScan` keeps
each entry in turn and skims what is behind it.

# What it leaves

Nothing is lost and nothing is added (`mem_eraseScan`). A `v` is left
behind exactly where two stand next to each other (`mem_skim_self_iff`);
with no two so, skimming is filtering. Hence the distinct entries are left,
in the order of their first occurrence, exactly if at no value two
repetitions stand next to each other once the values that occur before it
are gone: `Separated`, `distinctInOrder_eraseScan_iff`.
-/
import Mathlib.Data.List.Basic
import Mathlib.Data.List.Dedup
import Mathlib.Data.List.Infix

namespace PrimiHub.Lib

variable {α : Type*} [DecidableEq α]

-- ================================================================= skim

/-- Erase `v`, without looking at the entry behind an erased one. -/
def skim (v : α) : List α → List α
  | [] => []
  | [x] => if x = v then [] else [x]
  | x :: y :: ys =>
      if x = v then y :: skim v ys else x :: skim v (y :: ys)

theorem skim_sublist (v : α) (xs : List α) :
    (skim v xs).Sublist xs := by
  induction xs using skim.induct v with
  | case1 => exact List.Sublist.refl _
  | case2 => simp [skim]
  | case3 x h => simp [skim, h]
  | case4 y ys ih =>
      rw [skim, if_pos rfl]
      exact (ih.cons_cons y).cons v
  | case5 x y ys h ih =>
      rw [skim, if_neg h]
      exact ih.cons_cons x

/-- Only `v` is erased. -/
theorem mem_skim_of_ne {v x : α} (hne : x ≠ v) {xs : List α} :
    x ∈ skim v xs ↔ x ∈ xs := by
  induction xs using skim.induct v with
  | case1 => rfl
  | case2 => simp [skim, hne]
  | case3 y h => simp [skim, h]
  | case4 y ys ih => simp [skim, ih, hne]
  | case5 y z ys h ih => simp [skim, h, ih]

/-- A `v` is left exactly where two stand next to each other. -/
theorem mem_skim_self_iff {v : α} {xs : List α} :
    v ∈ skim v xs ↔ [v, v] <:+: xs := by
  induction xs using skim.induct v with
  | case1 => simp [skim]
  | case2 => simp [skim, List.infix_cons_iff]
  | case3 x h => simp [skim, Ne.symm h, List.infix_cons_iff]
  | case4 y ys ih =>
      by_cases hy : v = y
      · simp [skim, hy, List.infix_cons_iff]
      · simp [skim, hy, ih, List.infix_cons_iff]
  | case5 x y ys h ih =>
      refine Iff.trans ?_ List.infix_cons_iff.symm
      simp [skim, h, Ne.symm h, ih]

/-- With no two next to each other. -/
theorem skim_eq_filter {v : α} {xs : List α} (h : v ∉ skim v xs) :
    skim v xs = xs.filter (· ≠ v) := by
  induction xs using skim.induct v with
  | case1 => rfl
  | case2 => simp [skim]
  | case3 x hx => simp [skim, hx]
  | case4 y ys ih =>
      rw [skim, if_pos rfl, List.mem_cons, not_or] at h
      simp [skim, ih h.2, Ne.symm h.1]
  | case5 x y ys hx ih =>
      rw [skim, if_neg hx, List.mem_cons, not_or] at h
      rw [skim, if_neg hx, ih h.2]
      exact (List.filter_cons_of_pos (a := x) (by simpa using hx)).symm

-- ============================================================= all rounds

/-- Keep each entry in turn and skim what is behind it. -/
def eraseScan : List α → List α
  | [] => []
  | v :: xs => v :: eraseScan (skim v xs)
  termination_by xs => xs.length
  decreasing_by
    exact Nat.lt_succ_of_le (skim_sublist v xs).length_le

@[simp] theorem mem_eraseScan {x : α} {xs : List α} :
    x ∈ eraseScan xs ↔ x ∈ xs := by
  induction xs using eraseScan.induct with
  | case1 => simp [eraseScan]
  | case2 v xs ih =>
      rw [eraseScan, List.mem_cons, List.mem_cons, ih]
      by_cases hx : x = v
      · simp [hx]
      · rw [mem_skim_of_ne hx]

theorem length_eraseScan_le (xs : List α) :
    (eraseScan xs).length ≤ xs.length := by
  induction xs using eraseScan.induct with
  | case1 => simp [eraseScan]
  | case2 v xs ih =>
      rw [eraseScan, List.length_cons, List.length_cons]
      exact Nat.succ_le_succ (ih.trans (skim_sublist v xs).length_le)

-- ============================================== the order of appearance

/-- `out` has the entries of `xs` once each, in the order of their first
occurrence. -/
structure DistinctInOrder (xs out : List α) : Prop where
  nodup : out.Nodup
  mem_iff : ∀ x, x ∈ out ↔ x ∈ xs
  ordered : out.Pairwise fun x y => xs.idxOf x < xs.idxOf y

/-- There is one such list. -/
theorem DistinctInOrder.unique {xs out out' : List α}
    (h : DistinctInOrder xs out) (h' : DistinctInOrder xs out') :
    out = out' := by
  have hperm : out.Perm out' := by
    rw [List.perm_ext_iff_of_nodup h.nodup h'.nodup]
    intro x
    rw [h.mem_iff, h'.mem_iff]
  exact hperm.eq_of_pairwise
    (fun x y _ _ hxy hyx => absurd hxy (Nat.lt_asymm hyx)) h.ordered
    h'.ordered

theorem DistinctInOrder.length {xs out : List α}
    (h : DistinctInOrder xs out) : out.length = xs.dedup.length := by
  have hperm : out.Perm xs.dedup := by
    rw [List.perm_ext_iff_of_nodup h.nodup xs.nodup_dedup]
    intro x
    rw [h.mem_iff, List.mem_dedup]
  exact hperm.length_eq

/-- Leaving entries out does not change the order of the others. -/
theorem idxOf_lt_of_filter {p : α → Bool} {xs : List α} {x y : α}
    (hx : p x = true) (hy : p y = true)
    (h : (xs.filter p).idxOf x < (xs.filter p).idxOf y) :
    xs.idxOf x < xs.idxOf y := by
  induction xs with
  | nil => exact h
  | cons a xs ih =>
      by_cases ha : p a = true
      · rw [List.filter_cons_of_pos ha] at h
        simp only [List.idxOf_cons] at h ⊢
        by_cases hax : (a == x) = true
        · by_cases hay : (a == y) = true
          · simp [hax, hay] at h
          · simp [hax, hay]
        · by_cases hay : (a == y) = true
          · simp [hax, hay] at h
          · simp only [hax, hay, cond_false] at h ⊢
            exact Nat.succ_lt_succ (ih (Nat.lt_of_succ_lt_succ h))
      · rw [List.filter_cons_of_neg ha] at h
        have hax : a ≠ x := fun heq => ha (heq ▸ hx)
        have hay : a ≠ y := fun heq => ha (heq ▸ hy)
        rw [List.idxOf_cons_ne xs hax, List.idxOf_cons_ne xs hay]
        exact Nat.succ_lt_succ (ih h)

/-- The first entry, and the others without it. -/
theorem DistinctInOrder.cons {v : α} {xs out : List α}
    (h : DistinctInOrder (xs.filter (· ≠ v)) out) :
    DistinctInOrder (v :: xs) (v :: out) := by
  have hmem : ∀ x, x ∈ out ↔ x ∈ xs ∧ x ≠ v := by
    intro x
    rw [h.mem_iff, List.mem_filter, decide_eq_true_eq]
  refine ⟨?_, ?_, ?_⟩
  · exact List.nodup_cons.mpr ⟨fun hv => ((hmem v).mp hv).2 rfl, h.nodup⟩
  · intro x
    rw [List.mem_cons, List.mem_cons, hmem]
    by_cases hx : x = v <;> simp [hx]
  · refine List.pairwise_cons.mpr ⟨?_, h.ordered.imp_of_mem ?_⟩
    · intro x hx
      have hxv := ((hmem x).mp hx).2
      rw [List.idxOf_cons_self, List.idxOf_cons_ne xs (Ne.symm hxv)]
      exact Nat.succ_pos _
    · intro x y hx hy hlt
      have hxv := ((hmem x).mp hx).2
      have hyv := ((hmem y).mp hy).2
      rw [List.idxOf_cons_ne xs (Ne.symm hxv),
        List.idxOf_cons_ne xs (Ne.symm hyv)]
      exact Nat.succ_lt_succ
        (idxOf_lt_of_filter (by simpa using hxv) (by simpa using hyv) hlt)

/-- A list without repetitions is its own. -/
theorem distinctInOrder_iff_of_nodup {xs out : List α} (h : xs.Nodup) :
    DistinctInOrder xs out ↔ out = xs := by
  have hself : DistinctInOrder xs xs := by
    induction xs with
    | nil => exact ⟨List.nodup_nil, fun _ => Iff.rfl, List.Pairwise.nil⟩
    | cons v xs ih =>
        rw [List.nodup_cons] at h
        have hfilter : xs.filter (· ≠ v) = xs :=
          List.filter_eq_self.mpr fun x hx => by
            simpa using ne_of_mem_of_not_mem hx h.1
        refine DistinctInOrder.cons ?_
        rw [hfilter]
        exact ih h.2
  exact ⟨fun hout => hout.unique hself, fun heq => heq ▸ hself⟩

-- ================================================== what it is exact for

/-- What stands behind the first `v`, without what stands before it. -/
def behind (v : α) (xs : List α) : List α :=
  (xs.dropWhile (· ≠ v)).tail.filter (· ∉ xs.takeWhile (· ≠ v))

/-- No value is repeated twice in a row behind its first occurrence, what
occurs before it left out. -/
def Separated (xs : List α) : Prop :=
  ∀ v ∈ xs, ¬[v, v] <:+: behind v xs

instance (xs : List α) : Decidable (Separated xs) :=
  inferInstanceAs (Decidable (∀ v ∈ xs, ¬[v, v] <:+: behind v xs))

theorem behind_cons_self (v : α) (xs : List α) : behind v (v :: xs) = xs := by
  simp [behind]

theorem behind_cons_of_ne {v w : α} (hne : w ≠ v) (xs : List α) :
    behind w (v :: xs) = behind w (xs.filter (· ≠ v)) := by
  have hsame : (fun a => !decide (a ≠ v) || decide (a ≠ w))
      = fun a => decide (a ≠ w) := by
    funext a
    by_cases ha : a = w
    · simp [ha, hne]
    · simp [ha]
  have htail : ((xs.dropWhile (· ≠ w)).filter (· ≠ v)).tail
      = (xs.dropWhile (· ≠ w)).tail.filter (· ≠ v) := by
    cases hdrop : xs.dropWhile (· ≠ w) with
    | nil => rfl
    | cons a ys =>
        have ha : a = w := by
          have hhead := List.head?_dropWhile_not (fun x => decide (x ≠ w)) xs
          rw [hdrop] at hhead
          simpa using hhead
        simp [ha, hne]
  have hbefore : (v :: xs).takeWhile (· ≠ w) = v :: xs.takeWhile (· ≠ w) := by
    simp [Ne.symm hne]
  have hafter : (v :: xs).dropWhile (· ≠ w) = xs.dropWhile (· ≠ w) := by
    simp [Ne.symm hne]
  rw [behind, behind, List.takeWhile_filter, List.dropWhile_filter, hsame,
    htail, hbefore, hafter, List.filter_filter]
  apply List.filter_congr
  intro x _
  by_cases hx : x = v <;> simp [hx]

theorem separated_cons {v : α} {xs : List α} :
    Separated (v :: xs)
      ↔ ¬[v, v] <:+: xs ∧ Separated (xs.filter (· ≠ v)) := by
  constructor
  · intro h
    refine ⟨behind_cons_self v xs ▸ h v (List.mem_cons_self ..), ?_⟩
    intro w hw
    rw [List.mem_filter, decide_eq_true_eq] at hw
    rw [← behind_cons_of_ne hw.2]
    exact h w (List.mem_cons_of_mem v hw.1)
  · rintro ⟨hv, hrest⟩ w hw
    by_cases hne : w = v
    · rw [hne, behind_cons_self]
      exact hv
    · rw [behind_cons_of_ne hne]
      apply hrest w
      simpa [hne] using hw

/-- The scan leaves the distinct entries in order exactly if they are
separated. -/
theorem distinctInOrder_eraseScan_iff {xs : List α} :
    DistinctInOrder xs (eraseScan xs) ↔ Separated xs := by
  constructor
  · intro h
    replace h := h.nodup
    induction xs using eraseScan.induct with
    | case1 => simp [Separated]
    | case2 v xs ih =>
        rw [eraseScan, List.nodup_cons, mem_eraseScan] at h
        rw [separated_cons, ← skim_eq_filter h.1, ← mem_skim_self_iff]
        exact ⟨h.1, ih h.2⟩
  · intro h
    induction xs using eraseScan.induct with
    | case1 => simp [eraseScan, distinctInOrder_iff_of_nodup]
    | case2 v xs ih =>
        rw [separated_cons, ← mem_skim_self_iff] at h
        rw [← skim_eq_filter h.1] at h
        rw [eraseScan]
        apply DistinctInOrder.cons
        rw [← skim_eq_filter h.1]
        exact ih h.2

end PrimiHub.Lib
