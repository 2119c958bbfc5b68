/-
Descriptive statistics of a list of numbers that is held in parts, and
means drawn towards another.

The smallest of the smallest of each part is the smallest of all, and so
for the greatest; parts without a number have none. The population
variance is the mean of the squared deviations from the mean, and also the
mean of the squares less the square of the mean, which can be added up
part by part.

A fixed weight `s` counts the mean of everything as `s` members of a group
(`shrunkMean`). The empirical one weighs the two means by the variances
(`shrunkMeanAuto`): with `v` the variance of everything, a group of `n`
members with variance `w` gets the weight `v * n / (v * n + w)`. The
lemmas say when two such means agree although they are drawn towards
different values, or by different variances.
-/
import Mathlib.Algebra.BigOperators.Group.List.Basic
import Mathlib.Algebra.Field.Basic
import Mathlib.Algebra.Order.BigOperators.Group.List
import Mathlib.Algebra.Order.Field.Basic
import Mathlib.Data.List.ReduceOption
import Mathlib.Order.Bounds.Basic
import Mathlib.Tactic.FieldSimp
import Mathlib.Tactic.LinearCombination
import Mathlib.Tactic.Positivity
import Mathlib.Tactic.Ring

namespace PrimiHub.Lib

-- ============================================================== the extremes

section Extremes

variable {α : Type} [LinearOrder α]

/-- `min?` is the least of the members. -/
theorem min?_eq_some_iff_isLeast {xs : List α} {x : α} :
    xs.min? = some x ↔ IsLeast {y | y ∈ xs} x := by
  rw [List.min?_eq_some_iff]
  rfl

/-- `max?` is the greatest of the members. -/
theorem max?_eq_some_iff_isGreatest {xs : List α} {x : α} :
    xs.max? = some x ↔ IsGreatest {y | y ∈ xs} x := by
  rw [List.max?_eq_some_iff]
  rfl

/-- The least of the parts' least members is the least of all. -/
theorem min?_filterMap_min? (parts : List (List α)) :
    (parts.filterMap List.min?).min? = parts.flatten.min? := by
  cases h : parts.flatten.min? with
  | none =>
      rw [List.min?_eq_none_iff, List.flatten_eq_nil_iff] at h
      rw [List.min?_eq_none_iff, List.filterMap_eq_nil_iff]
      intro part hpart
      rw [h part hpart]
      rfl
  | some x =>
      rw [List.min?_eq_some_iff] at h ⊢
      obtain ⟨hmem, hleast⟩ := h
      obtain ⟨part, hpart, hx⟩ := List.mem_flatten.mp hmem
      have hmin : part.min? = some x :=
        List.min?_eq_some_iff.mpr ⟨hx, fun y hy =>
          hleast y (List.mem_flatten.mpr ⟨part, hpart, hy⟩)⟩
      refine ⟨List.mem_filterMap.mpr ⟨part, hpart, hmin⟩, ?_⟩
      intro y hy
      obtain ⟨other, hother, hy⟩ := List.mem_filterMap.mp hy
      exact hleast y (List.mem_flatten.mpr
        ⟨other, hother, (List.min?_eq_some_iff.mp hy).1⟩)

/-- The greatest of the parts' greatest members is the greatest of all. -/
theorem max?_filterMap_max? (parts : List (List α)) :
    (parts.filterMap List.max?).max? = parts.flatten.max? :=
  min?_filterMap_min? (α := αᵒᵈ) parts

end Extremes

-- ======================================================== mean and variance

section Moments

variable {K : Type} [Field K]

/-- The mean of the members. -/
def mean (xs : List K) : K := xs.sum / xs.length

/-- The mean of the squared deviations from the mean. -/
def variance (xs : List K) : K :=
  (xs.map fun x => (x - mean xs) ^ 2).sum / xs.length

/-- The squared deviations from any number, added up. -/
theorem sum_sq_sub (xs : List K) (m : K) :
    (xs.map fun x => (x - m) ^ 2).sum
      = (xs.map (· ^ 2)).sum - 2 * m * xs.sum + xs.length * m ^ 2 := by
  induction xs with
  | nil => simp
  | cons x xs ih =>
      simp only [List.map_cons, List.sum_cons, List.length_cons, ih]
      push_cast
      ring

/-- The variance is the mean of the squares less the square of the
mean. -/
theorem variance_eq {xs : List K} (h : (xs.length : K) ≠ 0) :
    variance xs
      = (xs.map (· ^ 2)).sum / xs.length - (xs.sum / xs.length) ^ 2 := by
  rw [variance, sum_sq_sub, mean]
  field_simp
  ring

end Moments

-- ================================================================= the parts

section Parts

variable {α β : Type}

/-- The present entries of all parts. -/
theorem reduceOption_flatten (parts : List (List (Option α))) :
    parts.flatten.reduceOption = (parts.map List.reduceOption).flatten := by
  induction parts with
  | nil => rfl
  | cons part parts ih =>
      rw [List.flatten_cons, List.reduceOption_append, ih, List.map_cons,
        List.flatten_cons]

/-- The results of the parts that have one. -/
theorem reduceOption_map_eq_filterMap (f : α → Option β) (xs : List α) :
    (xs.map f).reduceOption = xs.filterMap f := by
  rw [List.reduceOption, List.filterMap_map]
  rfl

end Parts

-- ============================================================== shrinkage

section Shrinkage

variable {K : Type} [Field K]

/-- A group's mean with `s` more members of value `m`; `m` itself where
there are no members at all. -/
def shrunkMean [DecidableEq K] (s m : K) (group : List K) : K :=
  if s + (group.length : Nat) = 0 then m
  else (s * m + group.sum) / (s + (group.length : Nat))

/-- The weight of a group's own mean. -/
def ownWeight (v n w : K) : K := v * n / (v * n + w)

/-- A group's mean, weighted against that of everything by their
variances. -/
def shrunkMeanAuto [DecidableEq K] (everything group : List K) : K :=
  if variance everything = 0 ∨ group = [] then mean everything
  else
    let weight := ownWeight (variance everything) (group.length : Nat)
      (variance group)
    weight * mean group + (1 - weight) * mean everything

/-- Only without a weight does it not matter what is drawn towards. -/
theorem shrink_eq_iff {s m m' total n : K} (h : s + n ≠ 0) :
    (s * m + total) / (s + n) = (s * m' + total) / (s + n)
      ↔ s = 0 ∨ m = m' := by
  rw [div_left_inj' h, add_left_inj, mul_eq_mul_left_iff, or_comm]

section Ordered

variable [LinearOrder K] [IsStrictOrderedRing K]

theorem sum_sq_nonneg (xs : List K) (m : K) :
    0 ≤ (xs.map fun x => (x - m) ^ 2).sum := by
  refine List.sum_nonneg fun y hy => ?_
  obtain ⟨x, -, rfl⟩ := List.mem_map.mp hy
  exact sq_nonneg _

theorem variance_nonneg (xs : List K) : 0 ≤ variance xs :=
  div_nonneg (sum_sq_nonneg xs _) (Nat.cast_nonneg _)

/-- Weighted means agree if the group does not vary, or if the deviations
of the variance and of the other mean make up for each other. -/
theorem shrinkAuto_eq_iff {r v n w own m m' : K} (hr : 0 < r) (hv : 0 < v)
    (hn : 0 < n) (hw : 0 ≤ w) :
    ownWeight (r * v) n w * own + (1 - ownWeight (r * v) n w) * m'
        = ownWeight v n w * own + (1 - ownWeight v n w) * m
      ↔ w = 0 ∨ v * n * ((r - 1) * (own - m)) = (m - m') * (v * n + w) := by
  have hden : v * n + w ≠ 0 := by positivity
  have hden' : r * v * n + w ≠ 0 := by positivity
  have hdiff : (ownWeight (r * v) n w * own
        + (1 - ownWeight (r * v) n w) * m')
      - (ownWeight v n w * own + (1 - ownWeight v n w) * m)
      = w * (v * n * ((r - 1) * (own - m)) - (m - m') * (v * n + w))
        / ((r * v * n + w) * (v * n + w)) := by
    unfold ownWeight
    field_simp
    ring
  rw [← sub_eq_zero, hdiff, div_eq_zero_iff, mul_eq_zero, sub_eq_zero,
    or_iff_left (mul_ne_zero hden' hden)]

end Ordered

end Shrinkage

end PrimiHub.Lib
