/-
A list cut into consecutive slices of a width, and what the slices of a
list are together.

`slices width xs count` are the first `count` of them. With a count that
reaches the end they put the list together again (`slices_flatten`); with
the count `ceilDiv` none is empty (`slices_ne_nil`) and all but the last
are full (`length_of_mem_dropLast_slices`).
-/
import Mathlib.Data.List.Perm.Basic
import Mathlib.Data.List.Range

namespace PrimiHub.Lib

variable {α : Type*}

/-- The first `count` slices of `width` elements. -/
def slices (width : Nat) : List α → Nat → List (List α)
  | _, 0 => []
  | xs, count + 1 => xs.take width :: slices width (xs.drop width) count

/-- The quotient rounded up. -/
def ceilDiv (n width : Nat) : Nat := (n + width - 1) / width

@[simp] theorem slices_length (width : Nat) (xs : List α) (count : Nat) :
    (slices width xs count).length = count := by
  induction count generalizing xs with
  | zero => rfl
  | succ count ih => rw [slices, List.length_cons, ih]

theorem ceilDiv_mul_lt {n width : Nat} (hn : 0 < n) (h : 0 < width) :
    (ceilDiv n width - 1) * width < n := by
  have hle := Nat.div_mul_le_self (n + width - 1) width
  unfold ceilDiv
  rw [Nat.sub_mul]
  omega

/-- So many slices reach the end. -/
theorem ceilDiv_le_iff {n width count : Nat} (h : 0 < width) :
    ceilDiv n width ≤ count ↔ n ≤ count * width := by
  unfold ceilDiv
  rw [Nat.div_le_iff_le_mul_add_pred h, Nat.mul_comm]
  omega

theorem ceilDiv_mul_ge (n : Nat) {width : Nat} (h : 0 < width) :
    n ≤ ceilDiv n width * width :=
  (ceilDiv_le_iff h).mp (Nat.le_refl _)

theorem ceilDiv_zero {width : Nat} (h : 0 < width) :
    ceilDiv 0 width = 0 := by
  unfold ceilDiv
  exact Nat.div_eq_of_lt (by omega)

theorem ceilDiv_pos {n width : Nat} (hn : 0 < n) (h : 0 < width) :
    0 < ceilDiv n width := by
  unfold ceilDiv
  exact Nat.div_pos (by omega) h

/-- One slice less is left when one is taken. -/
theorem ceilDiv_sub {n width : Nat} (hn : 0 < n) (h : 0 < width) :
    ceilDiv n width = ceilDiv (n - width) width + 1 := by
  unfold ceilDiv
  by_cases hle : width ≤ n
  · rw [← Nat.add_div_right _ h]
    congr 1
    omega
  · rw [show n - width + width - 1 = width - 1 by omega,
      Nat.div_eq_of_lt (by omega : width - 1 < width),
      show n + width - 1 = (n - 1) + width by omega, Nat.add_div_right _ h,
      Nat.div_eq_of_lt (by omega)]

/-- Slices put the front of the list together again. -/
theorem slices_flatten_take (width : Nat) (xs : List α) (count : Nat) :
    (slices width xs count).flatten = xs.take (count * width) := by
  induction count generalizing xs with
  | zero => rw [Nat.zero_mul, List.take_zero]; rfl
  | succ count ih =>
      rw [slices, List.flatten_cons, ih, Nat.succ_mul,
        Nat.add_comm (count * width), List.take_add]

/-- Slices that reach the end put the list together again. -/
theorem slices_flatten {width : Nat} {xs : List α} {count : Nat}
    (h : xs.length ≤ count * width) :
    (slices width xs count).flatten = xs := by
  rw [slices_flatten_take, List.take_of_length_le h]

/-- Slices that start before the end are not empty. -/
theorem slices_ne_nil {width : Nat} (hwidth : 0 < width) {xs : List α}
    {count : Nat} (h : (count - 1) * width < xs.length) {s : List α}
    (hs : s ∈ slices width xs count) : s ≠ [] := by
  induction count generalizing xs with
  | zero => cases hs
  | succ count ih =>
      rw [Nat.add_sub_cancel] at h
      rw [slices, List.mem_cons] at hs
      obtain rfl | hs := hs
      · intro hnil
        have hlen := congrArg List.length hnil
        rw [List.length_take, List.length_nil] at hlen
        omega
      · have hcount : count ≠ 0 := by
          intro hzero
          rw [hzero] at hs
          cases hs
        refine ih ?_ hs
        rw [Nat.sub_mul, List.length_drop]
        have hmul : width ≤ count * width :=
          Nat.le_mul_of_pos_left width (Nat.pos_of_ne_zero hcount)
        omega

/-- Every slice before the last is full where the last begins before the
end. -/
theorem length_of_mem_dropLast_slices {width : Nat} {xs : List α}
    {count : Nat} (h : (count - 1) * width ≤ xs.length) {s : List α}
    (hs : s ∈ (slices width xs count).dropLast) : s.length = width := by
  induction count generalizing xs with
  | zero => cases hs
  | succ count ih =>
      rw [Nat.add_sub_cancel] at h
      cases count with
      | zero => cases hs
      | succ count =>
          rw [Nat.succ_mul] at h
          rw [slices, slices, List.dropLast_cons_cons, ← slices] at hs
          rcases List.mem_cons.mp hs with rfl | hs
          · rw [List.length_take]
            omega
          · refine ih ?_ hs
            rw [Nat.add_sub_cancel, List.length_drop]
            omega

end PrimiHub.Lib
