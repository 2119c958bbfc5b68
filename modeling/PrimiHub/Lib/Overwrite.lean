/-
A list overwritten at some positions with one value, and the positions at
which a list has entries of a kind.

The two together are a map: overwriting the image of a list at the
positions of the entries of a kind replaces those entries and no other
(`overwrite_positions`). `writeAt` overwrites each position with a value
of its own.
-/
import Mathlib.Data.List.Basic

namespace PrimiHub.Lib

variable {α β : Type*}

/-- `xs` with `r` at each of the positions. -/
def overwrite (positions : List Nat) (r : α) (xs : List α) : List α :=
  positions.foldl (fun ys i => ys.set i r) xs

/-- The positions, from `j` on, of the entries with `p`. -/
def positionsFrom (p : α → Bool) : Nat → List α → List Nat
  | _, [] => []
  | j, x :: xs =>
      if p x then j :: positionsFrom p (j + 1) xs
      else positionsFrom p (j + 1) xs

/-- The positions of the entries with `p`. -/
def positions (p : α → Bool) (xs : List α) : List Nat :=
  positionsFrom p 0 xs

theorem getElem?_overwrite (is : List Nat) (r : α) (xs : List α) (j : Nat) :
    (overwrite is r xs)[j]?
      = if j ∈ is then xs[j]?.map fun _ => r else xs[j]? := by
  induction is generalizing xs with
  | nil => simp [overwrite]
  | cons i is ih =>
      have hstep : overwrite (i :: is) r xs = overwrite is r (xs.set i r) :=
        rfl
      rw [hstep, ih (xs.set i r), List.getElem?_set']
      by_cases hij : i = j
      · rw [if_pos hij, if_pos (List.mem_cons.mpr (Or.inl hij.symm))]
        split
        · rw [Option.map_eq_map, Option.map_map]
          rfl
        · rfl
      · rw [if_neg hij]
        have hmem : j ∈ i :: is ↔ j ∈ is := by
          rw [List.mem_cons, or_iff_right (Ne.symm hij)]
        simp only [hmem]

theorem mem_positionsFrom {p : α → Bool} {j k : Nat} {xs : List α} :
    k ∈ positionsFrom p j xs ↔ ∃ i x, k = j + i ∧ xs[i]? = some x ∧ p x := by
  induction xs generalizing j with
  | nil => simp [positionsFrom]
  | cons y xs ih =>
      have htail : (∃ i x, k = j + i ∧ (y :: xs)[i]? = some x ∧ p x)
          ↔ (k = j ∧ p y) ∨ k ∈ positionsFrom p (j + 1) xs := by
        rw [ih]
        constructor
        · intro h
          obtain ⟨i, x, hk, hx, hp⟩ := h
          cases i with
          | zero =>
              rw [List.getElem?_cons_zero, Option.some.injEq] at hx
              rw [hx]
              exact Or.inl ⟨hk, hp⟩
          | succ i => exact Or.inr ⟨i, x, by omega, by simpa using hx, hp⟩
        · intro h
          rcases h with ⟨hk, hp⟩ | ⟨i, x, hk, hx, hp⟩
          · exact ⟨0, y, hk, rfl, hp⟩
          · exact ⟨i + 1, x, by omega, by simpa using hx, hp⟩
      rw [htail, positionsFrom]
      by_cases hp : p y = true
      · rw [if_pos hp, List.mem_cons]
        simp [hp]
      · rw [if_neg hp]
        simp [hp]

theorem mem_positions {p : α → Bool} {k : Nat} {xs : List α} :
    k ∈ positions p xs ↔ ∃ x, xs[k]? = some x ∧ p x := by
  rw [positions, mem_positionsFrom]
  constructor
  · intro h
    obtain ⟨i, x, hk, hx, hp⟩ := h
    rw [hk, Nat.zero_add]
    exact ⟨x, hx, hp⟩
  · intro h
    obtain ⟨x, hx, hp⟩ := h
    exact ⟨k, x, (Nat.zero_add k).symm, hx, hp⟩

/-- Overwriting the entries of a kind. -/
theorem overwrite_positions (p : α → Bool) (f : α → β) (r : β)
    (xs : List α) :
    overwrite (positions p xs) r (xs.map f)
      = xs.map fun x => if p x then r else f x := by
  refine List.ext_getElem? fun j => ?_
  rw [getElem?_overwrite, List.getElem?_map, List.getElem?_map]
  cases hx : xs[j]? with
  | none =>
      split
      · rfl
      · rfl
  | some x =>
      have hmem : j ∈ positions p xs ↔ p x = true := by
        rw [mem_positions, hx]
        simp
      simp only [hmem, Option.map_some]
      split
      · rfl
      · rfl

/-- `xs` with the values at the positions, one after the other. -/
def writeAt (positions : List Nat) (values : List α) (xs : List α) : List α :=
  (positions.zip values).foldl (fun ys w => ys.set w.1 w.2) xs

/-- Writing what is computed from the positions. -/
theorem getElem?_writeAt (is : List Nat) (f : Nat → α) (xs : List α)
    (j : Nat) :
    (writeAt is (is.map f) xs)[j]?
      = if j ∈ is then xs[j]?.map fun _ => f j else xs[j]? := by
  induction is generalizing xs with
  | nil => rfl
  | cons i is ih =>
      have hstep : writeAt (i :: is) ((i :: is).map f) xs
          = writeAt is (is.map f) (xs.set i (f i)) := rfl
      rw [hstep, ih, List.getElem?_set']
      by_cases hij : i = j
      · subst hij
        rw [if_pos rfl, if_pos List.mem_cons_self, Option.map_eq_map]
        split
        · rw [Option.map_map]
          rfl
        · rfl
      · rw [if_neg hij]
        have hmem : j ∈ i :: is ↔ j ∈ is := by
          rw [List.mem_cons, or_iff_right (Ne.symm hij)]
        simp only [hmem]

end PrimiHub.Lib
