/-
Finding a number bit by bit, from the highest bit down: a bit stays set
where the test of the number so far says so.

Where the test tells the numbers up to a bound from those above it, the
search finds the bound (`bitSearch_eq`).
-/
import Mathlib.Algebra.Ring.Nat

namespace PrimiHub.Lib

/-- Set bits `k - 1`, ..., `0` of `a` one after the other. -/
def bitSearch (p : Nat → Bool) : Nat → Nat → Nat
  | 0, a => a
  | k + 1, a => bitSearch p k (if p (a + 2 ^ k) then a + 2 ^ k else a)

variable {p : Nat → Bool}

theorem bitSearch_set {k a : Nat} (h : p (a + 2 ^ k) = true) :
    bitSearch p (k + 1) a = bitSearch p k (a + 2 ^ k) := by
  rw [bitSearch, if_pos h]

theorem bitSearch_clear {k a : Nat} (h : p (a + 2 ^ k) = false) :
    bitSearch p (k + 1) a = bitSearch p k a := by
  rw [bitSearch, if_neg (Bool.eq_false_iff.mp h)]

/-- The search finds the bound of the test among the numbers it can
reach. -/
theorem bitSearch_eq {k a t : Nat} (ha : a ≤ t) (ht : t < a + 2 ^ k)
    (hp : ∀ m, a < m → m < a + 2 ^ k → (p m = true ↔ m ≤ t)) :
    bitSearch p k a = t := by
  induction k generalizing a with
  | zero =>
      rw [bitSearch]
      omega
  | succ k ih =>
      have hpos : 0 < 2 ^ k := Nat.two_pow_pos k
      have hdouble : 2 ^ (k + 1) = 2 ^ k + 2 ^ k := by
        rw [Nat.pow_succ, Nat.mul_two]
      rw [hdouble] at ht hp
      have hmid := hp (a + 2 ^ k) (by omega) (by omega)
      by_cases hle : a + 2 ^ k ≤ t
      · rw [bitSearch_set (hmid.mpr hle)]
        refine ih hle (by omega) ?_
        intro m hm hlt
        exact hp m (by omega) (by omega)
      · have hclear : p (a + 2 ^ k) = false :=
          Bool.eq_false_iff.mpr fun hset => hle (hmid.mp hset)
        rw [bitSearch_clear hclear]
        refine ih ha (by omega) ?_
        intro m hm hlt
        exact hp m hm (by omega)

/-- A test that nothing fails sets all bits. -/
theorem bitSearch_full {k a : Nat}
    (hp : ∀ m, a < m → m < a + 2 ^ k → p m = true) :
    bitSearch p k a = a + 2 ^ k - 1 := by
  have hpos : 0 < 2 ^ k := Nat.two_pow_pos k
  refine bitSearch_eq (by omega) (by omega) ?_
  intro m hm hlt
  exact iff_of_true (hp m hm hlt) (by omega)

end PrimiHub.Lib
