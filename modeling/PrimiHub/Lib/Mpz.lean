/-
The integer functions of the multiple-precision library that number
theoretic code rests on: modular exponentiation, modular inverse, the
next prime, and single bits. Each is what the library documents, exact
on integers of any size.

- `powMod` squares and multiplies, so that it can be run on exponents of
  thousands of bits (also by the kernel, for a primality certificate);
  `powMod_eq` says what it computes.
- `powm` takes a base of any sign and a natural exponent; `signedPowm`
  takes an exponent of any sign and fails where a negative exponent
  meets a base without an inverse.
- `invert` is the inverse in `[0, m)`. Where there is none the library
  leaves its result undefined, and so `invert` is used on coprime
  arguments only.
-/
import Mathlib.Data.Int.GCD
import Mathlib.Data.Int.ModEq
import Mathlib.Data.Nat.Find
import Mathlib.Data.Nat.Prime.Infinite

namespace PrimiHub.Lib

-- ======================================================= exponentiation

/-- Square and multiply, from the low bits of the exponent up, with an
accumulator; `fuel` bounds the number of bits. -/
def powModLoop (m : Nat) : Nat → Nat → Nat → Nat → Nat
  | 0, _, _, acc => acc
  | fuel + 1, b, e, acc =>
      if e = 0 then acc
      else powModLoop m fuel (b * b % m) (e / 2)
        (if e % 2 = 1 then acc * b % m else acc)

/-- `b ^ e mod m`. -/
def powMod (m b e : Nat) : Nat := powModLoop m (e.log2 + 1) b e 1 % m

/-- The loop's invariant: what is left to multiply is `b ^ e`. -/
theorem powModLoop_modEq {m fuel b e acc : Nat} (h : e < 2 ^ fuel) :
    powModLoop m fuel b e acc ≡ acc * b ^ e [MOD m] := by
  induction fuel generalizing b e acc with
  | zero =>
      have he : e = 0 := by simpa using h
      subst he
      rw [powModLoop, Nat.pow_zero, Nat.mul_one]
  | succ fuel ih =>
      rw [powModLoop]
      split
      · rename_i he
        rw [he, Nat.pow_zero, Nat.mul_one]
      · have hhalf : e / 2 < 2 ^ fuel := by
          rw [Nat.pow_succ] at h
          omega
        have hsquare : (b * b % m) ^ (e / 2) ≡ b ^ (2 * (e / 2)) [MOD m] := by
          rw [Nat.pow_mul, Nat.pow_two]
          exact (Nat.mod_modEq _ _).pow _
        refine (ih hhalf).trans ?_
        split
        · rename_i hodd
          have he : e = 2 * (e / 2) + 1 := by omega
          calc acc * b % m * (b * b % m) ^ (e / 2)
              ≡ acc * b * b ^ (2 * (e / 2)) [MOD m] :=
                (Nat.mod_modEq _ _).mul hsquare
            _ = acc * b ^ e := by
                conv_rhs => rw [he, Nat.pow_succ]
                rw [Nat.mul_assoc, Nat.mul_comm b]
        · have he : e = 2 * (e / 2) := by omega
          conv_rhs => rw [he]
          exact hsquare.mul_left acc

/-- Square and multiply is exponentiation. -/
theorem powMod_eq (m b e : Nat) : powMod m b e = b ^ e % m := by
  have h : powModLoop m (e.log2 + 1) b e 1 ≡ 1 * b ^ e [MOD m] :=
    powModLoop_modEq Nat.lt_log2_self
  rw [Nat.one_mul] at h
  exact h

/-- Exponentiation of a base of any sign, in `[0, mod)`. -/
def powm (base : Int) (exp mod : Nat) : Nat :=
  powMod mod (base % mod).toNat exp

/-- A power of a residue, seen as a residue. -/
theorem powm_modEq (base : Int) (exp : Nat) {mod : Nat} (h : 0 < mod) :
    (powm base exp mod : Int) ≡ base ^ exp [ZMOD mod] := by
  have hnonneg : 0 ≤ base % mod := Int.emod_nonneg _ (by omega)
  rw [powm, powMod_eq]
  push_cast
  rw [Int.toNat_of_nonneg hnonneg]
  exact (Int.mod_modEq _ _).trans ((Int.mod_modEq _ _).pow exp)

/-- A power is reduced. -/
theorem powm_lt (base : Int) (exp : Nat) {mod : Nat} (h : 0 < mod) :
    powm base exp mod < mod := by
  rw [powm, powMod_eq]
  exact Nat.mod_lt _ h

/-- A power is determined by its residue. -/
theorem powm_eq_of_modEq {base : Int} {exp mod : Nat} (h : 0 < mod) {r : Int}
    (hr : base ^ exp ≡ r [ZMOD mod]) : (powm base exp mod : Int) = r % mod := by
  rw [← (powm_modEq base exp h).trans hr]
  exact (Int.emod_eq_of_lt (Int.natCast_nonneg _)
    (by exact_mod_cast powm_lt base exp h)).symm

-- =============================================================== inverse

/-- The inverse of `a` modulo `m`, in `[0, m)`, for coprime `a` and
`m`. -/
def invert (a : Int) (m : Nat) : Nat := (Int.gcdA a m % m).toNat

/-- The inverse is one. -/
theorem invert_mul {a : Int} {m : Nat} (hpos : 0 < m)
    (h : Int.gcd a m = 1) : a * invert a m ≡ 1 [ZMOD m] := by
  have hnonneg : 0 ≤ Int.gcdA a m % m := Int.emod_nonneg _ (by omega)
  rw [invert, Int.toNat_of_nonneg hnonneg]
  have hbezout := Int.gcd_eq_gcd_ab a m
  rw [h] at hbezout
  calc a * (Int.gcdA a m % m)
      ≡ a * Int.gcdA a m [ZMOD m] := (Int.mod_modEq _ _).mul_left a
    _ ≡ a * Int.gcdA a m + m * Int.gcdB a m [ZMOD m] :=
        (Int.modEq_add_fac_self).symm
    _ = 1 := by rw [← hbezout]; rfl

/-- Exponentiation with an exponent of any sign. -/
def signedPowm (base exp : Int) (mod : Nat) : Option Nat :=
  if 0 ≤ exp then some (powm base exp.toNat mod)
  else if Int.gcd base mod = 1 then
    some (powm (invert base mod) (-exp).toNat mod)
  else none

-- ================================================================ primes

/-- The least prime greater than `n`. -/
def nextprime (n : Nat) : Nat :=
  Nat.find (p := fun p => n < p ∧ p.Prime)
    (by
      obtain ⟨p, hle, hp⟩ := Nat.exists_infinite_primes (n + 1)
      exact ⟨p, hle, hp⟩)

theorem nextprime_prime (n : Nat) : (nextprime n).Prime :=
  (Nat.find_spec (p := fun p => n < p ∧ p.Prime) _).2

theorem lt_nextprime (n : Nat) : n < nextprime n :=
  (Nat.find_spec (p := fun p => n < p ∧ p.Prime) _).1

/-- No prime lies between. -/
theorem nextprime_le {n p : Nat} (hlt : n < p) (hp : p.Prime) :
    nextprime n ≤ p :=
  Nat.find_min' (p := fun p => n < p ∧ p.Prime) _ ⟨hlt, hp⟩

-- ================================================================== bits

/-- Set one bit. -/
def setbit (n bit : Nat) : Nat := n ||| 2 ^ bit

/-- Setting the bit above a number of `bit` bits. -/
theorem setbit_of_lt {n bit : Nat} (h : n < 2 ^ bit) :
    setbit n bit = 2 ^ bit + n := by
  have heq := Nat.two_pow_add_eq_or_of_lt h 1
  rw [Nat.mul_one] at heq
  rw [setbit, Nat.or_comm, heq]

end PrimiHub.Lib
