/-
Congruences modulo a product and modulo a square, in the form additively
homomorphic encryption uses them, and the primality of large numbers.

Modulo `n ^ 2` the numbers `1 + a * n` multiply by adding their `a`, so
they are powers of `1 + n` without any exponentiation
(`one_add_mul_pow`), and the quotient `(c - 1) / n` reads the `a` back
(`quotient_of_modEq`). A residue modulo a product of coprime numbers is
put together from its two halves by one multiplication with a precomputed
number (`crt_combine`).

A certificate of Lucas's test for `p` is a base of order `p - 1` modulo
`p`, shown by the factorization of `p - 1`. Its two computations are
modular powers, which the kernel evaluates by `powMod`, so a prime of a
thousand bits is a matter of a few certificates. The factors are proved
prime by smaller certificates, or by `norm_num` where they are small.
-/
import Mathlib.Data.Int.ModEq
import Mathlib.FieldTheory.Finite.Basic
import Mathlib.NumberTheory.LucasPrimality
import Mathlib.Tactic.LinearCombination
import Mathlib.Tactic.Ring
import PrimiHub.Lib.Mpz

namespace PrimiHub.Lib

-- ======================================================= modulo a square

/-- Numbers congruent to 1 modulo `n` multiply by adding, modulo
`n ^ 2`. -/
theorem one_add_mul_mul (a b n : Int) :
    (1 + a * n) * (1 + b * n) ≡ 1 + (a + b) * n [ZMOD n * n] := by
  refine (Int.modEq_iff_dvd.mpr ⟨-(a * b), ?_⟩)
  ring

/-- Powers of numbers congruent to 1 modulo `n`, modulo `n ^ 2`. -/
theorem one_add_mul_pow (a n : Int) (k : Nat) :
    (1 + a * n) ^ k ≡ 1 + k * a * n [ZMOD n * n] := by
  induction k with
  | zero => simp
  | succ k ih =>
      calc (1 + a * n) ^ (k + 1)
          = (1 + a * n) ^ k * (1 + a * n) := pow_succ _ _
        _ ≡ (1 + k * a * n) * (1 + a * n) [ZMOD n * n] := ih.mul_right _
        _ ≡ 1 + (k * a + a) * n [ZMOD n * n] := one_add_mul_mul _ _ _
        _ = 1 + (k + 1 : Nat) * a * n := by push_cast; ring

/-- A number congruent to 1 modulo `n` has `n`-th power 1 modulo
`n ^ 2`. -/
theorem pow_modEq_one_of_modEq {a : Int} {n : Nat} (h : a ≡ 1 [ZMOD n]) :
    a ^ n ≡ 1 [ZMOD n * n] := by
  obtain ⟨k, hk⟩ := Int.modEq_iff_dvd.mp h.symm
  have ha : a = 1 + k * n := by linear_combination hk
  calc a ^ n = (1 + k * n) ^ n := by rw [ha]
    _ ≡ 1 + n * k * n [ZMOD n * n] := one_add_mul_pow k n n
    _ ≡ 1 [ZMOD n * n] := Int.modEq_iff_dvd.mpr ⟨-k, by ring⟩

/-- The quotient that reads `k` off `1 + k * n`, given modulo
`n ^ 2`. -/
theorem quotient_of_modEq {c k : Int} {n : Nat} (hn : 1 < n) (h0 : 0 ≤ c)
    (hlt : c < n * n) (h : c ≡ 1 + k * n [ZMOD n * n]) :
    (c - 1) / n = k % n := by
  have hpos : (0 : Int) < n := by omega
  have hk0 : 0 ≤ k % n := Int.emod_nonneg _ (by omega)
  have hk1 : k % n < n := Int.emod_lt_of_pos _ hpos
  -- both sides are reduced, so the congruence is an equation
  have hreduced : 1 + k * n ≡ 1 + k % n * n [ZMOD n * n] := by
    have hdiv : k = n * (k / n) + k % n := (Int.mul_ediv_add_emod k n).symm
    refine Int.modEq_iff_dvd.mpr ⟨-(k / n), ?_⟩
    linear_combination (-(n : Int)) * hdiv
  have hbound : 1 + k % n * n < n * n := by nlinarith
  have hc : c = 1 + k % n * n := by
    have hmod := h.trans hreduced
    rw [Int.ModEq, Int.emod_eq_of_lt h0 hlt,
      Int.emod_eq_of_lt (by positivity) hbound] at hmod
    exact hmod
  rw [hc, show 1 + k % n * n - 1 = k % n * n by ring,
    Int.mul_ediv_cancel _ (by omega)]

-- ====================================================== modulo a product

/-- A congruence modulo a product is one modulo each factor. -/
theorem modEq_mul_iff {a b : Int} {m n : Nat} (h : m.Coprime n) :
    a ≡ b [ZMOD (m * n : Nat)] ↔ a ≡ b [ZMOD m] ∧ a ≡ b [ZMOD n] := by
  push_cast
  exact (Int.modEq_and_modEq_iff_modEq_mul
    (by rwa [Int.natAbs_natCast, Int.natAbs_natCast])).symm

/-- The recombination `a + (b - a) * (m * m⁻¹)` is `a` modulo `m` and `b`
modulo `n`. -/
theorem crt_combine {a b x inv : Int} {m n : Nat} (hcop : m.Coprime n)
    (hinv : (m : Int) * inv ≡ 1 [ZMOD n]) (ha : a ≡ x [ZMOD m])
    (hb : b ≡ x [ZMOD n]) :
    a + (b - a) * (inv * m) ≡ x [ZMOD (m * n : Nat)] := by
  rw [modEq_mul_iff hcop]
  constructor
  · refine Int.ModEq.trans ?_ ha
    exact Int.modEq_iff_dvd.mpr ⟨-((b - a) * inv), by ring⟩
  · refine Int.ModEq.trans ?_ hb
    calc a + (b - a) * (inv * m)
        = a + (b - a) * (m * inv) := by ring
      _ ≡ a + (b - a) * 1 [ZMOD n] := (hinv.mul_left _).add_left _
      _ = b := by ring

/-- Cancelling a factor that has an inverse. -/
theorem mul_inv_cancel_modEq {a b inv : Int} {n : Nat}
    (hinv : b * inv ≡ 1 [ZMOD n]) : a * b * inv ≡ a [ZMOD n] := by
  calc a * b * inv = a * (b * inv) := mul_assoc _ _ _
    _ ≡ a * 1 [ZMOD n] := hinv.mul_left a
    _ = a := mul_one a

/-- Two inverses of one number are congruent. -/
theorem inv_unique_modEq {a b c : Int} {n : Nat} (hb : a * b ≡ 1 [ZMOD n])
    (hc : a * c ≡ 1 [ZMOD n]) : b ≡ c [ZMOD n] := by
  calc b = 1 * b := (one_mul b).symm
    _ ≡ a * c * b [ZMOD n] := hc.symm.mul_right b
    _ = c * (a * b) := by ring
    _ ≡ c * 1 [ZMOD n] := hb.mul_left c
    _ = c := mul_one c

/-- A number with an inverse is coprime to the modulus. -/
theorem gcd_eq_one_of_mul_modEq {a b : Int} {n : Nat}
    (h : a * b ≡ 1 [ZMOD n]) : Int.gcd a n = 1 := by
  obtain ⟨k, hk⟩ := Int.modEq_iff_dvd.mp h
  have hcop : IsCoprime a (n : Int) := ⟨b, k, by linear_combination -hk⟩
  exact Int.isCoprime_iff_gcd_eq_one.mp hcop

-- =========================================================== Lucas's test

section Lucas

/-- A base of full order modulo `p`, and the factors of `p - 1` with
their exponents. -/
structure LucasCert (p : Nat) where
  base : Nat
  factors : List (Nat × Nat)
  factors_prime : ∀ f ∈ factors, f.1.Prime
  prod_eq : (factors.map fun f => f.1 ^ f.2).prod + 1 = p
  pow_eq_one : powMod p base (p - 1) = 1
  pow_ne_one : ∀ f ∈ factors, powMod p base ((p - 1) / f.1) ≠ 1

variable {p : Nat}

/-- A prime that divides a product of prime powers is one of the
primes. -/
theorem mem_of_dvd_prod_pow {factors : List (Nat × Nat)} {q : Nat}
    (hq : q.Prime) (hprime : ∀ f ∈ factors, f.1.Prime)
    (hdvd : q ∣ (factors.map fun f => f.1 ^ f.2).prod) :
    ∃ f ∈ factors, f.1 = q := by
  induction factors with
  | nil =>
      rw [List.map_nil, List.prod_nil, Nat.dvd_one] at hdvd
      exact absurd hdvd hq.ne_one
  | cons f rest ih =>
      rw [List.map_cons, List.prod_cons, hq.dvd_mul] at hdvd
      rcases hdvd with hhead | htail
      · have hf := hprime f (List.mem_cons_self ..)
        have heq := (Nat.prime_dvd_prime_iff_eq hq hf).mp
          (hq.dvd_of_dvd_pow hhead)
        exact ⟨f, List.mem_cons_self .., heq.symm⟩
      · obtain ⟨g, hg, heq⟩ := ih
          (fun g hg => hprime g (List.mem_cons_of_mem _ hg)) htail
        exact ⟨g, List.mem_cons_of_mem _ hg, heq⟩

/-- A certified number is prime. -/
theorem LucasCert.prime (cert : LucasCert p) : p.Prime := by
  have hone : ∀ k, ((cert.base : ZMod p) ^ k = 1 ↔ powMod p cert.base k
      = 1 % p) := by
    intro k
    rw [powMod_eq, ← Nat.cast_pow, ← Nat.cast_one,
      ZMod.natCast_eq_natCast_iff']
  -- modulo 1 every power is 0, so the certificate excludes p = 1
  have hp : 1 % p = 1 := by
    have hlt := cert.pow_eq_one
    rw [powMod_eq] at hlt
    by_cases h1 : p = 1
    · subst h1
      rw [Nat.mod_one] at hlt
      cases hlt
    · exact Nat.one_mod_eq_one.mpr h1
  refine lucas_primality p (cert.base : ZMod p) ?_ ?_
  · rw [hone, hp]
    exact cert.pow_eq_one
  · intro q hq hdvd
    have hprod := cert.prod_eq
    rw [show p - 1 = (cert.factors.map fun f => f.1 ^ f.2).prod by omega]
      at hdvd
    obtain ⟨f, hf, rfl⟩ := mem_of_dvd_prod_pow hq cert.factors_prime hdvd
    rw [Ne, hone, hp]
    exact cert.pow_ne_one f hf

/-- Lucas's test for `2 ^ a * 3 ^ b * 5 ^ c + 1`, as a computation. -/
def smoothCheck (base a b c : Nat) : Bool :=
  let m := 2 ^ a * 3 ^ b * 5 ^ c
  powMod (m + 1) base m = 1 && powMod (m + 1) base (m / 2) ≠ 1
    && powMod (m + 1) base (m / 3) ≠ 1 && powMod (m + 1) base (m / 5) ≠ 1

/-- A number one above a smooth one that passes the test is prime. -/
theorem prime_of_smoothCheck {base a b c : Nat}
    (h : smoothCheck base a b c = true) :
    (2 ^ a * 3 ^ b * 5 ^ c + 1).Prime := by
  simp only [smoothCheck, Bool.and_eq_true, decide_eq_true_eq] at h
  obtain ⟨⟨⟨h1, h2⟩, h3⟩, h5⟩ := h
  refine LucasCert.prime
    { base := base
      factors := [(2, a), (3, b), (5, c)]
      factors_prime := ?_
      prod_eq := ?_
      pow_eq_one := h1
      pow_ne_one := ?_ }
  · simp only [List.forall_mem_cons, List.not_mem_nil, false_imp_iff,
      implies_true, and_true]
    exact ⟨Nat.prime_two, Nat.prime_three, Nat.prime_five⟩
  · simp only [List.map_cons, List.map_nil, List.prod_cons, List.prod_nil,
      Nat.mul_one, Nat.mul_assoc]
  · simp only [List.forall_mem_cons, List.not_mem_nil, false_imp_iff,
      implies_true, and_true]
    exact ⟨h2, h3, h5⟩

end Lucas

end PrimiHub.Lib
