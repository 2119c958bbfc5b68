/-
What a generated key pair is good for.

`GeneratedKey` is the interface between key generation and everything
else: the two primes and their product, what each precomputed number is,
and that the masking base `h_s` vanishes under the two secret exponents.
`keygen_generated` derives it from any run of key generation; no other
proof looks at the draws or at how a component is computed.

Two facts come from the sizes of the drawn numbers alone. `P` and `Q`
differ: otherwise `p` divides `q * q_`, but `p` is not `q` and is too
small to be `q_`. And all four of `p`, `q` and 2 are too small to be
divisible by `P` or `Q`, so the inverses exist. Both rest on the next
prime being at most twice the number.

The last section runs key generation once, at the smallest of the three
sizes, on a tape that hits primes of a simple form; the primality of the
numbers drawn is by certificate.
-/
import Mathlib.NumberTheory.Bertrand
import Mathlib.Tactic.NormNum.Prime
import PrimiHub.Lib.Residue
import PrimiHub.Paillier.Basic
import PrimiHub.Paillier.Proofs.FixedBase

namespace PrimiHub.Paillier

open Lib

/-- What the scheme relies on in a key pair. -/
structure GeneratedKey (pub : OptPublicKey) (prv : OptSecretKey) : Prop where
  P_prime : prv.P.Prime
  Q_prime : prv.Q.Prime
  P_ne_Q : prv.P ≠ prv.Q
  P_odd : prv.P % 2 = 1
  Q_odd : prv.Q % 2 = 1
  n_eq : pub.n = prv.P * prv.Q
  nbits_ge : 2048 ≤ pub.nbits
  n_large : 2 ^ pub.nbits < pub.n
  nSquared_eq : pub.nSquared = pub.n * pub.n
  halfN_eq : pub.halfN = pub.n / 2
  PSquared_eq : prv.PSquared = prv.P * prv.P
  QSquared_eq : prv.QSquared = prv.Q * prv.Q
  doubleP_pos : 0 < prv.doubleP
  doubleQ_pos : 0 < prv.doubleQ
  doubleP_dvd : prv.doubleP ∣ prv.doubleAlpha
  doubleQ_dvd : prv.doubleQ ∣ prv.doubleAlpha
  doubleAlpha_inverse :
    (prv.doubleAlpha : Int) * prv.doubleAlphaInverse ≡ 1 [ZMOD pub.n]
  P_inverse : ∃ inv : Nat, prv.PMulPInverse = inv * prv.P
    ∧ (prv.P : Int) * inv ≡ 1 [ZMOD prv.Q]
  PSquared_inverse : ∃ inv : Nat,
    prv.PSquaredMulPSquaredInverse = inv * prv.PSquared
    ∧ (prv.PSquared : Int) * inv ≡ 1 [ZMOD prv.QSquared]
  QDoubleP_inverse : (prv.Q * prv.doubleP : Int) * prv.QMulDoublePInverse
    ≡ 1 [ZMOD prv.P]
  PDoubleQ_inverse : (prv.P * prv.doubleQ : Int) * prv.PMulDoubleQInverse
    ≡ 1 [ZMOD prv.Q]
  hS_doubleP : (pub.hS : Int) ^ prv.doubleP ≡ 1 [ZMOD prv.PSquared]
  hS_doubleQ : (pub.hS : Int) ^ prv.doubleQ ≡ 1 [ZMOD prv.QSquared]
  hS_lt : pub.hS < pub.nSquared
  fbP_eq : fbpowmodInitExtend (pub.hS % prv.PSquared : Nat) prv.PSquared
    (pub.lbits + 1) fbWindow = some pub.fbModPSquared
  fbQ_eq : fbpowmodInitExtend (pub.hS % prv.QSquared : Nat) prv.QSquared
    (pub.lbits + 1) fbWindow = some pub.fbModQSquared
  lbits_le : pub.lbits ≤ 768
  le_lbits : 448 ≤ pub.lbits

-- ================================================================= draws

/-- A drawn prime has the size asked for, or is a little larger. -/
theorem randomPrime_bounds (draw bits : Nat) :
    (randomPrime draw bits).Prime ∧ 2 ^ bits < randomPrime draw bits
      ∧ randomPrime draw bits < 2 ^ (bits + 2) := by
  have hdraw : abyPrng draw bits < 2 ^ bits :=
    Nat.mod_lt _ (Nat.two_pow_pos bits)
  have hset : setbit (abyPrng draw bits) bits = 2 ^ bits + abyPrng draw bits :=
    setbit_of_lt hdraw
  obtain ⟨r, hr, hlt, hle⟩ := Nat.exists_prime_lt_and_le_two_mul
    (2 ^ bits + abyPrng draw bits) (by have := Nat.two_pow_pos bits; omega)
  have hnext := nextprime_le hlt hr
  have hgt := lt_nextprime (2 ^ bits + abyPrng draw bits)
  refine ⟨nextprime_prime _, ?_, ?_⟩
  · rw [randomPrime, hset]
    omega
  · rw [randomPrime, hset, Nat.pow_add]
    omega

/-- The drawn numbers of a run, for `bits` bits of `p` and `cobits` bits
of `p_`. -/
structure Drawn (bits cobits p p_ q q_ y : Nat) : Prop where
  p_prime : p.Prime
  q_prime : q.Prime
  coQ_prime : q_.Prime
  P_prime : (p * p_ * 2 + 1).Prime
  Q_prime : (q * q_ * 2 + 1).Prime
  p_ne_q : p ≠ q
  p_gt : 2 ^ bits < p
  q_gt : 2 ^ bits < q
  p_lt : p < 2 ^ (bits + 2)
  q_lt : q < 2 ^ (bits + 2)
  coP_gt : 2 ^ cobits < p_
  coQ_gt : 2 ^ cobits < q_
  y_coprime : Nat.Coprime y ((p * p_ * 2 + 1) * (q * q_ * 2 + 1))

theorem drawCofactors_spec {bits : Nat} {tape tape' : List Nat} {p_ q_ : Nat}
    (h : drawCofactors bits tape = some ((p_, q_), tape')) :
    q_.Prime ∧ 2 ^ bits < p_ ∧ 2 ^ bits < q_ := by
  fun_induction drawCofactors bits tape with
  | case1 d₁ d₂ tape p q heq ih => exact ih h
  | case2 d₁ d₂ tape p q hne =>
      simp only [Option.some.injEq, Prod.mk.injEq] at h
      obtain ⟨⟨rfl, rfl⟩, -⟩ := h
      have h₁ := randomPrime_bounds d₁ bits
      have h₂ := randomPrime_bounds d₂ bits
      exact ⟨h₂.1, h₁.2.1, h₂.2.1⟩
  | case3 tape => cases h

theorem drawP_spec {bits p_ : Nat} {tape tape' : List Nat} {p : Nat}
    (h : drawP bits p_ tape = some (p, tape')) :
    p.Prime ∧ (p * p_ * 2 + 1).Prime ∧ 2 ^ bits < p
      ∧ p < 2 ^ (bits + 2) := by
  fun_induction drawP bits p_ tape with
  | case1 d tape r hprime =>
      simp only [Option.some.injEq, Prod.mk.injEq] at h
      obtain ⟨rfl, -⟩ := h
      have hd := randomPrime_bounds d bits
      exact ⟨hd.1, hprime, hd.2⟩
  | case2 d tape r hprime ih => exact ih h
  | case3 => cases h

theorem drawQ_spec {bits p q_ : Nat} {tape tape' : List Nat} {q : Nat}
    (h : drawQ bits p q_ tape = some (q, tape')) :
    p ≠ q ∧ q.Prime ∧ (q * q_ * 2 + 1).Prime ∧ 2 ^ bits < q
      ∧ q < 2 ^ (bits + 2) := by
  fun_induction drawQ bits p q_ tape with
  | case1 d tape r heq ih => exact ih h
  | case2 d tape r hne hprime =>
      simp only [Option.some.injEq, Prod.mk.injEq] at h
      obtain ⟨rfl, -⟩ := h
      have hd := randomPrime_bounds d bits
      exact ⟨hne, hd.1, hprime, hd.2⟩
  | case3 d tape r hne hprime ih => exact ih h
  | case4 => cases h

theorem drawY_spec {n : Nat} {tape tape' : List Nat} {y : Nat}
    (h : drawY n tape = some (y, tape')) : Nat.Coprime y n := by
  fun_induction drawY n tape with
  | case1 d tape r hgcd =>
      simp only [Option.some.injEq, Prod.mk.injEq] at h
      obtain ⟨rfl, -⟩ := h
      exact hgcd
  | case2 d tape r hgcd ih => exact ih h
  | case3 => cases h

/-- A run of key generation: its sizes, its draws, and the keys derived
from them. -/
theorem keygen_cases {kSec : Nat} {tape : List Nat} {pub : OptPublicKey}
    {prv : OptSecretKey} (h : optPaillierKeygen kSec tape = some (pub, prv)) :
    ∃ nbits lbits p p_ q q_ y,
      (nbits, lbits) ∈ [(2048, 448), (3072, 512), (7680, 768)]
      ∧ Drawn (lbits / 2) (nbits / 2 - lbits / 2 - 1) p p_ q q_ y
      ∧ deriveKeys nbits lbits p p_ q q_ y = some (pub, prv) := by
  simp only [optPaillierKeygen, Option.bind_eq_bind, Option.bind_eq_some_iff,
    Prod.exists] at h
  obtain ⟨nbits, lbits, hsizes, p_, q_, tape₁, hco, p, tape₂, hp, q, tape₃, hq,
    y, tape₄, hy, hkeys⟩ := h
  have hmem : (nbits, lbits) ∈ [(2048, 448), (3072, 512), (7680, 768)] := by
    unfold mapToNbitsLbits at hsizes
    split at hsizes
    · cases hsizes
      decide
    split at hsizes
    · cases hsizes
      decide
    split at hsizes
    · cases hsizes
      decide
    · cases hsizes
  obtain ⟨hq_prime, hp_gt, hq_gt⟩ := drawCofactors_spec hco
  obtain ⟨hp_prime, hP, hpgt, hplt⟩ := drawP_spec hp
  obtain ⟨hne, hqprime, hQ, hqgt, hqlt⟩ := drawQ_spec hq
  exact ⟨nbits, lbits, p, p_, q, q_, y, hmem,
    ⟨hp_prime, hqprime, hq_prime, hP, hQ, hne, hpgt, hqgt, hplt, hqlt, hp_gt,
      hq_gt, drawY_spec hy⟩, hkeys⟩

-- ================================================================= sizes

variable {bits cobits p p_ q q_ y : Nat}

/-- `P` is larger than the two factors of its half together need. -/
theorem Drawn.P_gt (h : Drawn bits cobits p p_ q q_ y) :
    2 ^ (bits + cobits + 1) < p * p_ * 2 + 1 := by
  have hmul : 2 ^ bits * 2 ^ cobits ≤ p * p_ :=
    Nat.mul_le_mul (Nat.le_of_lt h.p_gt) (Nat.le_of_lt h.coP_gt)
  rw [Nat.pow_succ, Nat.pow_add]
  omega

theorem Drawn.Q_gt (h : Drawn bits cobits p p_ q q_ y) :
    2 ^ (bits + cobits + 1) < q * q_ * 2 + 1 := by
  have hmul : 2 ^ bits * 2 ^ cobits ≤ q * q_ :=
    Nat.mul_le_mul (Nat.le_of_lt h.q_gt) (Nat.le_of_lt h.coQ_gt)
  rw [Nat.pow_succ, Nat.pow_add]
  omega

/-- The two primes differ. -/
theorem Drawn.P_ne_Q (h : Drawn bits cobits p p_ q q_ y)
    (hbits : bits + 2 ≤ cobits) : p * p_ * 2 + 1 ≠ q * q_ * 2 + 1 := by
  intro heq
  have hprod : p * p_ = q * q_ := by omega
  have hdvd : p ∣ q * q_ := ⟨p_, hprod.symm⟩
  rcases h.p_prime.dvd_mul.mp hdvd with hq | hq_
  · exact h.p_ne_q ((Nat.prime_dvd_prime_iff_eq h.p_prime h.q_prime).mp hq)
  · have heq' := (Nat.prime_dvd_prime_iff_eq h.p_prime h.coQ_prime).mp hq_
    have hpow : 2 ^ (bits + 2) ≤ 2 ^ cobits :=
      Nat.pow_le_pow_right (by decide) hbits
    have h₁ := h.p_lt
    have h₂ := h.coQ_gt
    omega

/-- A prime above the drawn sizes divides neither `p` nor `q` nor 2. -/
theorem coprime_double {r R : Nat} (hR : R.Prime) (hr : 0 < r)
    (hlt : r < 2 ^ (bits + 2)) (hgt : 2 ^ (bits + cobits + 1) < R)
    (hcobits : 1 ≤ cobits) : Nat.Coprime (r * 2) R := by
  have hpow : 2 ^ (bits + 2) ≤ 2 ^ (bits + cobits + 1) :=
    Nat.pow_le_pow_right (by decide) (by omega)
  have hfour : 2 ^ (bits + 2) = 2 ^ bits * 4 := Nat.pow_add 2 bits 2
  have hone := Nat.two_pow_pos bits
  refine Nat.Coprime.mul_left ?_ ?_
  · exact (Nat.coprime_of_lt_prime (by omega) (by omega) hR).symm
  · exact (Nat.coprime_of_lt_prime (by decide) (by omega) hR).symm

-- ================================================== the masking base

/-- The masking base vanishes under a secret exponent. `w` is
`y ^ (2 * beta)` reduced modulo `n`, so it is known modulo `P` only; that
`h_s` is an `n`-th power lifts the congruence to `P ^ 2`. -/
theorem mask_pow_modEq {P Q c k n : Nat} {w h : Int} (hP : P.Prime)
    (hP_eq : P = p * p_ * 2 + 1) (hk : k = p_ * c * 2) (hn : n = P * Q)
    (hy : Nat.Coprime y P) (hw : w ≡ y ^ k [ZMOD P])
    (hh : h ≡ (-w) ^ n [ZMOD P * P]) : h ^ (p * 2) ≡ 1 [ZMOD P * P] := by
  have hfermat : (y : Int) ^ (P - 1) ≡ 1 [ZMOD P] :=
    Int.ModEq.pow_card_sub_one_eq_one hP (Nat.isCoprime_iff_coprime.mpr hy)
  have hone : (-w) ^ (p * 2) ≡ 1 [ZMOD P] := by
    rw [Even.neg_pow (even_two.mul_left p)]
    calc w ^ (p * 2) ≡ (y ^ k) ^ (p * 2) [ZMOD P] := hw.pow _
      _ = (y ^ (P - 1)) ^ (c * 2) := by
          rw [← pow_mul, ← pow_mul, hk, hP_eq, Nat.add_sub_cancel]
          congr 1
          ring
      _ ≡ 1 ^ (c * 2) [ZMOD P] := hfermat.pow _
      _ = 1 := one_pow _
  calc h ^ (p * 2) ≡ ((-w) ^ n) ^ (p * 2) [ZMOD P * P] := hh.pow _
    _ = (((-w) ^ (p * 2)) ^ P) ^ Q := by
        rw [← pow_mul, ← pow_mul, ← pow_mul, hn]
        congr 1
        ring
    _ ≡ 1 ^ Q [ZMOD P * P] := (pow_modEq_one_of_modEq hone).pow Q
    _ = 1 := one_pow _

/-- An inverse computed by `invert`, for natural numbers. -/
theorem invert_natCast {a m : Nat} (hpos : 0 < m) (h : Nat.Coprime a m) :
    (a : Int) * invert a m ≡ 1 [ZMOD m] :=
  invert_mul hpos (by rw [Int.gcd_natCast_natCast]; exact h)

/-- The keys derived from drawn numbers are as the scheme relies on. -/
theorem derived_generated {nbits lbits : Nat} {pub : OptPublicKey}
    {prv : OptSecretKey}
    (hsizes : 2048 ≤ nbits ∧ nbits % 2 = 0 ∧ (lbits ≤ 768 ∧ 448 ≤ lbits)
      ∧ lbits / 2 + (nbits / 2 - lbits / 2 - 1) + 1 = nbits / 2
      ∧ lbits / 2 + 2 ≤ nbits / 2 - lbits / 2 - 1)
    (hd : Drawn (lbits / 2) (nbits / 2 - lbits / 2 - 1) p p_ q q_ y)
    (h : deriveKeys nbits lbits p p_ q q_ y = some (pub, prv)) :
    GeneratedKey pub prv := by
  obtain ⟨hnbits, heven, hlbits, hhalf, hbits⟩ := hsizes
  have hP_gt := hd.P_gt
  have hQ_gt := hd.Q_gt
  have hne := hd.P_ne_Q hbits
  have hp0 : 0 < p := hd.p_prime.pos
  have hq0 : 0 < q := hd.q_prime.pos
  have hpP := coprime_double hd.P_prime hp0 hd.p_lt hP_gt (by omega)
  have hqP := coprime_double hd.P_prime hq0 hd.q_lt hP_gt (by omega)
  have hpQ := coprime_double hd.Q_prime hp0 hd.p_lt hQ_gt (by omega)
  have hqQ := coprime_double hd.Q_prime hq0 hd.q_lt hQ_gt (by omega)
  obtain ⟨hyP, hyQ⟩ := Nat.coprime_mul_iff_right.mp hd.y_coprime
  have hP := hd.P_prime
  have hQ := hd.Q_prime
  simp only [deriveKeys, Option.bind_eq_bind, Option.bind_eq_some_iff,
    Option.pure_def, Option.some.injEq, Prod.mk.injEq] at h
  obtain ⟨fbP, hfbP, fbQ, hfbQ, rfl, rfl⟩ := h
  generalize hP_eq : p * p_ * 2 + 1 = P at *
  generalize hQ_eq : q * q_ * 2 + 1 = Q at *
  have hPQ : Nat.Coprime P Q := (Nat.coprime_primes hP hQ).mpr hne
  have hn0 : 0 < P * Q := Nat.mul_pos hP.pos hQ.pos
  have hn20 : 0 < P * Q * (P * Q) := Nat.mul_pos hn0 hn0
  -- the base of h_s, known modulo n, and h_s itself modulo n^2
  have hw := powm_modEq (y : Int) (p_ * q_ * 2) hn0
  have hh := powm_modEq (-(powm y (p_ * q_ * 2) (P * Q) : Int)) (P * Q) hn20
  have hwP := hw.of_dvd (show (P : Int) ∣ (P * Q : Nat) from ⟨Q, by simp⟩)
  have hwQ := hw.of_dvd (show (Q : Int) ∣ (P * Q : Nat) from
    ⟨P, by push_cast; ring⟩)
  have hhP := hh.of_dvd (show (P * P : Int) ∣ (P * Q * (P * Q) : Nat) from
    ⟨Q * Q, by push_cast; ring⟩)
  have hhQ := hh.of_dvd (show (Q * Q : Int) ∣ (P * Q * (P * Q) : Nat) from
    ⟨P * P, by push_cast; ring⟩)
  have hP_odd : P % 2 = 1 := by omega
  have hQ_odd : Q % 2 = 1 := by omega
  refine ⟨hP, hQ, hne, hP_odd, hQ_odd, rfl, hnbits, ?_, rfl, rfl, rfl, rfl,
    Nat.mul_pos hp0 two_pos, Nat.mul_pos hq0 two_pos, ⟨q, ?_⟩, ⟨p, ?_⟩, ?_, ?_,
    ?_, ?_, ?_, ?_, ?_, powm_lt _ _ hn20, hfbP, hfbQ, hlbits.1,
    hlbits.2⟩
  · rw [hhalf] at hP_gt hQ_gt
    calc 2 ^ nbits = 2 ^ (nbits / 2) * 2 ^ (nbits / 2) := by
          rw [← Nat.pow_add]
          congr 1
          omega
      _ < P * Q := Nat.mul_lt_mul_of_lt_of_le hP_gt (Nat.le_of_lt hQ_gt)
          hQ.pos
  · show p * q * 2 = p * 2 * q
    ring
  · show p * q * 2 = q * 2 * p
    ring
  · refine invert_natCast hn0 (Nat.Coprime.mul_right ?_ ?_)
    · rw [Nat.mul_assoc]
      exact (Nat.coprime_mul_iff_left.mp hpP).1.mul_left hqP
    · rw [Nat.mul_assoc]
      exact (Nat.coprime_mul_iff_left.mp hpQ).1.mul_left hqQ
  · exact ⟨_, rfl, invert_natCast hQ.pos hPQ⟩
  · refine ⟨_, rfl, invert_natCast (Nat.mul_pos hQ.pos hQ.pos) ?_⟩
    exact (hPQ.mul_left hPQ).mul_right (hPQ.mul_left hPQ)
  · have hinv := invert_natCast (a := Q * (p * 2)) hP.pos
      (hPQ.symm.mul_left hpP)
    push_cast at hinv
    exact_mod_cast hinv
  · have hinv := invert_natCast (a := P * (q * 2)) hQ.pos (hPQ.mul_left hqQ)
    push_cast at hinv
    exact_mod_cast hinv
  · exact_mod_cast mask_pow_modEq hP hP_eq.symm rfl rfl hyP hwP hhP
  · exact_mod_cast mask_pow_modEq hQ hQ_eq.symm
      (show p_ * q_ * 2 = q_ * p_ * 2 by ring) (Nat.mul_comm P Q) hyQ hwQ hhQ

/-- Every generated key pair is as the scheme relies on. -/
theorem keygen_generated {kSec : Nat} {tape : List Nat} {pub : OptPublicKey}
    {prv : OptSecretKey} (h : optPaillierKeygen kSec tape = some (pub, prv)) :
    GeneratedKey pub prv := by
  obtain ⟨nbits, lbits, p, p_, q, q_, y, hsizes, hd, hkeys⟩ := keygen_cases h
  refine derived_generated ?_ hd hkeys
  simp only [List.mem_cons, Prod.mk.injEq, List.not_mem_nil, or_false]
    at hsizes
  rcases hsizes with ⟨rfl, rfl⟩ | ⟨rfl, rfl⟩ | ⟨rfl, rfl⟩ <;> decide

-- ============================================================ a sample key

/-- A draw just below a prime of the right size gives that prime. -/
theorem randomPrime_of_prime {k bits : Nat} (hprime : (k + 1).Prime)
    (hlo : 2 ^ bits ≤ k) (hhi : k < 2 ^ (bits + 1)) :
    randomPrime k bits = k + 1 := by
  rw [Nat.pow_succ] at hhi
  have hdraw : abyPrng k bits = k - 2 ^ bits := by
    rw [abyPrng, Nat.mod_eq_sub_mod hlo, Nat.mod_eq_of_lt (by omega)]
  rw [randomPrime, hdraw, setbit_of_lt (by omega), Nat.add_sub_cancel' hlo]
  exact Nat.le_antisymm (nextprime_le (Nat.lt_succ_self k) hprime)
    (lt_nextprime k)

/-- The draws of the sample key, each one less than a prime. -/
def sampleCoP : Nat := 305 * 2 ^ 791
def sampleCoQ : Nat := 715 * 2 ^ 790
def sampleP : Nat := 55791 * 2 ^ 209
def sampleQ : Nat := 53859 * 2 ^ 209

/-- The tape: the two cofactors, `p`, `q`, and `y = 2`. -/
def sampleTape : List Nat := [sampleCoP, sampleCoQ, sampleP, sampleQ, 2]

theorem sampleCoP_prime : (sampleCoP + 1).Prime :=
  LucasCert.prime
    { base := 6
      factors := [(5, 1), (61, 1), (2, 791)]
      factors_prime := by
        simp only [List.forall_mem_cons, List.not_mem_nil, false_imp_iff,
          implies_true, and_true]
        norm_num
      prod_eq := by decide +kernel
      pow_eq_one := by decide +kernel
      pow_ne_one := by decide +kernel }

theorem sampleCoQ_prime : (sampleCoQ + 1).Prime :=
  LucasCert.prime
    { base := 7
      factors := [(5, 1), (11, 1), (13, 1), (2, 790)]
      factors_prime := by
        simp only [List.forall_mem_cons, List.not_mem_nil, false_imp_iff,
          implies_true, and_true]
        norm_num
      prod_eq := by decide +kernel
      pow_eq_one := by decide +kernel
      pow_ne_one := by decide +kernel }

theorem sampleP_prime : (sampleP + 1).Prime :=
  LucasCert.prime
    { base := 5
      factors := [(3, 2), (6199, 1), (2, 209)]
      factors_prime := by
        simp only [List.forall_mem_cons, List.not_mem_nil, false_imp_iff,
          implies_true, and_true]
        norm_num
      prod_eq := by decide +kernel
      pow_eq_one := by decide +kernel
      pow_ne_one := by decide +kernel }

theorem sampleQ_prime : (sampleQ + 1).Prime :=
  LucasCert.prime
    { base := 11
      factors := [(3, 1), (13, 1), (1381, 1), (2, 209)]
      factors_prime := by
        simp only [List.forall_mem_cons, List.not_mem_nil, false_imp_iff,
          implies_true, and_true]
        norm_num
      prod_eq := by decide +kernel
      pow_eq_one := by decide +kernel
      pow_ne_one := by decide +kernel }

theorem sampleBigP_prime :
    ((sampleP + 1) * (sampleCoP + 1) * 2 + 1).Prime :=
  LucasCert.prime
    { base := 2
      factors := [(sampleP + 1, 1), (sampleCoP + 1, 1), (2, 1)]
      factors_prime := by
        simp only [List.forall_mem_cons, List.not_mem_nil, false_imp_iff,
          implies_true, and_true]
        exact ⟨sampleP_prime, sampleCoP_prime, Nat.prime_two⟩
      prod_eq := by decide +kernel
      pow_eq_one := by decide +kernel
      pow_ne_one := by decide +kernel }

theorem sampleBigQ_prime :
    ((sampleQ + 1) * (sampleCoQ + 1) * 2 + 1).Prime :=
  LucasCert.prime
    { base := 2
      factors := [(sampleQ + 1, 1), (sampleCoQ + 1, 1), (2, 1)]
      factors_prime := by
        simp only [List.forall_mem_cons, List.not_mem_nil, false_imp_iff,
          implies_true, and_true]
        exact ⟨sampleQ_prime, sampleCoQ_prime, Nat.prime_two⟩
      prod_eq := by decide +kernel
      pow_eq_one := by decide +kernel
      pow_ne_one := by decide +kernel }

/-- The number 2 is drawn as it is, and is coprime to an odd modulus. -/
theorem drawY_two {n : Nat} (hodd : n % 2 = 1) (hn : 2 < n)
    (tape : List Nat) : drawY n (2 :: tape) = some (2, tape) := by
  have hpow : 2 < 2 ^ (n.size + 128) :=
    calc 2 = 2 ^ 1 := rfl
      _ < 2 ^ (n.size + 128) := Nat.pow_lt_pow_right (by decide) (by omega)
  have hy : abyPrng 2 (n.size + 128) % n = 2 := by
    rw [abyPrng, Nat.mod_eq_of_lt hpow, Nat.mod_eq_of_lt hn]
  have hgcd : Nat.gcd 2 n = 1 := by
    rw [← Nat.coprime_iff_gcd_eq_one, Nat.coprime_two_left]
    exact Nat.odd_iff.mpr hodd
  simp only [drawY, hy, hgcd, if_true]

/-- Deriving the keys succeeds where the fixed-base tables have a size:
their window is a legal shift. -/
theorem deriveKeys_isSome {lbits : Nat}
    (hfits : TableFits (lbits + 1) fbWindow) (nbits p p_ q q_ y : Nat) :
    ∃ pub prv, deriveKeys nbits lbits p p_ q q_ y = some (pub, prv) := by
  have hinit (base : Int) (mod : Nat) :
      fbpowmodInitExtend base mod (lbits + 1) fbWindow = some _ :=
    fbpowmodInitExtend_eq_some_iff.mpr ⟨16, rfl, hfits, rfl⟩
  simp only [deriveKeys, hinit, Option.bind_eq_bind, Option.bind_some]
  exact ⟨_, _, rfl⟩

/-- Key generation once its draws are known. -/
theorem keygen_of_draws {kSec nbits lbits : Nat}
    {tape tape₁ tape₂ tape₃ tape₄ : List Nat}
    (hsizes : mapToNbitsLbits kSec = some (nbits, lbits))
    (hbits : lbits / 2 = bits) (hcobits : nbits / 2 - lbits / 2 - 1 = cobits)
    (hcofactors : drawCofactors cobits tape = some ((p_, q_), tape₁))
    (hp : drawP bits p_ tape₁ = some (p, tape₂))
    (hq : drawQ bits p q_ tape₂ = some (q, tape₃))
    (hy : drawY ((p * p_ * 2 + 1) * (q * q_ * 2 + 1)) tape₃
      = some (y, tape₄)) :
    optPaillierKeygen kSec tape = deriveKeys nbits lbits p p_ q q_ y := by
  subst hbits hcobits
  -- by rewriting: the kernel is not to compute the size of a table here
  simp -implicitDefEqProofs only [optPaillierKeygen, hsizes, hcofactors, hp,
    hq, hy, Option.bind_eq_bind, Option.bind_some]

/-- Key generation for security parameter 112 succeeds on the sample
tape. -/
theorem keygen_sample :
    ∃ pub prv, optPaillierKeygen 112 sampleTape = some (pub, prv) := by
  have hcoP : randomPrime sampleCoP 799 = sampleCoP + 1 :=
    randomPrime_of_prime sampleCoP_prime (by decide +kernel)
      (by decide +kernel)
  have hcoQ : randomPrime sampleCoQ 799 = sampleCoQ + 1 :=
    randomPrime_of_prime sampleCoQ_prime (by decide +kernel)
      (by decide +kernel)
  have hp : randomPrime sampleP 224 = sampleP + 1 :=
    randomPrime_of_prime sampleP_prime (by decide +kernel) (by decide +kernel)
  have hq : randomPrime sampleQ 224 = sampleQ + 1 :=
    randomPrime_of_prime sampleQ_prime (by decide +kernel) (by decide +kernel)
  have hcofactors : drawCofactors 799 sampleTape
      = some ((sampleCoP + 1, sampleCoQ + 1), [sampleP, sampleQ, 2]) := by
    have hne : sampleCoP + 1 ≠ sampleCoQ + 1 := by decide +kernel
    simp only [sampleTape, drawCofactors, hcoP, hcoQ, if_neg hne]
  have hdrawP : drawP 224 (sampleCoP + 1) [sampleP, sampleQ, 2]
      = some (sampleP + 1, [sampleQ, 2]) := by
    simp only [drawP, hp, sampleBigP_prime, if_true]
  have hdrawQ : drawQ 224 (sampleP + 1) (sampleCoQ + 1) [sampleQ, 2]
      = some (sampleQ + 1, [2]) := by
    have hne : sampleP + 1 ≠ sampleQ + 1 := by decide +kernel
    simp only [drawQ, hq, sampleBigQ_prime, if_neg hne, if_true]
  have hdrawY := drawY_two
    (n := ((sampleP + 1) * (sampleCoP + 1) * 2 + 1)
      * ((sampleQ + 1) * (sampleCoQ + 1) * 2 + 1))
    (by decide +kernel) (by decide +kernel) []
  have hfits : TableFits (448 + 1) fbWindow := by
    unfold TableFits
    decide
  obtain ⟨pub, prv, hkeys⟩ := deriveKeys_isSome hfits 2048 (sampleP + 1)
    (sampleCoP + 1) (sampleQ + 1) (sampleCoQ + 1) 2
  have hsizes : mapToNbitsLbits 112 = some (2048, 448) := rfl
  have hbits : 448 / 2 = 224 := rfl
  have hcobits : 2048 / 2 - 448 / 2 - 1 = 799 := rfl
  exact ⟨pub, prv, (keygen_of_draws hsizes hbits hcobits hcofactors hdrawP
    hdrawQ hdrawY).trans hkeys⟩

end PrimiHub.Paillier
