/-
Both decryptors invert encryption, and agree on every ciphertext.

A ciphertext carries `m` if it is `(1 + m * n) * u` modulo `n ^ 2` for a
mask `u`, a number that vanishes under the two secret exponents. The
operations work on what is carried: encryption carries its plaintext, add
adds, constant_mul multiplies, with a negative constant through the
inverse. And each decryptor returns what is carried, reduced modulo `n`.
So nothing here is about particular ciphertexts: `Ciphertext` is closed
under the operations, and so is carrying something.

Decryption takes the ciphertext to a power that removes the mask and
leaves `1 + k * n`, from which the quotient reads `k`. The CRT decryptor
does this modulo `P ^ 2` and `Q ^ 2` (`decryptHalf_eq`, for either of
them) and recombines.
-/
import PrimiHub.Paillier.Proofs.Keygen

namespace PrimiHub.Paillier

open Lib

variable {pub : OptPublicKey} {prv : OptSecretKey}

-- ================================================================= masks

/-- A number that vanishes under the two secret exponents. -/
structure Mask (prv : OptSecretKey) (u : Int) : Prop where
  doubleP : u ^ prv.doubleP ≡ 1 [ZMOD prv.PSquared]
  doubleQ : u ^ prv.doubleQ ≡ 1 [ZMOD prv.QSquared]

theorem Mask.mul {u v : Int} (hu : Mask prv u) (hv : Mask prv v) :
    Mask prv (u * v) where
  doubleP := by
    rw [mul_pow]
    exact hu.doubleP.mul hv.doubleP
  doubleQ := by
    rw [mul_pow]
    exact hu.doubleQ.mul hv.doubleQ

theorem Mask.pow {u : Int} (hu : Mask prv u) (k : Nat) :
    Mask prv (u ^ k) where
  doubleP := by
    rw [pow_right_comm]
    simpa using hu.doubleP.pow k
  doubleQ := by
    rw [pow_right_comm]
    simpa using hu.doubleQ.pow k

/-- The two squares are coprime, and their product is the ciphertext
modulus. -/
theorem GeneratedKey.nSquared_mul (hkey : GeneratedKey pub prv) :
    pub.nSquared = prv.PSquared * prv.QSquared := by
  rw [hkey.nSquared_eq, hkey.n_eq, hkey.PSquared_eq, hkey.QSquared_eq]
  ring

theorem GeneratedKey.coprime (hkey : GeneratedKey pub prv) :
    Nat.Coprime prv.P prv.Q :=
  (Nat.coprime_primes hkey.P_prime hkey.Q_prime).mpr hkey.P_ne_Q

theorem GeneratedKey.coprime_squared (hkey : GeneratedKey pub prv) :
    Nat.Coprime prv.PSquared prv.QSquared := by
  rw [hkey.PSquared_eq, hkey.QSquared_eq]
  exact (hkey.coprime.mul_left hkey.coprime).mul_right
    (hkey.coprime.mul_left hkey.coprime)

theorem GeneratedKey.n_pos (hkey : GeneratedKey pub prv) : 0 < pub.n :=
  hkey.n_eq ▸ Nat.mul_pos hkey.P_prime.pos hkey.Q_prime.pos

theorem GeneratedKey.one_lt_n (hkey : GeneratedKey pub prv) : 1 < pub.n := by
  have h := hkey.n_large
  have hpow := Nat.one_le_two_pow (n := pub.nbits)
  omega

theorem GeneratedKey.nSquared_pos (hkey : GeneratedKey pub prv) :
    0 < pub.nSquared :=
  hkey.nSquared_eq ▸ Nat.mul_pos hkey.n_pos hkey.n_pos

/-- A congruence modulo `n ^ 2` is one modulo each square. -/
theorem GeneratedKey.modEq_nSquared_iff (hkey : GeneratedKey pub prv)
    {a b : Int} : a ≡ b [ZMOD pub.nSquared]
      ↔ a ≡ b [ZMOD prv.PSquared] ∧ a ≡ b [ZMOD prv.QSquared] := by
  rw [hkey.nSquared_mul]
  exact modEq_mul_iff hkey.coprime_squared

/-- A mask vanishes modulo `n ^ 2` under every common multiple of the
secret exponents. -/
theorem Mask.pow_modEq_one (hkey : GeneratedKey pub prv) {u : Int}
    (hu : Mask prv u) {k : Nat} (hp : prv.doubleP ∣ k) (hq : prv.doubleQ ∣ k) :
    u ^ k ≡ 1 [ZMOD pub.nSquared] := by
  rw [hkey.modEq_nSquared_iff]
  obtain ⟨a, rfl⟩ := hp
  constructor
  · rw [pow_mul]
    simpa using hu.doubleP.pow a
  · obtain ⟨b, hb⟩ := hq
    rw [hb, pow_mul]
    simpa using hu.doubleQ.pow b

/-- A mask has an inverse that is a mask. -/
theorem Mask.inverse (hkey : GeneratedKey pub prv) {u : Int}
    (hu : Mask prv u) :
    ∃ v, Mask prv v ∧ u * v ≡ 1 [ZMOD pub.nSquared] := by
  refine ⟨u ^ (prv.doubleP * prv.doubleQ - 1), hu.pow _, ?_⟩
  have hpos : 0 < prv.doubleP * prv.doubleQ :=
    Nat.mul_pos hkey.doubleP_pos hkey.doubleQ_pos
  rw [← pow_succ', Nat.sub_add_cancel hpos]
  exact hu.pow_modEq_one hkey (Dvd.intro _ rfl) (Dvd.intro_left _ rfl)

/-- The masking base is a mask. -/
theorem GeneratedKey.mask_hS (hkey : GeneratedKey pub prv) :
    Mask prv pub.hS :=
  ⟨hkey.hS_doubleP, hkey.hS_doubleQ⟩

-- =============================================================== carrying

/-- The ciphertext stands for `m`. -/
def Carries (pub : OptPublicKey) (prv : OptSecretKey) (c : Nat) (m : Int) :
    Prop :=
  ∃ u, Mask prv u ∧ (c : Int) ≡ (1 + m * pub.n) * u [ZMOD pub.nSquared]

/-- Only the residue of `m` modulo `n` matters. -/
theorem Carries.congr (hkey : GeneratedKey pub prv) {c : Nat} {m m' : Int}
    (h : Carries pub prv c m) (hm : m ≡ m' [ZMOD pub.n]) :
    Carries pub prv c m' := by
  obtain ⟨u, hu, hc⟩ := h
  refine ⟨u, hu, hc.trans (Int.ModEq.mul_right u (Int.ModEq.add_left 1 ?_))⟩
  rw [hkey.nSquared_eq]
  push_cast
  exact hm.mul_right'

/-- A reduced number, as a natural number. -/
theorem toNat_emod_modEq (a : Int) {n : Nat} (h : 0 < n) :
    ((a % n).toNat : Int) ≡ a [ZMOD n] := by
  rw [Int.toNat_of_nonneg (Int.emod_nonneg _ (by omega))]
  exact Int.mod_modEq _ _

/-- Encryption carries its plaintext. -/
theorem carries_encrypt (hkey : GeneratedKey pub prv) (m : Int) (r : Nat) :
    Carries pub prv (optPaillierEncrypt pub m r) m := by
  refine ⟨pub.hS ^ r, hkey.mask_hS.pow r, ?_⟩
  refine (toNat_emod_modEq _ hkey.nSquared_pos).trans ?_
  rw [add_comm (m * (pub.n : Int)) 1]
  exact (powm_modEq _ r hkey.nSquared_pos).mul_left _

/-- `opt_paillier_add` adds. -/
theorem Carries.add (hkey : GeneratedKey pub prv) {c₁ c₂ : Nat} {m₁ m₂ : Int}
    (h₁ : Carries pub prv c₁ m₁) (h₂ : Carries pub prv c₂ m₂) :
    Carries pub prv (optPaillierAdd pub c₁ c₂) (m₁ + m₂) := by
  obtain ⟨u₁, hu₁, hc₁⟩ := h₁
  obtain ⟨u₂, hu₂, hc₂⟩ := h₂
  refine ⟨u₁ * u₂, hu₁.mul hu₂, ?_⟩
  have hsum : (1 + m₁ * pub.n) * (1 + m₂ * pub.n)
      ≡ 1 + (m₁ + m₂) * pub.n [ZMOD pub.nSquared] := by
    rw [hkey.nSquared_eq]
    push_cast
    exact one_add_mul_mul m₁ m₂ pub.n
  rw [optPaillierAdd]
  push_cast
  calc (c₁ * c₂ : Int) % pub.nSquared
      ≡ c₁ * c₂ [ZMOD pub.nSquared] := Int.mod_modEq _ _
    _ ≡ (1 + m₁ * pub.n) * u₁ * ((1 + m₂ * pub.n) * u₂) [ZMOD pub.nSquared] :=
        hc₁.mul hc₂
    _ = (1 + m₁ * pub.n) * (1 + m₂ * pub.n) * (u₁ * u₂) := by ring
    _ ≡ (1 + (m₁ + m₂) * pub.n) * (u₁ * u₂) [ZMOD pub.nSquared] :=
        hsum.mul_right _

/-- Powers multiply what is carried. -/
theorem Carries.powm (hkey : GeneratedKey pub prv) {c : Nat} {m : Int}
    (h : Carries pub prv c m) (k : Nat) :
    Carries pub prv (powm c k pub.nSquared) (k * m) := by
  obtain ⟨u, hu, hc⟩ := h
  refine ⟨u ^ k, hu.pow k, ?_⟩
  have hpow : (1 + m * pub.n) ^ k
      ≡ 1 + k * m * pub.n [ZMOD pub.nSquared] := by
    rw [hkey.nSquared_eq]
    push_cast
    exact one_add_mul_pow m pub.n k
  calc (Lib.powm c k pub.nSquared : Int)
      ≡ c ^ k [ZMOD pub.nSquared] := powm_modEq _ _ hkey.nSquared_pos
    _ ≡ ((1 + m * pub.n) * u) ^ k [ZMOD pub.nSquared] := hc.pow k
    _ = (1 + m * pub.n) ^ k * u ^ k := mul_pow _ _ _
    _ ≡ (1 + k * m * pub.n) * u ^ k [ZMOD pub.nSquared] := hpow.mul_right _

/-- The inverse of a ciphertext exists and carries the negative. -/
theorem Carries.invert (hkey : GeneratedKey pub prv) {c : Nat} {m : Int}
    (h : Carries pub prv c m) :
    Int.gcd c pub.nSquared = 1
      ∧ Carries pub prv (invert c pub.nSquared) (-m) := by
  obtain ⟨u, hu, hc⟩ := h
  obtain ⟨v, hv, huv⟩ := hu.inverse hkey
  have hneg : (1 + m * pub.n) * (1 + -m * pub.n)
      ≡ 1 [ZMOD pub.nSquared] := by
    have hmul := one_add_mul_mul m (-m) pub.n
    rw [add_neg_cancel, zero_mul, add_zero] at hmul
    rw [hkey.nSquared_eq]
    push_cast
    exact hmul
  have hinv : (c : Int) * ((1 + -m * pub.n) * v) ≡ 1 [ZMOD pub.nSquared] := by
    calc (c : Int) * ((1 + -m * pub.n) * v)
        ≡ (1 + m * pub.n) * u * ((1 + -m * pub.n) * v) [ZMOD pub.nSquared] :=
          hc.mul_right _
      _ = (1 + m * pub.n) * (1 + -m * pub.n) * (u * v) := by ring
      _ ≡ 1 * 1 [ZMOD pub.nSquared] := hneg.mul huv
      _ = 1 := one_mul 1
  have hgcd := gcd_eq_one_of_mul_modEq hinv
  exact ⟨hgcd, v, hv,
    inv_unique_modEq (invert_mul hkey.nSquared_pos hgcd) hinv⟩

/-- `opt_paillier_constant_mul` succeeds and multiplies, for constants of
either sign. -/
theorem Carries.constantMul (hkey : GeneratedKey pub prv) {c : Nat} {m : Int}
    (h : Carries pub prv c m) (k : Int) :
    ∃ c', optPaillierConstantMul pub c k = some c'
      ∧ Carries pub prv c' (k * m) := by
  unfold optPaillierConstantMul signedPowm
  by_cases hk : 0 ≤ k
  · rw [if_pos hk]
    refine ⟨_, rfl, ?_⟩
    have hpow := h.powm hkey k.toNat
    rwa [Int.toNat_of_nonneg hk] at hpow
  · obtain ⟨hgcd, hinv⟩ := h.invert hkey
    rw [if_neg hk, if_pos hgcd]
    refine ⟨_, rfl, ?_⟩
    have hpow := hinv.powm hkey (-k).toNat
    rw [Int.toNat_of_nonneg (by omega), neg_mul_neg] at hpow
    exact hpow

/-- Every ciphertext carries something. -/
theorem Ciphertext.carries (hkey : GeneratedKey pub prv) {c : Nat}
    (h : Ciphertext pub c) : ∃ m, Carries pub prv c m := by
  induction h with
  | encrypt m r => exact ⟨m, carries_encrypt hkey m r⟩
  | add _ _ ih₁ ih₂ =>
      obtain ⟨m₁, h₁⟩ := ih₁
      obtain ⟨m₂, h₂⟩ := ih₂
      exact ⟨m₁ + m₂, h₁.add hkey h₂⟩
  | constantMul k _ hmul ih =>
      obtain ⟨m, h⟩ := ih
      obtain ⟨c', heq, hc'⟩ := h.constantMul hkey k
      rw [hmul, Option.some.injEq] at heq
      exact ⟨k * m, heq ▸ hc'⟩

-- ============================================================= decryption

/-- Removing the mask: the power of a ciphertext under an exponent that
makes the mask vanish. -/
theorem unmask {c u m : Int} {n k N : Nat} (hN : N = n * n)
    (hc : c ≡ (1 + m * n) * u [ZMOD N]) (hu : u ^ k ≡ 1 [ZMOD N]) :
    c ^ k ≡ 1 + k * m * n [ZMOD N] := by
  have hpow : (1 + m * n) ^ k ≡ 1 + k * m * n [ZMOD N] := by
    rw [hN]
    push_cast
    exact one_add_mul_pow m n k
  calc c ^ k ≡ ((1 + m * n) * u) ^ k [ZMOD N] := hc.pow k
    _ = (1 + m * n) ^ k * u ^ k := mul_pow _ _ _
    _ ≡ (1 + k * m * n) * 1 [ZMOD N] := hpow.mul hu
    _ = 1 + k * m * n := mul_one _

/-- The quotient of the unmasked power, multiplied by the precomputed
inverse. -/
theorem quotient_mul_inverse {c m : Int} {n k inv : Nat} (hn : 1 < n)
    (hc : c ^ k ≡ 1 + m * n [ZMOD (n * n : Nat)]) {x a : Int}
    (hm : m = x * a) (hinv : a * inv ≡ 1 [ZMOD n]) :
    ((powm c k (n * n) : Int) - 1) / n * inv % n = x % n := by
  have hpos : 0 < n * n := by positivity
  have hmod := (powm_modEq c k hpos).trans hc
  push_cast at hmod
  have hlt : (powm c k (n * n) : Int) < n * n := by
    exact_mod_cast powm_lt c k hpos
  rw [quotient_of_modEq hn (Int.natCast_nonneg _) hlt hmod]
  show m % n * inv ≡ x [ZMOD n]
  calc m % n * inv ≡ m * inv [ZMOD n] := (Int.mod_modEq _ _).mul_right _
    _ = x * a * inv := by rw [hm]
    _ ≡ x [ZMOD n] := mul_inv_cancel_modEq hinv

/-- `opt_paillier_decrypt` returns what is carried. -/
theorem Carries.decrypt (hkey : GeneratedKey pub prv) {c : Nat} {m : Int}
    (h : Carries pub prv c m) : optPaillierDecrypt pub prv c = m % pub.n := by
  obtain ⟨u, hu, hc⟩ := h
  have hpow := unmask hkey.nSquared_eq hc
    (hu.pow_modEq_one hkey hkey.doubleP_dvd hkey.doubleQ_dvd)
  rw [hkey.nSquared_eq] at hpow
  rw [optPaillierDecrypt, hkey.nSquared_eq]
  exact quotient_mul_inverse hkey.one_lt_n hpow (mul_comm _ m)
    hkey.doubleAlpha_inverse

/-- One half of the CRT decryptor: what is carried, modulo one of the
primes. `S` is the other prime. -/
theorem decryptHalf_eq {c R S double inv : Nat} {m u : Int} (hR : 1 < R)
    (hc : (c : Int) ≡ (1 + m * S * R) * u [ZMOD (R * R : Nat)])
    (hu : u ^ double ≡ 1 [ZMOD (R * R : Nat)])
    (hinv : (S * double : Int) * inv ≡ 1 [ZMOD R]) :
    decryptHalf c R (R * R) double inv = m % R := by
  have hreduce : ((c % (R * R) : Nat) : Int) ≡ c [ZMOD (R * R : Nat)] := by
    push_cast
    exact Int.mod_modEq _ _
  have hpow := unmask rfl (hreduce.trans hc) hu
  exact quotient_mul_inverse hR hpow
    (show (double : Int) * (m * S) = m * (S * double) by ring) hinv

/-- `opt_paillier_decrypt_crt` returns what is carried. -/
theorem Carries.decryptCrt (hkey : GeneratedKey pub prv) {c : Nat} {m : Int}
    (h : Carries pub prv c m) :
    optPaillierDecryptCrt pub prv c = m % pub.n := by
  obtain ⟨u, hu, hc⟩ := h
  obtain ⟨hcP, hcQ⟩ := hkey.modEq_nSquared_iff.mp hc
  obtain ⟨inv, hinv_eq, hinv⟩ := hkey.P_inverse
  have huP := hu.doubleP
  have huQ := hu.doubleQ
  rw [hkey.PSquared_eq] at hcP huP
  rw [hkey.QSquared_eq] at hcQ huQ
  have hnP : m * pub.n = m * prv.Q * prv.P := by
    rw [hkey.n_eq]
    push_cast
    ring
  have hnQ : m * pub.n = m * prv.P * prv.Q := by
    rw [hkey.n_eq]
    push_cast
    ring
  have hP : decryptHalf c prv.P prv.PSquared prv.doubleP
      prv.QMulDoublePInverse = m % prv.P := by
    rw [hkey.PSquared_eq]
    rw [hnP] at hcP
    exact decryptHalf_eq hkey.P_prime.one_lt hcP huP hkey.QDoubleP_inverse
  have hQ : decryptHalf c prv.Q prv.QSquared prv.doubleQ
      prv.PMulDoubleQInverse = m % prv.Q := by
    rw [hkey.QSquared_eq]
    rw [hnQ] at hcQ
    exact decryptHalf_eq hkey.Q_prime.one_lt hcQ huQ hkey.PDoubleQ_inverse
  rw [optPaillierDecryptCrt, hP, hQ, hinv_eq, hkey.n_eq]
  push_cast
  exact_mod_cast crt_combine hkey.coprime hinv (Int.mod_modEq m _)
    (Int.mod_modEq m _)

-- ================================================================ results

/-- Both decryptors invert encryption, for every generated key, every
plaintext in the domain and every random exponent, and they agree on
every ciphertext that encryption, add and constant_mul can produce. -/
theorem decrypt_encrypt {kSec : Nat} {tape : List Nat}
    (h : optPaillierKeygen kSec tape = some (pub, prv)) :
    (∀ (m : Int) (r : Nat), 0 ≤ m → m < pub.n →
      optPaillierDecrypt pub prv (optPaillierEncrypt pub m r) = m
      ∧ optPaillierDecryptCrt pub prv (optPaillierEncrypt pub m r) = m)
    ∧ ∀ c, Ciphertext pub c →
      optPaillierDecrypt pub prv c = optPaillierDecryptCrt pub prv c := by
  have hkey := keygen_generated h
  constructor
  · intro m r h0 hlt
    have hcarries := carries_encrypt hkey m r
    rw [hcarries.decrypt hkey, hcarries.decryptCrt hkey,
      Int.emod_eq_of_lt h0 hlt]
    exact ⟨rfl, rfl⟩
  · intro c hc
    obtain ⟨m, hm⟩ := hc.carries hkey
    rw [hm.decrypt hkey, hm.decryptCrt hkey]

/-- The sample key encrypts 1 and decrypts it again both ways, and the two
ways agree on a sum. -/
theorem decrypt_encrypt_sample :
    ∃ pub prv, optPaillierKeygen 112 sampleTape = some (pub, prv)
      ∧ optPaillierDecrypt pub prv (optPaillierEncrypt pub 1 5) = 1
      ∧ optPaillierDecryptCrt pub prv (optPaillierEncrypt pub 1 5) = 1
      ∧ optPaillierDecrypt pub prv (optPaillierAdd pub
          (optPaillierEncrypt pub 1 5) (optPaillierEncrypt pub (-3) 6))
        = optPaillierDecryptCrt pub prv (optPaillierAdd pub
          (optPaillierEncrypt pub 1 5) (optPaillierEncrypt pub (-3) 6)) := by
  obtain ⟨pub, prv, h⟩ := keygen_sample
  have hn : (1 : Int) < pub.n := by
    exact_mod_cast (keygen_generated h).one_lt_n
  obtain ⟨hencrypt, hagree⟩ := decrypt_encrypt h
  obtain ⟨h₁, h₂⟩ := hencrypt 1 5 (by decide) hn
  exact ⟨pub, prv, h, h₁, h₂,
    hagree _ ((Ciphertext.encrypt 1 5).add (Ciphertext.encrypt (-3) 6))⟩

end PrimiHub.Paillier
