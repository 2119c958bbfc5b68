/-
The optimised Paillier scheme (algorithm/opt_paillier/src/paillier.cc):
key generation, the three ways to encrypt, the two ways to decrypt, the
homomorphic operations, and the signed encoding of plaintexts.

# Randomness

`aby_prng` reads random bytes. Key generation gets them from a tape, one
number per call, of which a call for `bitlen` bits keeps the low `bitlen`
bits. Its do-while loops consume the tape, so they are recursions on it;
a tape that ends before a loop has found what it looks for is a key
generation that has not finished (`none`). Encryption draws one number,
which is an argument here.

# Numbers

Key components and ciphertexts are never negative and are natural
numbers. Intermediate values that can be negative (differences before a
CRT step, signed plaintexts) are integers. `mpz_mod` is the remainder in
`[0, m)`, which is Lean's `%` on integers for a positive `m`.
`mpz_nextprime` and `mpz_probab_prime_p` are taken at their word: what
they call prime is prime.

A security parameter outside `mapTo_nbits_lbits` finds an empty vector,
whose elements are then read; there is no key in that case.
-/
import Mathlib.Data.Nat.Size
import PrimiHub.Paillier.FixedBase

namespace PrimiHub.Paillier

open Lib

/-- `opt_public_key_t`. -/
structure OptPublicKey where
  nbits : Nat
  lbits : Nat
  n : Nat
  halfN : Nat
  nSquared : Nat
  hS : Nat
  fbModPSquared : FbInstance
  fbModQSquared : FbInstance
  deriving DecidableEq, Repr

/-- `opt_secret_key_t`. -/
structure OptSecretKey where
  p : Nat
  q : Nat
  p_ : Nat
  q_ : Nat
  alpha : Nat
  beta : Nat
  P : Nat
  Q : Nat
  PSquared : Nat
  QSquared : Nat
  doubleAlpha : Nat
  doubleBeta : Nat
  doubleAlphaInverse : Nat
  PSquaredMulPSquaredInverse : Nat
  PMulPInverse : Nat
  doubleP : Nat
  doubleQ : Nat
  QMulDoublePInverse : Nat
  PMulDoubleQInverse : Nat
  deriving DecidableEq, Repr

-- ======================================================== key generation

/-- `mapTo_nbits_lbits`. -/
def mapToNbitsLbits (kSec : Nat) : Option (Nat × Nat) :=
  if kSec = 112 then some (2048, 448)
  else if kSec = 128 then some (3072, 512)
  else if kSec = 192 then some (7680, 768)
  else none

/-- `aby_prng(rnd, bitlen)` on the next number of the tape. -/
def abyPrng (draw bitlen : Nat) : Nat := draw % 2 ^ bitlen

/-- A random number of `bits + 1` bits, and the next prime after it. -/
def randomPrime (draw bits : Nat) : Nat :=
  nextprime (setbit (abyPrng draw bits) bits)

/-- The loop that draws `p_` and `q_`, two different primes. -/
def drawCofactors (bits : Nat) : List Nat → Option ((Nat × Nat) × List Nat)
  | d₁ :: d₂ :: tape =>
      let p_ := randomPrime d₁ bits
      let q_ := randomPrime d₂ bits
      if p_ = q_ then drawCofactors bits tape else some ((p_, q_), tape)
  | _ => none

/-- The loop that draws `p` until `P = 2 * p * p_ + 1` is prime. -/
def drawP (bits p_ : Nat) : List Nat → Option (Nat × List Nat)
  | d :: tape =>
      let p := randomPrime d bits
      if (p * p_ * 2 + 1).Prime then some (p, tape) else drawP bits p_ tape
  | [] => none

/-- The loop that draws `q`, different from `p`, until
`Q = 2 * q * q_ + 1` is prime. -/
def drawQ (bits p q_ : Nat) : List Nat → Option (Nat × List Nat)
  | d :: tape =>
      let q := randomPrime d bits
      if p = q then drawQ bits p q_ tape
      else if (q * q_ * 2 + 1).Prime then some (q, tape)
      else drawQ bits p q_ tape
  | [] => none

/-- The loop that draws `y` in `Z_n^*`. -/
def drawY (n : Nat) : List Nat → Option (Nat × List Nat)
  | d :: tape =>
      let y := abyPrng d (n.size + 128) % n
      if Nat.gcd y n = 1 then some (y, tape) else drawY n tape
  | [] => none

/-- The table window of `fbpowmod_init_extend` in key generation. -/
def fbWindow : Nat := 4

/-- The part of `opt_paillier_keygen` after the draws: everything else in
the keys is computed from `p`, `p_`, `q`, `q_` and `y`. -/
def deriveKeys (nbits lbits p p_ q q_ y : Nat) :
    Option (OptPublicKey × OptSecretKey) := do
  let P := p * p_ * 2 + 1
  let Q := q * q_ * 2 + 1
  let alpha := p * q
  let beta := p_ * q_
  let doubleAlpha := alpha * 2
  let doubleBeta := beta * 2
  let PSquared := P * P
  let QSquared := Q * Q
  let doubleP := p * 2
  let doubleQ := q * 2
  let n := P * Q
  let nSquared := n * n
  let hS := powm (-(powm y doubleBeta n : Int)) n nSquared
  let fbModPSquared ← fbpowmodInitExtend (hS % PSquared : Nat) PSquared
    (lbits + 1) fbWindow
  let fbModQSquared ← fbpowmodInitExtend (hS % QSquared : Nat) QSquared
    (lbits + 1) fbWindow
  return (
    { nbits := nbits
      lbits := lbits
      n := n
      halfN := n / 2
      nSquared := nSquared
      hS := hS
      fbModPSquared := fbModPSquared
      fbModQSquared := fbModQSquared },
    { p := p
      q := q
      p_ := p_
      q_ := q_
      alpha := alpha
      beta := beta
      P := P
      Q := Q
      PSquared := PSquared
      QSquared := QSquared
      doubleAlpha := doubleAlpha
      doubleBeta := doubleBeta
      doubleAlphaInverse := invert doubleAlpha n
      PSquaredMulPSquaredInverse := invert PSquared QSquared * PSquared
      PMulPInverse := invert P Q * P
      doubleP := doubleP
      doubleQ := doubleQ
      QMulDoublePInverse := invert (Q * doubleP : Nat) P
      PMulDoubleQInverse := invert (P * doubleQ : Nat) Q })

/-- `opt_paillier_keygen`. -/
def optPaillierKeygen (kSec : Nat) (tape : List Nat) :
    Option (OptPublicKey × OptSecretKey) := do
  let (nbits, lbits) ← mapToNbitsLbits kSec
  let lDividetwo := lbits / 2
  let nDividetwo := nbits / 2
  let ((p_, q_), tape) ← drawCofactors (nDividetwo - lDividetwo - 1) tape
  let (p, tape) ← drawP lDividetwo p_ tape
  let (q, tape) ← drawQ lDividetwo p q_ tape
  let (y, _) ← drawY ((p * p_ * 2 + 1) * (q * q_ * 2 + 1)) tape
  deriveKeys nbits lbits p p_ q q_ y

-- ============================================================ encryption

/-- The recombination at the end of `opt_paillier_mod_n_squared_crt` and
`opt_paillier_mod_n_squared_crt_fb`. -/
def crtModNSquared (pub : OptPublicKey) (prv : OptSecretKey) (cp cq : Nat) :
    Nat :=
  (((cp : Int) + ((cq : Int) - cp) * prv.PSquaredMulPSquaredInverse)
    % pub.nSquared).toNat

/-- `opt_paillier_mod_n_squared_crt`. -/
def optPaillierModNSquaredCrt (pub : OptPublicKey) (prv : OptSecretKey)
    (base exp : Nat) : Nat :=
  let cp := powm (base % prv.PSquared : Nat) exp prv.PSquared
  let cq := powm (base % prv.QSquared : Nat) exp prv.QSquared
  crtModNSquared pub prv cp cq

/-- `opt_paillier_mod_n_squared_crt_fb`. -/
def optPaillierModNSquaredCrtFb (pub : OptPublicKey) (prv : OptSecretKey)
    (exp : Nat) : Option Nat := do
  let cp ← fbpowmodExtend pub.fbModPSquared exp
  let cq ← fbpowmodExtend pub.fbModQSquared exp
  return crtModNSquared pub prv cp cq

/-- The common end of the three encryptions: `(1 + m * n) * r mod n^2`,
`r` being the masking power. -/
def maskPlaintext (pub : OptPublicKey) (plaintext : Int) (r : Nat) : Nat :=
  ((plaintext * pub.n + 1) * r % pub.nSquared).toNat

/-- `opt_paillier_encrypt` with the exponent `r` it draws. -/
def optPaillierEncrypt (pub : OptPublicKey) (plaintext : Int) (r : Nat) :
    Nat :=
  maskPlaintext pub plaintext (powm pub.hS r pub.nSquared)

/-- `opt_paillier_encrypt_crt`. -/
def optPaillierEncryptCrt (pub : OptPublicKey) (prv : OptSecretKey)
    (plaintext : Int) (r : Nat) : Nat :=
  maskPlaintext pub plaintext (optPaillierModNSquaredCrt pub prv pub.hS r)

/-- `opt_paillier_encrypt_crt_fb`. -/
def optPaillierEncryptCrtFb (pub : OptPublicKey) (prv : OptSecretKey)
    (plaintext : Int) (r : Nat) : Option Nat :=
  (optPaillierModNSquaredCrtFb pub prv r).map (maskPlaintext pub plaintext)

-- ============================================================ decryption

/-- `opt_paillier_decrypt`. -/
def optPaillierDecrypt (pub : OptPublicKey) (prv : OptSecretKey)
    (ciphertext : Nat) : Int :=
  let res : Int := powm ciphertext prv.doubleAlpha pub.nSquared
  (res - 1) / pub.n * prv.doubleAlphaInverse % pub.n

/-- One half of `opt_paillier_decrypt_crt`, for one of the two primes. -/
def decryptHalf (ciphertext prime primeSquared double inverse : Nat) : Int :=
  let c : Int := powm (ciphertext % primeSquared : Nat) double primeSquared
  (c - 1) / prime * inverse % prime

/-- `opt_paillier_decrypt_crt`. -/
def optPaillierDecryptCrt (pub : OptPublicKey) (prv : OptSecretKey)
    (ciphertext : Nat) : Int :=
  let cp := decryptHalf ciphertext prv.P prv.PSquared prv.doubleP
    prv.QMulDoublePInverse
  let cq := decryptHalf ciphertext prv.Q prv.QSquared prv.doubleQ
    prv.PMulDoubleQInverse
  (cp + (cq - cp) * prv.PMulPInverse) % pub.n

-- ============================================================ operations

/-- `opt_paillier_add`. -/
def optPaillierAdd (pub : OptPublicKey) (op1 op2 : Nat) : Nat :=
  op1 * op2 % pub.nSquared

/-- `opt_paillier_constant_mul`: the constant is an exponent of any
sign. -/
def optPaillierConstantMul (pub : OptPublicKey) (op1 : Nat) (op2 : Int) :
    Option Nat :=
  signedPowm op1 op2 pub.nSquared

/-- `opt_paillier_set_plaintext`, on the number the string spells. -/
def optPaillierSetPlaintext (pub : OptPublicKey) (plaintext : Int) : Int :=
  if plaintext < 0 then (plaintext + pub.n) % pub.n else plaintext

/-- `opt_paillier_cons_mul_warpper` (pybind_warpper/algorithm): the
constant is encoded like a plaintext before it is used. -/
def optPaillierConsMulWarpper (pub : OptPublicKey) (cipherText : Nat)
    (consValue : Int) : Option Nat :=
  optPaillierConstantMul pub cipherText (optPaillierSetPlaintext pub consValue)

/-- `opt_paillier_get_plaintext`, as the number the string spells. -/
def optPaillierGetPlaintext (pub : OptPublicKey) (plaintext : Int) : Int :=
  if (pub.halfN : Int) ≤ plaintext then plaintext - pub.n else plaintext

/-- The ciphertexts a holder of the public key can get: encryptions of any
numbers, and what add and constant_mul make of such ciphertexts. -/
inductive Ciphertext (pub : OptPublicKey) : Nat → Prop
  | encrypt (plaintext : Int) (r : Nat) :
      Ciphertext pub (optPaillierEncrypt pub plaintext r)
  | add {c₁ c₂ : Nat} : Ciphertext pub c₁ → Ciphertext pub c₂ →
      Ciphertext pub (optPaillierAdd pub c₁ c₂)
  | constantMul {c c' : Nat} (k : Int) : Ciphertext pub c →
      optPaillierConstantMul pub c k = some c' → Ciphertext pub c'

end PrimiHub.Paillier
