/-
The signed encoding, end to end.

`set_plaintext` maps a negative number to its residue modulo `n`, and
`get_plaintext` maps the residues from `half_n` up back to negative
numbers. With `n` odd, `half_n` is `(n - 1) / 2`, so the comparison with
`>=` takes the largest positive number of the balanced range for a
negative one. Every other number of the range comes back
(`balanced_emod`).

A homomorphic sum is a tree here: its leaves are encrypted and multiplied
by a constant, its nodes are `add`. So the order and the grouping of the
additions are those of any tree. What a tree's ciphertext carries is the
value of the sum, whatever the size of the numbers in between.
-/
import PrimiHub.Paillier.Proofs.Decrypt

namespace PrimiHub.Paillier

open Lib

variable {pub : OptPublicKey} {prv : OptSecretKey}

-- ============================================================= the sums

/-- A homomorphic linear combination. A term has its number `x`, its
constant `c`, the random exponent of its encryption, and whether the
constant goes through `opt_paillier_cons_mul_warpper`. -/
inductive SignedSum
  | term (x c : Int) (r : Nat) (wrapped : Bool)
  | add (s t : SignedSum)
  deriving DecidableEq, Repr

/-- The number the combination stands for. -/
def SignedSum.value : SignedSum → Int
  | .term x c _ _ => c * x
  | .add s t => s.value + t.value

/-- `(n - 1) / 2`, the end of the balanced range. -/
def balancedMax (n : Nat) : Int := ((n : Int) - 1) / 2

/-- The balanced range of the modulus. -/
def InBalancedRange (n : Nat) (x : Int) : Prop := |x| ≤ balancedMax n

/-- All numbers and constants lie in the balanced range. -/
def SignedSum.InRange (n : Nat) : SignedSum → Prop
  | .term x c _ _ => InBalancedRange n x ∧ InBalancedRange n c
  | .add s t => s.InRange n ∧ t.InRange n

/-- The ciphertext: set_plaintext, encrypt and constant_mul at the leaves,
add at the nodes. -/
def SignedSum.encrypted (pub : OptPublicKey) : SignedSum → Option Nat
  | .term x c r wrapped =>
      let cipher := optPaillierEncrypt pub (optPaillierSetPlaintext pub x) r
      if wrapped then optPaillierConsMulWarpper pub cipher c
      else optPaillierConstantMul pub cipher c
  | .add s t => do
      let c₁ ← s.encrypted pub
      let c₂ ← t.encrypted pub
      return optPaillierAdd pub c₁ c₂

-- ============================================================== encoding

/-- The encoding keeps the residue. -/
theorem setPlaintext_modEq (pub : OptPublicKey) (x : Int) :
    optPaillierSetPlaintext pub x ≡ x [ZMOD pub.n] := by
  unfold optPaillierSetPlaintext
  split
  · refine (Int.mod_modEq _ _).trans ?_
    rw [Int.ModEq, Int.add_emod_right]
  · rfl

/-- The modulus is odd. -/
theorem GeneratedKey.n_odd (hkey : GeneratedKey pub prv) :
    pub.n % 2 = 1 := by
  rw [hkey.n_eq, Nat.mul_mod, hkey.P_odd, hkey.Q_odd]

/-- Decoding a residue modulo an odd number, from `n / 2` up to negative
numbers: every number of the balanced range comes back but the largest,
which comes back as a negative one. -/
theorem balanced_emod {n : Nat} (hodd : n % 2 = 1) {x : Int}
    (hx : InBalancedRange n x) :
    (if ((n / 2 : Nat) : Int) ≤ x % n then x % n - n else x % n)
      = if x = balancedMax n then x - n else x := by
  unfold InBalancedRange at hx
  rw [abs_le] at hx
  unfold balancedMax at *
  by_cases hneg : x < 0
  · have hres : x % n = x + n := by
      rw [← Int.add_emod_right, Int.emod_eq_of_lt (by omega) (by omega)]
    rw [hres, if_pos (by omega), if_neg (by omega)]
    omega
  · have hres : x % n = x := Int.emod_eq_of_lt (by omega) (by omega)
    rw [hres]
    by_cases hmax : x = ((n : Int) - 1) / 2
    · rw [if_pos (by omega), if_pos hmax]
    · rw [if_neg (by omega), if_neg hmax]

/-- What `get_plaintext` makes of a residue of the balanced range. -/
theorem getPlaintext_emod (hkey : GeneratedKey pub prv) {x : Int}
    (hx : InBalancedRange pub.n x) :
    optPaillierGetPlaintext pub (x % pub.n)
      = if x = balancedMax pub.n then x - pub.n else x := by
  unfold optPaillierGetPlaintext
  rw [hkey.halfN_eq]
  exact balanced_emod hkey.n_odd hx

-- ============================================================== the sums

/-- The ciphertext of a combination exists and carries its value. -/
theorem SignedSum.carries (hkey : GeneratedKey pub prv) (s : SignedSum) :
    ∃ c, s.encrypted pub = some c ∧ Carries pub prv c s.value := by
  induction s with
  | term x c r wrapped =>
      have hx := (carries_encrypt hkey (optPaillierSetPlaintext pub x) r).congr
        hkey (setPlaintext_modEq pub x)
      cases wrapped with
      | false => exact hx.constantMul hkey c
      | true =>
          obtain ⟨c', heq, hc'⟩ :=
            hx.constantMul hkey (optPaillierSetPlaintext pub c)
          exact ⟨c', heq, hc'.congr hkey
            ((setPlaintext_modEq pub c).mul_right x)⟩
  | add s t ihs iht =>
      obtain ⟨c₁, heq₁, h₁⟩ := ihs
      obtain ⟨c₂, heq₂, h₂⟩ := iht
      refine ⟨optPaillierAdd pub c₁ c₂, ?_, h₁.add hkey h₂⟩
      rw [SignedSum.encrypted, heq₁, heq₂]
      rfl

/-- What both decryptors and the decoding make of a combination. -/
theorem SignedSum.decoded (hkey : GeneratedKey pub prv) (s : SignedSum)
    (hvalue : InBalancedRange pub.n s.value) :
    ∃ c, s.encrypted pub = some c
      ∧ optPaillierGetPlaintext pub (optPaillierDecrypt pub prv c)
        = (if s.value = balancedMax pub.n then s.value - pub.n else s.value)
      ∧ optPaillierGetPlaintext pub (optPaillierDecryptCrt pub prv c)
        = (if s.value = balancedMax pub.n then s.value - pub.n
          else s.value) := by
  obtain ⟨c, heq, hc⟩ := s.carries hkey
  refine ⟨c, heq, ?_, ?_⟩
  · rw [hc.decrypt hkey, getPlaintext_emod hkey hvalue]
  · rw [hc.decryptCrt hkey, getPlaintext_emod hkey hvalue]

/-- A number is not its own wrapped image. -/
theorem ite_sub_eq_iff {v max : Int} {n : Nat} (hpos : 0 < n) :
    (if v = max then v - n else v) = v ↔ v ≠ max := by
  constructor
  · intro h heq
    rw [if_pos heq] at h
    omega
  · intro hne
    rw [if_neg hne]

/-- For every generated key and every combination whose value lies in the
balanced range (its numbers and constants may be of any size), each
decryptor followed by get_plaintext yields the value if and only if the
value is not the end `(n - 1) / 2` of the range. -/
theorem signed_sum_iff {kSec : Nat} {tape : List Nat}
    (h : optPaillierKeygen kSec tape = some (pub, prv)) {s : SignedSum}
    (hvalue : InBalancedRange pub.n s.value) :
    ∃ c, s.encrypted pub = some c
      ∧ (optPaillierGetPlaintext pub (optPaillierDecrypt pub prv c) = s.value
        ↔ s.value ≠ balancedMax pub.n)
      ∧ (optPaillierGetPlaintext pub (optPaillierDecryptCrt pub prv c)
          = s.value ↔ s.value ≠ balancedMax pub.n) := by
  have hkey := keygen_generated h
  obtain ⟨c, heq, hdec, hcrt⟩ := s.decoded hkey hvalue
  refine ⟨c, heq, ?_, ?_⟩
  · rw [hdec]
    exact ite_sub_eq_iff hkey.n_pos
  · rw [hcrt]
    exact ite_sub_eq_iff hkey.n_pos

/-- A small number lies in the balanced range of every generated key. -/
theorem GeneratedKey.small_inBalancedRange (hkey : GeneratedKey pub prv)
    {x : Int} (hlo : -1000 < x) (hhi : x < 1000) :
    InBalancedRange pub.n x := by
  have hn := hkey.n_large
  have hbits : 2 ^ 11 ≤ 2 ^ pub.nbits :=
    Nat.pow_le_pow_right two_pos (by have := hkey.nbits_ge; omega)
  unfold InBalancedRange balancedMax
  rw [abs_le]
  omega

/-- `7 * (-3) + (-2 * 4 + 11)`, the first constant through the wrapper. -/
def sampleSum : SignedSum :=
  .add (.term 7 (-3) 5 true) (.add (.term (-2) 4 9 false) (.term 11 1 12 true))

/-- With the sample key, the sum is in range. -/
theorem signed_sum_iff_sample :
    ∃ pub prv, optPaillierKeygen 112 sampleTape = some (pub, prv)
      ∧ InBalancedRange pub.n sampleSum.value
      ∧ ∃ c, sampleSum.encrypted pub = some c
        ∧ (optPaillierGetPlaintext pub (optPaillierDecrypt pub prv c) = -18
          ↔ -18 ≠ balancedMax pub.n)
        ∧ (optPaillierGetPlaintext pub (optPaillierDecryptCrt pub prv c) = -18
          ↔ -18 ≠ balancedMax pub.n) := by
  obtain ⟨pub, prv, h⟩ := keygen_sample
  have hrange : InBalancedRange pub.n sampleSum.value :=
    (keygen_generated h).small_inBalancedRange (by decide) (by decide)
  exact ⟨pub, prv, h, hrange, signed_sum_iff h hrange⟩

/-- With the sample key, the single term `(n - 1) / 2` times 1 has every
number in range and comes back as `-(n + 1) / 2`. -/
theorem signed_sum_boundary :
    ∃ pub prv, optPaillierKeygen 112 sampleTape = some (pub, prv)
      ∧ (SignedSum.term (balancedMax pub.n) 1 5 false).InRange pub.n
      ∧ InBalancedRange pub.n
        (SignedSum.term (balancedMax pub.n) 1 5 false).value
      ∧ ∃ c, (SignedSum.term (balancedMax pub.n) 1 5 false).encrypted pub
          = some c
        ∧ optPaillierGetPlaintext pub (optPaillierDecrypt pub prv c)
          = balancedMax pub.n - pub.n
        ∧ optPaillierGetPlaintext pub (optPaillierDecrypt pub prv c)
          ≠ (SignedSum.term (balancedMax pub.n) 1 5 false).value
        ∧ optPaillierGetPlaintext pub (optPaillierDecryptCrt pub prv c)
          ≠ (SignedSum.term (balancedMax pub.n) 1 5 false).value := by
  obtain ⟨pub, prv, h⟩ := keygen_sample
  have hkey := keygen_generated h
  have hpos := hkey.n_pos
  have hmax : InBalancedRange pub.n (balancedMax pub.n) := by
    unfold InBalancedRange
    rw [abs_of_nonneg]
    unfold balancedMax
    omega
  have hvalue : (SignedSum.term (balancedMax pub.n) 1 5 false).value
      = balancedMax pub.n := one_mul _
  have hrange : InBalancedRange pub.n
      (SignedSum.term (balancedMax pub.n) 1 5 false).value := by
    rw [hvalue]
    exact hmax
  obtain ⟨c, heq, hdec, hcrt⟩ := SignedSum.decoded hkey _ hrange
  rw [hvalue, if_pos rfl] at hdec hcrt
  refine ⟨pub, prv, h, ⟨hmax, hkey.small_inBalancedRange (by decide) (by decide)⟩, hrange, c, heq, hdec,
    ?_, ?_⟩
  · rw [hdec, hvalue]
    omega
  · rw [hcrt, hvalue]
    omega

end PrimiHub.Paillier
