/-
A bucket of packed gradients decodes to its sums exactly where the sum of
the hessians stays below the packing base (`decodesRight_iff`).

A hessian is never negative (`hess_nonneg`), so the low part of the packed
sum is the sum of the hessians up to a multiple of the base, and the
quotient takes what is above it.
-/
import Mathlib.Tactic.LinearCombination
import PrimiHub.FL.MergeGh
import PrimiHub.Paillier.Proofs.Encrypt
import PrimiHub.Paillier.Proofs.Signed

namespace PrimiHub.FL.MergeGh

open Lib
open Paillier (OptPublicKey OptSecretKey GeneratedKey Carries
  InBalancedRange balancedMax optPaillierKeygen keygen_generated
  keygen_sample carries_encrypt setPlaintext_modEq encrypt_paths_eq
  getPlaintext_emod optPaillierSetPlaintext optPaillierGetPlaintext
  optPaillierDecryptCrt)

variable {pub : OptPublicKey} {prv : OptSecretKey} {np : Exp}
  {objective : Objective}

-- ============================================================= the hessians

/-- The sigmoid lies between 0 and 1. -/
theorem sigmoid_mem (np : Exp) (yHat : ℚ) :
    0 ≤ sigmoid np yHat ∧ sigmoid np yHat ≤ 1 := by
  unfold sigmoid
  cases hexp : np.exp (-yHat) with
  | none => exact ⟨le_refl 0, zero_le_one⟩
  | some e =>
      have hden : 1 ≤ addDouble 1 e :=
        one_le_roundToDouble (le_add_of_nonneg_right (np.nonneg _ e hexp))
      have hpos : 0 < addDouble 1 e := lt_of_lt_of_le one_pos hden
      have hnonneg : 0 ≤ 1 / addDouble 1 e := (div_pos one_pos hpos).le
      exact ⟨roundToDouble_nonneg hnonneg,
        roundToDouble_le_one hnonneg ((div_le_one hpos).mpr hden)⟩

/-- No hessian is negative. -/
theorem hess_nonneg (np : Exp) (objective : Objective) (yHat : ℚ) :
    0 ≤ hess np objective yHat := by
  cases objective with
  | linear => exact zero_le_one
  | logistic =>
      obtain ⟨hlo, hhi⟩ := sigmoid_mem np yHat
      refine roundToDouble_nonneg (mul_nonneg hlo (roundToDouble_nonneg ?_))
      rw [← sub_eq_add_neg]
      exact sub_nonneg.mpr hhi

/-- Rounding keeps the sign. -/
theorem npRound_nonneg {x : ℚ} (h : 0 ≤ x) : 0 ≤ npRound x := by
  have hround : (0 : Int) ≤ roundEven (roundToDouble (x * 10 ^ 4)) :=
    le_trans (Int.floor_nonneg.mpr (roundToDouble_nonneg (by positivity)))
      (roundEven_mem _).1
  refine roundToDouble_nonneg (div_nonneg ?_ (by positivity))
  exact_mod_cast hround

/-- So does scaling. -/
theorem scaled_nonneg {x : ℚ} (h : 0 ≤ x) : 0 ≤ scaled x := by
  have hround : 0 ≤ roundToDouble (npRound x * 10 ^ 4) :=
    roundToDouble_nonneg (mul_nonneg (npRound_nonneg h) (by positivity))
  rw [scaled, astypeInt, if_pos hround]
  exact Int.floor_nonneg.mpr hround

/-- The hessian as it is packed. -/
theorem Sample.h_nonneg (np : Exp) (objective : Objective) (s : Sample) :
    0 ≤ s.h np objective :=
  scaled_nonneg (hess_nonneg np objective s.yHat)

/-- The hessians of a bucket together. -/
theorem hTotal_nonneg (np : Exp) (objective : Objective)
    (bucket : List Sample) : 0 ≤ hTotal np objective bucket := by
  refine List.sum_nonneg fun x hx => ?_
  obtain ⟨s, -, rfl⟩ := List.mem_map.mp hx
  exact s.h_nonneg np objective

-- ============================================================ the ciphertext

/-- The guest's ciphertext carries the sum. -/
theorem Summed.carries {kSec : Nat} {tape : List Nat}
    (hkey : optPaillierKeygen kSec tape = some (pub, prv)) {xs : List Int}
    {c : Nat} (h : Summed pub prv xs c) : Carries pub prv c xs.sum := by
  have hgen := keygen_generated hkey
  induction h with
  | @encrypted x r c hr henc =>
      rw [(encrypt_paths_eq hkey _ hr).2] at henc
      cases henc
      rw [List.sum_singleton]
      exact (carries_encrypt hgen _ r).congr hgen (setPlaintext_modEq pub x)
  | added _ _ ihx ihy =>
      rw [List.sum_append]
      exact ihx.add hgen ihy

/-- A sum below half of the modulus is decrypted. -/
theorem Summed.decrypted {kSec : Nat} {tape : List Nat}
    (hkey : optPaillierKeygen kSec tape = some (pub, prv)) {xs : List Int}
    {c : Nat} (h : Summed pub prv xs c) (hhalf : |xs.sum| < pub.halfN) :
    decrypted pub prv c = xs.sum := by
  have hgen := keygen_generated hkey
  have hodd := hgen.n_odd
  rw [hgen.halfN_eq, abs_lt] at hhalf
  have hrange : InBalancedRange pub.n xs.sum := by
    rw [InBalancedRange, abs_le, balancedMax]
    omega
  have hmax : xs.sum ≠ balancedMax pub.n := by
    rw [balancedMax]
    omega
  rw [MergeGh.decrypted, (h.carries hkey).decryptCrt hgen,
    getPlaintext_emod hgen hrange, if_neg hmax]

/-- There is a ciphertext for every bucket. -/
theorem exists_summed {kSec : Nat} {tape : List Nat}
    (hkey : optPaillierKeygen kSec tape = some (pub, prv)) {xs : List Int}
    (hne : xs ≠ []) : ∃ c, Summed pub prv xs c := by
  have hone : ∀ x, ∃ c, Summed pub prv [x] c := fun x =>
    ⟨_, .encrypted (Nat.two_pow_pos _)
      (encrypt_paths_eq hkey _ (Nat.two_pow_pos _)).2⟩
  induction xs with
  | nil => exact absurd rfl hne
  | cons x xs ih =>
      obtain ⟨c, hc⟩ := hone x
      cases xs with
      | nil => exact ⟨c, hc⟩
      | cons y ys =>
          obtain ⟨d, hd⟩ := ih (List.cons_ne_nil y ys)
          exact ⟨_, hc.added hd⟩

-- ================================================================ decoding

/-- What a bucket's samples add up to. -/
theorem sum_mergeGh {bucket : List Sample}
    (h : ∀ s ∈ bucket, s.Packs np objective) :
    (bucket.map fun s => s.mergeGh np objective).sum
      = gTotal np objective bucket * ratio + hTotal np objective bucket := by
  rw [List.map_congr_left h]
  unfold gTotal hTotal
  induction bucket with
  | nil => rfl
  | cons s bucket ih =>
      have hrest := ih fun t ht => h t (List.mem_cons_of_mem s ht)
      simp only [List.map_cons, List.sum_cons]
      linear_combination hrest

/-- The shift tells the pairs apart. -/
theorem unshift_inj {count : Nat} {g h g' h' : Int} :
    unshift count g h = unshift count g' h' ↔ g = g' ∧ h = h' := by
  constructor
  · intro heq
    exact ⟨congrArg Sums.gInt heq, congrArg Sums.hInt heq⟩
  · intro heq
    rw [heq.1, heq.2]

/-- Taking a packed sum apart. -/
theorem unpack_eq_iff {count : Nat} {g h : Int} (hnonneg : 0 ≤ h) :
    unpack count (g * ratio + h) = unshift count g h ↔ h < ratio := by
  unfold unpack
  rw [unshift_inj]
  unfold ratio
  constructor
  · intro heq
    omega
  · intro hlt
    omega

/-- A bucket decodes to its sums where the hessians do not carry. -/
theorem decodesRight_iff {kSec : Nat} {tape : List Nat}
    (hkey : optPaillierKeygen kSec tape = some (pub, prv))
    {bucket : List Sample} (hpack : ∀ s ∈ bucket, s.Packs np objective)
    {c : Nat}
    (hsum : Summed pub prv (bucket.map fun s => s.mergeGh np objective) c)
    (hhalf : |(bucket.map fun s => s.mergeGh np objective).sum|
      < pub.halfN) :
    DecodesRight pub prv np objective bucket c
      ↔ hTotal np objective bucket < 10 ^ 8 := by
  rw [DecodesRight, hsum.decrypted hkey hhalf, sum_mergeGh hpack]
  exact unpack_eq_iff (hTotal_nonneg np objective bucket)

-- ============================================ many samples of one hessian

/-- `np.round` leaves small integers. -/
theorem scaled_intCast {k : Int} (h : (k * 10 ^ 4).natAbs < 2 ^ 53) :
    scaled k = k * 10 ^ 4 := by
  have hk : k.natAbs < 2 ^ 53 := by omega
  have hcast : (k : ℚ) * 10 ^ 4 = ((k * 10 ^ 4 : Int) : ℚ) := by
    rw [Int.cast_mul, Int.cast_pow, Int.cast_ofNat]
  have hround : npRound k = k := by
    rw [npRound, hcast, roundToDouble_of_lt h, roundEven_intCast, ← hcast,
      mul_div_cancel_right₀ _ (pow_ne_zero 4 (OfNat.ofNat_ne_zero 10)),
      roundToDouble_of_lt hk]
  rw [scaled, hround, hcast, roundToDouble_of_lt h, astypeInt,
    Int.floor_intCast, Int.ceil_intCast, ite_self]

/-- A sample of the linear objective with the label 0 and an integer for
its score. -/
def linearSample (score : Int) : Sample := ⟨score, 0, none⟩

/-- The one that is predicted right. -/
def exactSample : Sample := linearSample 0

/-- `np.exp` where it is not asked for. -/
def zeroExp : Exp := ⟨fun _ => some 0, fun _ _ h => (Option.some.inj h).le⟩

/-- The gradient of a score. -/
theorem linearSample_g {score : Int} (hscore : score.natAbs < 2 ^ 20) :
    (linearSample score).g zeroExp .linear = (score + 2) * 10 ^ 4 := by
  have hgrad : grad zeroExp .linear (score : ℚ) 0 = (score : ℚ) := by
    rw [grad, addDouble, neg_zero, add_zero]
    exact roundToDouble_of_lt (by omega)
  show scaled (addDouble (grad zeroExp .linear score 0) const) = _
  have hsum : (score : ℚ) + ((const : Nat) : ℚ) = ((score + 2 : Int) : ℚ) := by
    push_cast
    rfl
  rw [hgrad, addDouble, hsum, roundToDouble_of_lt (by omega),
    scaled_intCast (by omega)]

/-- The hessian is one everywhere. -/
theorem linearSample_h (score : Int) :
    (linearSample score).h zeroExp .linear = 10000 := by
  show scaled 1 = 10000
  have hone := scaled_intCast (k := 1) (by decide)
  rwa [Int.cast_one] at hone

/-- A moderate score is packed into what the field takes. -/
theorem linearSample_packs {score : Int} (hscore : score.natAbs < 2 ^ 20) :
    (linearSample score).Packs zeroExp .linear := by
  rw [Sample.Packs, Sample.mergeGh, linearSample_g hscore, linearSample_h]
  unfold ratio
  rw [BitVec.toInt_ofInt, Int.bmod_eq_of_le (by omega) (by omega)]

/-- The packed number of the sample. -/
theorem exactSample_mergeGh :
    exactSample.mergeGh zeroExp .linear = 2000000010000 := by
  rw [Sample.mergeGh, exactSample, linearSample_g (by decide), linearSample_h]
  decide

/-- So many copies of the sample. -/
theorem exactSample_packs (n : Nat) :
    ∀ s ∈ List.replicate n exactSample, s.Packs zeroExp .linear := by
  intro s hs
  rw [List.eq_of_mem_replicate hs]
  exact linearSample_packs (by decide)

/-- A generated key takes sums below 2^100. -/
theorem lt_halfN (hgen : GeneratedKey pub prv) {x : Int}
    (h : |x| < 2 ^ 100) : |x| < pub.halfN := by
  have hpow : 2 ^ 102 ≤ 2 ^ pub.nbits :=
    Nat.pow_le_pow_right two_pos (le_trans (by decide) hgen.nbits_ge)
  have hlarge := hgen.n_large
  have hhalf := hgen.halfN_eq
  omega

/-- Their sum, which grows with their number. -/
theorem exactSample_sum (n : Nat) :
    ((List.replicate n exactSample).map fun s => s.mergeGh zeroExp .linear).sum
      = n * 2000000010000 := by
  rw [List.map_replicate, exactSample_mergeGh, List.sum_replicate,
    nsmul_eq_mul]

/-- Their hessians, which grow into the gradients. -/
theorem exactSample_hTotal (n : Nat) :
    hTotal zeroExp .linear (List.replicate n exactSample) = n * 10000 := by
  rw [hTotal, List.map_replicate, exactSample, linearSample_h,
    List.sum_replicate, nsmul_eq_mul]

/-- A bucket of two samples with gradients of both signs. -/
theorem decodesRight_two :
    ∃ pub prv c, Summed pub prv [-999999990000, 7000000010000] c
      ∧ DecodesRight pub prv zeroExp .linear
          [linearSample (-3), linearSample 5] c := by
  obtain ⟨pub, prv, hkey⟩ := keygen_sample
  have hpacks : ∀ s ∈ [linearSample (-3), linearSample 5],
      s.Packs zeroExp .linear := by
    intro s hs
    simp only [List.mem_cons, List.not_mem_nil, or_false] at hs
    obtain rfl | rfl := hs
    · exact linearSample_packs (by decide)
    · exact linearSample_packs (by decide)
  have hsums : [linearSample (-3), linearSample 5].map
      (fun s => s.mergeGh zeroExp .linear)
        = [-999999990000, 7000000010000] := by
    rw [List.map_congr_left hpacks]
    simp only [List.map_cons, List.map_nil, linearSample_h,
      linearSample_g (show (-3 : Int).natAbs < 2 ^ 20 by decide),
      linearSample_g (show (5 : Int).natAbs < 2 ^ 20 by decide)]
    rfl
  obtain ⟨c, hc⟩ := exists_summed hkey
    (List.cons_ne_nil (-999999990000) [7000000010000])
  refine ⟨pub, prv, c, hc, (decodesRight_iff hkey hpacks (hsums ▸ hc) ?_).mpr
    ?_⟩
  · rw [hsums]
    exact lt_halfN (keygen_generated hkey) (by decide)
  · simp only [hTotal, List.map_cons, List.map_nil, linearSample_h]
    decide

/-- Ten thousand such samples: the hessians fill the low part, and the
gradients come back one too large. -/
theorem not_decodesRight_tenThousand :
    ∃ pub prv c,
      optPaillierKeygen 112 Paillier.sampleTape = some (pub, prv)
      ∧ Summed pub prv ((List.replicate 10000 exactSample).map
          fun s => s.mergeGh zeroExp .linear) c
      ∧ |((List.replicate 10000 exactSample).map
          fun s => s.mergeGh zeroExp .linear).sum| < pub.halfN
      ∧ ¬ DecodesRight pub prv zeroExp .linear
          (List.replicate 10000 exactSample) c := by
  obtain ⟨pub, prv, hkey⟩ := keygen_sample
  have hne : (List.replicate 10000 exactSample).map
      (fun s => s.mergeGh zeroExp .linear) ≠ [] := by
    rw [List.map_replicate, List.replicate_succ]
    exact List.cons_ne_nil _ _
  obtain ⟨c, hc⟩ := exists_summed hkey hne
  have hhalf : |((List.replicate 10000 exactSample).map
      fun s => s.mergeGh zeroExp .linear).sum| < pub.halfN := by
    apply lt_halfN (keygen_generated hkey)
    rw [exactSample_sum]
    decide
  refine ⟨pub, prv, c, hkey, hc, hhalf, ?_⟩
  -- the hessians sum up to the base itself
  intro h
  rw [DecodesRight, hc.decrypted hkey hhalf,
    sum_mergeGh (exactSample_packs 10000),
    unpack_eq_iff (hTotal_nonneg _ _ _), exactSample_hTotal] at h
  exact absurd h (by decide)

end PrimiHub.FL.MergeGh
