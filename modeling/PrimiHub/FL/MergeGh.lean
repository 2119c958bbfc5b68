/-
Packed gradients (python/primihub/FL/xgboost/gbt.py, `merge_gh`): `my_fit`
puts the gradient and the hessian of a sample into one plaintext, the guest
adds the ciphertexts of a bucket, and `gh_sums_decrypted_with_ray` takes the
sum apart again.

Doubles are rationals and every operation is rounded. `np.exp` is given by
its values, none of which is negative; infinity is `none`. `astype('int')`
cuts the fraction off, and the products and sums of integer columns are
those of `int64`. A number that does not fit is not told apart from its
residue.

The guest adds in some order, in blocks that are added again: any tree of
`opt_paillier_add`. The count of a bucket is the number of its samples.
-/
import Mathlib.Data.BitVec
import PrimiHub.Lib.Binary64
import PrimiHub.Paillier.Basic

namespace PrimiHub.FL.MergeGh

open Lib
open Paillier (OptPublicKey OptSecretKey optPaillierSetPlaintext
  optPaillierEncryptCrtFb optPaillierAdd optPaillierDecryptCrt
  optPaillierGetPlaintext)

-- ============================================================== the samples

/-- `np.exp`. -/
structure Exp where
  exp : ℚ → Option ℚ
  nonneg : ∀ x e, exp x = some e → 0 ≤ e

/-- `self.objective`, of the two that do not raise. -/
inductive Objective
  | logistic
  | linear
  deriving DecidableEq, Repr

/-- `1.0 / (1.0 + np.exp(-y_hat))`. -/
def sigmoid (np : Exp) (yHat : ℚ) : ℚ :=
  match np.exp (-yHat) with
  | none => 0
  | some e => roundToDouble (1 / addDouble 1 e)

/-- `_grad`. -/
def grad (np : Exp) (objective : Objective) (yHat y : ℚ) : ℚ :=
  match objective with
  | .logistic => addDouble (sigmoid np yHat) (-y)
  | .linear => addDouble yHat (-y)

/-- `_hess`. -/
def hess (np : Exp) (objective : Objective) (yHat : ℚ) : ℚ :=
  match objective with
  | .logistic =>
      let yHat := sigmoid np yHat
      roundToDouble (yHat * addDouble 1 (-yHat))
  | .linear => 1

/-- A sample: its score and label, and `amply_rate` if it is one of
`low_ids`. -/
structure Sample where
  yHat : ℚ
  y : ℚ
  amplyRate : Option ℚ
  deriving DecidableEq, Repr

/-- The entry of `current_ghs['g']`. -/
def Sample.currentG (np : Exp) (objective : Objective) (s : Sample) : ℚ :=
  match s.amplyRate with
  | none => grad np objective s.yHat s.y
  | some rate => roundToDouble (grad np objective s.yHat s.y * rate)

-- ================================================================== packing

/-- `self.const`. -/
def const : Nat := 2

/-- `self.ratio`. -/
def ratio : Int := 10 ^ 8

/-- `np.round(x, 4)`. -/
def npRound (x : ℚ) : ℚ :=
  roundToDouble (roundEven (roundToDouble (x * 10 ^ 4)) / 10 ^ 4)

/-- `astype('int')`. -/
def astypeInt (x : ℚ) : Int := if 0 ≤ x then ⌊x⌋ else ⌈x⌉

/-- `np.round` and `(cp_gh * 10**4).astype('int')`. -/
def scaled (x : ℚ) : Int := astypeInt (roundToDouble (npRound x * 10 ^ 4))

/-- `cp_gh['g']`. -/
def Sample.g (np : Exp) (objective : Objective) (s : Sample) : Int :=
  scaled (addDouble (s.currentG np objective) const)

/-- `cp_gh['h']`. -/
def Sample.h (np : Exp) (objective : Objective) (s : Sample) : Int :=
  scaled (hess np objective s.yHat)

/-- `merge_gh`. -/
def Sample.mergeGh (np : Exp) (objective : Objective) (s : Sample) : Int :=
  (BitVec.ofInt 64 (s.g np objective * ratio + s.h np objective)).toInt

-- ================================================================ the bucket

/-- A ciphertext the guest makes of the encryptions of some numbers: one of
them, or what `opt_paillier_add` makes of two parts. -/
inductive Summed (pub : OptPublicKey) (prv : OptSecretKey) :
    List Int → Nat → Prop
  | encrypted {x : Int} {r c : Nat} : r < 2 ^ pub.lbits →
      optPaillierEncryptCrtFb pub prv (optPaillierSetPlaintext pub x) r
        = some c →
      Summed pub prv [x] c
  | added {xs ys : List Int} {c d : Nat} : Summed pub prv xs c →
      Summed pub prv ys d → Summed pub prv (xs ++ ys) (optPaillierAdd pub c d)

/-- `opt_paillier_decrypt_crt`. -/
def decrypted (pub : OptPublicKey) (prv : OptSecretKey) (c : Nat) : Int :=
  optPaillierGetPlaintext pub (optPaillierDecryptCrt pub prv c)

/-- A bucket of `val`: the integers of the two sums, and the columns `g`
and `h` they end in. -/
structure Sums where
  gInt : Int
  hInt : Int
  g : ℚ
  h : ℚ
  deriving DecidableEq, Repr

/-- The last two lines: scale back, and unshift by the count. -/
def unshift (count : Nat) (gInt hInt : Int) : Sums where
  gInt := gInt
  hInt := hInt
  g := addDouble (roundToDouble (castDouble gInt / 10 ^ 4))
    (-(const * count : Nat))
  h := roundToDouble (castDouble hInt / 10 ^ 4)

/-- What `gh_sums_decrypted_with_ray` makes of a decrypted sum. -/
def unpack (count : Nat) (sum : Int) : Sums :=
  let g := sum / ratio
  unshift count g (sum - g * ratio)

-- ================================================ what packing is there for

/-- The sums of the integers. -/
def gTotal (np : Exp) (objective : Objective) (bucket : List Sample) : Int :=
  (bucket.map fun s => s.g np objective).sum

def hTotal (np : Exp) (objective : Objective) (bucket : List Sample) : Int :=
  (bucket.map fun s => s.h np objective).sum

/-- Nothing is cut off when a sample is packed. -/
def Sample.Packs (np : Exp) (objective : Objective) (s : Sample) : Prop :=
  s.mergeGh np objective = s.g np objective * ratio + s.h np objective

/-- The bucket decodes to its sums. -/
def DecodesRight (pub : OptPublicKey) (prv : OptSecretKey) (np : Exp)
    (objective : Objective) (bucket : List Sample) (c : Nat) : Prop :=
  unpack bucket.length (decrypted pub prv c)
    = unshift bucket.length (gTotal np objective bucket)
        (hTotal np objective bucket)

end PrimiHub.FL.MergeGh
