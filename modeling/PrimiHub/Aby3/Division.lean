/-
`MPC_Div` of `operator/aby3_operator.h` on a column, with 16 fractional
bits: how the rank of each denominator is found (`MPC_Pow`, `MPC_Pow2`)
and what the Goldschmidt iteration makes of it.

# Values

A shared matrix of one column is the list of its plain values, and a
fixed-point value is its `mValue`, an integer modulo 2^64. The sign test
`MPC_DReLu` and the other piecewise functions look at the sign of that
integer. The iteration is modelled twice removed from the shares: on
rational numbers, without truncation.

# The rank

`rank` is a matrix of plain integers. Its memory is not initialized
before the two loops write it; `uninit` is what is there.
-/
import Mathlib.Algebra.Order.Field.Basic
import Mathlib.Data.BitVec
import Mathlib.Data.Rat.Lemmas
import PrimiHub.Aby3.Basic
import PrimiHub.Lib.Overwrite

namespace PrimiHub.Aby3

open Lib (positions writeAt)

-- ========================================================== fixed point values

/-- `f64<D16>` of the number `num / den`: what is below the last bit is cut
off, what is above the highest is lost. -/
def fixed (num den : Nat) : I64 := BitVec.ofNat 64 (num * 2 ^ 16 / den)

/-- `MPC_DReLu`. -/
def mpcDReLu (y : I64) : Nat := if y.toInt < 0 then 0 else 1

/-- `MPC_Abs`. -/
def mpcAbs (y : I64) : I64 := if y.toInt < 0 then -y else y

-- =================================================================== the ranks

/-- One round of the search in `MPC_Pow` and `MPC_Pow2`, with the test of
the one or the other. -/
def alphaRound (drelu : I64 → Nat → Nat) (ys : List I64)
    (alphaMatrix : List Nat) (i : Nat) : List Nat :=
  let roundBound := 2 ^ i
  let rankMatrix := alphaMatrix.map (· + roundBound)
  let dreluResult := List.zipWith drelu ys rankMatrix
  List.zipWith (fun a d => a + roundBound * d) alphaMatrix dreluResult

/-- The six rounds, from zeros. -/
def alphaRounds (drelu : I64 → Nat → Nat) (ys : List I64) : List Nat :=
  [5, 4, 3, 2, 1, 0].foldl (alphaRound drelu ys) (ys.map fun _ => 0)

/-- The test of `MPC_Pow`: the sign of `Y - (1ULL << rank)`. -/
def powTest (y : I64) (rank : Nat) : Nat := mpcDReLu (y - fixed (2 ^ rank) 1)

/-- `MPC_Pow`. -/
def mpcPow (ys : List I64) : List Int :=
  (alphaRounds powTest ys).map fun a : Nat => (a : Int) + 1

/-- The test of `MPC_Pow2`: the sign of `pow(2, rank * (-1)) - Y`. -/
def pow2Test (y : I64) (rank : Nat) : Nat := mpcDReLu (fixed 1 (2 ^ rank) - y)

/-- `MPC_Pow2`. -/
def mpcPow2 (ys : List I64) : List Int :=
  (alphaRounds pow2Test ys).map fun a : Nat => (a : Int) * (-1)

/-- `MPC_Div` up to `rank`: the rows are split by whether the denominator
is at least one half, ranked, and written back. -/
def mpcDivRank (uninit : List Int) (bs : List I64) : List Int :=
  let denominator := bs.map mpcAbs
  let dreluResult := denominator.map fun y => mpcDReLu (y - fixed 1 2)
  let lessIdx := positions (· == 0) dreluResult
  let moreIdx := positions (· != 0) dreluResult
  let denominatorLess := lessIdx.map fun i => denominator.getD i 0
  let denominatorMore := moreIdx.map fun i => denominator.getD i 0
  let rankLess := if 0 < lessIdx.length then mpcPow2 denominatorLess else []
  let rankMore := if 0 < moreIdx.length then mpcPow denominatorMore else []
  writeAt moreIdx rankMore (writeAt lessIdx rankLess uninit)

-- =============================================================== the iteration

/-- The rational number of a fixed-point value. -/
def value (y : I64) : ℚ := y.toInt / 2 ^ 16

/-- `MPC_QuoDertermine`. -/
def mpcQuoDetermine (x : ℚ) : ℚ := if x < 0 then -1 else 1

/-- `MPC_Div` after `rank`, in one row. -/
def mpcDivValue (a b : ℚ) (rank : Int) : ℚ :=
  let denominator := |b|
  let numerator := |a|
  let quotientSign := mpcQuoDetermine b * mpcQuoDetermine a
  let normalization := (2 : ℚ) ^ (rank * (-1))
  let c := denominator * normalization
  let w0 := (29142 / 10000 - 2 * c) * normalization
  let bw0 := denominator * w0
  let aw0 := numerator * w0
  let epsilon0 := 1 - bw0
  let epsilonProd := (1 + epsilon0) * aw0
  let epsilon1 := epsilon0 * epsilon0
  let epsilonProd := epsilonProd * (1 + epsilon1)
  epsilonProd * quotientSign

-- =============================================== what the rank is there for

/-- A row has the rank it would have alone, the rank brings the denominator
between one half and one, and the iteration comes close to the quotient. -/
structure RankRight (b : I64) (rank : Int) : Prop where
  own : ∀ u, mpcDivRank [u] [b] = [rank]
  lower : 1 / 2 ≤ |value b| * 2 ^ (-rank)
  upper : |value b| * 2 ^ (-rank) ≤ 1
  close : ∀ a : ℚ, |mpcDivValue a (value b) rank - a / value b|
    ≤ |a / value b| / 10 ^ 4

/-- Where the search finds a rank that does. -/
def Normalised (b : I64) : Prop :=
  |value b| < 1 / 2 ∨ 1 ≤ |value b| ∧ |value b| < 2 ^ 32

end PrimiHub.Aby3
