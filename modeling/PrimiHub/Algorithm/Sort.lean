/-
`aby3ML::sort` and `aby3ML::unique_unsorted` (algorithm/aby3ML.h), with the
comparison and the equality they are written with.

# Shares

An `sf64` is a sharing of a 64-bit number, and the difference of two
sharings is one of the difference modulo 2^64. `lt` and the zero test
reveal what the shared number says and nothing else, which is all that is
assumed of the protocol. So an entry is the number it shares.

# What is undefined

The loops count in `int`, and vectors are indexed without a check. A size
an `int` does not reach, and an index outside a vector, have no result
(`none`). A `u64` less an `int` is computed in `u64`.
-/
import Mathlib.Data.List.Range
import PrimiHub.Algorithm.Arithmetic
import PrimiHub.Lib.EraseScan
import PrimiHub.Lib.Sorting

namespace PrimiHub.Algorithm.Aby3ML

open Aby3 (I64)
open Lib (DistinctInOrder Separated comparedPairs keyGt)

-- ========================================================== the comparison

/-- `aby3ML::lt` with a threshold. -/
def lt (X : I64) (threshold : Int) : Bool := X.toInt < threshold

/-- `aby3ML::is_zero`. -/
def isZero (X : I64) : Bool := X == 0

/-- `aby3ML::gt`: the threshold is not looked at when `lt` says no. -/
def gt (X : I64) (threshold : Int) : Bool :=
  if lt X threshold then false else !isZero X

/-- `aby3ML::eq`. -/
def eq (X Y : I64) : Bool := isZero (X - Y)

-- ==================================================================== loops

/-- `for (int i = 0; i < n; i++) dest[i] = src[i];` -/
def copy (src : List I64) (n : Nat) (dest : List I64) : Option (List I64) :=
  (List.range n).foldlM (fun dest i => do
    let x ← src[i]?
    if i < dest.length then some (dest.set i x) else none) dest

/-- The test of `sort` for two places, and the exchange. -/
def exchange (i : Nat) (Y : List I64) (j : Nat) : Option (List I64) := do
  let a ← Y[i]?
  let b ← Y[j]?
  let Z := a - b
  if gt Z 0 then
    let swap := a
    some ((Y.set i b).set j swap)
  else some Y

/-- The two loops of `sort`. -/
def sortLoops (size : Nat) (Y : List I64) : Option (List I64) :=
  (List.range size).foldlM (fun Y i =>
    (List.range' (i + 1) (size - (i + 1))).foldlM (exchange i) Y) Y

/-- `aby3ML::sort`: what it returns, and `dest`. -/
def sort (X : List I64) (size : Nat) (dest : List I64) :
    Option (Int × List I64) :=
  if X.length < 1 then some (0, dest)
  else if 2 ^ 31 ≤ size then none
  else do
    let Y ← copy X size (List.replicate size 0)
    let Y ← sortLoops size Y
    let dest ← copy Y size dest
    some (1, dest)

/-- `Y` and `count`. -/
structure Scan where
  Y : List I64
  count : Nat
  deriving DecidableEq, Repr

/-- The inner loop of `unique_unsorted`, from `j` on. -/
def eraseEqual (size i j : Nat) (s : Scan) : Option Scan :=
  if j < toSize (size - s.count) then do
    let a ← s.Y[i]?
    let b ← s.Y[j]?
    -- after an erasure `j` is stepped on all the same
    eraseEqual size i (j + 1)
      (if eq a b then ⟨s.Y.eraseIdx j, s.count + 1⟩ else s)
  else some s
  termination_by 2 ^ 64 - j
  decreasing_by unfold toSize at *; omega

/-- The two loops of `unique_unsorted`. -/
def uniqueLoops (size : Nat) (s : Scan) : Option Scan :=
  (List.range size).foldlM (fun s i => eraseEqual size i (i + 1) s) s

/-- What `unique_unsorted` returns, `dest` and `dest_size`. -/
structure Unique where
  ret : Int
  dest : List I64
  destSize : Nat
  deriving DecidableEq, Repr

/-- `aby3ML::unique_unsorted`. -/
def uniqueUnsorted (X : List I64) (size : Nat) (dest : List I64)
    (destSize : Nat) : Option Unique :=
  if X.length < 2 ∨ size < 2 then some ⟨0, dest, destSize⟩
  else if 2 ^ 31 ≤ size then none
  else do
    let Y ← copy X size (List.replicate size 0)
    let s ← uniqueLoops size ⟨Y, 0⟩
    let left := toSize (size - s.count)
    let dest ← copy s.Y left dest
    some ⟨1, dest, left⟩

-- ============================================================ the property

/-- `sort` stores the first `n` entries in ascending order. -/
def SortRight (X : List I64) (n : Nat) (dest : List I64) : Prop :=
  ∃ ret stored, sort X n dest = some (ret, stored) ∧ n ≤ stored.length
    ∧ (stored.take n).Perm (X.take n)
    ∧ (stored.take n).Pairwise fun a b => a.toInt ≤ b.toInt

/-- `unique_unsorted` stays within its vectors and stores the distinct
entries of the first `n`, in the order of their first occurrence. -/
def UniqueRight (X : List I64) (n : Nat) (dest : List I64)
    (destSize : Nat) : Prop :=
  ∃ r, uniqueUnsorted X n dest destSize = some r
    ∧ r.destSize ≤ r.dest.length
    ∧ DistinctInOrder (X.take n) (r.dest.take r.destSize)

/-- The size fits an `int` and `dest`, and the difference of two entries
fits 64 bits wherever an exchange sort compares them. -/
def SortFits (X : List I64) (n : Nat) (dest : List I64) : Prop :=
  n < 2 ^ 31 ∧ n ≤ dest.length
    ∧ ∀ p ∈ comparedPairs (keyGt BitVec.toInt) (X.take n),
        -2 ^ 63 ≤ p.1.toInt - p.2.toInt ∧ p.1.toInt - p.2.toInt < 2 ^ 63

/-- Less than two entries are where they should be already. Otherwise the
size fits an `int`, the distinct values fit `dest`, and no value is
repeated twice in a row behind its first occurrence, what occurs before it
left out. -/
def UniqueFits (X : List I64) (n : Nat) (dest : List I64)
    (destSize : Nat) : Prop :=
  if n < 2 then destSize = n ∧ dest.take n = X.take n
  else n < 2 ^ 31 ∧ (X.take n).dedup.length ≤ dest.length
    ∧ Separated (X.take n)

end PrimiHub.Algorithm.Aby3ML
