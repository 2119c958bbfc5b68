/-
The integer columns of `MissingProcess::execute`
(algorithm/missing_val_processing.cc) with `replace_type_` MAX or MIN:
the accumulators `int_max` and `int_min` of one party, and the two rounds
of comparisons from which the three parties find the value to put into
the missing cells.

# What an accumulator sees

A CSV column is a column of strings: empty cells are skipped, and so are
those `_strToInt64` cannot convert. A database column is the one of the
table `read_from_abnormal` returns, with 0 in the place of a cell that is
no integer (a NULL of a LONG column leaves no value at all), and the
accumulators see all of it.

# The rounds

Party 0 is compared with party 1, then one of the two with party 2. A
comparison reveals the top bit of the difference modulo 2^64, which is
all `MPC_Compare` computes.
-/
import Mathlib.Data.List.Basic
import PrimiHub.Aby3.Compare

namespace PrimiHub.Algorithm

open Aby3 (I64 DenseMatrix intIntAddMsb Fits)

-- ============================================================== one party

/-- A cell of an integer column. -/
inductive Cell
  | value (v : I64)
  /-- an empty cell, or NULL -/
  | null
  /-- a text that is no number -/
  | abnormal
  deriving DecidableEq, Repr

/-- The codes 1 and 3 of `col_and_dtype_`. -/
inductive IntDtype
  | integer
  | long
  deriving DecidableEq, Repr

/-- A party's column, and where it comes from. -/
structure MissingColumn where
  useDb : Bool
  cells : List Cell

/-- The entries that are there. -/
def MissingColumn.present (c : MissingColumn) : List I64 :=
  c.cells.filterMap fun
    | .value v => some v
    | _ => none

/-- What a cell of a database column becomes in the column's array. -/
def dbValue (dtype : IntDtype) : Cell → Option I64
  | .value v => some v
  | .abnormal => some 0
  | .null =>
      match dtype with
      | .integer => some 0
      | .long => none

/-- What the accumulators run over. -/
def MissingColumn.counted (dtype : IntDtype) (c : MissingColumn) : List I64 :=
  if c.useDb then c.cells.filterMap (dbValue dtype) else c.present

/-- `int_max` starts at LONG_MIN. -/
def intMax (values : List I64) : I64 :=
  values.foldl (fun intMax v => if intMax.toInt < v.toInt then v else intMax)
    (BitVec.intMin 64)

/-- `int_min` starts at LONG_MAX. -/
def intMin (values : List I64) : I64 :=
  values.foldl (fun intMin v => if v.toInt < intMin.toInt then v else intMin)
    (BitVec.intMax 64)

-- ============================================================== the rounds

/-- `i64Matrix m(1, 1)`. -/
def oneElement (x : I64) : DenseMatrix := ⟨⟨1, 1⟩, [x], rfl, by decide⟩

/-- The revealed bit of `MPC_Compare`, `x` being the matrix of the party
with the smaller id. -/
def mpcLess (x y : I64) : Bool := intIntAddMsb x (-y)

/-- `flag` of the MAX branch: the party whose value is shared and
revealed. -/
def maxFlag (m : Fin 3 → I64) : Fin 3 :=
  if mpcLess (m 0) (m 1) then
    -- p1-p2
    if mpcLess (m 1) (m 2) then 2 else 1
  else
    -- p0-p2
    if mpcLess (m 0) (m 2) then 2 else 0

/-- `flag` of the MIN branch. -/
def minFlag (m : Fin 3 → I64) : Fin 3 :=
  if !mpcLess (m 0) (m 1) then
    -- p1-p2
    if !mpcLess (m 1) (m 2) then 2 else 1
  else
    -- p0-p2
    if !mpcLess (m 0) (m 2) then 2 else 0

/-- `int_col_max`. -/
def intColMax (dtype : IntDtype) (columns : Fin 3 → MissingColumn) : I64 :=
  let m := fun i => intMax ((columns i).counted dtype)
  m (maxFlag m)

/-- `int_col_min`. -/
def intColMin (dtype : IntDtype) (columns : Fin 3 → MissingColumn) : I64 :=
  let m := fun i => intMin ((columns i).counted dtype)
  m (minFlag m)

-- =============================================== what they are there for

/-- All entries that are there. -/
def allPresent (columns : Fin 3 → MissingColumn) : List I64 :=
  (columns 0).present ++ (columns 1).present ++ (columns 2).present

/-- The largest and the smallest of the values. -/
def IsMaximum (values : List I64) (v : I64) : Prop :=
  v ∈ values ∧ ∀ u ∈ values, u.toInt ≤ v.toInt

def IsMinimum (values : List I64) (v : I64) : Prop :=
  v ∈ values ∧ ∀ u ∈ values, v.toInt ≤ u.toInt

-- ============================================================ the condition

/-- A party counts a 0 for a cell that is missing. -/
def CountsPlaceholder (dtype : IntDtype) (c : MissingColumn) : Prop :=
  c.useDb = true
    ∧ (.abnormal ∈ c.cells ∨ (.null ∈ c.cells ∧ dtype = .integer))

instance (dtype : IntDtype) (c : MissingColumn) :
    Decidable (CountsPlaceholder dtype c) :=
  inferInstanceAs (Decidable (_ ∧ _))

/-- No such 0 lies above every entry. -/
def NoneAbove (dtype : IntDtype) (columns : Fin 3 → MissingColumn) : Prop :=
  (∀ i, ¬CountsPlaceholder dtype (columns i))
    ∨ ∃ v ∈ allPresent columns, 0 ≤ v.toInt

/-- No such 0 lies below every entry. -/
def NoneBelow (dtype : IntDtype) (columns : Fin 3 → MissingColumn) : Prop :=
  (∀ i, ¬CountsPlaceholder dtype (columns i))
    ∨ ∃ v ∈ allPresent columns, v.toInt ≤ 0

/-- When the MAX branch is right, by the largest values `x`, `y` and `z`
the parties count: both differences fit, or the wrong choice of the first
round does not matter. If a placeholder lies above every entry, two wrong
choices can still make up for it. -/
def MaxCondition (dtype : IntDtype) (columns : Fin 3 → MissingColumn) : Prop :=
  let x := intMax ((columns 0).counted dtype)
  let y := intMax ((columns 1).counted dtype)
  let z := intMax ((columns 2).counted dtype)
  (NoneAbove dtype columns
    ∧ ((Fits x y ∧ Fits (if x.toInt < y.toInt then y else x) z)
      ∨ (x.toInt - y.toInt = 2 ^ 63 ∧ z = x)))
  ∨ (¬NoneAbove dtype columns
    ∧ ((x = 0 ∧ y = BitVec.intMin 64 ∧ IsMaximum (allPresent columns) z)
      ∨ (¬(x = 0 ∧ y = BitVec.intMin 64) ∧ (x = 0 ∨ y = 0)
        ∧ z = BitVec.intMin 64 ∧ IsMaximum (allPresent columns) z)))

/-- When the MIN branch is right, by the smallest values the parties
count. -/
def MinCondition (dtype : IntDtype) (columns : Fin 3 → MissingColumn) : Prop :=
  let x := intMin ((columns 0).counted dtype)
  let y := intMin ((columns 1).counted dtype)
  let z := intMin ((columns 2).counted dtype)
  NoneBelow dtype columns
    ∧ Fits x y ∧ Fits (if x.toInt < y.toInt then x else y) z

end PrimiHub.Algorithm
