/-
`MPCMinOrMax` of executor/statistics.cc and statistics.h: the largest or
the smallest value of a column over the tables of three parties.

# One party

`PlainTextDataCompute` takes the extreme of each chunk of a column, in the
type of the column, and from these the extreme of the column, as a double.
Doubles are their values (`Lib.Binary64`). An entry of an Arrow array is
what its buffer has there, with the bit that says whether it is null;
`Value(i)` and `length` do not look at the bit. Under a null the builders
leave 0.

# Three parties

They compare party 0 with party 1 and the better of the two with party 2,
and then share and reveal the best value. A party's part in a call is what
it hands in, if anything; `MpcOperator` has what the three-party operators
make of that.
-/
import Mathlib.Data.BitVec
import Mathlib.Data.Fin.VecNotation
import PrimiHub.Lib.Binary64

namespace PrimiHub.Executor.Statistics

open Lib

/-- The `MPCStatisticsType` of a `MPCMinOrMax`. -/
inductive Extreme
  | max
  | min
  deriving DecidableEq, Repr

/-- `ColumnDtype`. -/
inductive ColumnDtype
  | string
  | integer
  | double
  | long
  | enum
  | boolean
  | unknown
  deriving DecidableEq, Repr

/-- An entry of an array. -/
structure Slot (α : Type) where
  value : α
  valid : Bool
  deriving DecidableEq, Repr

/-- A chunked array of the table, by the type that was detected. -/
inductive ChunkedArray
  | int32 (chunks : List (List (Slot (BitVec 32))))
  | int64 (chunks : List (List (Slot (BitVec 64))))
  | double (chunks : List (List (Slot ℚ)))
  | other (chunks : Nat)

/-- A table: its columns with their names. -/
abbrev Table := List (String × ChunkedArray)

-- ================================================================ one party

/-- `minOrMax` of a chunk. -/
def minOrMax {T : Type} [LE T] [DecidableLE T] (type : Extreme) (val : T)
    (array : List T) : T :=
  array.foldl (fun val v =>
    match type with
    | .max => if val ≤ v then v else val
    | .min => if v ≤ val then v else val) val

/-- `fillInitValue` of an integer. -/
def fillInitInt (type : Extreme) (width : Nat) : Int :=
  match type with
  | .max => (BitVec.intMin width).toInt
  | .min => (BitVec.intMax width).toInt

/-- `fillInitValue` of a double. -/
def fillInitDouble : Extreme → ℚ
  | .max => doubleMin
  | .min => doubleMax

/-- `fillChunkResult`, of a value that has been converted. -/
def fillChunkResult (type : Extreme) (curVal newVal : ℚ) : ℚ :=
  match type with
  | .min => if newVal < curVal then newVal else curVal
  | .max => if curVal < newVal then newVal else curVal

/-- The loop over the chunks of an integer column. -/
def intResult {width : Nat} (type : Extreme)
    (chunks : List (List (Slot (BitVec width)))) : ℚ :=
  chunks.foldl (fun colResult chunk =>
    fillChunkResult type colResult (castDouble
      (minOrMax type (fillInitInt type width)
        (chunk.map (·.value.toInt)))))
    (fillInitDouble type)

/-- The loop over the chunks of a double column. -/
def doubleResult (type : Extreme) (chunks : List (List (Slot ℚ))) : ℚ :=
  chunks.foldl (fun colResult chunk =>
    fillChunkResult type colResult
      (minOrMax type (fillInitDouble type) (chunk.map (·.value))))
    (fillInitDouble type)

/-- `num_chunks`. -/
def ChunkedArray.numChunks : ChunkedArray → Nat
  | int32 chunks => chunks.length
  | int64 chunks => chunks.length
  | double chunks => chunks.length
  | other chunks => chunks

/-- The result of a column. `none` is FAIL, and the cast of an array to one
of doubles that it is not. -/
def columnResult (type : Extreme) (dtype : ColumnDtype)
    (column : ChunkedArray) : Option ℚ :=
  match dtype, column with
  | .integer, .int32 chunks | .long, .int32 chunks =>
      some (intResult type chunks)
  | .integer, .int64 chunks | .long, .int64 chunks =>
      some (intResult type chunks)
  | .integer, _ | .long, _ => some (fillInitDouble type)
  | .double, .double chunks => some (doubleResult type chunks)
  | _, column =>
      if column.numChunks = 0 then some (fillInitDouble type) else none

/-- `GetColumnByName`: nothing where the name is not there, or not once. -/
def getColumnByName (table : Table) (name : String) : Option ChunkedArray :=
  match table.filter fun column => column.1 = name with
  | [column] => some column.2
  | _ => none

/-- `PlainTextDataCompute`. -/
def plainTextDataCompute (type : Extreme) (dtype : String → ColumnDtype)
    (columns : List String) (table : Table) : Option (List ℚ) :=
  columns.mapM fun name => do
    let column ← getColumnByName table name
    columnResult type (dtype name) column

-- ============================================================ three parties

/-- What is an element of a matrix in the D16 fixed-point format. -/
def FitsD16 (v : Int) : Prop := -2 ^ 63 ≤ v * 2 ^ 16 ∧ v * 2 ^ 16 < 2 ^ 63

/-- What two parties hand in. -/
def twoParties (lo hi : Fin 3) (a b : Int) (party : Fin 3) : Option Int :=
  if party = lo then some a else if party = hi then some b else none

/-- What one party hands in. -/
def oneParty (owner : Fin 3) (a : Int) (party : Fin 3) : Option Int :=
  if party = owner then some a else none

/-- The three-party operators on matrices of one element: `f64<D16>` and
back, `MPC_Compare` with the bit that is revealed, and `createShares` with
`revealAll`. -/
structure MpcOperator where
  toFixed : ℚ → Int
  toDouble : Int → ℚ
  mpcCompare : (Fin 3 → Option Int) → Bool
  reveal : (Fin 3 → Option Int) → Int
  toFixed_int : ∀ v : Int, FitsD16 v → toFixed v = v * 2 ^ 16
  toFixed_small : ∀ x : ℚ, |x| < 1 / 2 ^ 17 → toFixed x = 0
  toDouble_eq : ∀ k : Int, toDouble k = k / 2 ^ 16
  mpcCompare_eq : ∀ (lo hi : Fin 3) (a b : Int), lo < hi →
    -2 ^ 63 ≤ a → a < 2 ^ 63 → -2 ^ 63 ≤ b → b < 2 ^ 63 →
    -2 ^ 63 ≤ a - b → a - b < 2 ^ 63 →
    mpcCompare (twoParties lo hi a b) = decide (a < b)
  reveal_eq : ∀ (owner : Fin 3) (a : Int), reveal (oneParty owner a) = a

namespace MpcOperator

variable (op : MpcOperator)

/-- The two rounds of comparisons: the party whose `m` is the smallest. -/
def smallestParty (m : Fin 3 → Int) : Fin 3 :=
  if op.mpcCompare (twoParties 0 1 (m 0) (m 1)) then
    if op.mpcCompare (twoParties 0 2 (m 0) (m 2)) then 0 else 2
  else
    if op.mpcCompare (twoParties 1 2 (m 1) (m 2)) then 1 else 2

/-- `minValueOfAllParty`, by what each party has. -/
def minValueOfAllParty (localMin : Fin 3 → ℚ) : ℚ :=
  let m := fun party => op.toFixed (localMin party)
  let smallest := op.smallestParty m
  op.toDouble (op.reveal (oneParty smallest (m smallest)))

/-- `maxValueOfAllParty`: the comparisons are those of the negated values. -/
def maxValueOfAllParty (localMax : Fin 3 → ℚ) : ℚ :=
  let m := fun party => op.toFixed (localMax party)
  let mNegative := fun party => op.toFixed (-1 * localMax party)
  let largest := op.smallestParty mNegative
  op.toDouble (op.reveal (oneParty largest (m largest)))

/-- A column in `CipherTextDataCompute`. -/
def valueOfAllParty (type : Extreme) (colData : Fin 3 → ℚ) : ℚ :=
  match type with
  | .min => op.minValueOfAllParty colData
  | .max => op.maxValueOfAllParty colData

/-- `CipherTextDataCompute`, by what the parties computed. -/
def cipherTextDataCompute (type : Extreme) (data₀ data₁ data₂ : List ℚ) :
    List ℚ :=
  (data₀.zip (data₁.zip data₂)).map fun row =>
    op.valueOfAllParty type ![row.1, row.2.1, row.2.2]

/-- `run` of the three parties, and what `getResult` gives then. -/
def run (type : Extreme) (dtype : String → ColumnDtype)
    (columns : List String) (tables : Fin 3 → Table) : Option (List ℚ) := do
  let data₀ ← plainTextDataCompute type dtype columns (tables 0)
  let data₁ ← plainTextDataCompute type dtype columns (tables 1)
  let data₂ ← plainTextDataCompute type dtype columns (tables 2)
  some (op.cipherTextDataCompute type data₀ data₁ data₂)

end MpcOperator

end PrimiHub.Executor.Statistics
