/-
`MPCSumOrAvg::PlainTextDataCompute` of executor/statistics.cc: the sum and
the number of the values of each requested column, before they are shared.

An entry of an Arrow array is what its buffer has there, with the bit that
says whether it is null; `Value(j)` and `length` do not look at the bit.
The arrays of an integer column are cast to the signed arrays of the same
width. Sum and number are doubles, which stand here for their values
(`Lib.Binary64`).
-/
import PrimiHub.Executor.Statistics

namespace PrimiHub.Executor.SumOrAvg

open Lib
open Statistics (ColumnDtype Slot)

/-- The integer types of Arrow. -/
inductive IntType
  | uint8
  | int8
  | uint16
  | int16
  | uint32
  | int32
  | uint64
  | int64
  deriving DecidableEq, Repr

def IntType.width : IntType → Nat
  | uint8 | int8 => 8
  | uint16 | int16 => 16
  | uint32 | int32 => 32
  | uint64 | int64 => 64

def IntType.signed : IntType → Bool
  | int8 | int16 | int32 | int64 => true
  | uint8 | uint16 | uint32 | uint64 => false

/-- The chunks of an integer column. -/
abbrev IntChunks (type : IntType) := List (List (Slot (BitVec type.width)))

/-- A chunked array of the table, by the type that was detected. -/
inductive ChunkedArray
  | int (type : IntType) (chunks : IntChunks type)
  | double (chunks : List (List (Slot ℚ)))
  | other (chunks : Nat)

/-- A table: its columns with their names. -/
abbrev Table := List (String × ChunkedArray)

/-- `num_chunks`. -/
def ChunkedArray.numChunks : ChunkedArray → Nat
  | int _ chunks => chunks.length
  | double chunks => chunks.length
  | other chunks => chunks

/-- `GetColumnByName`: nothing where the name is not there, or not once. -/
def getColumnByName (table : Table) (name : String) : Option ChunkedArray :=
  match table.filter fun column => column.1 = name with
  | [column] => some column.2
  | _ => none

-- =================================================================== the loops

/-- The loop over the entries of a chunk: `sum += array->Value(j)`. -/
def sumChunk {α : Type} (toDouble : α → ℚ) (sum : ℚ) (chunk : List (Slot α)) :
    ℚ :=
  chunk.foldl (fun sum slot => addDouble sum (toDouble slot.value)) sum

/-- The loop over the chunks, to `sum` and `count`. -/
def sumChunks {α : Type} (toDouble : α → ℚ) (chunks : List (List (Slot α))) :
    ℚ × ℚ :=
  chunks.foldl (fun acc chunk =>
    (sumChunk toDouble acc.1 chunk, addDouble acc.2 (castDouble chunk.length)))
    (0, 0)

/-- `sum` and `count` of a column. `none` is FAIL, and the cast of an array
to one of another width or kind. -/
def columnResult (dtype : ColumnDtype) (column : ChunkedArray) :
    Option (ℚ × ℚ) :=
  match dtype, column with
  | .integer, .int _ chunks | .long, .int _ chunks =>
      some (sumChunks (fun v => castDouble v.toInt) chunks)
  | .double, .double chunks => some (sumChunks id chunks)
  | _, column => if column.numChunks = 0 then some (0, 0) else none

/-- `PlainTextDataCompute`: the rows of `col_sum` and `col_count`. -/
def plainTextDataCompute (dtype : String → ColumnDtype)
    (columns : List String) (table : Table) : Option (List (ℚ × ℚ)) :=
  columns.mapM fun name => do
    let column ← getColumnByName table name
    columnResult (dtype name) column

-- ================================================== what it is there for

/-- The number an entry of a type is. -/
def IntType.number (type : IntType) (v : BitVec type.width) : Int :=
  if type.signed then v.toInt else v.toNat

/-- The sum of the entries that are not null. -/
def exactSum {type : IntType} (chunks : IntChunks type) : Int :=
  ((chunks.flatten.filter (·.valid)).map fun s => type.number s.value).sum

/-- How many there are. -/
def nonNull {type : IntType} (chunks : IntChunks type) : Nat :=
  chunks.flatten.countP (·.valid)

/-- A column of the table that is of the type that is asked for. -/
def Readable (dtype : ColumnDtype) : ChunkedArray → Prop
  | .int _ _ => dtype = .integer ∨ dtype = .long
  | .double _ => dtype = .double
  | .other _ => False

/-- The call succeeds, and the row of an integer column has its sum and the
number of its entries. -/
def Exact (dtype : String → ColumnDtype) (columns : List String)
    (table : Table) : Prop :=
  ∃ rows, plainTextDataCompute dtype columns table = some rows
    ∧ rows.length = columns.length
    ∧ ∀ (i : Nat) (name : String) (type : IntType) (chunks : IntChunks type),
      columns[i]? = some name →
      getColumnByName table name = some (.int type chunks) →
        rows[i]? = some ((exactSum chunks : ℚ), (nonNull chunks : ℚ))

/-- No entry is null, and none of an unsigned type has its top bit set. -/
def Plain {type : IntType} (chunks : IntChunks type) : Prop :=
  ∀ s ∈ chunks.flatten, s.valid = true
    ∧ (type.signed = false → s.value.msb = false)

/-- All of these integers are doubles, and so are their partial sums. -/
def Representable (values : List Int) : Prop :=
  (∀ v ∈ values, castDouble v = v)
    ∧ ∀ k ≤ values.length,
      roundToDouble ((values.take k).sum : Int) = ((values.take k).sum : Int)

/-- The numbers a column is read as, and the lengths of its chunks, can be
added up in doubles. -/
def Summable {type : IntType} (chunks : IntChunks type) : Prop :=
  Representable (chunks.flatten.map fun s => s.value.toInt)
    ∧ Representable (chunks.map fun chunk => (chunk.length : Int))

end PrimiHub.Executor.SumOrAvg
