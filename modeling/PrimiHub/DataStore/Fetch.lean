/-
`SQLiteCursor::readInternal` (data_store/sqlite/sqlite_driver.cc) and the
builders of util/arrow_wrapper_util.cc: the selected columns of a table,
fetched as texts and made into Arrow arrays.

# The path of a cell

Every cell comes as the text `getString` gives. The texts of the `i`-th
selected column go to the builder that the column's declared type picks:
two for the eight integer types, one for each kind of float, one for the
rest. The integer builders read with `stoi` and keep a zero where it
throws. Both do: `Int64ArrowArrayBuilder` stores the `int` in 64 bits.

# What it is compared with

A decimal integer is a text of digits with or without a minus sign in
front. Arrow's CSV reader is told the declared types and makes an array of
the declared type, where it takes the column. It is `CsvReader`, of which
nothing is known but what it makes of decimal integers; floats are left
open.
-/
import Mathlib.Algebra.Order.Group.Int
import Mathlib.Data.List.Forall2
import PrimiHub.DataStore.AccessInfo
import PrimiHub.Lib.Strtol

namespace PrimiHub.DataStore

open Lib (decimal stoi)

-- ================================================================== types

/-- Arrow's integer types. -/
inductive IntType
  | int8
  | int16
  | int32
  | int64
  | uint8
  | uint16
  | uint32
  | uint64
deriving DecidableEq, Repr

/-- `arrow::Type`; `other` is every type that `MakeArrowArray` has no case
for. -/
inductive ArrowType
  | integer (type : IntType)
  | float
  | double
  | string
  | other
deriving DecidableEq, Repr

/-- `arrow::Field`. -/
structure ArrowField where
  name : Text
  type : ArrowType
deriving DecidableEq

/-- The least and the greatest value of an integer type. -/
def IntType.range : IntType → Int × Int
  | .int8 => (-2 ^ 7, 2 ^ 7 - 1)
  | .int16 => (-2 ^ 15, 2 ^ 15 - 1)
  | .int32 => (-2 ^ 31, 2 ^ 31 - 1)
  | .int64 => (-2 ^ 63, 2 ^ 63 - 1)
  | .uint8 => (0, 2 ^ 8 - 1)
  | .uint16 => (0, 2 ^ 16 - 1)
  | .uint32 => (0, 2 ^ 32 - 1)
  | .uint64 => (0, 2 ^ 64 - 1)

/-- The value is one of the type. -/
def IntType.Holds (type : IntType) (v : Int) : Prop :=
  type.range.1 ≤ v ∧ v ≤ type.range.2

instance (type : IntType) (v : Int) : Decidable (type.Holds v) :=
  inferInstanceAs (Decidable (_ ∧ _))

/-- `std::stof`, which may throw, its zero, and a `float` as a `double`. -/
structure FloatReader (F D : Type) where
  stof : Text → Option F
  zero : F
  widen : F → D

/-- `arrow::Array`, with the type it was built for. -/
inductive ArrowArray (F D : Type)
  | integers (type : IntType) (values : List Int)
  | floats (values : List F)
  | doubles (values : List D)
  | strings (values : List Text)
deriving DecidableEq

-- =============================================================== builders

/-- `stoi` in a `try` that keeps the zero. -/
def stoiOrZero (item : Text) : Int := (stoi item).getD 0

section Builders

variable {F D : Type} (R : FloatReader F D)

/-- `Int32ArrowArrayBuilder`. -/
def int32ArrowArrayBuilder (arr : List Text) : ArrowArray F D :=
  .integers .int32 (arr.map stoiOrZero)

/-- `Int64ArrowArrayBuilder`. -/
def int64ArrowArrayBuilder (arr : List Text) : ArrowArray F D :=
  .integers .int64 (arr.map stoiOrZero)

/-- `FloatArrowArrayBuilder`. -/
def floatArrowArrayBuilder (arr : List Text) : ArrowArray F D :=
  .floats (arr.map fun item => (R.stof item).getD R.zero)

/-- `DoubleArrowArrayBuilder`, with `stof` as well. -/
def doubleArrowArrayBuilder (arr : List Text) : ArrowArray F D :=
  .doubles (arr.map fun item => R.widen ((R.stof item).getD R.zero))

/-- `MakeArrowArray`. -/
def makeArrowArray (fieldType : ArrowType) (arr : List Text) :
    ArrowArray F D :=
  match fieldType with
  | .integer .int64 | .integer .uint64 => int64ArrowArrayBuilder arr
  | .integer .int32 | .integer .int16 | .integer .int8
  | .integer .uint32 | .integer .uint16 | .integer .uint8 =>
      int32ArrowArrayBuilder arr
  | .float => floatArrowArrayBuilder R arr
  | .double => doubleArrowArrayBuilder R arr
  | .string | .other => .strings arr

-- ================================================================ reading

/-- The result of a query of so many columns. -/
structure SqlResult (columns : Nat) where
  rows : List (List Text)
  widths : ∀ row ∈ rows, row.length = columns

/-- `query_result[i].push_back(result)` over the columns of a row. -/
def pushRow (queryResult : List (List Text)) (row : List Text) :
    List (List Text) :=
  List.zipWith (fun cells cell => cells ++ [cell]) queryResult row

/-- `query_result`. -/
def SqlResult.queryResult {columns : Nat} (result : SqlResult columns) :
    List (List Text) :=
  result.rows.foldl pushRow (List.replicate columns [])

/-- The text of the exception. -/
def indexOutOfRange (i fields : Nat) : Text :=
  ("index out of range, current index: " ++ toString i
    ++ " total colnum fields: " ++ toString fields).toList

/-- `for (const auto index : selected_fields)`, with the counter. -/
def fetchColumns (tableSchema : List ArrowField)
    (queryResult : List (List Text)) :
    Nat → List Nat → Except Text (List (ArrowField × ArrowArray F D))
  | _, [] => .ok []
  | i, index :: rest =>
      match tableSchema[index]? with
      | none => .error (indexOutOfRange i tableSchema.length)
      | some field => do
          let array := makeArrowArray R field.type (queryResult.getD i [])
          let others ← fetchColumns tableSchema queryResult (i + 1) rest
          .ok ((field, array) :: others)

/-- `SQLiteCursor::readInternal`: the fields of the table with their
arrays. -/
def readInternal (tableSchema : List ArrowField) (selected : List Nat)
    (result : SqlResult selected.length) :
    Except Text (List (ArrowField × ArrowArray F D)) :=
  fetchColumns R tableSchema result.queryResult 0 selected

-- ============================================================= the meaning

/-- The integer that a text of digits is, with or without a minus sign in
front. -/
def decimalInteger : Text → Option Int
  | '-' :: digits =>
      if digits ≠ [] ∧ digits.all Char.isDigit then some (-(decimal digits))
      else none
  | digits =>
      if digits ≠ [] ∧ digits.all Char.isDigit then some (decimal digits)
      else none

/-- The cell is an integer of the type. -/
def IsInteger (type : IntType) (cell : Text) (v : Int) : Prop :=
  decimalInteger cell = some v ∧ type.Holds v

/-- The `i`-th column of the result. -/
def SqlResult.column {columns : Nat} (result : SqlResult columns) (i : Nat) :
    List Text :=
  result.rows.filterMap (·[i]?)

/-- The `i`-th selected column is this one, of an integer type. -/
def IntegerColumn (tableSchema : List ArrowField) (selected : List Nat)
    (i : Nat) (name : Text) (type : IntType) : Prop :=
  ∃ index, selected[i]? = some index
    ∧ tableSchema[index]? = some ⟨name, .integer type⟩

/-- The table has each integer column under its name, with a value for
every row, which is the cell's wherever that is an integer of the type. -/
def IntegersSurvive (tableSchema : List ArrowField) (selected : List Nat)
    (result : SqlResult selected.length) : Prop :=
  ∃ table, readInternal R tableSchema selected result = .ok table
    ∧ table.length = selected.length
    ∧ ∀ i name type, IntegerColumn tableSchema selected i name type →
      ∃ built values,
        table[i]? = some (⟨name, .integer type⟩, .integers built values)
        ∧ values.length = result.rows.length
        ∧ ∀ (r : Nat) (cell : Text) (v : Int),
          (result.column i)[r]? = some cell → IsInteger type cell v →
          values[r]? = some v

/-- All cells are integers of the type. -/
def IntegerCells (type : IntType) (cells : List Text) : Prop :=
  ∀ cell ∈ cells, ∃ v, IsInteger type cell v

/-- Arrow's CSV reader on the cells of a column declared with an integer
type: the values of the array, if it takes the column. Integers of the type
that it takes are its values. -/
structure CsvReader where
  convert : IntType → List Text → Option (List Int)
  convert_integers : ∀ {type cells values ints},
    convert type cells = some values →
    List.Forall₂ (IsInteger type) cells ints → values = ints

/-- Where the CSV reader makes a column of integers, the table has the same
one, of the same type. -/
def AgreesWithCsv (csv : CsvReader) (tableSchema : List ArrowField)
    (selected : List Nat) (result : SqlResult selected.length) : Prop :=
  ∃ table, readInternal R tableSchema selected result = .ok table
    ∧ ∀ i name type, IntegerColumn tableSchema selected i name type →
      IntegerCells type (result.column i) →
      ∀ values, csv.convert type (result.column i) = some values →
      table[i]? = some (⟨name, .integer type⟩, .integers type values)

end Builders

/-- Every integer of its column's type is an `int`. -/
def FitsInt (tableSchema : List ArrowField) (selected : List Nat)
    (result : SqlResult selected.length) : Prop :=
  ∀ i name type, IntegerColumn tableSchema selected i name type →
    ∀ cell ∈ result.column i, ∀ v, IsInteger type cell v →
      -2 ^ 31 ≤ v ∧ v < 2 ^ 31

/-- A column of integers that the CSV reader takes is declared with a type
that has a builder of its own. -/
def BuiltAsDeclared (csv : CsvReader) (tableSchema : List ArrowField)
    (selected : List Nat) (result : SqlResult selected.length) : Prop :=
  ∀ i name type, IntegerColumn tableSchema selected i name type →
    IntegerCells type (result.column i) →
    (csv.convert type (result.column i)).isSome →
    type = .int32 ∨ type = .int64

end PrimiHub.DataStore
