/-
`SQLiteCursor::read_from_abnormal` (data_store/sqlite/sqlite_driver.cc),
the reader behind the missing-value processing: the result of a query, as
an Arrow table of the requested columns and an index of the rows whose
cells are to be filled in.

# Names and arrays

The fields of the table come from `col_type`, a `std::map`, in name order.
The arrays come from `col_metas`, which is filled while the first row is
read, in the order of the query's columns. `arrow::Table::Make` puts the
two lists side by side without looking.

# Cells

A cell is what SQLite stores: NULL, an integer, a real, a text or a blob.
A text is the C string that `getColumn` gives. What becomes of a cell
depends on the type code requested for its column and nothing else, so the
`switch` over `getType()` is one function, `processCell`: which vector a
value is pushed onto, whether the row goes into the index, or nothing
where the reader gives up and returns no table.

# Numbers

Doubles stay abstract; `FloatOps` has what the reader does with them.
Integers are `int64_t`, except `int_val`, an `int` that the `long` of
`strtol` is put into.
-/
import Mathlib.Data.String.Basic
import PrimiHub.Lib.SortedMap
import PrimiHub.Lib.Strtol

namespace PrimiHub.DataStore

open Lib

/-- What the reader does with doubles. The integers of 32 bits are doubles
exactly, and no other `int64_t` is converted into one of them. -/
structure FloatOps (D : Type) where
  /-- conversion from an integer -/
  ofInt : Int → D
  /-- the value `strtod` gives where it converts -/
  strtod : List Char → D
  /-- output with `setprecision(17)` -/
  toText : D → List Char
  exact : ∀ w v : Int, -2 ^ 31 ≤ w → w < 2 ^ 31 → -2 ^ 63 ≤ v → v < 2 ^ 63 →
    ofInt w = ofInt v → w = v

/-- A cell of the query result. -/
inductive Cell (D : Type)
  | null
  | integer (n : Int)
  | real (d : D)
  | text (s : List Char)
  | blob
deriving DecidableEq

/-- The result of the query: the columns' names and the rows. -/
structure Query (D : Type) where
  names : List String
  rows : List (List (Cell D))
  names_nodup : names.Nodup
  widths : ∀ row ∈ rows, row.length = names.length

-- ============================================================ one cell

/-- What is pushed onto the vectors of a column. -/
inductive Pushed (D : Type)
  | nothing
  | string (s : List Char)
  | int (n : Int)
  | double (d : D)

/-- What becomes of a cell. -/
structure Outcome (D : Type) where
  listed : Bool
  pushed : Pushed D

variable {D : Type} (fp : FloatOps D)

/-- `int int_val = strtol(...)`: the result is cut to a `long` first, and
then wraps around. -/
def intVal (n : Int) : Int :=
  (max (-2 ^ 63) (min n (2 ^ 63 - 1))).bmod (2 ^ 32)

/-- A cell that cannot be read as a number, in a column of this code. -/
def abnormalText (code : Nat) : Outcome D where
  listed := true
  pushed := match code with
    | 1 => .int 0
    | 2 => .double (fp.ofInt 0)
    | 3 => .int 0
    | _ => .nothing

/-- `switch (col.getType())`; `none` is `return nullptr`. -/
def processCell (code : Nat) : Cell D → Option (Outcome D)
  | .null =>
      some (match code with
        | 0 => ⟨false, .string []⟩
        | 1 => ⟨true, .int 0⟩
        | 2 => ⟨true, .double (fp.ofInt 0)⟩
        | 3 => ⟨true, .double (fp.ofInt 0)⟩
        | _ => ⟨true, .nothing⟩)
  | .text s =>
      if code = 0 then some ⟨false, .string s⟩
      else if '.' ∉ s then
        match strtol s with
        | none => some (abnormalText fp code)
        | some (n, _) =>
            some ⟨false, match code with
              | 1 => .int (intVal n)
              | 2 => .double (fp.ofInt (intVal n))
              | 3 => .int (intVal n)
              | _ => .nothing⟩
      else if strtodConverts s then
        match code with
        | 1 => none
        | 3 => none
        | 2 => some ⟨false, .double (fp.strtod s)⟩
        | _ => some ⟨false, .nothing⟩
      else some (abnormalText fp code)
  | .real d =>
      match code with
      | 0 => some ⟨false, .string (fp.toText d)⟩
      | 1 => none
      | 3 => none
      | 2 => some ⟨false, .double d⟩
      | _ => some ⟨false, .nothing⟩
  | .integer n =>
      some ⟨false, match code with
        | 0 => .string (toString n).toList
        | 1 => .int n
        | 2 => .double (fp.ofInt n)
        | 3 => .int n
        | _ => .nothing⟩
  | .blob => none

-- ============================================================ the loops

/-- `TypeContainer`. -/
structure TypeContainer (D : Type) where
  stringValues : List (List Char) := []
  intValues : List Int := []
  doubleValues : List D := []

def TypeContainer.push (c : TypeContainer D) : Pushed D → TypeContainer D
  | .nothing => c
  | .string s => { c with stringValues := c.stringValues ++ [s] }
  | .int n => { c with intValues := c.intValues ++ [n] }
  | .double d => { c with doubleValues := c.doubleValues ++ [d] }

/-- The local variables of the reader, and the index. -/
structure ReadState (D : Type) where
  colMetas : List (String × Nat)
  queryResult : SortedMap String (TypeContainer D)
  index : SortedMap String (List Nat)

/-- `query_result[col_name]`. -/
def ReadState.container (s : ReadState D) (name : String) : TypeContainer D :=
  (s.queryResult.find? name).getD {}

/-- `index[col_name]`. -/
def ReadState.listed (s : ReadState D) (name : String) : List Nat :=
  (s.index.find? name).getD []

/-- In the first row, a container for a column of a known code. -/
def openColumn (name : String) (code row : Nat) (s : ReadState D) :
    ReadState D :=
  if row = 0 ∧ code ≤ 3 then
    { s with colMetas := s.colMetas ++ [(name, code)]
             queryResult := s.queryResult.insert name {} }
  else s

/-- Push a value and list the row, as the outcome says. -/
def record (name : String) (row : Nat) (out : Outcome D) (s : ReadState D) :
    ReadState D :=
  { s with
    queryResult := match out.pushed with
      | .nothing => s.queryResult
      | value => s.queryResult.insert name ((s.container name).push value)
    index := if out.listed then s.index.insert name (s.listed name ++ [row])
      else s.index }

/-- One cell of a row. -/
def readCell (colType : SortedMap String Nat) (row : Nat) (name : String)
    (cell : Cell D) (s : ReadState D) : Option (ReadState D) :=
  match colType.find? name with
  | none => some s
  | some code =>
      match processCell fp code cell with
      | none => none
      | some out => some (record name row out (openColumn name code row s))

/-- The cells of a row. -/
def readRow (colType : SortedMap String Nat) (row : Nat) :
    List (String × Cell D) → ReadState D → Option (ReadState D)
  | [], s => some s
  | (name, cell) :: rest, s =>
      match readCell fp colType row name cell s with
      | none => none
      | some s => readRow colType row rest s

/-- `while (sql_query.executeStep())`. -/
def readRows (colType : SortedMap String Nat) (names : List String) :
    Nat → List (List (Cell D)) → ReadState D → Option (ReadState D)
  | _, [], s => some s
  | row, cells :: rest, s =>
      match readRow fp colType row (names.zip cells) s with
      | none => none
      | some s => readRows colType names (row + 1) rest s

-- ============================================================ the table

/-- `arrow::field` types. -/
inductive FieldType
  | binary
  | int64
  | float64
deriving DecidableEq, Repr

/-- The loop over `col_type` that makes the fields. -/
def schemaFields (colType : SortedMap String Nat) :
    List (String × FieldType) :=
  colType.entries.filterMap fun e =>
    match e.2 with
    | 0 => some (e.1, .binary)
    | 1 => some (e.1, .int64)
    | 2 => some (e.1, .float64)
    | 3 => some (e.1, .int64)
    | _ => none

/-- `arrow::Array`. -/
inductive ColumnArray (D : Type)
  | strings (values : List (List Char))
  | ints (values : List Int)
  | doubles (values : List D)

/-- The loop over `col_metas` that makes the arrays; `col_metas` has the
codes 0 to 3 only. -/
def toArray (c : TypeContainer D) (code : Nat) : ColumnArray D :=
  match code with
  | 0 => .strings c.stringValues
  | 2 => .doubles c.doubleValues
  | _ => .ints c.intValues

/-- The table, with `col_metas`, which says what column each array was
made of, and the index. -/
structure AbnormalTable (D : Type) where
  fields : List (String × FieldType)
  arrays : List (ColumnArray D)
  colMetas : List (String × Nat)
  index : SortedMap String (List Nat)

/-- `SQLiteCursor::read_from_abnormal`, with an index that starts empty. -/
def readFromAbnormal (colType : SortedMap String Nat) (query : Query D) :
    Option (AbnormalTable D) :=
  match readRows fp colType query.names 0 query.rows
      ⟨[], SortedMap.empty, SortedMap.empty⟩ with
  | none => none
  | some s =>
      some { fields := schemaFields colType
             arrays := s.colMetas.map fun m => toArray (s.container m.1) m.2
             colMetas := s.colMetas
             index := s.index }

end PrimiHub.DataStore
