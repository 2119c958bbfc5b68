/-
The loop of `MissingProcess::execute` over the columns of a table read
from CSV (algorithm/missing_val_processing.cc), and `replaceValue`
(missing_val_processing.h): a party scans a column, feeds what it found
into the MPC step, and puts the value the parties reveal into the missing
cells.

# Columns

Arrow reads a file block by block, so a column is a list of chunks and all
columns are cut alike. The columns asked for are read as strings; each is
then replaced by an array of numbers, which is one chunk. Positions inside
a chunk are those of a block of a megabyte and fit their 32 bits.

# What is undefined

`chunk(k)` and `abnormal_index[k]` do not check `k`, and the casts to
`StringArray` do not check the type of the array. Where one of them goes
wrong the loop has no result (`none`).
-/
import Mathlib.Data.String.Basic
import PrimiHub.Algorithm.Missing
import PrimiHub.Lib.Overwrite
import PrimiHub.Lib.SortedMap
import PrimiHub.Lib.Strtol

namespace PrimiHub.Algorithm

open Aby3 (I64)
open Lib

-- ================================================================= numbers

/-- The type of a column's numbers, as far as the loops use it. -/
structure Numbers (V : Type) where
  zero : V
  add : V → V → V
  less : V → V → Bool
  /-- where the maximum and the minimum start -/
  maxStart : V
  minStart : V
  /-- `std::stoll` and `std::stod`: the number and the text after it -/
  read : List Char → Option (V × List Char)
  /-- `std::to_string` -/
  print : V → List Char
  read_print : ∀ v, (read (print v)).isSome

variable {V D : Type}

/-- `_strToInt64` and `_strToDouble`: the number a whole text is. -/
def Numbers.convert (num : Numbers V) (str : List Char) : Option V :=
  match num.read str with
  | some (v, []) => some v
  | _ => none

/-- The value that comes back of `std::to_string`. A double keeps six
digits after the point. -/
def Numbers.printed (num : Numbers V) (v : V) : V :=
  ((num.read (num.print v)).get (num.read_print v)).1

/-- `int64_t`. -/
def int64 : Numbers I64 where
  zero := 0
  add := (· + ·)
  less x y := decide (x.toInt < y.toInt)
  maxStart := BitVec.intMin 64
  minStart := BitVec.intMax 64
  read str := (stoll str).map fun r => (BitVec.ofInt 64 r.1, r.2)
  print v := printInt v.toInt
  read_print v := by
    have hrange : -2 ^ 63 ≤ v.toInt ∧ v.toInt < 2 ^ 63 :=
      ⟨BitVec.le_toInt v, BitVec.toInt_lt⟩
    rw [stoll_printInt hrange]
    rfl

-- ================================================================= columns

/-- A cell of a `StringArray`; `none` is null. -/
abbrev TextCell := Option (List Char)

/-- A column of the table. -/
inductive Column (D : Type)
  | strings (chunks : List (List TextCell))
  | int64 (array : List I64)
  | float64 (array : List D)
  /-- a column nobody asks for, in the type Arrow found for its texts -/
  | inferred (chunks : List (List TextCell))

/-- `chunks().size()`. -/
def Column.chunkNum : Column D → Nat
  | .strings chunks | .inferred chunks => chunks.length
  | .int64 _ | .float64 _ => 1

def Column.length : Column D → Nat
  | .strings chunks | .inferred chunks => chunks.flatten.length
  | .int64 array => array.length
  | .float64 array => array.length

/-- `arrow::Table`. -/
structure Table (D : Type) where
  numRows : Nat
  columns : List (String × Column D)
  length_eq : ∀ c ∈ columns, c.2.length = numRows

/-- `SetColumn`, which refuses a column of another length. -/
def Table.setColumn (t : Table D) (i : Nat) (name : String) (c : Column D) :
    Option (Table D) :=
  if h : c.length = t.numRows then
    some ⟨t.numRows, t.columns.set i (name, c), fun d hd =>
      (List.mem_or_eq_of_mem_set hd).elim (t.length_eq d) fun heq =>
        heq ▸ h⟩
  else none

-- ================================================================== the file

/-- The values of `col_and_dtype_`: 1, 3 and 2, or anything else. -/
inductive Dtype
  | int (dtype : IntDtype)
  | double
  | other
  deriving DecidableEq, Repr

/-- The types in `target_column`. -/
def Dtype.numeric : Dtype → Bool
  | .other => false
  | _ => true

/-- The cells of a file, in the blocks Arrow reads it in. -/
structure CsvFile where
  columns : List (String × List (List TextCell))
  /-- the rows of each block -/
  blocks : List Nat
  blocks_eq : ∀ c ∈ columns, c.2.map List.length = blocks

/-- `local_col_names`. -/
def CsvFile.names (file : CsvFile) : List String := file.columns.map Prod.fst

/-- Whether a column is one of `expect_type`. -/
def expectType (requests : List (String × Dtype)) (name : String) : Bool :=
  requests.any fun request => request.1 = name && request.2.numeric

/-- `_LoadDatasetFromCSV`. -/
def loadDatasetFromCSV (D : Type) (requests : List (String × Dtype))
    (file : CsvFile) : Table D where
  numRows := file.blocks.sum
  columns := file.columns.map fun c =>
    (c.1, if expectType requests c.1 then .strings c.2 else .inferred c.2)
  length_eq c hc := by
    obtain ⟨d, hd, rfl⟩ := List.mem_map.mp hc
    rw [← file.blocks_eq d hd]
    dsimp only
    split
    · exact List.length_flatten
    · exact List.length_flatten

-- ================================================================= one column

/-- The accumulators of a column. -/
structure Accumulators (V : Type) where
  sum : V
  max : V
  min : V
  nullNum : Nat
  abnormalNum : Nat

def Accumulators.start (num : Numbers V) : Accumulators V :=
  ⟨num.zero, num.maxStart, num.minStart, 0, 0⟩

/-- The body of the loop over the cells of a chunk. -/
def Accumulators.cell (num : Numbers V) (a : Accumulators V) :
    TextCell → Accumulators V
  | none => { a with nullNum := a.nullNum + 1 }
  | some str =>
      match num.convert str with
      | none => { a with abnormalNum := a.abnormalNum + 1 }
      | some v =>
          { a with
            sum := num.add a.sum v
            max := if num.less a.max v then v else a.max
            min := if num.less v a.min then v else a.min }

/-- A text that cannot be converted. -/
def abnormal (num : Numbers V) : TextCell → Bool
  | none => false
  | some str => (num.convert str).isNone

/-- The loop over the chunks: the accumulators and `abnormal_index`. -/
def accumulate (num : Numbers V) (chunkNum : Nat)
    (chunks : List (List TextCell)) :
    Option (Accumulators V × List (List Nat)) :=
  if chunkNum ≤ chunks.length then
    let scanned := chunks.take chunkNum
    some
      (scanned.foldl (fun a chunk => chunk.foldl (Accumulators.cell num) a)
        (Accumulators.start num),
      scanned.map (positions (abnormal num)))
  else none

/-- What a party feeds into the MPC step. -/
structure LocalStats (V : Type) where
  sum : V
  /-- a `uint32_t` -/
  count : BitVec 32
  max : V
  min : V

def Accumulators.stats (a : Accumulators V) (numRows : Nat) : LocalStats V :=
  ⟨a.sum, BitVec.ofInt 32 (numRows - a.nullNum - a.abnormalNum), a.max, a.min⟩

/-- A chunk of `new_col_val`. -/
def newColVal (replace : List Char) (chunk : List TextCell)
    (abnormalIndex : List Nat) : List (List Char) :=
  overwrite abnormalIndex replace (chunk.map (·.getD replace))

/-- `_buildNewColumn`. The texts are combined in `new_col_val[0]`. -/
def buildNewColumn (num : Numbers V) (chunks : List (List TextCell))
    (replace : List Char) (abnormalIndex : List (List Nat)) :
    Option (List V) :=
  if chunks.length ≤ abnormalIndex.length ∧ chunks ≠ [] then
    (List.zipWith (newColVal replace) chunks abnormalIndex).flatten.mapM
      fun str => (num.read str).map Prod.fst
  else none

/-- Scanning a column, revealing a value and `replaceValue`. -/
def processColumn (num : Numbers V) (toColumn : List V → Column D)
    (reveal : LocalStats V → V) (chunkNum : Nat) (name : String)
    (colIndex : Nat) (t : Table D) : Option (LocalStats V × Table D) :=
  match t.columns[colIndex]? with
  | some (_, .strings chunks) => do
      let (a, abnormalIndex) ← accumulate num chunkNum chunks
      let stats := a.stats t.numRows
      let newArray ← buildNewColumn num chunks (num.print (reveal stats))
        abnormalIndex
      let t' ← t.setColumn colIndex name (toColumn newArray)
      some (stats, t')
  | _ => none

-- =================================================================== the loop

/-- What the parties reveal for a column, by what this party feeds in: the
value `replaceValue` is called with. -/
structure Revealed (D : Type) where
  int : String → LocalStats I64 → I64
  double : String → LocalStats D → D

/-- The table, and what was fed into the MPC steps so far. -/
structure State (D : Type) where
  table : Table D
  fedInt : List (String × LocalStats I64)
  fedDouble : List (String × LocalStats D)

/-- The body of the loop over `col_and_dtype_`. -/
def executeColumn (dbl : Numbers D) (revealed : Revealed D)
    (localColNames : List String) (s : State D) (request : String × Dtype) :
    Option (State D) :=
  match localColNames.idxOf? request.1 with
  | none => some s
  | some colIndex =>
      match request.2 with
      | .int _ => do
          -- the chunks of column 0, for any column
          let first ← s.table.columns[0]?
          let (stats, table) ← processColumn int64 .int64
            (revealed.int request.1) first.2.chunkNum request.1 colIndex
            s.table
          some { s with table, fedInt := (request.1, stats) :: s.fedInt }
      | .double => do
          let column ← s.table.columns[colIndex]?
          let (stats, table) ← processColumn dbl .float64
            (revealed.double request.1) column.2.chunkNum request.1 colIndex
            s.table
          some
            { s with table, fedDouble := (request.1, stats) :: s.fedDouble }
      | .other => some s

/-- `execute`, after the entries `done` of `col_and_dtype_`. -/
def executeColumns (dbl : Numbers D) (revealed : Revealed D)
    (file : CsvFile) (requests done : List (String × Dtype)) :
    Option (State D) :=
  done.foldlM (executeColumn dbl revealed file.names)
    ⟨loadDatasetFromCSV D requests file, [], []⟩

-- ==================================================== what it is there for

/-- The number in a cell. -/
def parsedCell (num : Numbers V) (cell : TextCell) : Option V :=
  cell.bind num.convert

/-- The parsable cells of a column. -/
def parsable (num : Numbers V) (chunks : List (List TextCell)) : List V :=
  chunks.flatten.filterMap (parsedCell num)

/-- A column with `v` in its null and unparsable cells. -/
def replaced (num : Numbers V) (v : V) (chunks : List (List TextCell)) :
    List V :=
  chunks.flatten.map fun cell => (parsedCell num cell).getD v

/-- Local values are those of some numbers. -/
structure StatsOf (stats : LocalStats I64) (values : List I64) : Prop where
  count : stats.count.toNat = values.length
  sum : stats.sum.toInt = (values.map BitVec.toInt).sum
  max : values ≠ [] → IsMaximum values stats.max
  min : values ≠ [] → IsMinimum values stats.min

/-- A request finds a column of the file. -/
structure Finds (file : CsvFile) (name : String) (i : Nat)
    (chunks : List (List TextCell)) : Prop where
  index : file.names.idxOf? name = some i
  column : file.columns[i]? = some (name, chunks)

/-- A state is right when some requests are done. -/
structure Processed (dbl : Numbers D) (revealed : Revealed D) (file : CsvFile)
    (requests done : List (String × Dtype)) (s : State D) : Prop where
  int : ∀ {name dtype i chunks}, (name, .int dtype) ∈ done →
    Finds file name i chunks →
      ∃ stats, s.fedInt.lookup name = some stats
        ∧ StatsOf stats (parsable int64 chunks)
        ∧ s.table.columns[i]? = some (name,
          .int64 (replaced int64 (revealed.int name stats) chunks))
  double : ∀ {name i chunks}, (name, .double) ∈ done →
    Finds file name i chunks →
      ∃ stats, s.fedDouble.lookup name = some stats
        ∧ s.table.columns[i]? = some (name, .float64
          (replaced dbl (dbl.printed (revealed.double name stats)) chunks))
  others : ∀ i, (∀ request ∈ done, request.2.numeric = true →
      file.names.idxOf? request.1 ≠ some i) →
    s.table.columns[i]? = (loadDatasetFromCSV D requests file).columns[i]?

/-- The loop does its work, at each point of it. -/
def ReplacesMissing (dbl : Numbers D) (revealed : Revealed D)
    (file : CsvFile) (requests : SortedMap String Dtype) : Prop :=
  ∀ done rest, requests.entries = done ++ rest →
    ∃ s, executeColumns dbl revealed file requests.entries done = some s
      ∧ Processed dbl revealed file requests.entries done s

-- ============================================================ the condition

/-- The first column of the table is asked for and comes before `name`. -/
def FirstBefore (file : CsvFile) (requests : List (String × Dtype))
    (name : String) : Prop :=
  ∃ request ∈ requests, request.2.numeric = true
    ∧ file.names.head? = some request.1 ∧ request.1 < name

/-- The columns that are found have chunks; an integer column that comes
after the first column has only one; and the count and the sum of an
integer column fit their types. -/
structure Fitting (file : CsvFile) (requests : List (String × Dtype)) :
    Prop where
  chunks : ∀ {name dtype i chunks}, (name, dtype) ∈ requests →
    dtype.numeric = true → Finds file name i chunks → chunks ≠ []
  int : ∀ {name dtype i chunks}, (name, .int dtype) ∈ requests →
    Finds file name i chunks →
      (FirstBefore file requests name → chunks.length = 1)
        ∧ (parsable int64 chunks).length < 2 ^ 32
        ∧ -2 ^ 63 ≤ ((parsable int64 chunks).map BitVec.toInt).sum
        ∧ ((parsable int64 chunks).map BitVec.toInt).sum < 2 ^ 63

end PrimiHub.Algorithm
