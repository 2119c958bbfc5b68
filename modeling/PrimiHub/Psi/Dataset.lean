/-
The records a PSI task compares: `PsiCommonUtil::LoadDatasetFromTable` in
its two forms and `SaveDataToCSVFile` (kernel/psi/util.cc), with
`str_split` (util/util.cc).

# Two loaders

The loader a PSI task uses reads every selected column as strings and puts
`DATA_RECORD_SEP` between the fields of a row (`ExtractDataFromArray` for
a table in one chunk, `ExtractDataFromTrunkArray` otherwise). The other
form keeps the columns' own types and appends one field after the other.

# Threads

Each column is one pass over the rows, shared out among threads: rows
where the table is one chunk, chunks where it is several. A thread writes
rows of its own, so the order in which they run does not show and the
model runs them in turn. How many there are depends on the machine
(`cores` is `hardware_concurrency`), and so does what they are given.

# Tables

A column is its chunks; a cell is the text the loop reads there, by
`GetString` or `to_string`. Columns of a table that are cut into equally
many chunks are cut at the same rows: a driver builds them from the same
record batches, or each as one array.
-/
import PrimiHub.Lib.Split

namespace PrimiHub.Psi

open Lib

/-- The bytes of a `std::string`. -/
abbrev Bytes := List UInt8

/-- The byte `'#'`. -/
def hash : UInt8 := 35

/-- `DATA_RECORD_SEP`. -/
def dataRecordSep : Bytes := [hash, hash, hash, hash]

/-- `arrow::Type`, as `isNumeric64Type`, `isNumeric32Type` and `isString`
tell types apart. -/
inductive ColumnType
  | numeric64
  | numeric32
  | string
  | other (name : String)
deriving DecidableEq, Repr

structure Column where
  name : String
  type : ColumnType
  chunks : List (List Bytes)

/-- The cells of a column, from the first row to the last. -/
def Column.cells (c : Column) : List Bytes := c.chunks.flatten

/-- The selected columns of a dataset. -/
structure Table where
  columns : List Column
  numRows : Nat
  cells_length : ∀ c ∈ columns, c.cells.length = numRows
  batched : ∀ c ∈ columns, ∀ d ∈ columns,
    c.chunks.length = d.chunks.length →
      c.chunks.map List.length = d.chunks.map List.length

/-- The fields of a row. -/
def Table.row (t : Table) (i : Nat) : List Bytes :=
  t.columns.map fun c => c.cells.getD i []

-- ================================================== a pass over a column

/-- What one thread does: put cells into consecutive rows. -/
structure Job where
  start : Nat
  cells : List Bytes

/-- The cells `s` to `e` of a list. -/
def slice {β : Type} (l : List β) (s e : Nat) : List β :=
  (l.drop s).take (e - s)

/-- The loop of one thread; `f` makes the row's new text of the cell and
the row's text so far. -/
def writeCells (f : Bytes → Bytes → Bytes) (job : Job)
    (data : List Bytes) : List Bytes :=
  data.mapIdx fun j text =>
    if job.start ≤ j ∧ j < job.start + job.cells.length then
      f (job.cells.getD (j - job.start) []) text
    else text

/-- All threads of a pass. -/
def runJobs (f : Bytes → Bytes → Bytes) (jobs : List Job)
    (data : List Bytes) : List Bytes :=
  jobs.foldl (fun data job => writeCells f job data) data

/-- How a pass shares out its work: how much a thread gets, and how many
threads there are. -/
structure Shares where
  perThread : Nat
  threadNum : Nat

/-- Divide `total` among threads, with one more for a remainder. -/
def Shares.of (total threads : Nat) : Shares :=
  let perThread := total / threads
  { perThread := perThread
    threadNum := if perThread * threads < total then threads + 1 else threads }

/-- The row shares of `ExtractDataFromArray`. -/
def rowShares (cores rows : Nat) : Shares :=
  let threadNum := max (cores / 2 - 1) 1
  Shares.of rows (if rows < 100000 ∨ rows ≤ threadNum then 1 else threadNum)

/-- The chunk shares of `ExtractDataFromTrunkArray`. -/
def chunkShares (cores chunks : Nat) : Shares :=
  let threadNum := max (min (cores / 2 - 1) 10) 1
  Shares.of chunks (if chunks ≤ threadNum then chunks else threadNum)

def rowJobs (shares : Shares) (rows : Nat) (cells : List Bytes) : List Job :=
  (List.range shares.threadNum).map fun i =>
    { start := i * shares.perThread
      cells := slice cells (i * shares.perThread)
        (min ((i + 1) * shares.perThread) rows) }

/-- A thread finds its first row from the chunk lengths of the table's
first column, `trunk_index_map`. -/
def chunkJobs (shares : Shares) (trunkIndexMap : List Nat)
    (chunks : List (List Bytes)) : List Job :=
  (List.range shares.threadNum).map fun i =>
    let chunkS := i * shares.perThread
    let chunkE := if i = shares.threadNum - 1 then chunks.length
      else (i + 1) * shares.perThread
    { start := (trunkIndexMap.take chunkS).sum
      cells := (slice chunks chunkS chunkE).flatten }

/-- The threads of the pass over a column, in a table with this first
column and this many rows. -/
def columnJobs (cores rows : Nat) (first c : Column) : List Job :=
  if first.chunks.length = 1 then
    rowJobs (rowShares cores rows) rows c.cells
  else
    chunkJobs (chunkShares cores first.chunks.length)
      (first.chunks.map List.length) c.chunks

-- ======================================================== the loaders

/-- How loading can end without data. -/
inductive LoadError
  /-- `retcode::FAIL` -/
  | fail
  /-- `RaiseException` -/
  | raised (message : String)
  /-- a division by zero or an `int32_t` overflow -/
  | undefined
deriving DecidableEq, Repr

/-- `col_data` and `col_name`. -/
structure Loaded where
  data : List Bytes
  names : List String

/-- "get rest data": one pass for each further column, up to the first one
that is cut into another number of chunks. -/
def appendColumns (cores rows : Nat) (first : Column) :
    List Column → Loaded → Loaded
  | [], loaded => loaded
  | c :: rest, loaded =>
      let names := loaded.names ++ [c.name]
      if c.chunks.length ≠ first.chunks.length then
        { loaded with names := names }
      else
        appendColumns cores rows first rest
          { data := runJobs (fun cell text => text ++ dataRecordSep ++ cell)
              (columnJobs cores rows first c) loaded.data
            names := names }

/-- `LoadDatasetFromTable` as a PSI task calls it. It does not look at
what the extraction returned. -/
def loadDatasetFromTable (cores : Nat) (table : Table) :
    Except LoadError Loaded :=
  match table.columns with
  | [] => .error .fail
  | first :: rest =>
      let shares := rowShares cores table.numRows
      if first.chunks.length = 0 then .error .undefined
      else if first.chunks.length = 1
          ∧ 2 ^ 31 ≤ shares.threadNum * shares.perThread then
        .error .undefined
      else
        .ok (appendColumns cores table.numRows first rest
          { data := runJobs (fun cell _ => cell)
              (columnJobs cores table.numRows first first)
              (List.replicate table.numRows [])
            names := [first.name] })

/-- The loop of the other form over the columns. -/
def appendTyped : List Column → List Bytes → Except LoadError (List Bytes)
  | [], data => .ok data
  | c :: rest, data =>
      match c.type with
      | .other name =>
          .error (.raised ("Unsupported data type for Psi: type: " ++ name))
      | _ =>
          appendTyped rest
            (writeCells (fun cell text => text ++ cell) ⟨0, c.cells⟩ data)

/-- `LoadDatasetFromTable` into `col_array`. -/
def loadTypedDatasetFromTable (table : Table) :
    Except LoadError (List Bytes) :=
  appendTyped table.columns (List.replicate table.numRows [])

-- ========================================================== the result

/-- The rows of `SaveDataToCSVFile`, split into fields again. -/
def splitRecords (columns : Nat) :
    List Bytes → Except LoadError (List (List Bytes))
  | [] => .ok []
  | record :: rest => do
      let fields := strSplit dataRecordSep record
      if fields.length ≠ columns then
        .error (.raised ("number of data columns does not match, expected: "
          ++ toString columns ++ ", but get: " ++ toString fields.length))
      else
        let rest ← splitRecords columns rest
        return fields :: rest

/-- `SaveDataToCSVFile`: the columns it hands to the CSV writer. -/
def saveDataToCsvFile (data : List Bytes) (names : List String) :
    Except LoadError (List (List Bytes)) :=
  if names.length = 1 then .ok [data]
  else do
    let rows ← splitRecords names.length data
    return (List.range names.length).map fun j =>
      rows.map fun fields => fields.getD j []

end PrimiHub.Psi
