/-
The two functions that read a table into the strings a PSI task compares,
each on its own: `PsiCommonUtil::ExtractDataFromTrunkArray` and
`PsiCommonUtil::ExtractDataFromArray` (kernel/psi/util.cc).

`loadDatasetFromTable` is their caller: it takes the second for a table in
one chunk, the first for any other, and does not look at what they return
(`load_extracts`). Both share out the work of a column to threads and end
with the first column that is cut into another number of chunks.
-/
import PrimiHub.Psi.Dataset

namespace PrimiHub.Psi

/-- The chunks of the first column. -/
def Table.firstChunks (t : Table) : List (List Bytes) :=
  (t.columns.head?.map (·.chunks)).getD []

/-- The rows a thread writes. -/
def Job.rows (job : Job) : List Nat := List.range' job.start job.cells.length

/-- The threads of `ExtractDataFromTrunkArray` for a column. -/
def trunkJobs (cores : Nat) (table : Table) (c : Column) : List Job :=
  chunkJobs (chunkShares cores table.firstChunks.length)
    (table.firstChunks.map List.length) c.chunks

/-- The threads of `ExtractDataFromArray` for a column. -/
def arrayJobs (cores : Nat) (table : Table) (c : Column) : List Job :=
  rowJobs (rowShares cores table.numRows) table.numRows c.cells

/-- "get rest data". -/
def extractRest (jobs : Column → List Job) (chunkSize : Nat) :
    List Column → Loaded → Except LoadError Loaded
  | [], loaded => .ok loaded
  | c :: rest, loaded =>
      -- "trunk size does not match"
      if c.chunks.length ≠ chunkSize then .error .fail
      else
        extractRest jobs chunkSize rest
          { data := runJobs (fun cell text => text ++ dataRecordSep ++ cell)
              (jobs c) loaded.data
            names := loaded.names ++ [c.name] }

/-- The first column, and the rest. -/
def extractColumns (jobs : Column → List Job) (rows : Nat) (first : Column)
    (rest : List Column) : Except LoadError Loaded :=
  extractRest jobs first.chunks.length rest
    { data := runJobs (fun cell _ => cell) (jobs first)
        (List.replicate rows [])
      names := [first.name] }

/-- `ExtractDataFromTrunkArray`. -/
def extractDataFromTrunkArray (cores : Nat) (table : Table) :
    Except LoadError Loaded :=
  match table.columns with
  | [] => .error .undefined
  | first :: rest =>
      -- `thread_num` is 0, and `chunk_size / thread_num` is computed
      if first.chunks.length = 0 then .error .undefined
      else extractColumns (trunkJobs cores table) table.numRows first rest

/-- `ExtractDataFromArray`. -/
def extractDataFromArray (cores : Nat) (table : Table) :
    Except LoadError Loaded :=
  match table.columns with
  | [] => .error .undefined
  | first :: rest =>
      let shares := rowShares cores table.numRows
      -- "using ExtractDataFromTrunkArray instead"
      if first.chunks.length ≠ 1 then .error .fail
      -- `(i + 1) * element_per_thread` leaves `int32_t`
      else if 2 ^ 31 ≤ shares.threadNum * shares.perThread then
        .error .undefined
      else extractColumns (arrayJobs cores table) table.numRows first rest

-- =========================================================== specification

/-- One loop over the rows. -/
def extractSequentially (table : Table) : List Bytes :=
  (List.range table.numRows).map fun r =>
    dataRecordSep.intercalate (table.row r)

/-- The threads of every column write every row once, and the strings are
those of the loop over the rows. -/
structure ExtractsRows (jobs : Column → List Job) (table : Table)
    (result : Except LoadError Loaded) : Prop where
  ranges : ∀ c ∈ table.columns,
    ((jobs c).flatMap Job.rows).Perm (List.range table.numRows)
  data : ∃ loaded, result = .ok loaded
    ∧ loaded.data = extractSequentially table

/-- Both functions do, the second for a table in one chunk. -/
structure ExtractsEveryRow (cores : Nat) (table : Table) : Prop where
  trunk : ExtractsRows (trunkJobs cores table) table
    (extractDataFromTrunkArray cores table)
  array : table.firstChunks.length = 1 →
    ExtractsRows (arrayJobs cores table) table
      (extractDataFromArray cores table)

/-- The columns are cut at the same rows. -/
def SameLayout (table : Table) : Prop :=
  ∀ c ∈ table.columns,
    c.chunks.map List.length = table.firstChunks.map List.length

instance (table : Table) : Decidable (SameLayout table) :=
  inferInstanceAs (Decidable (∀ c ∈ table.columns, _))

/-- `thread_num` of `ExtractDataFromArray`, before the thread for the rest. -/
def rowThreads (cores rows : Nat) : Nat :=
  if rows < 100000 ∨ rows ≤ max (cores / 2 - 1) 1 then 1
  else max (cores / 2 - 1) 1

/-- The rest is no larger than a share, and the shares stay in `int32_t`. -/
def SharesSuffice (cores rows : Nat) : Prop :=
  rows % rowThreads cores rows ≤ rows / rowThreads cores rows
    ∧ rows / rowThreads cores rows
      * (if rows % rowThreads cores rows = 0 then rowThreads cores rows
        else rowThreads cores rows + 1) < 2 ^ 31

instance (cores rows : Nat) : Decidable (SharesSuffice cores rows) :=
  inferInstanceAs (Decidable (_ ∧ _))

end PrimiHub.Psi
