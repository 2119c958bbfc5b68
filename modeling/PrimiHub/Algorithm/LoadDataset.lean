/-
`ArithmeticExecutor::loadDataset` of `algorithm/arithmetic.cc`, for a
task that is not a CMP task: the party's table is read into two maps by
the types the task demands, the expression is compiled and its run mode
resolved, and the values of one of the maps are imported.

# Columns

A column of an Arrow table is a list of chunks. The code reads chunks of
`int64` and of `double`; a chunk of another type is known here by its
length alone, since reading it as a `DoubleArray` is undefined. `Value(j)`
does not look at the validity bitmap, so a value is what the buffer has.

# Maps

A `std::map` is an association list here, in the order of insertion
instead of the order of the keys. The loops over maps below import
columns one by one under different names, so the order shows in messages
alone. What `loadParams` has put into `col_and_owner_` and
`col_and_dtype_` is the input.
-/
import PrimiHub.Algorithm.Arithmetic

namespace PrimiHub.Algorithm.ArithmeticExecutor

open Executor (I64 Str text Map Fault ColDtype ColumnConfig FeedDict TokenType
  Compiler importExpress resolveRunMode operandTokens)

-- ================================================================ the table

/-- The chunks of a column. -/
inductive Chunks (D : Type)
  | int64 (chunks : List (List I64))
  | double (chunks : List (List D))
  | other (lengths : List Nat)

structure TableColumn (D : Type) where
  name : Str
  chunks : Chunks D

variable {D : Type}

/-- The sum of the chunks' lengths. -/
def Chunks.length : Chunks D → Nat
  | .int64 chunks => (chunks.map List.length).sum
  | .double chunks => (chunks.map List.length).sum
  | .other lengths => lengths.sum

/-- `std::map::insert`, which keeps an entry that is there. -/
def insertNew {V : Type} (map : Map V) (name : Str) (v : V) : Map V :=
  if (map.lookup name).isSome then map else map ++ [(name, v)]

-- ================================================================= the task

/-- A task that is not a CMP task, at one party. -/
structure ExprTask where
  partyName : Str
  partyId : Nat
  colAndOwner : Map Nat
  colAndDtype : Map Bool
  expr : Str
  nodup_owner : (colAndOwner.map Prod.fst).Nodup
  nodup_dtype : (colAndDtype.map Prod.fst).Nodup
  not_cmp : isCmp expr = false

/-- `col_and_val_int` and `col_and_val_double`. -/
structure ColAndVal (D : Type) where
  int : Map (List I64)
  double : Map (List D)

-- ======================================================== _LoadDatasetFromCSV

def typeMessage : Str :=
  text "Local data type is inconsistent with the demand data "
    ++ text "type!Demand data type is int,but local data type is "
    ++ text "double!Please input consistent data type!"

def lengthMessage (task : ExprTask) (name : Str) (tmpLen arrayLen : Nat) :
    Str :=
  text "Party: " ++ task.partyName ++ text ", " ++ text "Column " ++ name
    ++ text " has " ++ Nat.toDigits 10 tmpLen
    ++ text " value, but other column has " ++ Nat.toDigits 10 arrayLen
    ++ text " value."

/-- The loop body for one column. `GetFieldByName` finds no field where
two have the name. -/
def loadColumn (cast : I64 → D) (task : ExprTask)
    (table : List (TableColumn D)) (arrayLen : Nat) (acc : ColAndVal D)
    (col : TableColumn D) : Except Fault (ColAndVal D) :=
  match task.colAndDtype.lookup col.name with
  | none => .ok acc
  | some dtype =>
      if table.countP (fun c => c.name == col.name) ≠ 1 then
        .error .undefined
      else if dtype = false then
        match col.chunks with
        | .int64 chunks =>
            if col.chunks.length ≠ arrayLen then
              .error (.raised
                (lengthMessage task col.name col.chunks.length arrayLen))
            else .ok { acc with
              int := insertNew acc.int col.name chunks.flatten }
        | .double _ => .error (.raised typeMessage)
        | .other _ => .error (.raised typeMessage)
      else
        match col.chunks with
        | .int64 chunks =>
            if col.chunks.length ≠ arrayLen then
              .error (.raised
                (lengthMessage task col.name col.chunks.length arrayLen))
            else .ok { acc with
              double := insertNew acc.double col.name
                (chunks.flatten.map cast) }
        | .double chunks =>
            if col.chunks.length ≠ arrayLen then
              .error (.raised
                (lengthMessage task col.name col.chunks.length arrayLen))
            else .ok { acc with
              double := insertNew acc.double col.name chunks.flatten }
        | .other _ => .error .undefined

/-- `_LoadDatasetFromCSV`, from the table the driver's cursor has read, if
it has: the return code, an `int`, and the two maps. -/
def loadDatasetFromCSV (cast : I64 → D) (task : ExprTask)
    (table : Option (List (TableColumn D))) :
    Except Fault (Int × ColAndVal D) :=
  match table with
  | none => .ok (-1, ⟨[], []⟩)
  | some table =>
      match table.getLast? with
      | none => .error .undefined
      | some last => do
          let arrayLen := last.chunks.length
          let r ← table.foldlM (loadColumn cast task table arrayLen) ⟨[], []⟩
          .ok ((BitVec.ofNat 32 arrayLen).toInt, r)

-- =============================================================== loadDataset

/-- The parts of `mpc_exec_` the task has filled. -/
structure MpcExec (D : Type) where
  colConfig : ColumnConfig
  compiler : Compiler
  typeMap : Map TokenType
  feedDict : FeedDict D

/-- The owners, imported into a new configuration. -/
def importOwnersOf (task : ExprTask) : Except Fault ColumnConfig :=
  task.colAndOwner.foldlM (fun cfg c => cfg.importColumnOwner c.1 c.2)
    (.init task.partyId)

/-- The types; the codes are ignored. -/
def importDtypesOf (task : ExprTask) (cfg : ColumnConfig) : ColumnConfig :=
  task.colAndDtype.foldl
    (fun cfg c => (cfg.importColumnDtype c.1 (if c.2 then .fp64 else .int64)).2)
    cfg

/-- The loop over one of the maps, with the overload of its values; the
codes are ignored. -/
def importValuesOf {V : Type}
    (importColumnValues : Str → List V → FeedDict D →
      Except Fault (Int × FeedDict D))
    (map : Map (List V)) (feed : FeedDict D) : Except Fault (FeedDict D) :=
  map.foldlM (fun feed c => do
    let r ← importColumnValues c.1 c.2 feed
    .ok r.2) feed

/-- The last lines of `loadDataset`: which of the maps is imported. -/
def importColAndVal (cast : I64 → D) (cfg : ColumnConfig)
    (vals : ColAndVal D) (feed : FeedDict D) : Except Fault (FeedDict D) :=
  if vals.double ≠ [] then
    importValuesOf (FeedDict.importColumnValuesFP64 cfg) vals.double feed
  else
    importValuesOf (FeedDict.importColumnValuesI64 cast cfg) vals.int feed

/-- `loadDataset`, on a new executor. -/
def loadDataset (cast : I64 → D) (task : ExprTask)
    (table : Option (List (TableColumn D))) : Except Fault (MpcExec D) := do
  let (ret, vals) ← loadDatasetFromCSV cast task table
  if ret ≤ 0 then .error (.returned (-1))
  else
    let cfg ← importOwnersOf task
    let cfg := importDtypesOf task cfg
    let (_, compiler) ← importExpress task.expr .fresh
    let (cfg, typeMap, fp64Run) ← resolveRunMode cfg [] compiler.suffixStk
    let feed ← importColAndVal cast cfg vals (.init fp64Run)
    .ok ⟨cfg, compiler, typeMap, feed⟩

-- =============================================== what the task is there for

/-- The values of a column as integers. -/
def Chunks.ints : Chunks D → Option (List I64)
  | .int64 chunks => some chunks.flatten
  | _ => none

/-- The values of a column as doubles. -/
def Chunks.doubles (cast : I64 → D) : Chunks D → Option (List D)
  | .int64 chunks => some (chunks.flatten.map cast)
  | .double chunks => some chunks.flatten
  | .other _ => none

/-- The column's values are in the feed, in the map of the run mode. -/
def Fed (cast : I64 → D) (feed : FeedDict D) (col : TableColumn D) : Prop :=
  if feed.floatRun then
    ∃ vec, col.chunks.doubles cast = some vec
      ∧ feed.fp64Col.lookup col.name = some vec
  else
    ∃ vec, col.chunks.ints = some vec
      ∧ feed.int64Col.lookup col.name = some vec

/-- A column of the party's own that is named in the expression. -/
def ExprTask.Names (task : ExprTask) (suffixStk : List Str)
    (col : TableColumn D) : Prop :=
  col.name ∈ operandTokens suffixStk
    ∧ task.colAndOwner.lookup col.name = some task.partyId

/-- A column of demanded type double. -/
def ExprTask.Double (task : ExprTask) (col : TableColumn D) : Prop :=
  task.colAndDtype.lookup col.name = some true

end PrimiHub.Algorithm.ArithmeticExecutor
