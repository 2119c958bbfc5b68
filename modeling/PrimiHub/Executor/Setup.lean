/-
An expression task from the columns to the result: what each party does
before and after `runMPCEvaluate`, in the order of the method groups of
`executor/express.h`, and what the local executor does with all columns
in one place.

The columns of a task all have one length and different names. Every
party imports the owner and the type of every column, and the values of
its own columns. A party that owns none imports no values, so its
`val_count_` stays at -1.
-/
import PrimiHub.Executor.Evaluate

namespace PrimiHub.Executor

variable {D : Type}

/-- A column and the party it belongs to. -/
structure Column where
  name : Str
  owner : Party
  values : List I64

/-- The columns of a task, all of length `n`. -/
structure Pool (n : Nat) where
  columns : List Column
  nodup : (columns.map Column.name).Nodup
  length : ∀ c ∈ columns, c.values.length = n

-- ========================================================== one party

/-- `importColumnOwner` for every column. -/
def importOwners (columns : List Column) (cfg : ColumnConfig) :
    Except Fault ColumnConfig :=
  columns.foldlM (fun cfg c => cfg.importColumnOwner c.name c.owner.val) cfg

/-- `importColumnDtype` for every column; the callers ignore the code. -/
def importDtypes (columns : List Column) (cfg : ColumnConfig) :
    ColumnConfig :=
  columns.foldl (fun cfg c => (cfg.importColumnDtype c.name .int64).2) cfg

/-- Method group 1, and the part of group 3 that marks the party's own
columns. -/
def partyConfig (columns : List Column) (p : Party) :
    Except Fault ColumnConfig := do
  let cfg ← importOwners columns (.init p.val)
  (importDtypes columns cfg).resolveLocalColumn

/-- `importColumnValues` for the given columns; the callers ignore the
code. -/
def importValues (cast : I64 → D) (cfg : ColumnConfig)
    (columns : List Column) (feed : FeedDict D) : Except Fault (FeedDict D) :=
  columns.foldlM (fun feed c => do
    let r ← feed.importColumnValuesI64 cast cfg c.name c.values
    .ok r.2) feed

/-- A party of an integer run, with the values of its own columns. -/
def partyEnv (cast : I64 → D) (typeMap : Map TokenType)
    (columns : List Column) (p : Party) : Except Fault (PartyEnv D) := do
  let cfg ← partyConfig columns p
  let feed ← importValues cast cfg (columns.filter fun c => c.owner = p)
    (.init false)
  .ok ⟨typeMap, cfg, feed⟩

/-- The task at all three parties: evaluate the compiled expression and
reveal it to `parties`; the result is `val_vec` of party `me`. -/
def secureRun (lib : ShareLib) (cast : I64 → D) (typeMap : Map TokenType)
    (columns : List Column) (suffixStk : List Str) (parties : List Party)
    (me : Party) : Except Fault (List I64) := do
  let env0 ← partyEnv cast typeMap columns 0
  let env1 ← partyEnv cast typeMap columns 1
  let env2 ← partyEnv cast typeMap columns 2
  let val ← runMPCEvaluate lib ![env0, env1, env2] suffixStk
  revealMPCResult parties me val

-- ================================================= the local executor

/-- `createNewColumnConfig`: every column counts as local. -/
def ColumnConfig.newColumnConfig (cfg : ColumnConfig) : ColumnConfig :=
  ⟨cfg.partyId, [], cfg.colDtype, cfg.localCol.map fun c => (c.1, true)⟩

/-- `LocalExpressExecutor::init` on an executor of party `p`, with the
values of all columns. -/
def localEnv (cast : I64 → D) (typeMap : Map TokenType)
    (columns : List Column) (p : Party) : Except Fault (LocalEnv D) := do
  let cfg ← partyConfig columns p
  let feed ← importValues cast cfg.newColumnConfig columns (.init false)
  .ok ⟨typeMap, cfg.newColumnConfig, feed⟩

/-- The task in one place: `init` and `runLocalEvaluate`, on an executor
whose `suffix_stk_` the secure run has used up. -/
def plainRun (cast : I64 → D) (typeMap : Map TokenType)
    (columns : List Column) (expr : Str) (p : Party) :
    Except Fault (List I64) := do
  let env ← localEnv cast typeMap columns p
  runLocalEvaluate env ⟨[], expr⟩

end PrimiHub.Executor
