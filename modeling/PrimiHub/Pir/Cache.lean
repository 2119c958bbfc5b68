/-
Cached databases of the keyword PIR server: `PirTask::ParseQueryConfig`,
`BuildOptions` (task/semantic/pir_task.cc) and where
`KeywordPirOperatorServer::OnExecute` (keyword_pir_server.cc) saves a
database.

An offline task has a "DbInfo" parameter: the path its database is saved
under. An online task makes a path of its dataset id and its key columns,
and uses what is there. The label columns are not in that name, and what
wrote the file is nowhere noted; here every saved database keeps what it was
made from.

Files are found by the operating system: `FileSystem.resolve` is the file a
path names, `FileSystem.directories` are the directories that `ValidateDir`
leaves behind for a path. "data/cache/./a" is the file "data/cache/a"
(`pathFiles`), so an id that is not the name of a file has no name of its
own in the cache.
-/
import Mathlib.Logic.Function.Basic

namespace PrimiHub.Pir

-- =============================================================== parameters

/-- "SERVER" of the query config: its "key_columns", if there are any. -/
structure ServerQuery where
  keyColumns : Option (List Int)
  deriving DecidableEq, Repr

/-- What a server task is given. -/
structure ServerTask where
  /-- the parameter "DbInfo" -/
  dbInfo : Option String
  /-- the parameter "QueryConfig", and "SERVER" in it -/
  queryConfig : Option (Option ServerQuery)
  /-- `dataset_id_`; empty where none is set -/
  datasetId : String
  /-- `dataset_detail`: `dataset_id_` is an access info, not an id -/
  isDatasetDetail : Bool
  /-- the parameter named as the party -/
  partyParam : Option String
  /-- `server_dataset_schema_` -/
  serverDatasetSchema : List String
  deriving DecidableEq, Repr

/-- The loop over "key_columns" that leaves out what came before. -/
def withoutDup : List Int → List Int → List Int
  | _, [] => []
  | dup, keyIndex :: keys =>
      if keyIndex ∈ dup then withoutDup dup keys
      else keyIndex :: withoutDup (keyIndex :: dup) keys

/-- `server_key_columns_`, after `ParseQueryConfig`. -/
def ServerTask.keyColumns (task : ServerTask) : List Int :=
  match task.queryConfig with
  -- "Server side using column 0 as default keyword"
  | none => [0]
  | some none => []
  | some (some query) => withoutDup [] (query.keyColumns.getD [])

/-- `server_label_columns_`: "label is all fields". -/
def ServerTask.labelColumns (task : ServerTask) : List Nat :=
  match task.queryConfig with
  | some none => []
  | _ => List.range task.serverDatasetSchema.length

/-- The id of the dataset. -/
def ServerTask.cacheId (task : ServerTask) : Option String :=
  if task.isDatasetDetail then task.partyParam else some task.datasetId

/-- How `LoadParams` can end. -/
inductive PirError
  /-- "No label columns secififed for Server side" -/
  | noLabelColumns
  /-- "dataset id is empty for party: " -/
  | datasetIdEmpty
  /-- "dateset id is not set" -/
  | datasetIdNotSet
  deriving DecidableEq, Repr

/-- `ParseQueryConfig` raises for a server without fields. -/
def ServerTask.parseQueryConfig (task : ServerTask) : Except PirError Unit :=
  match task.queryConfig with
  | some (some _) =>
      if task.labelColumns = [] then .error .noLabelColumns else .ok ()
  | _ => .ok ()

/-- `pir::Options`, as far as it is about the database. -/
structure Options where
  useCache : Bool
  generateDb : Bool
  dbPath : String
  deriving DecidableEq, Repr

/-- `db_cache_dir_`. -/
def dbCacheDir : String := "data/cache"

/-- "format of file_name: concat datasetid with key columns, seperated by
_". -/
def cachePath (id : String) (keys : List Int) : String :=
  keys.foldl (fun path keyIndex => path ++ "_" ++ toString keyIndex)
    (dbCacheDir ++ "/" ++ id)

/-- `BuildOptions` for the server; `fileExists` is `DbCacheAvailable`. -/
def buildOptions (fileExists : String → Bool) (task : ServerTask) :
    Except PirError Options :=
  match task.dbInfo with
  | some dbPath =>
      if task.datasetId = "" then .error .datasetIdEmpty
      else .ok { useCache := false, generateDb := true, dbPath }
  | none =>
      if task.datasetId = "" then .error .datasetIdEmpty
      else
        match task.cacheId with
        | none => .error .datasetIdNotSet
        | some id =>
            let dbPath := cachePath id task.keyColumns
            .ok { useCache := fileExists dbPath, generateDb := false, dbPath }

/-- `LoadParams`. -/
def loadParams (fileExists : String → Bool) (task : ServerTask) :
    Except PirError Options := do
  task.parseQueryConfig
  buildOptions fileExists task

-- ==================================================================== files

/-- What a database is made from. -/
structure MadeFrom where
  dataset : Option String
  keys : List Int
  labels : List Nat
  deriving DecidableEq, Repr

/-- What a task makes its database from. -/
def ServerTask.madeFrom (task : ServerTask) : MadeFrom :=
  ⟨task.cacheId, task.keyColumns, task.labelColumns⟩

/-- What stands under a name. -/
inductive Entry
  | directory
  | database (source : MadeFrom)
  deriving DecidableEq, Repr

structure FileSystem (φ : Type) where
  resolve : String → φ
  directories : String → List φ

/-- One step along a path. -/
def enter (dir : List (List Char)) (name : List Char) : List (List Char) :=
  if name = [] ∨ name = ['.'] then dir
  else if name = ['.', '.'] then dir.dropLast
  else dir ++ [name]

/-- Paths from one directory, without links; `mkdir -p` makes what is in
front of the last "/". -/
def pathFiles : FileSystem (List (List Char)) where
  resolve path := (path.toList.splitOn '/').foldl enter []
  directories path :=
    let dir := (path.toList.splitOn '/').dropLast.foldl enter []
    (List.range dir.length).map fun k => dir.take (k + 1)

/-- The files that server tasks share. -/
abbrev Files (φ : Type) := φ → Option Entry

section Tasks

variable {φ : Type} [DecidableEq φ] (fs : FileSystem φ)

/-- `FileExists`: there is something under that path. -/
def fileExists (files : Files φ) (path : String) : Bool :=
  path ≠ "" && (files (fs.resolve path)).isSome

/-- `ValidateDir`. -/
def validateDir (files : Files φ) (path : String) : Files φ :=
  (fs.directories path).foldl
    (fun files dir =>
      if (files dir).isNone then Function.update files dir (some .directory)
      else files) files

/-- A task, and whether its database gets as far as being saved: the dataset
is loaded and the database created. -/
structure Run where
  task : ServerTask
  created : Bool
  deriving DecidableEq, Repr

/-- A server task, from the options to the saved database. Where it uses a
database it changes no file. -/
def runTask (files : Files φ) (run : Run) : Option (Files φ) :=
  match loadParams (fileExists fs files) run.task with
  | .error _ => some files
  | .ok options =>
      if options.generateDb then
        let files := validateDir fs files options.dbPath
        if run.created
            ∧ files (fs.resolve options.dbPath) ≠ some .directory then
          some (Function.update files (fs.resolve options.dbPath)
            (some (.database run.task.madeFrom)))
        else some files
      else some files

end Tasks

-- =========================================================== specification

section Specification

variable {φ : Type} [DecidableEq φ] (fs : FileSystem φ)

/-- A database that is used was made from what the task asks for. -/
def HitMatches (files : Files φ) (run : Run) : Prop :=
  ∀ options, loadParams (fileExists fs files) run.task = .ok options →
    options.useCache = true →
    files (fs.resolve options.dbPath)
      = some (.database run.task.madeFrom)

/-- A name in a directory. -/
def FileName (name : List Char) : Prop :=
  name ≠ [] ∧ name ≠ ['.'] ∧ name ≠ ['.', '.'] ∧ '/' ∉ name

/-- An id that is the name of a file and does not end in "_" and a
number. -/
structure PlainId (id : String) : Prop where
  fileName : FileName id.toList
  unnumbered : ∀ (front : String) (number : Int),
    id ≠ front ++ "_" ++ toString number

/-- An online task has a plain id and the label columns of that id. An
offline task saves under the name of a plain id only what its name says:
the id and key columns are the task's, the label columns those of the
id. -/
structure Unambiguous (labelsOf : String → List Nat) (task : ServerTask) :
    Prop where
  online : task.dbInfo = none → ∀ id, task.cacheId = some id →
    PlainId id ∧ task.labelColumns = labelsOf id
  offline : ∀ path, task.dbInfo = some path → ∀ id keys, PlainId id →
    fs.resolve (cachePath id keys) ∉ fs.directories path
      ∧ (fs.resolve path = fs.resolve (cachePath id keys) →
        task.madeFrom = ⟨some id, keys, labelsOf id⟩)

end Specification

end PrimiHub.Pir
