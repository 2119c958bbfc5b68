/-
`Pipeline` of python/primihub/FL/preprocessing/pipeline.py: a run of
`fit_transform`, which trains the modules on a table and saves them, and a
run of `transform`, which applies what was saved to a table.

# Modules

A module is taken as a fit that learns a parameter and a transform with it,
row by row. `fit` is the fit of the federated class, with the other parties
behind it; what is saved is the scikit-learn object in it, and the fit of
that one, on the rows at hand alone, is `refit`.

# Tables

A `Frame` is a list of columns over so many rows, with what `select_dtypes`
asks of them. All parties here hold data; the server, which holds none,
takes part in the fits and in the choice of the columns, and what it
answers there is arbitrary (`Env.negotiate`).
-/
import Mathlib.Data.Fintype.Basic
import Mathlib.Data.List.FinRange
import Mathlib.Data.List.Infix

namespace PrimiHub.FL.Pipeline

-- ==================================================================== frames

/-- What is raised. -/
inductive Raised
  | keyError
  | valueError
  | typeError
  | runtimeError
  deriving DecidableEq, Repr

/-- A column of a data frame; `numeric` tells the dtypes float and int from
the others. -/
structure Column (V : Type) (n : Nat) where
  name : String
  numeric : Bool
  data : Fin n → V

/-- A data frame of so many rows. -/
abbrev Frame (V : Type) (n : Nat) := List (Column V n)

/-- What stands between the brackets of `data[column]`. -/
inductive Selection
  | one (name : String)
  | many (names : List String)
  deriving DecidableEq, Repr

namespace Selection

def names : Selection → List String
  | one name => [name]
  | many names => names

/-- `not column`. -/
def isEmpty : Selection → Bool
  | one name => name = ""
  | many names => names = []

end Selection

variable {V P : Type} {m n : Nat}

namespace Frame

def names (data : Frame V n) : List String := data.map Column.name

/-- Where the selected columns are. -/
def indices (data : Frame V n) (column : Selection) : List Nat :=
  column.names.flatMap fun name =>
    (List.range data.length).filter fun k => data.names[k]? = some name

/-- `data[column]`. -/
def select (data : Frame V n) (column : Selection) :
    Except Raised (Frame V n) :=
  if ∀ name ∈ column.names, name ∈ data.names then
    .ok ((data.indices column).filterMap fun k => data[k]?)
  else .error .keyError

/-- A column with the contents of another. -/
def overwrite (new old : Column V n) : Column V n :=
  { new with name := old.name }

/-- `data[column] = out`. -/
def assign (data : Frame V n) (column : Selection) (out : Frame V n) :
    Except Raised (Frame V n) :=
  if (data.indices column).length = out.length then
    .ok (((data.indices column).zip out).foldl
      (fun data pair => data.modify pair.1 (overwrite pair.2)) data)
  else .error .valueError

/-- `data.join(out)`, for frames that count their rows. -/
def join (data out : Frame V n) : Except Raised (Frame V n) :=
  if ∃ c ∈ out, c.name ∈ data.names then .error .valueError
  else .ok (data ++ out)

/-- `data[column].select_dtypes(..).columns`. -/
def selectDtypes (data : Frame V n) (column : List String)
    (numeric : Bool) : Except Raised (List String) := do
  let selected ← data.select (.many column)
  .ok (names (selected.filter fun c => c.numeric = numeric))

/-- Row `i`. -/
def row (data : Frame V n) (i : Fin n) : List V := data.map fun c => c.data i

/-- All rows. -/
def rows (data : Frame V n) : List (List V) := (List.finRange n).map data.row

/-- What a table is: its columns in order, with their names and values. -/
def content (data : Frame V n) : List (String × (Fin n → V)) :=
  data.map fun c => (c.name, c.data)

/-- Some of the rows. -/
def reindex (data : Frame V n) (g : Fin m → Fin n) : Frame V m :=
  data.map fun c => ⟨c.name, c.numeric, c.data ∘ g⟩

end Frame

/-- The rows of a block. -/
def block {start len : Nat} (h : start + len ≤ n) (i : Fin len) : Fin n :=
  ⟨start + i, by omega⟩

-- =================================================================== modules

/-- A preprocessing module: what it learns from rows, and its transform of
a row to so many values. `crossFit` is `fit_transform` of a `TargetEncoder`,
whose second argument is the label. The parameters of all modules have one
type `P`. -/
structure Module (V P : Type) where
  fit : List (List V) → P
  refit : List (List V) → P
  width : P → Nat
  apply : (p : P) → List V → Fin (width p) → V
  numeric : P → Bool
  featureNamesOut : (p : P) → Fin (width p) → String
  crossFit : (p : P) → List (List V) → List (List V) →
    List V → Fin (width p) → V

namespace Module

/-- The columns that a transform of the rows makes. -/
def columns (module : Module V P) (p : P)
    (f : List V → Fin (module.width p) → V)
    (name : Fin (module.width p) → String) (selected : Frame V n) :
    Frame V n :=
  (List.finRange (module.width p)).map fun j =>
    ⟨name j, module.numeric p, fun i => f (selected.row i) j⟩

/-- `module.transform(selected)`. -/
def transform (module : Module V P) (p : P) (selected : Frame V n) :
    Frame V n :=
  module.columns p (module.apply p) (module.featureNamesOut p) selected

end Module

/-- `sub in name`. -/
def contains (sub name : String) : Bool := sub.toList <:+: name.toList

/-- The names that `select_module` knows, but for the imputers'. -/
def moduleNames : List String :=
  ["KBinsDiscretizer", "LabelBinarizer", "LabelEncoder",
    "MultiLabelBinarizer", "MaxAbsScaler", "MinMaxScaler", "Normalizer",
    "OneHotEncoder", "OrdinalEncoder", "PowerTransformer",
    "QuantileTransformer", "RobustScaler", "SplineTransformer",
    "StandardScaler", "TargetEncoder"]

/-- `select_module` does not raise. -/
def supported (name : String) : Bool :=
  name ∈ moduleNames || contains "SimpleImputer" name

/-- The modules that `transform` fits again. -/
def refits (name : String) : Bool :=
  contains "LabelBinarizer" name
    || name ∈ ["OneHotEncoder", "KBinsDiscretizer"]

/-- The modules that `fit_transform` lets add columns. -/
def joins (name : String) : Bool :=
  contains "LabelBinarizer" name || contains "Transformer" name
    || name ∈ ["OneHotEncoder", "KBinsDiscretizer"]

-- ============================================================= configuration

/-- Who runs it: `host` and `guest` of a vertical task, `client` of a
horizontal one. -/
inductive Role
  | host
  | guest
  | client
  deriving DecidableEq, Repr

/-- What `fit_transform` reads of the configuration, besides the modules. -/
structure Config where
  role : Role
  task : String
  selectedColumn : Option (List String)
  id : Option String
  label : Option String
  preprocessColumn : Option (List String)

/-- A module's name and its `params.get("column")`. -/
structure Step where
  moduleName : String
  column : Option Selection

/-- What is outside: the modules that `select_module` builds, and what the
server answers to a client's column. -/
structure Env (V P : Type) where
  modules : String → Module V P
  negotiate : String → List String → List String

/-- An entry of the saved list. -/
structure Entry (V P : Type) where
  moduleName : String
  module : Module V P
  param : P
  column : Selection

/-- The saved file. -/
structure Saved (V P : Type) where
  selectedColumn : Option (List String)
  preprocess : List (Entry V P)

/-- `read_data` of a table. -/
def readData (table : Frame V n) :
    Option (List String) → Except Raised (Frame V n)
  | none => .ok table
  | some [] => .ok table
  | some (name :: names) => table.select (.many (name :: names))

/-- `preprocess_column`, without the id and the label. -/
def Config.preprocess (config : Config) (data : Frame V n) : List String :=
  let column := (config.preprocessColumn.or config.selectedColumn).getD
    data.names
  let label := if config.role = .guest then none else config.label
  (column.filter fun name => some name ≠ config.id).filter fun name =>
    some name ≠ label

-- ============================================================= fit_transform

/-- The columns of a module. -/
def resolve (env : Env V P) (role : Role) (preprocessColumn : List String)
    (data : Frame V n) (step : Step) : Except Raised Selection :=
  match step.column with
  | some column => .ok column
  | none => do
      let name := step.moduleName
      let column ←
        if contains "SimpleImputer" name then
          if contains "string" name then
            data.selectDtypes preprocessColumn false
          else if contains "numeric" name then
            data.selectDtypes preprocessColumn true
          else .ok preprocessColumn
        else if name ∈ ["OrdinalEncoder", "OneHotEncoder"] then
          data.selectDtypes preprocessColumn false
        else if contains "Scaler" name then
          data.selectDtypes preprocessColumn true
        else .ok preprocessColumn
      if role = .client then .ok (.many (env.negotiate name column))
      else .ok (.many column)

/-- `[column + str(i) for i in range(temp.shape[1])]`. -/
def numbered (column : Selection) (width : Nat) :
    Except Raised (Fin width → String) :=
  match column with
  | .one name => .ok fun i => name ++ toString i.val
  | .many _ => .error .typeError

/-- The names of the new columns in `fit_transform`. -/
def trainNames (name : String) (module : Module V P) (p : P)
    (column : Selection) : Except Raised (Fin (module.width p) → String) :=
  if contains "LabelBinarizer" name then numbered column (module.width p)
  else if name = "KBinsDiscretizer" then
    .ok fun j => "Bin_" ++ module.featureNamesOut p j
  else if name = "QuantileTransformer" then
    .ok fun j => "Quantile_" ++ module.featureNamesOut p j
  else if name = "PowerTransformer" then
    .ok fun j => "Power_" ++ module.featureNamesOut p j
  else .ok (module.featureNamesOut p)

/-- The table and the saved list while the modules are gone through. -/
structure Progress (V P : Type) (n : Nat) where
  data : Frame V n
  preprocess : List (Entry V P)

/-- The checks of the modules that are about the label. -/
def checkLabel (config : Config) (name : String) : Except Raised Unit :=
  if contains "Label" name then
    if config.task ≠ "classification" then .error .runtimeError
    else if config.role = .guest then .error .runtimeError
    else .ok ()
  else .ok ()

/-- A module in `fit_transform`, behind the choice of its columns. -/
def fitModule (env : Env V P) (config : Config) (name : String)
    (column : Selection) (s : Progress V P n) :
    Except Raised (Progress V P n) :=
  if supported name then do
    let module := env.modules name
    let selected ← s.data.select column
    let p := module.fit selected.rows
    let data ←
      if joins name then do
        let names ← trainNames name module p column
        s.data.join (module.columns p (module.apply p) names selected)
      else if name = "TargetEncoder" then
        match config.label with
        | none => .error .keyError
        | some label => do
            let labels ← s.data.select (.one label)
            s.data.assign column (module.columns p
              (module.crossFit p selected.rows labels.rows)
              (module.featureNamesOut p) selected)
      else s.data.assign column (module.transform p selected)
    .ok ⟨data, s.preprocess ++ [⟨name, module, p, column⟩]⟩
  else .error .runtimeError

/-- A module in `fit_transform`. -/
def trainStep (env : Env V P) (config : Config)
    (preprocessColumn : List String) (s : Progress V P n) (step : Step) :
    Except Raised (Progress V P n) := do
  checkLabel config step.moduleName
  let column ← resolve env config.role preprocessColumn s.data step
  if column.isEmpty then .ok s
  else fitModule env config step.moduleName column s

/-- `fit_transform`: the table behind all modules, and what is saved. -/
def fitTransform (env : Env V P) (config : Config) (steps : List Step)
    (table : Frame V n) : Except Raised (Frame V n × Saved V P) := do
  let data ← readData table config.selectedColumn
  let s ← steps.foldlM (trainStep env config (config.preprocess data))
    ⟨data, []⟩
  .ok (s.data, ⟨config.selectedColumn, s.preprocess⟩)

-- ================================================================= transform

/-- The names of the new columns in `transform`. -/
def transformNames (name : String) (module : Module V P) (p : P)
    (column : Selection) : Except Raised (Fin (module.width p) → String) :=
  if contains "LabelBinarizer" name then numbered column (module.width p)
  else if name = "KBinsDiscretizer" then
    .ok fun j => "Bin_" ++ module.featureNamesOut p j
  else .ok (module.featureNamesOut p)

/-- A module in `transform`. -/
def applyEntry (data : Frame V n) (entry : Entry V P) :
    Except Raised (Frame V n) := do
  let selected ← data.select entry.column
  if refits entry.moduleName then do
    let p := entry.module.refit selected.rows
    let names ← transformNames entry.moduleName entry.module p entry.column
    data.join (entry.module.columns p (entry.module.apply p) names selected)
  else data.assign entry.column (entry.module.transform entry.param selected)

/-- `transform`. -/
def transform (saved : Saved V P) (table : Frame V n) :
    Except Raised (Frame V n) := do
  let data ← readData table saved.selectedColumn
  saved.preprocess.foldlM applyEntry data

end PrimiHub.FL.Pipeline
