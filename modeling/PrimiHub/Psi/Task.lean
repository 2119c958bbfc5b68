/-
A PSI task of two parties (task/semantic/psi_task.cc) with the ECDH
operator (kernel/psi/operator/ecdh_psi.cc), from the parameters of the task
to the file that each party saves.

# Messages

Everything is sent under one key, `key_`. The client sends its parameters,
its request and, if the result is to be shared, the result; the server
sends one response. `LinkContext::Recv` fails exactly when it brings
nothing (`received`).

# What is left open

The PSI library and protobuf are parameters, and so are the operators of
the other tags, the dataset service and what the file system says. The
false positive rate is part of the library's `createSetupMessage`.
-/
import PrimiHub.Lib.Process
import PrimiHub.Psi.Frames

namespace PrimiHub.Psi

open Lib
open Node (Retcode)

-- ============================================================== parameters

/-- `rpc::ParamValue`. -/
inductive ParamValue
  | int32 (value : Int)
  | int32Array (values : List Int)
  | string (value : String)
  deriving DecidableEq, Repr

/-- `value_int32()`. -/
def ParamValue.valueInt32 : ParamValue → Int
  | .int32 value => value
  | _ => 0

/-- `value_string()`. -/
def ParamValue.valueString : ParamValue → String
  | .string value => value
  | _ => ""

/-- `rpc::Task`, as the party of this name gets it. `dataset` is the entry
of `party_datasets`: the id, and `dataset_detail`. -/
structure TaskConfig where
  partyName : String
  paramMap : String → Option ParamValue
  dataset : Option (Option String × Bool)
  hasProxyNode : Bool

/-- What the task throws. -/
inductive TaskError
  | thrown (message : String)
  /-- a read outside the data, or a division by zero -/
  | undefined
  deriving DecidableEq, Repr

/-- What a party knows after `LoadParams`. -/
structure PsiTask where
  partyName : String
  resultType : PsiResultType
  psiTag : Int
  uniqueValues : Bool
  broadcastResult : Bool
  datasetId : String
  isDatasetDetail : Bool
  dataIndex : List Int
  resultFilePath : String
  deriving DecidableEq, Repr

/-- `psiType`; the operators only ask whether it is DIFFERENCE. -/
def TaskConfig.resultType (config : TaskConfig) : PsiResultType :=
  match config.paramMap "psiType" with
  | none => .intersection
  | some value => if value.valueInt32 = 1 then .difference else .intersection

/-- `psiTag`, else KKRT. -/
def TaskConfig.psiTag (config : TaskConfig) : Int :=
  match config.paramMap "psiTag" with
  | none => 1
  | some value => value.valueInt32

/-- A flag of the parameters. -/
def TaskConfig.flag (config : TaskConfig) (key : String) (default : Bool) :
    Bool :=
  match config.paramMap key with
  | none => default
  | some value => decide (0 < value.valueInt32)

/-- `clientIndex` and `serverIndex`. -/
def TaskConfig.dataIndex (config : TaskConfig) : List Int :=
  let keyword :=
    if config.partyName = partyClient then "clientIndex"
    else if config.partyName = partyServer then "serverIndex"
    else ""
  match config.paramMap keyword with
  | none => []
  | some (.int32Array values) => values
  | some value => [value.valueInt32]

/-- `outputFullFilename` and `server_outputFullFilname`. -/
def TaskConfig.resultFilePath (config : TaskConfig)
    (completePath : String → String) : String :=
  if config.partyName = partyTeeCompute then ""
  else
    let keyword :=
      if config.partyName = partyClient then "outputFullFilename"
      else if config.partyName = partyServer then "server_outputFullFilname"
      else ""
    match config.paramMap keyword with
    | none => ""
    | some value => completePath value.valueString

/-- `PsiTask::LoadParams`. -/
def loadParams (completePath : String → String) (config : TaskConfig) :
    Except TaskError PsiTask :=
  let options : PsiTask :=
    { partyName := config.partyName
      resultType := config.resultType
      psiTag := config.psiTag
      uniqueValues := config.flag "UniqueValues" true
      broadcastResult := config.flag "sync_result_to_server" false
      datasetId := ""
      isDatasetDetail := false
      dataIndex := []
      resultFilePath := "" }
  if !config.hasProxyNode then .error (.thrown "Psi load task params failed.")
  else if config.psiTag ∉ [0, 1, 2] then
    .error (.thrown ("PsiTag is unknown, value: " ++ toString config.psiTag))
  else
    match config.dataset with
    -- "no dataset is found", and nothing more is read
    | none => .ok options
    | some (datasetId, isDatasetDetail) =>
        .ok { options with
          datasetId := datasetId.getD ""
          isDatasetDetail := isDatasetDetail
          dataIndex := config.dataIndex
          resultFilePath := config.resultFilePath completePath }

-- ================================================================= dataset

/-- A cursor on the selected columns: their types, and the table that it
reads when they are read as strings. -/
structure Cursor where
  types : List ColumnType
  read : Option Table

/-- What a party finds at its node; `validateDir` and `write` say whether
they succeed. -/
structure PsiNode where
  cores : Nat
  getDriver : String → Bool → Option (List Int → Option Cursor)
  completePath : String → String
  validateDir : String → Bool
  write : String → List String → List (List Bytes) → Bool

/-- A type that `IsValidDataType` refuses. -/
def ColumnType.refused : ColumnType → Option String
  | .other name => some name
  | _ => none

/-- `PsiCommonUtil::LoadDatasetInternal`. -/
def loadDatasetInternal (cores : Nat) (getCursor : List Int → Option Cursor)
    (dataIndex : List Int) : Except LoadError Loaded :=
  match getCursor dataIndex with
  | none => .error .fail
  | some cursor =>
      match cursor.types.findSome? ColumnType.refused with
      | some name => .error (.raised (name ++ " is not supported for PSI"))
      | none =>
          match cursor.read with
          | none => .error .fail
          | some table =>
              if table.columns.length ≠ dataIndex.length then .error .fail
              else loadDatasetFromTable cores table

/-- The filter for `unique_values_`: the first of equal items. -/
def filterDuplicated {α : Type} [DecidableEq α] (elements : List α) :
    List α :=
  elements.foldl (fun filtered item =>
    if item ∈ filtered then filtered else filtered ++ [item]) []

/-- An end of loading or saving, as `execute` throws it. -/
def LoadError.thrown (message : String) : LoadError → TaskError
  | .fail => .thrown message
  | .raised text => .thrown text
  | .undefined => .undefined

/-- `PsiTask::LoadDataset`. -/
def loadDataset (node : PsiNode) (task : PsiTask) :
    Except TaskError Loaded :=
  if task.datasetId = "" ∨ task.dataIndex = [] then .ok ⟨[], []⟩
  else
    match node.getDriver task.datasetId task.isDatasetDetail with
    | none => .error (.thrown "Psi load dataset failed.")
    | some getCursor =>
        match loadDatasetInternal node.cores getCursor task.dataIndex with
        | .error e => .error (e.thrown "Psi load dataset failed.")
        | .ok loaded =>
            if task.uniqueValues then
              .ok { loaded with data := filterDuplicated loaded.data }
            else .ok loaded

-- =========================================================== the operator

/-- What the ECDH operator uses of the PSI library, under the keys of a
client and of a server. -/
structure PsiLibrary (κ κ' ρ : Type) where
  createRequest : κ → Bool → List Bytes → ρ
  createSetupMessage : κ' → Bool → Nat → List Bytes → ServerSetup
  processRequest : κ' → Bool → ρ → List Bytes
  getIntersection : κ → Bool → ServerSetup → List Bytes → List Nat

/-- `SerializeToString` of the messages, and how they are parsed. -/
structure Wire (ρ : Type) where
  params : List (String × Int) → Bytes
  parseParams : Bytes → String → Option Int
  request : ρ → Bytes
  parseRequest : Bytes → ρ
  response : List Bytes → Bytes
  setup : ServerSetup → Bytes
  parse : Protobuf

/-- A party of the task: messages have one tag, `key_`. -/
abbrev PsiProc (α : Type) : Type := Proc (fun _ : Unit => Bytes) TaskError α

/-- `LinkContext::Recv`. -/
def received (data : Bytes) : Retcode × Bytes :=
  (if data = [] then .fail else .success, data)

/-- The two messages of the response, each behind its length. -/
def psiResponseString (response setup : Bytes) : Bytes :=
  toBe 8 response.length ++ response ++ (toBe 8 setup.length ++ setup)

/-- The parameters that `BuildInitParam` sends. -/
def initParam (elementSize : Nat) (reveal : Bool) : List (String × Int) :=
  [("dataset_size", (elementSize : Int)),
    ("reveal_intersection", if reveal then 1 else 0)]

/-- What `RecvInitParam` takes from them. -/
def recvInitParam (params : String → Option Int) : Option (Nat × Bool) := do
  let size ← params "dataset_size"
  let reveal ← params "reveal_intersection"
  some (size.toNat, decide (0 < reveal))

section Operator

variable {κ κ' ρ : Type} (lib : PsiLibrary κ κ' ρ) (wire : Wire ρ)

/-- `EcdhPsiOperator::GetIntersection`, from the response on. -/
def EcdhPsiOperator.getIntersection (clientKey : κ)
    (resultType : PsiResultType) (input : List Bytes)
    (response : PsiResponse) : Retcode × List Bytes :=
  match response.serverSetup.dataStructure with
  | none => (.fail, [])
  | some _ =>
      (.success, ecdhGetIntersection resultType input
        (lib.getIntersection clientKey true response.serverSetup
          response.encryptedElements))

/-- `EcdhPsiOperator::ExecuteAsClient`. -/
def EcdhPsiOperator.executeAsClient (clientKey : κ)
    (resultType : PsiResultType) (input : List Bytes) :
    PsiProc (Retcode × List Bytes) := do
  Proc.put () (wire.params (initParam input.length true))
  Proc.put () (wire.request (lib.createRequest clientKey true input))
  let data ← Proc.get ()
  match recvPsiResponse wire.parse false (received data) ⟨⟨[], none⟩, []⟩ with
  | none => Proc.raise .undefined
  | some (.fail, _) => pure (.fail, [])
  | some (.success, response) =>
      pure (getIntersection lib clientKey resultType input response)

/-- `EcdhPsiOperator::ExecuteAsServer`. -/
def EcdhPsiOperator.executeAsServer (serverKey : κ') (input : List Bytes) :
    PsiProc (Retcode × List Bytes) := do
  let params ← Proc.get ()
  match (received params).1, recvInitParam (wire.parseParams params) with
  | .success, some (numClientElements, reveal) => do
      let setup :=
        lib.createSetupMessage serverKey reveal numClientElements input
      let request ← Proc.get ()
      match (received request).1 with
      | .fail => pure (.fail, [])
      | .success => do
          let response :=
            lib.processRequest serverKey reveal (wire.parseRequest request)
          Proc.put () (psiResponseString (wire.response response)
            (wire.setup setup))
          pure (.success, [])
  | _, _ => pure (.fail, [])

/-- `EcdhPsiOperator::OnExecute`. -/
def EcdhPsiOperator.onExecute (keys : κ × κ') (task : PsiTask)
    (input : List Bytes) : PsiProc (Retcode × List Bytes) :=
  if input = [] then pure (.fail, [])
  else if task.partyName = partyClient then
    executeAsClient lib wire keys.1 task.resultType input
  else if task.partyName = partyServer then
    executeAsServer lib wire keys.2 input
  else pure (.fail, [])

end Operator

/-- `result_str`. -/
def resultString (result : List Bytes) : Bytes :=
  (result.map fun item => toBe 8 item.length ++ item).flatten

/-- `BasePsiOperator::Execute` with `BroadcastPsiResult`, of two parties:
the list of the client's broadcast is the server. -/
def baseExecute (partyName : String) (syncResult : Bool)
    (onExecute : PsiProc (Retcode × List Bytes)) :
    PsiProc (Retcode × List Bytes) := do
  let (ret, result) ← onExecute
  if ret ≠ .success then pure (.fail, result)
  else if !syncResult then pure (ret, result)
  else if partyName = partyTeeCompute then pure (.success, result)
  else if partyName = partyClient then do
    Proc.put () (resultString result)
    pure (.success, result)
  else do
    let data ← Proc.get ()
    match receiveResult (received data) [] with
    | none => Proc.raise .undefined
    | some (ret, items) => pure (ret, result ++ items.map Subtype.val)

-- ================================================================ the task

/-- A saved file: the columns as they go to the CSV writer. -/
structure SavedFile where
  path : String
  names : List String
  columns : List (List Bytes)
  deriving DecidableEq, Repr

/-- `NeedSaveResult`. -/
def PsiTask.needSaveResult (task : PsiTask) : Bool :=
  if task.partyName = partyTeeCompute then false
  else if task.partyName = partyServer ∧ task.broadcastResult = false then
    false
  else true

/-- `PsiTask::SaveResult` with `SaveDataToCSVFile`. -/
def saveResult (node : PsiNode) (task : PsiTask) (result : List Bytes)
    (names : List String) : Except TaskError (Option SavedFile) :=
  if !task.needSaveResult then .ok none
  else
    match saveDataToCsvFile result names with
    | .error e => .error (e.thrown "Psi save result failed.")
    | .ok columns =>
        if !node.validateDir task.resultFilePath then
          .error (.thrown ("Can't access file path: "
            ++ task.resultFilePath))
        else if !node.write task.resultFilePath names columns then
          .error (.thrown ("Save PSI result to file "
            ++ task.resultFilePath ++ " failed."))
        else .ok (some ⟨task.resultFilePath, names, columns⟩)

/-- `OnExecute` of the operators for the other tags. -/
abbrev OtherOperators : Type :=
  Int → Option (PsiTask → List Bytes → PsiProc (Retcode × List Bytes))

section Execute

variable {κ κ' ρ : Type} (lib : PsiLibrary κ κ' ρ) (wire : Wire ρ)
  (others : OtherOperators) (keys : κ × κ')

/-- `PsiTask::execute`: the file that was saved, if any. -/
def PsiNode.execute (node : PsiNode) (config : TaskConfig) :
    PsiProc (Option SavedFile) := do
  let task ← Proc.lift (loadParams node.completePath config)
  let loaded ← Proc.lift (loadDataset node task)
  let onExecute ←
    if task.psiTag = 0 then
      pure (EcdhPsiOperator.onExecute lib wire keys task loaded.data)
    else
      match others task.psiTag with
      | none => Proc.raise (.thrown "Psi init operator failed.")
      | some operator => pure (operator task loaded.data)
  let (ret, result) ←
    baseExecute task.partyName task.broadcastResult onExecute
  if ret ≠ .success then
    Proc.raise (.thrown "Psi execute operator failed.")
  else Proc.lift (saveResult node task result loaded.names)

end Execute

-- =========================================================== specification

section Exact

variable {κ κ' ρ : Type} (lib : PsiLibrary κ κ' ρ) (keys : κ × κ')
  (client server : List Bytes)

/-- The request, the setup and the response for two inputs. -/
def PsiLibrary.requestOf : ρ := lib.createRequest keys.1 true client

def PsiLibrary.setupOf : ServerSetup :=
  lib.createSetupMessage keys.2 true client.length server

def PsiLibrary.responseOf : List Bytes :=
  lib.processRequest keys.2 true (lib.requestOf keys client)

/-- The library finds the positions of the items that the server has. -/
structure PsiLibrary.Exact : Prop where
  dataStructure : (lib.setupOf keys client server).dataStructure ≠ none
  positions : ExactIndex client server
    (lib.getIntersection keys.1 true (lib.setupOf keys client server)
      (lib.responseOf keys client))

/-- The messages are parsed as they were, none of the client's is empty,
and those of the server are as long as protobuf allows. -/
structure Wire.Carries (wire : Wire ρ) : Prop where
  params : ∀ entry ∈ initParam client.length true,
    wire.parseParams (wire.params (initParam client.length true)) entry.1
      = some entry.2
  paramsSent : wire.params (initParam client.length true) ≠ []
  request : wire.parseRequest (wire.request (lib.requestOf keys client))
    = lib.requestOf keys client
  requestSent : wire.request (lib.requestOf keys client) ≠ []
  response : wire.parse.response (wire.response (lib.responseOf keys client))
    = lib.responseOf keys client
  responseShort : (wire.response (lib.responseOf keys client)).length < 2 ^ 31
  setup : wire.parse.serverSetup (wire.setup (lib.setupOf keys client server))
    = lib.setupOf keys client server
  setupShort : (wire.setup (lib.setupOf keys client server)).length < 2 ^ 31

end Exact

/-- The rows of a table. -/
def Table.rows (t : Table) : List (List Bytes) :=
  (List.range t.numRows).map t.row

/-- The set operation on rows: the client's rows that the server has, or
those that it does not have. -/
def requestedRows (resultType : PsiResultType)
    (client server : List (List Bytes)) : List (List Bytes) :=
  match resultType with
  | .intersection => client.filter fun row => row ∈ server
  | .difference => client.filter fun row => row ∉ server

/-- The rows a task works on. -/
def PsiTask.keptRows (task : PsiTask) (table : Table) : List (List Bytes) :=
  if task.uniqueValues then filterDuplicated table.rows else table.rows

/-- A file with these rows. -/
def SavedFile.ofRows (path : String) (names : List String)
    (rows : List (List Bytes)) : SavedFile :=
  ⟨path, names, (List.range names.length).map fun j =>
    rows.map fun row => row.getD j []⟩

/-- Under every schedule both parties come to their end. The client saves
the rows of the set operation, in some order, and the server saves the
same rows in the same order where it is to have the result. -/
def SavesRequested (client server : PsiProc (Option SavedFile))
    (task task' : PsiTask) (table table' : Table) : Prop :=
  LockStep client server fun c s => ∃ rows,
    rows.Perm (requestedRows task.resultType (task.keptRows table)
      table'.rows)
    ∧ c = .ok (some (.ofRows task.resultFilePath
      (table.columns.map Column.name) rows))
    ∧ s = .ok (if task.broadcastResult then
        some (.ofRows task'.resultFilePath (table'.columns.map Column.name)
          rows)
      else none)

end PrimiHub.Psi
