/-
The rows a keyword PIR query brings: `PirTask::GetSelectedContent` and
`ServerLoadDataset` (task/semantic/pir_task.cc) put the server's table
into a map from keys to label rows, `CreateDb`
(keyword_pir_server.cc) makes one label of the rows of a key, and
`ExtractResult` (keyword_pir_client.cc) takes it apart again.

A row's label columns are put together with "," and the rows of a key
with `DATA_RECORD_SEP`. Nothing escapes these inside a cell. The saved
result has the names of the label columns for a header
(`PirTask::SaveResult`), so a row with several of them is read at its
commas (`readRow`).

The maps are `std::unordered_map`s that are only looked up in, or walked
in an order that does not show: they are functions here. The APSI query
is outside; it returns for an item the label stored for it (`apsiQuery`).
Whether it reports an empty label as data is left open (`hasData`).
-/
import Mathlib.Data.List.Dedup
import Mathlib.Logic.Function.Basic
import PrimiHub.Psi.Dataset

namespace PrimiHub.Pir

open Lib
open Psi (Bytes Table dataRecordSep)

/-- `PirDataType`. -/
abbrev PirDataType := Bytes → Option (List Bytes)

/-- The byte `','`. -/
def comma : UInt8 := 44

-- ================================================================ server

/-- `data_tbl->column(col_index)` behind the range check. -/
def selectColumn (table : Table) (colIndex : Nat) : Except String Psi.Column :=
  match table.columns[colIndex]? with
  | some column => .ok column
  | none => .error ("index out of range: " ++ toString colIndex ++ " "
      ++ "total columns: " ++ toString table.columns.length)

/-- The pass over a further column: `append(",").append(cell)` to the
rows in turn. -/
def appendCells (contentArray cells : List Bytes) : List Bytes :=
  contentArray.zipWith (fun text cell => text ++ [comma] ++ cell) cells

/-- "process left columns". -/
def appendSelected (table : Table) :
    List Nat → List Bytes → Except String (List Bytes)
  | [], contentArray => .ok contentArray
  | colIndex :: rest, contentArray =>
      match selectColumn table colIndex with
      | .error e => .error e
      | .ok column =>
          appendSelected table rest (appendCells contentArray column.cells)

/-- `PirTask::GetSelectedContent`. -/
def getSelectedContent (table : Table) (selectedCol : List Nat) :
    Except String (List Bytes) :=
  match selectedCol with
  | [] => .ok []
  | first :: rest =>
      match selectColumn table first with
      | .error e => .error e
      | .ok column => appendSelected table rest column.cells

/-- One row into `elements_`. -/
def addRow (elements : PirDataType) (row : Bytes × Bytes) : PirDataType :=
  match elements row.1 with
  | some values =>
      Function.update elements row.1 (some (values ++ [row.2]))
  | none => Function.update elements row.1 (some [row.2])

/-- `PirTask::ServerLoadDataset`. -/
def serverLoadDataset (table : Table) (keyCol valueCol : List Nat) :
    Except String PirDataType :=
  if table.columns.length < 2 then .error "data for server must have label"
  else if keyCol.isEmpty then .error "no column selected for keyword"
  else
    match getSelectedContent table keyCol with
    | .error e => .error e
    | .ok keyArray =>
        if valueCol.isEmpty then .error "no column selected for label"
        else
          match getSelectedContent table valueCol with
          | .error e => .error e
          | .ok valueArray =>
              .ok ((keyArray.zip valueArray).foldl addRow fun _ => none)

/-- `KeywordPirOperatorServer::CreateDb`: the rows of a key with the
separator after each but the last. -/
def createDb (input : PirDataType) : Bytes → Option Bytes := fun item =>
  (input item).map fun labelVec =>
    (labelVec.dropLast.map (· ++ dataRecordSep)).flatten
      ++ labelVec.getLast?.getD []

-- ================================================================ client

/-- `apsi::receiver::MatchRecord`. -/
structure MatchRecord where
  found : Bool
  label : Bytes

/-- The query: for each item the label stored for it. -/
def apsiQuery (db : Bytes → Option Bytes) (item : Bytes) : MatchRecord :=
  ⟨(db item).isSome, (db item).getD []⟩

/-- One turn of `ExtractResult`. -/
def extractItem (hasData : Bytes → Bool) (result : PirDataType)
    (query : Bytes × MatchRecord) : PirDataType :=
  let (key, record) := query
  if !record.found then result
  else if hasData record.label then
    let labels := strSplit dataRecordSep record.label
    Function.update result key (some ((result key).getD [] ++ labels))
  else result

/-- `KeywordPirOperatorClient::ExtractResult`. -/
def extractResult (hasData : Bytes → Bool)
    (queries : List (Bytes × MatchRecord)) : PirDataType :=
  queries.foldl (extractItem hasData) fun _ => none

/-- A query of the given keys against the server's elements. The client's
keys are those of a map, `elements_`, so each is asked for once. -/
def keywordQuery (hasData : Bytes → Bool) (elements : PirDataType)
    (clientKeys : List Bytes) : PirDataType :=
  extractResult hasData
    (clientKeys.dedup.map fun key => (key, apsiQuery (createDb elements) key))

-- =========================================================== the property

/-- The cells of a row in the selected columns. -/
def selectedCells (table : Table) (selectedCol : List Nat) (i : Nat) :
    List Bytes :=
  selectedCol.map fun c =>
    ((table.columns[c]?.map Psi.Column.cells).getD []).getD i []

/-- A row's cells as one text. -/
def joinCells (cells : List Bytes) : Bytes := [comma].intercalate cells

/-- The label rows the server holds for a key, in table order. -/
def labelRows (table : Table) (keyCol valueCol : List Nat) (key : Bytes) :
    List (List Bytes) :=
  ((List.range table.numRows).filter fun i =>
    joinCells (selectedCells table keyCol i) = key).map
      (selectedCells table valueCol)

/-- A row of the result under a header of this many columns. -/
def readRow (columns : Nat) (row : Bytes) : List Bytes :=
  if columns = 1 then [row] else row.splitOn comma

/-- The result maps every queried key that the server has to its label
rows, and has no other key. -/
structure ReturnsRows (table : Table) (keyCol valueCol : List Nat)
    (clientKeys : List Bytes) (result : PirDataType) : Prop where
  rows : ∀ key ∈ clientKeys, labelRows table keyCol valueCol key ≠ [] →
    ∃ labels, result key = some labels
      ∧ labels.map (readRow valueCol.length)
        = labelRows table keyCol valueCol key
  noOther : ∀ key, (key ∉ clientKeys
    ∨ labelRows table keyCol valueCol key = []) → result key = none

end PrimiHub.Pir
