/-
Data alignment with a CSV file: `generate_new_dataset_from_csv`
(python/primihub/plain_data_util/data_align.py).

The rows of the dataset are read once. A row whose key is the next id of the
intersection is written, any other row of an id is kept in a map until its
turn comes. What fails for a row is caught and the row is passed over; so it
is with `intersection_list[0]` once the list is empty.

A file is its rows below the header, as the `csv` module reads and writes
them. A PSI result with several key columns is followed from the C++ side
that writes it (`SaveDataToCSVFile`, kernel/psi/util.cc): the writer splits
the text of a key at `DATA_RECORD_SEP` and writes one field for each key
column. The reader takes the first field of a line and looks for it among
the keys of the dataset, for which it puts the key fields of a row one after
the other.
-/
import Mathlib.Logic.Function.Basic
import PrimiHub.Align.Mysql
import PrimiHub.Psi.Dataset

namespace PrimiHub.Align

/-- `str.isspace` of a character. -/
def isSpace (c : Char) : Bool :=
  let n := c.toNat
  (0x9 ≤ n && n ≤ 0xd) || (0x1c ≤ n && n ≤ 0x20) || n == 0x85 || n == 0xa0
    || n == 0x1680 || (0x2000 ≤ n && n ≤ 0x200a) || n == 0x2028
    || n == 0x2029 || n == 0x202f || n == 0x205f || n == 0x3000

/-- `str.strip`. -/
def strip (s : String) : String :=
  let left := s.toList.dropWhile isSpace
  String.ofList (left.reverse.dropWhile isSpace).reverse

/-- "index" of the meta info: a number or a list of numbers. -/
inductive PsiIndex
  | column (index : Nat)
  | columns (indices : List Nat)
  deriving DecidableEq, Repr

/-- `psi_key` of a row; `none` where it has no such field. -/
def psiKey (psiIndex : PsiIndex) (row : List String) : Option String :=
  match psiIndex with
  | .column i => row[i]?
  | .columns is => is.foldlM (fun key i => (row[i]?).map (key ++ ·)) ""

/-- The ids of a PSI result: the first field of each line, stripped; empty
ones are passed over. -/
def readIntersection (psiResult : List (List String)) :
    Except AlignError (List String) := do
  let items ← psiResult.mapM firstField
  pure ((items.map strip).filter (· ≠ ""))

/-- `intersection_list`, `intersection_map` and the rows written. -/
structure CsvState where
  list : List String
  map : String → Option (List String)
  written : List (List String)

/-- The `while True` loop: the rows whose turn it is, and the ids left. -/
def writeFromMap (map : String → Option (List String)) :
    List String → List (List String) × List String
  | [] => ([], [])
  | key :: rest =>
      match map key with
      | some row =>
          let (rows, left) := writeFromMap map rest
          (row :: rows, left)
      | none => ([], key :: rest)

/-- Write what is due. -/
def CsvState.flush (st : CsvState) : CsvState :=
  { st with
    list := (writeFromMap st.map st.list).2
    written := st.written ++ (writeFromMap st.map st.list).1 }

/-- What the `for row in f_csv` loop does with a row. -/
def csvRow (psiIndex : PsiIndex) (intersectionSet : List String)
    (st : CsvState) (row : List String) : CsvState :=
  if row.length = 0 then st
  else
    match psiKey psiIndex row with
    -- an IndexError, caught
    | none => st
    | some key =>
        if key ∉ intersectionSet then st
        else
          match st.list with
          -- another one, from `intersection_list[0]`
          | [] => st
          | head :: rest =>
              if key ≠ head then
                CsvState.flush
                  { st with map := Function.update st.map key (some row) }
              else
                CsvState.flush
                  { st with list := rest, written := st.written ++ [row] }

/-- `generate_new_dataset_from_csv` for the lines of a PSI result and the
rows of the old dataset: the rows of the new one. -/
def generateNewDatasetFromCsv (psiIndex : PsiIndex)
    (psiResult rows : List (List String)) :
    Except AlignError (List (List String)) := do
  let intersectionList ← readIntersection psiResult
  if intersectionList.length = 0 then throw .emptyIntersection
  let st := rows.foldl (csvRow psiIndex intersectionList)
    ⟨intersectionList, fun _ => none, []⟩
  pure st.written

/-- A file with its header. -/
structure CsvFile where
  header : List String
  rows : List (List String)
  deriving DecidableEq, Repr

/-- `generate_new_dataset_from_csv` for the two files: the file it writes. -/
def generateNewDatasetFile (psiIndex : PsiIndex) (psi old : CsvFile) :
    Except AlignError CsvFile := do
  let rows ← generateNewDatasetFromCsv psiIndex psi.rows old.rows
  pure ⟨old.header, rows⟩

-- =========================================================== specification

/-- A row of the dataset for each id, below its header. -/
def EmitsInOrder (psiIndex : PsiIndex) (psi old : CsvFile)
    (ids : List String) : Prop :=
  ∃ new, generateNewDatasetFile psiIndex psi old = .ok new
    ∧ new.header = old.header
    ∧ List.Forall₂ (fun row id => row ∈ old.rows
        ∧ psiKey psiIndex row = some id) new.rows ids

section Specification

variable {ρ κ : Type} [LinearOrder κ]

/-- Line `i` of both new datasets is the row of id `i`. -/
structure LinesUp (psiIndex : PsiIndex) (rows : List (List String))
    (db : Mysql ρ κ) (numThread : Nat) (ids : List String) : Prop where
  csv : ∃ out,
    generateNewDatasetFromCsv psiIndex (ids.map fun id => [id]) rows = .ok out
      ∧ List.Forall₂ (fun row id => row ∈ rows
          ∧ psiKey psiIndex row = some id) out ids
  mysql : ∃ out,
    generateNewDatasetFromMysql db numThread (ids.map fun id => [id]) = .ok out
      ∧ List.Forall₂ (fun row id => row ∈ db.table ∧ db.idOf row = id) out ids

/-- The ids of a group of ranges, in the order they are asked for. -/
def groupIds (ids : List String) (group : List (Nat × Nat)) : List String :=
  group.flatMap fun range => slice ids range.1 range.2

/-- The rows of a group's ids are in the order of the last column, and those
with the same last value are returned in the order of the ids. -/
def InIdOrder (db : Mysql ρ κ) (ids : List String)
    (group : List (Nat × Nat)) : Prop :=
  ∀ a ∈ db.table, ∀ b ∈ db.table,
    [db.idOf a, db.idOf b].Sublist (groupIds ids group) →
      db.lastLe a b
        ∧ (db.lastLe b a → [a, b].Sublist (groupRows db ids group))

instance [DecidableEq ρ] (db : Mysql ρ κ) (ids : List String)
    (group : List (Nat × Nat)) : Decidable (InIdOrder db ids group) :=
  inferInstanceAs (Decidable (∀ a ∈ db.table, ∀ b ∈ db.table, _))

/-- What lets the MySQL alignment keep to the list of ids: the rounds fit, no
single id is left over after the thousands, each id is in one row of the
table, which has no NULL in the last column, and the groups are in order. -/
structure Ordered (db : Mysql ρ κ) (numThread : Nat) (ids : List String) :
    Prop where
  fits : RoundsFit ids.length numThread
  several : ids.length % 1000 ≠ 1
  once : PresentOnce db ids
  noNull : NoNull db ids
  inOrder : ∀ group ∈ groupRanges ids.length numThread,
    InIdOrder db ids group

end Specification

-- ====================================================== several key columns

section KeyColumns

open Psi

/-- The bytes of a text. -/
def utf8 (s : String) : Bytes := s.toUTF8.data.toList

/-- The text of a key, as the PSI loader makes it of the fields of a row:
the first one, and `text ++ DATA_RECORD_SEP ++ cell` for every further
one. -/
def joinKey : List String → Bytes
  | [] => []
  | cell :: cells =>
      cells.foldl (fun text cell => text ++ dataRecordSep ++ utf8 cell)
        (utf8 cell)

/-- A field of the file, decoded. -/
def decodeField (field : Bytes) : Except AlignError String :=
  match String.fromUTF8? ⟨field.toArray⟩ with
  | some s => .ok s
  | none => .error .notUtf8

/-- The lines of a file with these columns. -/
def readLines (columns : List (List Bytes)) :
    Except AlignError (List (List String)) :=
  (List.range (columns.headD []).length).mapM fun i =>
    columns.mapM fun column => decodeField (column.getD i [])

/-- `generate_new_dataset_from_csv` for a PSI result file with these
columns. -/
def alignWithColumns (psiIndex : PsiIndex) (columns : List (List Bytes))
    (rows : List (List String)) : Except AlignError (List (List String)) := do
  let psiResult ← readLines columns
  generateNewDatasetFromCsv psiIndex psiResult rows

/-- The new dataset is one row for each record of the result, in the order
of the records, whose key columns are the record. -/
def AlignsOnKeys (index : List Nat) (rows result : List (List String))
    (columns : List (List Bytes)) : Prop :=
  ∃ out, alignWithColumns (.columns index) columns rows = .ok out
    ∧ List.Forall₂ (fun row key => row ∈ rows
      ∧ (index.mapM fun i => row[i]?) = some key) out result

end KeyColumns

end PrimiHub.Align
