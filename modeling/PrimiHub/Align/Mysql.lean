/-
Data alignment with a MySQL table (python/primihub/plain_data_util/
data_align.py): `generate_new_datast_from_mysql` and the two functions it
asks the database with.

The ids of the intersection are cut three times: into batches, a round of
which is asked for by the threads together, the batches that are left by a
last round with fewer threads, and what is left of the ids by one more
query; each thread cuts its batch into statements of 1000 ids. The source
computes each offset on its own, and so do the definitions here.

A statement keeps the parts it is formatted from. The ids are the text of a
Python tuple, which MySQL reads as a list of literals: for one id it ends in
a comma that SQL does not know, and a character that Python writes by its
number is read as other characters. What is not in the source is a
parameter, `Mysql`: the table, the rows the database returns, when it takes
the index column of a row to be equal to a literal (for the type and the
collation of the column are its own), and which characters are printable in
Python.
-/
import Mathlib.Data.List.Perm.Basic
import Mathlib.Order.Lattice
import PrimiHub.Lib.SqlLiteral

namespace PrimiHub.Align

open Lib

-- ============================================================== statements

/-- "select {} from {} where {} in {}" -/
structure Statement where
  columns : List String
  tableName : String
  indexColumn : String
  inList : String
  deriving DecidableEq, Repr

/-- SQL takes the text after `in` for a list. -/
def Statement.Accepted (stmt : Statement) : Prop :=
  (readInList stmt.inList).isSome

instance (stmt : Statement) : Decidable stmt.Accepted :=
  inferInstanceAs (Decidable (_ = true))

/-- The table in the database: its rows, whether the index column of a row
is equal to a literal, and the rows it returns for a list of literals, in an
order of its own. `idOf` is the text of the id of a row, `last` the value of
the last selected column, `none` for NULL; `printable` is
`str.isprintable`. -/
structure Mysql (ρ κ : Type) where
  columns : List String
  tableName : String
  indexColumn : String
  table : List ρ
  idOf : ρ → String
  last : ρ → Option κ
  printable : Char → Bool
  equal : ρ → String → Bool
  answer : List String → List ρ
  answer_perm : ∀ literals,
    (answer literals).Perm (table.filter fun row => literals.any (equal row))

/-- "You have an error in your SQL syntax" -/
structure SyntaxError where
  deriving DecidableEq, Repr

/-- What ends an alignment without a new dataset. -/
inductive AlignError
  /-- a blank line in the PSI result -/
  | indexOutOfRange
  /-- a PSI result that is no UTF-8 text -/
  | notUtf8
  /-- "PSI result is empty, no intersection is found" -/
  | emptyIntersection
  /-- a thread of a full round failed: the file is to be removed with a
  module that is not imported -/
  | osNotDefined
  /-- a thread of the last round failed: `len(None)` -/
  | lenOfNone
  /-- the values of the last column cannot be compared -/
  | notComparable
  /-- "Expect query {} rows from mysql but mysql return {} rows" -/
  | rowCount (expected got : Nat)
  deriving DecidableEq, Repr

/-- `items[0]` of a line. -/
def firstField : List String → Except AlignError String
  | [] => .error .indexOutOfRange
  | item :: _ => .ok item

section Queries

variable {ρ κ : Type} (db : Mysql ρ κ)

/-- The statement for these ids. -/
def Mysql.statement (ids : List String) : Statement :=
  ⟨db.columns, db.tableName, db.indexColumn, pyTuple db.printable ids⟩

/-- `cursor.execute` and `cursor.fetchall`. -/
def Mysql.execute (stmt : Statement) : Except SyntaxError (List ρ) :=
  match readInList stmt.inList with
  | some literals => .ok (db.answer literals)
  | none => .error ⟨⟩

/-- `xs[start:stop]`. -/
def slice {α : Type} (xs : List α) (start stop : Nat) : List α :=
  (xs.drop start).take (stop - start)

/-- The id lists of the statements of `mysql_thread_query`. -/
def threadLists (intersectIds : List String) (startIndex endIndex : Nat) :
    List (List String) :=
  let batchSize := 1000
  let numIter := (endIndex - startIndex) / batchSize
  let reminder := (endIndex - startIndex) % batchSize
  ((List.range numIter).map fun i =>
    let innerStartIndex := startIndex + i * batchSize
    let innerEndIndex := innerStartIndex + batchSize
    slice intersectIds innerStartIndex innerEndIndex)
  ++ if reminder ≠ 0 then
      let innerStartIndex := startIndex + numIter * batchSize
      let innerEndIndex := innerStartIndex + reminder
      [slice intersectIds innerStartIndex innerEndIndex]
    else []

/-- `mysql_thread_query`: the statements one after the other. -/
def mysqlThreadQuery (intersectIds : List String)
    (startIndex endIndex : Nat) : Except SyntaxError (List ρ) :=
  ((threadLists intersectIds startIndex endIndex).mapM fun ids =>
    db.execute (db.statement ids)).map List.flatten

variable [LinearOrder κ]

/-- The order of the sort: `v[-1]`. A NULL is never compared. -/
def Mysql.lastLe (a b : ρ) : Bool :=
  match db.last a, db.last b with
  | some x, some y => decide (x ≤ y)
  | none, _ => true
  | some _, none => false

/-- `result_list.sort(key=lambda v: v[-1])`; a list of several rows cannot
be sorted with a NULL among the values. -/
def Mysql.sortByLast (rows : List ρ) : Except AlignError (List ρ) :=
  if rows.length ≤ 1 then .ok rows
  else if rows.any fun row => (db.last row).isNone then
    .error .notComparable
  else .ok (rows.mergeSort db.lastLe)

/-- The ranges of the threads of one round. -/
def roundRanges (currIter batchSize numThread : Nat) : List (Nat × Nat) :=
  let indexBase := currIter * batchSize * numThread
  (List.range numThread).map fun j =>
    let startIndex := indexBase + batchSize * j
    let endIndex := startIndex + batchSize
    (startIndex, endIndex)

/-- `mysql_run_query_multithread`; `none` when a thread failed. -/
def mysqlRunQueryMultithread (currIter batchSize numThread : Nat)
    (idList : List String) : Except AlignError (Option (List ρ)) :=
  match (roundRanges currIter batchSize numThread).mapM fun range =>
      mysqlThreadQuery db idList range.1 range.2 with
  | .error _ => .ok none
  | .ok results => (db.sortByLast results.flatten).map some

/-- How many ids a thread is given. -/
def batchSizeFor (numIntersect : Nat) : Nat :=
  if numIntersect < 10000 then 1000
  else if numIntersect < 100000 then 10000
  else 100000

/-- The full rounds. -/
def fullRounds (batchSize numThread numIter : Nat)
    (intersectIds : List String) : Except AlignError (List (List ρ)) :=
  (List.range numIter).mapM fun i =>
    match mysqlRunQueryMultithread db i batchSize numThread intersectIds with
    | .error e => .error e
    | .ok none => .error .osNotDefined
    | .ok (some rows) => .ok rows

/-- The round with the threads for the batches that are left. -/
def lastRound (batchSize numIter remainThread : Nat)
    (intersectIds : List String) : Except AlignError (List ρ) :=
  if remainThread ≠ 0 then
    match mysqlRunQueryMultithread db numIter batchSize remainThread
        intersectIds with
    | .error e => .error e
    | .ok none => .error .lenOfNone
    | .ok (some rows) => .ok rows
  else .ok []

/-- The query for the ids that fill no batch. Its failure is noted in a
variable nothing reads. -/
def reminderQuery (batchSize numBatch reminder : Nat)
    (intersectIds : List String) : Except AlignError (List ρ) :=
  if reminder ≠ 0 then
    let startPos := numBatch * batchSize
    let endPos := startPos + reminder
    match mysqlThreadQuery db intersectIds startPos endPos with
    | .error _ => .ok []
    | .ok rows => db.sortByLast rows
  else .ok []

/-- The part of `generate_new_datast_from_mysql` that follows the reading of
the PSI result: the rows written below the header. -/
def generateFromMysql (numThread : Nat) (intersectIds : List String) :
    Except AlignError (List ρ) := do
  if intersectIds.length = 0 then throw .emptyIntersection
  let numIntersect := intersectIds.length
  let batchSize := batchSizeFor numIntersect
  let numBatch := numIntersect / batchSize
  let reminder := numIntersect % batchSize
  let numIter := numBatch / numThread
  let remainThread := numBatch % numThread
  let full ← fullRounds db batchSize numThread numIter intersectIds
  let last ← lastRound db batchSize numIter remainThread intersectIds
  let rest ← reminderQuery db batchSize numBatch reminder intersectIds
  let rows := full.flatten ++ last ++ rest
  if rows.length ≠ numIntersect then
    throw (.rowCount numIntersect rows.length)
  pure rows

/-- `generate_new_datast_from_mysql` for the lines of a PSI result, without
its header. -/
def generateNewDatasetFromMysql (numThread : Nat)
    (psiResult : List (List String)) : Except AlignError (List ρ) := do
  let intersectIds ← psiResult.mapM firstField
  generateFromMysql db numThread intersectIds

end Queries

-- =========================================================== specification

/-- The ranges that the rounds pass to `mysql_thread_query` for `n` ids, in
groups whose rows are sorted together. -/
def roundGroups (n numThread : Nat) : List (List (Nat × Nat)) :=
  let batchSize := batchSizeFor n
  let numBatch := n / batchSize
  let numIter := numBatch / numThread
  let remainThread := numBatch % numThread
  (List.range numIter).map (fun i => roundRanges i batchSize numThread)
  ++ if remainThread ≠ 0 then [roundRanges numIter batchSize remainThread]
    else []

/-- The range of the ids that fill no batch. -/
def restGroups (n : Nat) : List (List (Nat × Nat)) :=
  let batchSize := batchSizeFor n
  if n % batchSize ≠ 0 then
    [[(n / batchSize * batchSize, n / batchSize * batchSize + n % batchSize)]]
  else []

/-- All groups of ranges. -/
def groupRanges (n numThread : Nat) : List (List (Nat × Nat)) :=
  roundGroups n numThread ++ restGroups n

/-- All these ranges. -/
def allRanges (n numThread : Nat) : List (Nat × Nat) :=
  (groupRanges n numThread).flatten

/-- The indices of a range. -/
def indices (range : Nat × Nat) : List Nat :=
  List.range' range.1 (range.2 - range.1)

section Specification

variable {ρ κ : Type}

/-- The rows returned for these ids, as they are read. -/
def Mysql.select (db : Mysql ρ κ) (ids : List String) : List ρ :=
  db.answer (ids.map (asRead db.printable))

/-- A row is returned for the literal of this id. -/
def Mysql.finds (db : Mysql ρ κ) (row : ρ) (id : String) : Bool :=
  db.equal row (asRead db.printable id)

/-- The literal of an id finds the rows with this id and no others. -/
def Told (db : Mysql ρ κ) (ids : List String) : Prop :=
  ∀ row ∈ db.table, ∀ id ∈ ids, db.finds row id = decide (db.idOf row = id)

instance (db : Mysql ρ κ) (ids : List String) : Decidable (Told db ids) :=
  inferInstanceAs (Decidable (∀ row ∈ db.table, ∀ id ∈ ids, _))

/-- The rows a thread is returned for its range. -/
def rangeRows (db : Mysql ρ κ) (ids : List String) (range : Nat × Nat) :
    List ρ :=
  (threadLists ids range.1 range.2).flatMap db.select

/-- The rows that are sorted together. -/
def groupRows (db : Mysql ρ κ) (ids : List String)
    (group : List (Nat × Nat)) : List ρ :=
  group.flatMap (rangeRows db ids)

/-- Distinct ids, each in one row of the table. -/
structure PresentOnce (db : Mysql ρ κ) (ids : List String) : Prop where
  nodup : ids.Nodup
  once : ∀ id ∈ ids, (db.table.map db.idOf).count id = 1

/-- No row of an id has a NULL in the last column. -/
def NoNull (db : Mysql ρ κ) (ids : List String) : Prop :=
  ∀ row ∈ db.table, db.idOf row ∈ ids → db.last row ≠ none

instance [DecidableEq κ] (db : Mysql ρ κ) (ids : List String) :
    Decidable (NoNull db ids) :=
  inferInstanceAs (Decidable (∀ row ∈ db.table, _))

instance (db : Mysql ρ κ) (ids : List String) :
    Decidable (PresentOnce db ids) :=
  decidable_of_iff
    (ids.Nodup ∧ ∀ id ∈ ids, (db.table.map db.idOf).count id = 1)
    ⟨fun h => ⟨h.1, h.2⟩, fun h => ⟨h.nodup, h.once⟩⟩

/-- The id lists of the statements for these groups. -/
def groupLists (ids : List String) (groups : List (List (Nat × Nat))) :
    List (List String) :=
  groups.flatten.flatMap fun range => threadLists ids range.1 range.2

/-- No group of several rows has a NULL in the last column. -/
def Sortable (db : Mysql ρ κ) (ids : List String)
    (groups : List (List (Nat × Nat))) : Prop :=
  ∀ group ∈ groups, (groupRows db ids group).length ≤ 1
    ∨ ∀ row ∈ groupRows db ids group, db.last row ≠ none

instance [DecidableEq κ] (db : Mysql ρ κ) (ids : List String)
    (groups : List (List (Nat × Nat))) : Decidable (Sortable db ids groups) :=
  inferInstanceAs (Decidable (∀ group ∈ groups, _))

/-- Of the rows with an id these statements find as many, one statement
after the other, as the list has of the id. -/
def Found (db : Mysql ρ κ) (ids : List String) (lists : List (List String)) :
    Prop :=
  ∀ id, (lists.map fun list => db.table.countP fun row =>
      db.idOf row = id && list.any (db.finds row)).sum = ids.count id

/-- The batches are a multiple of the threads, or they are too few for a
full round. -/
def RoundsFit (n numThread : Nat) : Prop :=
  n / batchSizeFor n / numThread = 0 ∨ n / batchSizeFor n % numThread = 0

instance (n numThread : Nat) : Decidable (RoundsFit n numThread) :=
  inferInstanceAs (Decidable (_ ∨ _))

/-- Every index is in one range, the statements are accepted, and for ids
that are in the table once the rows written are one for each id. -/
structure AsksOnce [LinearOrder κ] (db : Mysql ρ κ) (numThread : Nat)
    (ids : List String) : Prop where
  ranges : ((allRanges ids.length numThread).flatMap indices).Perm
    (List.range ids.length)
  statements : ∀ range ∈ allRanges ids.length numThread,
    ∀ list ∈ threadLists ids range.1 range.2, (db.statement list).Accepted
  rows : PresentOnce db ids →
    ∃ out, generateFromMysql db numThread ids = .ok out
      ∧ (out.map db.idOf).Perm ids

end Specification

end PrimiHub.Align
