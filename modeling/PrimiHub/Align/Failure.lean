/-
`generate_new_datast_from_mysql` when queries fail (python/primihub/
plain_data_util/data_align.py): what it leaves behind.

Which call of `mysql_thread_query` fails, at whichever of its statements, is
a parameter, `fails`; a statement that is no SQL fails besides. A full round
notes a failure in `thread_error`, the last round and the rest note it in
`thread_errors`, which nothing reads. The output file is opened before the
first query. The module that is to remove it is not imported.
-/
import PrimiHub.Align.Mysql

namespace PrimiHub.Align

/-- A call of `mysql_thread_query`: by thread `j` of a round, or for the ids
that fill no batch. -/
inductive Query
  | thread (currIter j : Nat)
  | reminder
  deriving DecidableEq, Repr

/-- What a call leaves: the rows below the header of the output file, if it
was opened, whether the new dataset is registered, and the exception. -/
structure Outcome (ρ : Type) where
  file : Option (List ρ)
  registered : Bool
  raised : Option AlignError
  deriving DecidableEq, Repr

section Failures

variable {ρ κ : Type} [LinearOrder κ] (db : Mysql ρ κ) (fails : Query → Bool)

/-- An exception after these rows were written. -/
def Outcome.raise (written : List ρ) (e : AlignError) : Outcome ρ :=
  ⟨some written, false, some e⟩

/-- `mysql_run_query_multithread`: `None` when a thread failed. -/
def runRound (currIter batchSize numThread : Nat) (ids : List String) :
    Except AlignError (Option (List ρ)) :=
  if (List.range numThread).any fun j => fails (.thread currIter j) then
    .ok none
  else mysqlRunQueryMultithread db currIter batchSize numThread ids

/-- The loop over the full rounds: the rows written, and `thread_error`. -/
def writeFullRounds (batchSize numThread : Nat) (ids : List String) :
    List Nat → List ρ → Except (Outcome ρ) (List ρ × Bool)
  | [], written => .ok (written, false)
  | i :: rounds, written =>
      match runRound db fails i batchSize numThread ids with
      | .error e => .error (.raise written e)
      -- break
      | .ok none => .ok (written, true)
      | .ok (some rows) =>
          writeFullRounds batchSize numThread ids rounds (written ++ rows)

/-- `if not thread_error and remain_thread != 0`. -/
def writeLastRound (batchSize numIter remainThread : Nat) (ids : List String)
    (written : List ρ) (threadError : Bool) : Except (Outcome ρ) (List ρ) :=
  if threadError = false ∧ remainThread ≠ 0 then
    match runRound db fails numIter batchSize remainThread ids with
    | .error e => .error (.raise written e)
    -- `thread_errors` is set, then the length of `None` is taken
    | .ok none => .error (.raise written .lenOfNone)
    | .ok (some rows) => .ok (written ++ rows)
  else .ok written

/-- `if reminder != 0 and thread_error is False`. -/
def writeReminder (batchSize numBatch reminder : Nat) (ids : List String)
    (written : List ρ) (threadError : Bool) : Except (Outcome ρ) (List ρ) :=
  if reminder ≠ 0 ∧ threadError = false then
    let startPos := numBatch * batchSize
    let endPos := startPos + reminder
    if fails .reminder then .ok written
    else
      match mysqlThreadQuery db ids startPos endPos with
      | .error _ => .ok written
      | .ok rows =>
          match db.sortByLast rows with
          | .error e => .error (.raise written e)
          | .ok rows => .ok (written ++ rows)
  else .ok written

/-- From `if thread_error is True` on. -/
def finish (numIntersect : Nat) (written : List ρ) (threadError : Bool) :
    Outcome ρ :=
  -- `os.remove`
  if threadError then .raise written .osNotDefined
  else if written.length ≠ numIntersect then
    .raise written (.rowCount numIntersect written.length)
  else ⟨some written, true, none⟩

/-- `generate_new_datast_from_mysql` for the ids of a PSI result. -/
def generateDespite (numThread : Nat) (ids : List String) : Outcome ρ :=
  if ids.length = 0 then ⟨none, false, some .emptyIntersection⟩
  else
    let numIntersect := ids.length
    let batchSize := batchSizeFor numIntersect
    let numBatch := numIntersect / batchSize
    let reminder := numIntersect % batchSize
    let numIter := numBatch / numThread
    let remainThread := numBatch % numThread
    let run : Except (Outcome ρ) (Outcome ρ) := do
      let (written, threadError) ←
        writeFullRounds db fails batchSize numThread ids (List.range numIter) []
      let written ← writeLastRound db fails batchSize numIter remainThread ids
        written threadError
      let written ← writeReminder db fails batchSize numBatch reminder ids
        written threadError
      pure (finish numIntersect written threadError)
    match run with
    | .error outcome => outcome
    | .ok outcome => outcome

end Failures

-- =========================================================== specification

section Specification

variable {ρ κ : Type}

/-- The new dataset is registered with a row of the table for each id, or
nothing is left and the exception is about the alignment. -/
def EndsCleanly (db : Mysql ρ κ) (ids : List String) (o : Outcome ρ) : Prop :=
  (o.registered = true ∧ o.raised = none ∧ ∃ rows, o.file = some rows
      ∧ (∀ row ∈ rows, row ∈ db.table) ∧ (rows.map db.idOf).Perm ids)
    ∨ o.registered = false ∧ o.file = none
      ∧ o.raised ≠ some .osNotDefined ∧ o.raised ≠ some .lenOfNone

/-- The groups whose rows are written when no round fails. -/
def keptGroups (fails : Query → Bool) (n numThread : Nat) :
    List (List (Nat × Nat)) :=
  roundGroups n numThread
    ++ if fails .reminder = true ∨ n % 1000 = 1 then [] else restGroups n

/-- No query of a round fails, no group of several rows has a NULL in the
last column, and each id is in the list as often as the statements find a
row with it. -/
structure Complete (db : Mysql ρ κ) (fails : Query → Bool) (numThread : Nat)
    (ids : List String) : Prop where
  full : ∀ i < ids.length / batchSizeFor ids.length / numThread,
    ∀ j < numThread, fails (.thread i j) = false
  last : ∀ j < ids.length / batchSizeFor ids.length % numThread,
    fails (.thread (ids.length / batchSizeFor ids.length / numThread) j)
      = false
  sorted : Sortable db ids (keptGroups fails ids.length numThread)
  found : Found db ids
    (groupLists ids (keptGroups fails ids.length numThread))

end Specification

end PrimiHub.Align
