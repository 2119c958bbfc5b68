/-
The scheduler half of `node/worker/worker.{h,cc}`: how a scheduler's
`Worker` collects the parties' final statuses and fires the promise that
`waitUntilTaskFinish` waits on.

`DispatchTask` (node/node_impl.cc) creates the worker, dispatches the
task to the parties and only then calls `setPartyCount`; from the moment
of dispatch the parties' `updateTaskStatus` calls may arrive. An
execution is therefore a list of `Event`s in any order.

# Atomicity

`updateTaskStatus` holds `final_status_mtx_` from the write of
`final_status_` to its last test, and reads `party_count_` exactly once.
`setPartyCount` takes no lock, so it may land inside such a section, but
then it is indistinguishable from landing right before it (if ahead of
the one read) or right after it. Treating both calls as single steps
loses no interleaving.

# The promise

`finishPromise` lists the values handed to `set_value`, in order. A
second `set_value` on a `std::promise` throws, so "set at most once" is
the statement that this list never grows beyond one entry.
-/
import Mathlib.Tactic.Common

namespace PrimiHub.Node

/-- `retcode`. -/
inductive Retcode
  | success
  | fail
  deriving DecidableEq, Repr

/-- `rpc::TaskStatus::StatusCode`. -/
inductive StatusCode
  | running
  | success
  | fail
  | nonexist
  | finished
  deriving DecidableEq, Repr

/-- `rpc::TaskStatus`: who reports, what, and with which text. -/
structure TaskStatus where
  party : String
  status : StatusCode
  message : String
  deriving DecidableEq, Repr

/-- The scheduler data of `Worker`. -/
structure SchedulerWorker where
  taskStatus : List TaskStatus
  finalStatus : Std.TreeMap String StatusCode
  finishPromise : List Retcode
  partyCount : Nat
  schedulerFinished : Bool

/-- A worker as `DispatchTask` creates it. -/
def SchedulerWorker.init : SchedulerWorker where
  taskStatus := []
  finalStatus := ∅
  finishPromise := []
  partyCount := 0
  schedulerFinished := false

/-- A report that ends a party's part of the task. -/
def TaskStatus.isFinal (st : TaskStatus) : Bool :=
  st.status = .success ∨ st.status = .fail

/-- The guarded `set_value`: both places that fire the promise test
`scheduler_finished` first and store it afterwards. -/
def SchedulerWorker.finishOnce (w : SchedulerWorker) (ret : Retcode) :
    SchedulerWorker :=
  if w.schedulerFinished then w
  else { w with
    finishPromise := w.finishPromise ++ [ret], schedulerFinished := true }

/-- The locked section of `updateTaskStatus`, entered for final reports
only: record the party, fire `FAIL` at once, then compare the number of
reported parties with the expected count and fire `SUCCESS`. -/
def SchedulerWorker.recordFinal (w : SchedulerWorker) (st : TaskStatus) :
    SchedulerWorker :=
  let w := { w with finalStatus := w.finalStatus.insert st.party st.status }
  let w := if st.status = .fail then w.finishOnce .fail else w
  if w.finalStatus.size = w.partyCount then w.finishOnce .success else w

/-- `Worker::updateTaskStatus`. -/
def SchedulerWorker.updateTaskStatus (w : SchedulerWorker) (st : TaskStatus) :
    SchedulerWorker :=
  let w := if st.isFinal then w.recordFinal st else w
  { w with taskStatus := w.taskStatus ++ [st] }

/-- `Worker::setPartyCount`. -/
def SchedulerWorker.setPartyCount (w : SchedulerWorker) (count : Nat) :
    SchedulerWorker :=
  { w with partyCount := count }

/-- A call that reaches the scheduler's worker. -/
inductive Event
  | update (st : TaskStatus)
  | setPartyCount (count : Nat)
  deriving DecidableEq, Repr

/-- Execute one call. -/
def SchedulerWorker.handle (w : SchedulerWorker) : Event → SchedulerWorker
  | .update st => w.updateTaskStatus st
  | .setPartyCount count => w.setPartyCount count

/-- The worker after the calls `es`, in this order. -/
def afterEvents (es : List Event) : SchedulerWorker :=
  es.foldl SchedulerWorker.handle .init

/-- `waitUntilTaskFinish` returns once the promise carries a value, and
returns that value. -/
def SchedulerWorker.waitUntilTaskFinish (w : SchedulerWorker) :
    Option Retcode := w.finishPromise.head?

-- ========================================================= the protocol

/-- Some report among the calls is `FAIL`. -/
def FailReported (es : List Event) : Prop :=
  ∃ st, Event.update st ∈ es ∧ st.status = .fail

/-- An execution of the completion protocol: `n ≥ 1` parties, one final
report each, interleaved with the one `setPartyCount(n)` call. -/
structure Interleaving where
  n : Nat
  n_pos : 1 ≤ n
  reports : List TaskStatus
  reports_length : reports.length = n
  parties_nodup : (reports.map TaskStatus.party).Nodup
  reports_final : ∀ st ∈ reports, st.isFinal = true
  events : List Event
  events_perm : events.Perm (.setPartyCount n :: reports.map .update)

/-- What the protocol owes an interleaving: at every moment the promise
has been set at most once; when it is set, the value is `FAIL` exactly if
a `FAIL` report has come in; and at the end it is set. -/
structure Interleaving.Completes (il : Interleaving) : Prop where
  atMostOnce : ∀ pre, pre <+: il.events →
    (afterEvents pre).finishPromise.length ≤ 1
  valueRight : ∀ pre e v, pre ++ [e] <+: il.events →
    (afterEvents pre).finishPromise = [] →
    (afterEvents (pre ++ [e])).finishPromise = [v] →
    (v = .fail ↔ FailReported (pre ++ [e]))
  notStuck : (afterEvents il.events).finishPromise ≠ []

end PrimiHub.Node
