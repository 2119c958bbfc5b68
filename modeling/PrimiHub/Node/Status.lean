/-
The status reports of a task on their way to the client:
`Worker::updateTaskStatus` pushes a report onto the scheduler worker's
`task_status_`, `VMNodeImpl::FetchTaskStatus` (node/node_impl.cc) drains
that queue into a reply.

# One turn of the drain loop

The loop adds an entry to the reply first and then asks
`Worker::fetchTaskStatus` to fill it in. `try_pop` fills it in from the
front of the queue, or finds the queue empty and leaves the entry as
protobuf made it; the loop ends then, and the entry stays in the reply.
`try_pop` and `push` hold the queue's mutex, so a turn and a report are
one step each, in any order, with any number of calls under way.

# The life of a worker

A run is what happens while the scheduler's worker of the request is
there. A call that does not find it answers with one NONEXIST entry
(`beginFetch`) and never touches a queue.

# History variables

`pushed` is every report so far, oldest first, and `poppedBy` the call
that took each of the first ones: reports are taken in the order they
were pushed, so the i-th entry of the one belongs to the i-th of the
other.
-/
import PrimiHub.Lib.Run
import PrimiHub.Node.Scheduler

namespace PrimiHub.Node

/-- An entry as `add_task_status` makes it. -/
def TaskStatus.blank : TaskStatus := ⟨"", .running, ""⟩

/-- `Worker::fetchTaskStatus`: whether there was a report, the entry it
was asked to fill in, and the worker. -/
def SchedulerWorker.fetchTaskStatus (w : SchedulerWorker)
    (entry : TaskStatus) : Retcode × TaskStatus × SchedulerWorker :=
  match w.taskStatus with
  | [] => (.fail, entry, w)
  | st :: rest => (.success, st, { w with taskStatus := rest })

/-- What a call to `FetchTaskStatus` has so far. -/
inductive FetchCall
  | draining (reply : List TaskStatus)
  | returned (reply : List TaskStatus)

/-- The start of `FetchTaskStatus`, with the worker it finds. -/
def beginFetch : Option SchedulerWorker → FetchCall
  | none => .returned [⟨"", .nonexist, "No shecudler found for task"⟩]
  | some _ => .draining []

/-- One turn of the loop of `FetchTaskStatus`. -/
def drainOnce (w : SchedulerWorker) (reply : List TaskStatus) :
    FetchCall × SchedulerWorker :=
  match w.fetchTaskStatus .blank with
  | (.success, entry, w) => (.draining (reply ++ [entry]), w)
  | (.fail, entry, w) => (.returned (reply ++ [entry]), w)

/-- The worker with the calls that drain it. -/
structure StatusRun where
  worker : SchedulerWorker
  pushed : List TaskStatus
  poppedBy : List Nat
  /-- how many calls have begun -/
  calls : Nat
  /-- the replies under way, by call -/
  draining : Nat → Option (List TaskStatus)
  /-- the replies that have been returned, in this order -/
  replies : List (Nat × List TaskStatus)

/-- A worker as `DispatchTask` creates it. -/
def StatusRun.init : StatusRun where
  worker := .init
  pushed := []
  poppedBy := []
  calls := 0
  draining := fun _ => none
  replies := []

/-- What reporters and pollers do. -/
inductive StatusAction
  | report (st : TaskStatus)
  | begin
  | drain (call : Nat)

/-- One step of a reporter or of a poller. -/
def statusStep (s : StatusRun) : StatusAction → Option StatusRun
  | .report st =>
      some { s with
        worker := s.worker.updateTaskStatus st, pushed := s.pushed ++ [st] }
  | .begin =>
      match beginFetch (some s.worker) with
      | .draining reply =>
          some { s with
            calls := s.calls + 1
            draining := Function.update s.draining s.calls (some reply) }
      | .returned reply =>
          some { s with
            calls := s.calls + 1, replies := s.replies ++ [(s.calls, reply)] }
  | .drain call =>
      match s.draining call with
      | none => none
      | some reply =>
          match drainOnce s.worker reply with
          | (.draining reply, w) =>
              some { s with
                worker := w, poppedBy := s.poppedBy ++ [call]
                draining := Function.update s.draining call (some reply) }
          | (.returned reply, w) =>
              some { s with
                worker := w
                draining := Function.update s.draining call none
                replies := s.replies ++ [(call, reply)] }

/-- The turn that finds a report in the queue, or no turn at all. -/
def FindsReport (s : StatusRun) : StatusAction → Prop
  | .drain _ => s.worker.taskStatus ≠ []
  | _ => True

/-- The reports that the calls took, in the order they were pushed. -/
def StatusRun.takenBy (s : StatusRun) (calls : List Nat) : List TaskStatus :=
  ((s.pushed.zip s.poppedBy).filter fun p => p.2 ∈ calls).map Prod.fst

/-- What reporting owes its clients: the returned replies, one after the
other, are the pushed reports, restricted to what has been drained. -/
def StatusRun.Faithful (s : StatusRun) : Prop :=
  (s.replies.map Prod.snd).flatten = s.takenBy (s.replies.map Prod.fst)

end PrimiHub.Node
