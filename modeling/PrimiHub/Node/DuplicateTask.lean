/-
The filter of tasks a node has seen: `VMNodeImpl::IsDuplicateTask` and
`VMNodeImpl::CleanDuplicateTaskIdFilter` (node/node_impl.cc), with the
times the registry leaves out.

A task is known under its two ids, put together with '_'. A call notes the
time under a name it does not find; a sweep removes the names noted more
than `task_id_timeout_s_` seconds ago. `time(nullptr)` does not go back.

`history` is what the node has answered and swept, oldest first. No call
looks at it.
-/
import Mathlib.Data.Option.Basic
import Mathlib.Logic.Function.Basic
import PrimiHub.Lib.Run

namespace PrimiHub.Node

/-- The two fields of `rpc::TaskContext` the filter looks at. -/
structure TaskContext where
  requestId : String
  subTaskId : String
  deriving DecidableEq, Repr

/-- `task_uid`. -/
def TaskContext.uid (task : TaskContext) : String :=
  task.requestId ++ "_" ++ task.subTaskId

/-- What has happened, and when. -/
inductive FilterEvent
  | answered (task : TaskContext) (time : Int) (duplicate : Bool)
  | cleaned (time : Int)
  deriving DecidableEq, Repr

/-- `duplicate_task_id_filter_` and the clock. -/
structure TaskFilter where
  filter : String → Option Int
  clock : Int
  history : List FilterEvent

def TaskFilter.init : TaskFilter := ⟨fun _ => none, 0, []⟩

/-- `IsDuplicateTask`: the answer. -/
def TaskFilter.isDuplicateTask (s : TaskFilter) (task : TaskContext) : Bool :=
  (s.filter task.uid).isSome

/-- The filter after `IsDuplicateTask`. -/
def TaskFilter.note (s : TaskFilter) (task : TaskContext) (now : Int) :
    String → Option Int :=
  if s.isDuplicateTask task then s.filter
  else Function.update s.filter task.uid (some now)

/-- The filter after `CleanDuplicateTaskIdFilter`. -/
def TaskFilter.sweep (s : TaskFilter) (taskIdTimeoutS now : Int) :
    String → Option Int :=
  fun uid => (s.filter uid).bind fun time =>
    if now - time > taskIdTimeoutS then none else some time

/-- A call of one of the two functions. -/
inductive FilterCall
  | isDuplicateTask (task : TaskContext) (now : Int)
  | cleanDuplicateTaskIdFilter (now : Int)
  deriving DecidableEq, Repr

/-- What a call does; it does not come before the one before it. -/
def TaskFilter.step (taskIdTimeoutS : Int) (s : TaskFilter) :
    FilterCall → Option TaskFilter
  | .isDuplicateTask task now =>
      if now < s.clock then none
      else
        some
          { filter := s.note task now
            clock := now
            history := s.history
              ++ [.answered task now (s.isDuplicateTask task)] }
  | .cleanDuplicateTaskIdFilter now =>
      if now < s.clock then none
      else
        some
          { filter := s.sweep taskIdTimeoutS now
            clock := now
            history := s.history ++ [.cleaned now] }

-- =========================================================== specification

/-- The task was accepted at this time, and no sweep since then was more
than the time-out later. -/
def Held (taskIdTimeoutS : Int) (history : List FilterEvent)
    (task : TaskContext) (time : Int) : Prop :=
  ∃ before since, history = before ++ .answered task time false :: since
    ∧ ∀ now, FilterEvent.cleaned now ∈ since → now - time ≤ taskIdTimeoutS

/-- A call returns true for a task that is held. -/
def AnswersRight (taskIdTimeoutS : Int) (s : TaskFilter) :
    FilterCall → Prop
  | .isDuplicateTask task _ =>
      s.isDuplicateTask task = true
        ↔ ∃ time, Held taskIdTimeoutS s.history task time
  | .cleanDuplicateTaskIdFilter _ => True

/-- No task is accepted twice within the time-out. -/
def AcceptedOnce (taskIdTimeoutS : Int) (history : List FilterEvent) : Prop :=
  ∀ before between after task time time',
    history = before ++ .answered task time false :: between
        ++ .answered task time' false :: after →
      time' - time > taskIdTimeoutS

/-- No other task that is held has the name of this one. -/
def NoClash (taskIdTimeoutS : Int) (s : TaskFilter) : FilterCall → Prop
  | .isDuplicateTask task _ =>
      ∀ other time, Held taskIdTimeoutS s.history other time →
        other.uid = task.uid → other = task
  | .cleanDuplicateTaskIdFilter _ => True

end PrimiHub.Node
