/-
The task registry of a node (node/node_impl.cc): `task_executor_map_`,
the queue of management messages that feeds it, and the threads on both
sides of that queue.

# Producers

- `ExecuteTask` starts the executor thread first, waits for it to report
  ready, and only then pushes the kAdd message. These are separate steps
  here (`executeTask`, `setReady`, `addTask`); a task that reports not
  ready is dropped (`refuseTask`) once its thread has ended.
- The executor thread caches its status (`cacheStatus`) and pushes a kDel
  message when it ends (`complete`). A sub task launched by hand does
  neither.
- `StopTask` pushes a kDel message.
- `KillTask` first asks whether the task has finished (`killTask`). For
  the scheduler it then pushes a kKill message (`killPush`); other pushes
  may come between the two. For a client it pushes nothing: it only
  reports a failed status to the scheduler's worker, which is not in this
  map.

# Consumers

One thread pops the messages and updates the map (`manage`). kDel and
kKill move the whole entry of the worker id to `finished_task_queue_` or
`kill_task_queue_`. Two more threads take containers from there. The
first destroys the executors in turn (`cleanPop`, `cleanDrop`), the
second calls `kill_task` on each and then destroys it (`killPop`,
`killFront`, `killDrop`). Destroying an executor destroys the future of
its thread, which blocks until the thread has ended.

# Workers

A worker is shared. Besides the executor in the map, the calls that move
data (`ProcessReceivedData`, `ProcessSendData`, `ProcessForwardData`,
`ProcessCompleteStatus`) hold it from `GetWorker` until they return
(`dataCall`, `dataWorker`, `dataReturn`), and all but the first may block
on a queue of its link context in between.

A link context ends in one of two ways: `LinkContext::Clean` by
`kill_task`, or destruction with its worker, when the last handle goes.

# Ids

The worker id is the request id, so several executors may share one (sub
tasks of one request). Executors themselves are numbered in the order
they are created.

`handled` is a history variable: the messages popped so far, oldest
first. `stopRequested` records on an executor that StopTask or KillTask
was called for its id since it was created.
-/
import Mathlib.Data.List.Basic
import Mathlib.Logic.Function.Basic
import PrimiHub.Lib.Run

namespace PrimiHub.Node

/-- The link context of a worker's task. -/
inductive LinkContext
  | live
  /-- after `LinkContext::Clean` -/
  | cleaned
  /-- destroyed with its worker, when the last handle went -/
  | released
  deriving DecidableEq, Repr

/-- How far the `ExecuteTask` call of an executor has come. -/
inductive CallPhase
  /-- in `waitForTaskReady` -/
  | waiting
  /-- returned SUCCESS after pushing kAdd -/
  | added
  /-- returned FAIL -/
  | refused
  deriving DecidableEq, Repr

/-- How far the executor thread has come. -/
inductive ThreadPhase
  | running
  /-- after `CacheLastTaskStatus`, before the push of kDel -/
  | cached
  | ended
  deriving DecidableEq, Repr

/-- A worker, its executor thread and the call that created it. -/
structure Executor where
  workerId : String
  manualLaunch : Bool
  /-- `task_ready_promise_` -/
  ready : Option Bool
  thread : ThreadPhase
  call : CallPhase
  stopRequested : Bool
  /-- the executor with its handle on the worker has not been destroyed -/
  owned : Bool
  context : LinkContext
  deriving DecidableEq, Repr

/-- `OperateTaskType`, with the executor a kAdd message carries. -/
inductive OperateTaskType
  | kAdd (executor : Nat)
  | kDel
  | kKill
  deriving DecidableEq, Repr

/-- A message of `task_manage_queue_`. -/
structure ManageMessage where
  workerId : String
  type : OperateTaskType
  deriving DecidableEq, Repr

/-- The registry, its queues and the threads around it. -/
structure Registry where
  executors : Nat → Option Executor
  created : Nat
  duplicateTaskIdFilter : List String
  finishedTaskStatus : List String
  /-- KillTask calls of the scheduler that have found their task
  unfinished -/
  killCalls : List String
  /-- calls for data that have found their task unfinished -/
  dataCalls : List String
  /-- the workers that calls for data hold, one entry for each call -/
  holders : List Nat
  taskManageQueue : List ManageMessage
  taskExecutorMap : String → Option (List Nat)
  finishedTaskQueue : List (List Nat)
  killTaskQueue : List (List Nat)
  /-- the container the cleaning thread is destroying -/
  cleaning : List Nat
  /-- the container the kill thread is working on -/
  killing : List Nat
  handled : List ManageMessage

/-- After `VMNodeImpl::Init`. -/
def Registry.init : Registry where
  executors := fun _ => none
  created := 0
  duplicateTaskIdFilter := []
  finishedTaskStatus := []
  killCalls := []
  dataCalls := []
  holders := []
  taskManageQueue := []
  taskExecutorMap := fun _ => none
  finishedTaskQueue := []
  killTaskQueue := []
  cleaning := []
  killing := []
  handled := []

/-- Replace the record of one executor. -/
def Registry.setExecutor (s : Registry) (e : Nat) (x : Executor) : Registry :=
  { s with executors := Function.update s.executors e (some x) }

/-- `task_manage_queue_.push`. -/
def Registry.push (s : Registry) (m : ManageMessage) : Registry :=
  { s with taskManageQueue := s.taskManageQueue ++ [m] }

/-- The executor is destroyed; the link context goes with the last handle
on the worker. -/
def Registry.drop (s : Registry) (e : Nat) (x : Executor) : Registry :=
  s.setExecutor e { x with
    owned := false
    context := if e ∈ s.holders then x.context else .released }

/-- Record on the executors of an id that a stop or kill was requested. -/
def Registry.markStopped (s : Registry) (workerId : String) : Registry :=
  { s with executors := fun e => (s.executors e).map fun x =>
      if x.workerId = workerId then { x with stopRequested := true } else x }

-- ============================================================= producers

/-- `ExecuteTask` up to `waitForTaskReady`: a request seen before is
ignored, otherwise the worker is created and its thread started. -/
def executeTask (s : Registry) (requestId subTaskId : String)
    (manualLaunch : Bool) : Registry :=
  let uid := requestId ++ "_" ++ subTaskId
  if uid ∈ s.duplicateTaskIdFilter then s
  else
    { s.setExecutor s.created
        ⟨requestId, manualLaunch, none, .running, .waiting, false, true,
          .live⟩ with
      created := s.created + 1
      duplicateTaskIdFilter := uid :: s.duplicateTaskIdFilter }

/-- The executor thread sets `task_ready_promise_`. -/
def setReady (s : Registry) (e : Nat) (ready : Bool) : Option Registry :=
  match s.executors e with
  | some x =>
      if x.thread = .running ∧ x.ready = none then
        some (s.setExecutor e { x with ready := some ready })
      else none
  | none => none

/-- `ExecuteTask` after `waitForTaskReady` returned SUCCESS. -/
def addTask (s : Registry) (e : Nat) : Option Registry :=
  match s.executors e with
  | some x =>
      if x.call = .waiting ∧ x.ready = some true then
        some ((s.setExecutor e { x with call := .added }).push
          ⟨x.workerId, .kAdd e⟩)
      else none
  | none => none

/-- `ExecuteTask` after `waitForTaskReady` returned FAIL: leaving the
function waits for the thread and destroys the worker. -/
def refuseTask (s : Registry) (e : Nat) : Option Registry :=
  match s.executors e with
  | some x =>
      if x.call = .waiting ∧ x.ready = some false ∧ x.thread = .ended then
        some (s.drop e { x with call := .refused })
      else none
  | none => none

/-- The executor thread comes to `CacheLastTaskStatus`; a sub task launched
by hand has returned before. -/
def cacheStatus (s : Registry) (e : Nat) : Option Registry :=
  match s.executors e with
  | some x =>
      if x.thread = .running ∧ x.manualLaunch = false then
        some { s.setExecutor e { x with thread := .cached } with
          finishedTaskStatus := x.workerId :: s.finishedTaskStatus }
      else none
  | none => none

/-- The executor thread ends, with the push of kDel if its status was
cached. -/
def complete (s : Registry) (e : Nat) : Option Registry :=
  match s.executors e with
  | some x =>
      let s' := s.setExecutor e { x with thread := .ended }
      match x.thread with
      | .running => if x.manualLaunch then some s' else none
      | .cached => some (s'.push ⟨x.workerId, .kDel⟩)
      | .ended => none
  | none => none

/-- `VMNodeImpl::StopTask`. -/
def stopTask (s : Registry) (workerId : String) : Registry :=
  (s.markStopped workerId).push ⟨workerId, .kDel⟩

/-- `KillTaskRequest::executor`. -/
inductive KillExecutor
  | client
  | scheduler
  deriving DecidableEq, Repr

/-- `VMNodeImpl::KillTask` up to its push, which only a kill by the
scheduler comes to. -/
def killTask (s : Registry) (workerId : String) (executor : KillExecutor) :
    Registry :=
  let s' := s.markStopped workerId
  if workerId ∈ s.finishedTaskStatus then s'
  else
    match executor with
    | .client => s'
    | .scheduler => { s' with killCalls := workerId :: s.killCalls }

/-- The push of a `KillTask` call. -/
def killPush (s : Registry) (workerId : String) : Option Registry :=
  if workerId ∈ s.killCalls then
    some (({ s with killCalls := s.killCalls.erase workerId }.markStopped
      workerId).push ⟨workerId, .kKill⟩)
  else none

-- ============================================================ calls for data

/-- A call for data, up to its test of `IsFinishedTask`. -/
def dataCall (s : Registry) (workerId : String) : Registry :=
  if workerId ∈ s.finishedTaskStatus then s
  else { s with dataCalls := workerId :: s.dataCalls }

/-- `GetWorker` in a call for data: the call holds the worker at the front
of the entry. It fails where there is none, as it does when
`WaitUntilWorkerReady` times out. -/
def dataWorker (s : Registry) (workerId : String) : Option Registry :=
  if workerId ∈ s.dataCalls then
    let s' := { s with dataCalls := s.dataCalls.erase workerId }
    match s.taskExecutorMap workerId with
    | some (e :: _) => some { s' with holders := e :: s.holders }
    | _ => some s'
  else none

/-- A call for data returns and gives up its handle, which may be the
last. -/
def dataReturn (s : Registry) (e : Nat) : Option Registry :=
  match s.executors e with
  | some x =>
      if e ∈ s.holders then
        let holders := s.holders.erase e
        some { s.setExecutor e { x with context :=
            if x.owned ∨ e ∈ holders then x.context else .released } with
          holders }
      else none
  | none => none

-- ============================================================= consumers

/-- `ExecuteAddTaskOperation`. -/
def executeAddTaskOperation (s : Registry) (workerId : String) (e : Nat) :
    Registry :=
  match s.taskExecutorMap workerId with
  | some queue =>
      { s with taskExecutorMap :=
          Function.update s.taskExecutorMap workerId (some (queue ++ [e])) }
  | none =>
      { s with taskExecutorMap :=
          Function.update s.taskExecutorMap workerId (some [e]) }

/-- `ExecuteDelTaskOperation`. -/
def executeDelTaskOperation (s : Registry) (workerId : String) : Registry :=
  match s.taskExecutorMap workerId with
  | some queue =>
      { s with
        taskExecutorMap := Function.update s.taskExecutorMap workerId none
        finishedTaskQueue := s.finishedTaskQueue ++ [queue] }
  | none => s

/-- `ExecuteKillTaskOperation`. -/
def executeKillTaskOperation (s : Registry) (workerId : String) : Registry :=
  match s.taskExecutorMap workerId with
  | some queue =>
      { s with
        taskExecutorMap := Function.update s.taskExecutorMap workerId none
        killTaskQueue := s.killTaskQueue ++ [queue] }
  | none => s

/-- One turn of `ManageTaskOperatorThread`. -/
def manage (s : Registry) : Option Registry :=
  match s.taskManageQueue with
  | [] => none
  | m :: rest =>
      let s' := { s with taskManageQueue := rest, handled := s.handled ++ [m] }
      match m.type with
      | .kAdd e => some (executeAddTaskOperation s' m.workerId e)
      | .kDel => some (executeDelTaskOperation s' m.workerId)
      | .kKill => some (executeKillTaskOperation s' m.workerId)

/-- `CleanFinishedTaskThread` takes the next container. -/
def cleanPop (s : Registry) : Option Registry :=
  match s.cleaning, s.finishedTaskQueue with
  | [], queue :: rest =>
      some { s with cleaning := queue, finishedTaskQueue := rest }
  | _, _ => none

/-- `CleanFinishedTaskThread` destroys the next executor, once its thread
has ended. -/
def cleanDrop (s : Registry) : Option Registry :=
  match s.cleaning with
  | [] => none
  | e :: rest =>
      match s.executors e with
      | some x =>
          if x.thread = .ended then
            some { s.drop e x with cleaning := rest }
          else none
      | none => none

/-- `ProcessKillTaskThread` takes the next container. -/
def killPop (s : Registry) : Option Registry :=
  match s.killing, s.killTaskQueue with
  | [], queue :: rest =>
      some { s with killing := queue, killTaskQueue := rest }
  | _, _ => none

/-- `ProcessKillTaskThread` calls `kill_task` on the next executor. -/
def killFront (s : Registry) : Option Registry :=
  match s.killing with
  | [] => none
  | e :: _ =>
      match s.executors e with
      | some x => some (s.setExecutor e { x with context := .cleaned })
      | none => none

/-- `ProcessKillTaskThread` destroys the executor it has killed, once its
thread has ended. -/
def killDrop (s : Registry) : Option Registry :=
  match s.killing with
  | [] => none
  | e :: rest =>
      match s.executors e with
      | some x =>
          if x.context ≠ .live ∧ x.thread = .ended then
            some { s.drop e x with killing := rest }
          else none
      | none => none

-- ================================================================= steps

/-- The steps of the registry. -/
inductive RegistryAction
  | executeTask (requestId subTaskId : String) (manualLaunch : Bool)
  | setReady (e : Nat) (ready : Bool)
  | addTask (e : Nat)
  | refuseTask (e : Nat)
  | cacheStatus (e : Nat)
  | complete (e : Nat)
  | stopTask (workerId : String)
  | killTask (workerId : String) (executor : KillExecutor)
  | killPush (workerId : String)
  | dataCall (workerId : String)
  | dataWorker (workerId : String)
  | dataReturn (e : Nat)
  | manage
  | cleanPop
  | cleanDrop
  | killPop
  | killFront
  | killDrop
  /-- `CleanDuplicateTaskIdFilter` drops a timed out request -/
  | cleanDuplicateTaskId (uid : String)
  /-- `CleanTimeoutCachedTaskStatusThread` drops a timed out status -/
  | cleanTaskStatus (workerId : String)

/-- One step of the registry. -/
def registryStep (s : Registry) : RegistryAction → Option Registry
  | .executeTask requestId subTaskId manualLaunch =>
      some (executeTask s requestId subTaskId manualLaunch)
  | .setReady e ready => setReady s e ready
  | .addTask e => addTask s e
  | .refuseTask e => refuseTask s e
  | .cacheStatus e => cacheStatus s e
  | .complete e => complete s e
  | .stopTask workerId => some (stopTask s workerId)
  | .killTask workerId executor => some (killTask s workerId executor)
  | .killPush workerId => killPush s workerId
  | .dataCall workerId => some (dataCall s workerId)
  | .dataWorker workerId => dataWorker s workerId
  | .dataReturn e => dataReturn s e
  | .manage => manage s
  | .cleanPop => cleanPop s
  | .cleanDrop => cleanDrop s
  | .killPop => killPop s
  | .killFront => killFront s
  | .killDrop => killDrop s
  | .cleanDuplicateTaskId uid =>
      some { s with
        duplicateTaskIdFilter := s.duplicateTaskIdFilter.filter (· ≠ uid) }
  | .cleanTaskStatus workerId =>
      some { s with
        finishedTaskStatus := s.finishedTaskStatus.filter (· ≠ workerId) }

-- ========================================================== the property

/-- Every message pushed so far, oldest first. -/
def Registry.history (s : Registry) : List ManageMessage :=
  s.handled ++ s.taskManageQueue

/-- A kDel or kKill message for the id. -/
def ManageMessage.ends (m : ManageMessage) (workerId : String) : Bool :=
  m.workerId = workerId && match m.type with
    | .kAdd _ => false
    | .kDel => true
    | .kKill => true

/-- The executor has finished, or a stop or kill was requested for it. -/
def Executor.Ended (x : Executor) : Prop :=
  x.thread = .ended ∨ x.stopRequested = true

/-- All queues are empty, the two cleaning threads are idle, and no call to
the registry for the id is still under way: no `ExecuteTask` before its
push, no executor thread or `KillTask` before theirs. -/
structure Drained (s : Registry) (workerId : String) : Prop where
  manage : s.taskManageQueue = []
  finished : s.finishedTaskQueue = []
  kill : s.killTaskQueue = []
  cleaning : s.cleaning = []
  killing : s.killing = []
  calls : ∀ e x, s.executors e = some x → x.workerId = workerId →
    x.call ≠ .waiting
  threads : ∀ e x, s.executors e = some x → x.workerId = workerId →
    x.thread ≠ .cached
  kills : workerId ∉ s.killCalls

/-- The entry of an id after one of its own messages. -/
def entryStep (entry : Option (List Nat)) (m : ManageMessage) :
    Option (List Nat) :=
  match m.type with
  | .kAdd e => some (entry.getD [] ++ [e])
  | .kDel => none
  | .kKill => none

/-- What the entry of an id should be: the executors added since the last
kDel or kKill among the messages of this id, and of no other. -/
def entryOf (workerId : String) (messages : List ManageMessage) :
    Option (List Nat) :=
  (messages.filter fun m => m.workerId = workerId).foldl entryStep none

/-- What the end of a task owes the registry: its id is erased, the
contexts of its executors are gone, and every entry of the map is what
the messages of its own id made of it. -/
structure CleanedUp (s : Registry) (workerId : String) : Prop where
  erased : s.taskExecutorMap workerId = none
  contexts : ∀ e x, s.executors e = some x → x.workerId = workerId →
    x.context ≠ .live
  others : ∀ id, s.taskExecutorMap id = entryOf id s.handled

/-- A kDel or kKill message for the id has been pushed. -/
def Registry.EndPushed (s : Registry) (workerId : String) : Prop :=
  ∃ m ∈ s.history, m.ends workerId = true

instance (s : Registry) (workerId : String) :
    Decidable (s.EndPushed workerId) :=
  inferInstanceAs (Decidable (∃ m ∈ s.history, m.ends workerId = true))

/-- The condition on a step. A kAdd message is pushed only while no kDel or
kKill message has been pushed for its worker id; where the task gives no
message of its own (a sub task launched by hand that ends, a kill by a
client of an unfinished task) one has been pushed before; and no call for
data still holds the worker of an executor that is cleaned up. -/
def InTime (s : Registry) : RegistryAction → Prop
  | .addTask e => ∀ x ∈ s.executors e, ¬ s.EndPushed x.workerId
  | .complete e => ∀ x ∈ s.executors e, x.manualLaunch = true →
      s.EndPushed x.workerId
  | .killTask workerId .client =>
      workerId ∈ s.finishedTaskStatus ∨ s.EndPushed workerId
  | .cleanDrop => ∀ e ∈ s.cleaning.head?, e ∉ s.holders
  | _ => True

instance (s : Registry) (a : RegistryAction) : Decidable (InTime s a) := by
  cases a with
  | killTask workerId executor =>
      cases executor <;> unfold InTime <;> infer_instance
  | _ => unfold InTime; infer_instance

/-- The steps that meet the condition. -/
def inTimeStep (s : Registry) (a : RegistryAction) : Option Registry :=
  if InTime s a then registryStep s a else none

end PrimiHub.Node
