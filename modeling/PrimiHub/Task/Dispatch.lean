/-
How a task is sent to its parties: `VMScheduler::dispatch` (scheduler.cc)
and its overrides for Python (fl_scheduler.cc), PIR (pir_scheduler.cc) and
three-party MPC tasks (aby3_scheduler.cc), all in task/semantic/scheduler.

Each `dispatch` first checks and completes the parties of the request,
then starts one thread for each party, which runs the scheduler's own
`ScheduleTask`, and joins them. The threads share the error flag and the
list of task servers; the verdict is the flag after the join.

A thread is what it does to the shared state: one `executeTask` call, and
what follows of its outcome. What the calls return is given beforehand,
party by party, as an arbitrary function. Threads are started one by one,
but nothing keeps a thread waiting for the start of the next, and any
order of actions there is one of the orders of `Lib.Threads`.
-/
import PrimiHub.Lib.Run
import PrimiHub.Node.Scheduler
import PrimiHub.Task.Party

namespace PrimiHub.Task

open Lib

-- =============================================================== the task

/-- `rpc::Language`. -/
inductive Language
  | python
  | java
  | cpp
  | proto
deriving DecidableEq

/-- `rpc::ParamValue`: the flag, and whatever value there is. -/
structure ParamValue where
  isArray : Bool := false
  value : List String := []
deriving DecidableEq

/-- `rpc::Task`. -/
structure RpcTask where
  type : TaskType
  language : Language
  code : String := ""
  taskInfo : TaskInfo
  paramMap : List (String × ParamValue) := []
  partyName : String := ""
  partyAccessInfo : PartyMap
  auxiliaryServer : List (String × PbNode) := []

/-- `map[key] = value` of a protobuf map. -/
def assign {β : Type} (key : String) (value : β)
    (entries : List (String × β)) : List (String × β) :=
  if key ∈ entries.map Prod.fst then
    entries.map fun e => if e.1 = key then (key, value) else e
  else entries ++ [(key, value)]

-- =============================================================== the factory

/-- The schedulers that are modelled. -/
inductive Scheduler
  | vm
  | fl
  | pir
  | aby3
deriving DecidableEq

/-- `CreateMPCScheduler`. `none` stands for a scheduler of another
protocol. -/
def createMPCScheduler (task : RpcTask) : Option Scheduler :=
  if task.code = "maxpool" ∨ task.code = "lenet" then none else some .aby3

/-- `CreateProtoScheduler`; `none` also for TEE tasks and for no
scheduler. -/
def createProtoScheduler (task : RpcTask) : Option Scheduler :=
  match task.type with
  | .actorTask => createMPCScheduler task
  | .psiTask => some .vm
  | .pirTask => some .pir
  | _ => none

/-- `CreateScheduler`. -/
def createScheduler (task : RpcTask) : Option Scheduler :=
  match task.language with
  | .python => some .fl
  | .proto => createProtoScheduler task
  | _ => none

-- ============================================================ party checks

/-- `node2PbNode`, onto a node that may have other fields. -/
def setNode (node : Node) (pb : PbNode) : PbNode :=
  { pb with nodeId := node.id, ip := node.ip, port := node.port.toInt32
            role := node.role, useTls := node.useTls }

/-- The party `name`, made if it is not there, gets the address of
`node`. -/
def PartyMap.putNode (m : PartyMap) (name : String) (node : Node) :
    PartyMap where
  entries :=
    if name ∈ m.entries.map Prod.fst then
      m.entries.map fun e => if e.1 = name then (e.1, setNode node e.2) else e
    else m.entries ++ [(name, setNode node {})]
  nodup := by
    split
    case isTrue =>
      rw [List.map_map]
      have hnames : Prod.fst ∘ (fun e : String × PbNode =>
          if e.1 = name then (e.1, setNode node e.2) else e) = Prod.fst := by
        funext e
        rw [Function.comp_apply]
        split
        · rfl
        · rfl
      rw [hnames]
      exact m.nodup
    case isFalse hnot =>
      rw [List.map_append, List.map_singleton, List.nodup_append]
      refine ⟨m.nodup, List.nodup_singleton _, ?_⟩
      intro x hx y hy heq
      have hname : x = name := heq.trans (List.mem_singleton.mp hy)
      exact hnot (hname ▸ hx)

/-- A query by keyword makes the local node the client. -/
def addClient (localNode : Node) (task : RpcTask) : RpcTask :=
  match task.paramMap.lookup "clientData" with
  | some clientData =>
      if clientData.isArray then
        { task with
          partyAccessInfo := task.partyAccessInfo.putNode "CLIENT" localNode }
      else task
  | none => task

/-- `PIRScheduler::dispatch` before it sends. -/
def preparePir (localNode : Node) (task : RpcTask) :
    Except DispatchError RpcTask :=
  let request := addClient localNode task
  -- a task that only generates the query db
  if (request.paramMap.lookup "DbInfo").isSome then .ok request
  else
    let dupFilter := (request.partyAccessInfo.entries.map fun e =>
      (pbNode2Node e.2).toAddress).dedup
    if dupFilter.length < 2 then
      .error (.raised ("PIR task need 2 party to participate for this task."
        ++ "but get " ++ toString dupFilter.length))
    else .ok request

theorem alterParty_names {name : String}
    {f : PbNode → Except DispatchError PbNode}
    {entries entries' : List (String × PbNode)}
    (h : alterParty name f entries = .ok entries') :
    entries'.map Prod.fst = entries.map Prod.fst := by
  induction entries generalizing entries' with
  | nil =>
      cases h
      rfl
  | cons e rest ih =>
      rw [alterParty] at h
      split at h
      · cases hnode : f e.2 with
        | error err =>
            rw [hnode] at h
            cases h
        | ok node =>
            rw [hnode] at h
            cases h
            rfl
      · cases hrest : alterParty name f rest with
        | error err =>
            rw [hrest] at h
            cases h
        | ok rest' =>
            rw [hrest] at h
            cases h
            rw [List.map_cons, List.map_cons, ih hrest]

theorem wireParties_names {info : TaskInfo} {nodes : List PbNode}
    {names : List String} {entries entries' : List (String × PbNode)}
    (h : wireParties info nodes names entries = .ok entries') :
    entries'.map Prod.fst = entries.map Prod.fst := by
  induction names generalizing entries with
  | nil =>
      cases h
      rfl
  | cons name names ih =>
      rw [wireParties] at h
      cases halter : alterParty name
          (fun node => addVm node.partyId info nodes node) entries with
      | error err =>
          rw [halter] at h
          cases h
      | ok altered =>
          rw [halter] at h
          rw [ih h, alterParty_names halter]

/-- The ring is built of the parties of the request. -/
theorem dispatch_names {type : TaskType} {info : TaskInfo} {m : PartyMap}
    {entries : List (String × PbNode)}
    (h : dispatch type info m = .ok entries) :
    entries.map Prod.fst = m.entries.map Prod.fst := by
  unfold dispatch at h
  split at h
  · dsimp only at h
    split at h
    · cases h
    · split at h
      · cases h
      · exact wireParties_names h
  · cases h
    rfl

/-- `ABY3Scheduler::dispatch` before it sends. -/
def prepareAby3 (task : RpcTask) : Except DispatchError RpcTask :=
  match h : dispatch task.type task.taskInfo task.partyAccessInfo with
  | .error e => .error e
  | .ok entries => .ok
      { task with partyAccessInfo :=
          ⟨entries, dispatch_names h ▸ task.partyAccessInfo.nodup⟩ }

/-- What each `dispatch` does before it sends. -/
def Scheduler.prepare (localNode : Node) (task : RpcTask) :
    Scheduler → Except DispatchError RpcTask
  | .vm | .fl => .ok task
  | .pir => preparePir localNode task
  | .aby3 => prepareAby3 task

-- =============================================================== the threads

/-- What a thread does to what it shares. -/
inductive ThreadAction
  | executeTask (destNode : Node) (request : RpcTask)
  | setError
  | addTaskServer (node : Node)

/-- The servers of a reply, or nothing if the call failed. -/
abbrev Reply := Option (List PbNode)

/-- A node of `parseNotifyServer`. -/
def taskServerOf (pb : PbNode) : Node where
  ip := pb.ip
  port := pb.port.toUInt32
  useTls := pb.useTls
  role := pb.role

/-- `AddSchedulerNode`. -/
def addSchedulerNode (localNode : Node) (task : RpcTask) : RpcTask :=
  { task with
    auxiliaryServer :=
      assign "SCHEDULER_NODE" (node2PbNode localNode) task.auxiliaryServer }

/-- What follows the call: `parseNotifyServer` for a reply. -/
def afterCall (onFailure : List ThreadAction) : Reply → List ThreadAction
  | some servers =>
      servers.map fun node => .addTaskServer (taskServerOf node)
  | none => onFailure

/-- `ScheduleTask`, with what a scheduler changes in the request and what
it does when the call fails. -/
def scheduleTask (fill : RpcTask → RpcTask) (onFailure : List ThreadAction)
    (localNode : Node) (partyName : String) (destNode : Node)
    (request : RpcTask) (reply : Reply) : List ThreadAction :=
  .executeTask destNode
      (addSchedulerNode localNode (fill { request with partyName })) ::
    afterCall onFailure reply

/-- `VMScheduler::ScheduleTask`. -/
def vmScheduleTask := scheduleTask (fun task => task) [.setError]

/-- `FLScheduler::ScheduleTask`. -/
def flScheduleTask := scheduleTask (fun task => task) []

/-- The server does not get the query. -/
def clearClientData (task : RpcTask) : RpcTask :=
  if task.partyName = "SERVER" then
    { task with
      paramMap := task.paramMap.map fun e =>
        if e.1 = "clientData" then (e.1, {}) else e }
  else task

/-- `PIRScheduler::ScheduleTask`. -/
def pirScheduleTask := scheduleTask clearClientData [.setError]

/-- `ABY3Scheduler::ScheduleTask`. -/
def aby3ScheduleTask := scheduleTask (fun task => task) [.setError]

def Scheduler.scheduleTask : Scheduler → Node → String → Node → RpcTask →
    Reply → List ThreadAction
  | .vm => vmScheduleTask
  | .fl => flScheduleTask
  | .pir => pirScheduleTask
  | .aby3 => aby3ScheduleTask

-- ================================================================== dispatch

/-- What the threads share, and the calls they have made. -/
structure DispatchState where
  sent : List (Node × RpcTask) := []
  error : Bool := false
  taskServerInfo : List Node := []

/-- An action of a thread. -/
def DispatchState.act (s : DispatchState) : ThreadAction → DispatchState
  | .executeTask destNode request =>
      { s with sent := s.sent ++ [(destNode, request)] }
  | .setError => { s with error := true }
  | .addTaskServer node =>
      { s with taskServerInfo := s.taskServerInfo ++ [node] }

/-- The threads `dispatch` starts for a completed request. -/
def Scheduler.threads (scheduler : Scheduler) (localNode : Node)
    (request : RpcTask) (replies : String → Reply) :
    Pool DispatchState ThreadAction where
  shared := {}
  threads := request.partyAccessInfo.entries.map fun e =>
    scheduler.scheduleTask localNode e.1 (pbNode2Node e.2) request
      (replies e.1)

/-- What `dispatch` returns after the join. -/
def DispatchState.verdict (s : DispatchState) : PrimiHub.Node.Retcode :=
  if s.error then .fail else .success

-- ==================================================== what it is there for

/-- The threads come to their join; and at the join, in whatever order
they went, the verdict says whether all calls succeeded, each party has
been called once, under its name, and the task servers are those of the
replies. -/
structure Truthful (scheduler : Scheduler) (localNode : Node)
    (request : RpcTask) (replies : String → Reply) : Prop where
  returns : ∀ schedule p,
    run (Pool.step DispatchState.act)
      (scheduler.threads localNode request replies) schedule = some p →
    ∃ rest q, run (Pool.step DispatchState.act) p rest = some q ∧ q.Joined
  verdict : ∀ schedule p,
    run (Pool.step DispatchState.act)
      (scheduler.threads localNode request replies) schedule = some p →
    p.Joined →
    (p.shared.verdict = .success
      ↔ ∀ e ∈ request.partyAccessInfo.entries, replies e.1 ≠ none)
  sent : ∀ schedule p,
    run (Pool.step DispatchState.act)
      (scheduler.threads localNode request replies) schedule = some p →
    p.Joined →
    (p.shared.sent.map fun call => (call.1, call.2.partyName)).Perm
      (request.partyAccessInfo.entries.map fun e => (pbNode2Node e.2, e.1))
  servers : ∀ schedule p,
    run (Pool.step DispatchState.act)
      (scheduler.threads localNode request replies) schedule = some p →
    p.Joined →
    p.shared.taskServerInfo.Perm
      (request.partyAccessInfo.entries.flatMap fun e =>
        ((replies e.1).getD []).map taskServerOf)

/-- A `dispatch` whose checks pass: no party of the task is lost, and the
threads do as they should. -/
def DispatchTruthful (scheduler : Scheduler) (localNode : Node)
    (task : RpcTask) (replies : String → Reply) : Prop :=
  ∀ request, scheduler.prepare localNode task = .ok request →
    (∀ name ∈ task.partyAccessInfo.entries.map Prod.fst,
      name ∈ request.partyAccessInfo.entries.map Prod.fst)
    ∧ Truthful scheduler localNode request replies

end PrimiHub.Task
