/-
The data channel between two nodes: `GrpcChannel::send`
(util/network/grpc_link_context.cc) against `VMNodeInterface::Send`
(node/node_interface.cc) and `VMNodeImpl::ProcessReceivedData`
(node/node_impl.cc), as a step relation over the sender, the calls in
flight and the receiver's queues.

# The steps

A sender cuts the data into requests and opens a streaming RPC. From
then on three things can happen, in the order the environment likes:

- `serve`: the server's handler runs on the whole stream and fills in
  the response;
- `finishOk`: `writer->Finish()` reports an OK status, which needs a
  handler that has answered; the client reads `ret_code` and `send`
  returns;
- `finishErr`: `Finish` reports an error (a lost connection, a deadline),
  before or after the handler ran. The client opens the next RPC with
  the same requests, until `retry_max_times_` errors, then returns FAIL.

An RPC the client has given up on may still have reached the server:
`reader->Read` returns false both at the end of a stream and when it
breaks, and the handler does not ask which, so it goes on with whatever
prefix it has read. Such a stream is kept in `abandoned` and handled
(`serveAbandoned`) at any later time, or never.

# The receiver's view

`ProcessReceivedData` makes four tests before it pushes (the task is not
finished, its worker becomes ready in time, it is still registered, it
has a link context). Their results depend on what else the node is
doing, so each call gets its own `ReceiverView`.

`pushed` records everything ever pushed onto a worker's receive queue
for a key, oldest first. What readers pop later is not part of it.
-/
import Mathlib.Data.List.Basic
import Mathlib.Logic.Function.Basic
import PrimiHub.Lib.Run
import PrimiHub.Node.Scheduler

namespace PrimiHub.Node

/-- A byte string. -/
abbrev Bytes := List UInt8

/-- `rpc::TaskRequest`, the fields `Send` reads: the worker id is
`task_info.request_id`. -/
structure TaskRequest where
  workerId : String
  role : String
  dataLen : Nat
  data : Bytes
  deriving DecidableEq, Repr

-- ============================================================= chunking

/-- The loop of `GrpcChannel::buildTaskRequest` from `sended_size` on,
`rest` being the bytes after it: one package of at most
`maxPackageSize` bytes, and on while bytes remain. -/
def buildTaskRequestLoop (maxPackageSize : Nat) (hpos : 0 < maxPackageSize)
    (workerId role : String) (totalLength : Nat) (rest : Bytes) :
    List TaskRequest :=
  ⟨workerId, role, totalLength, rest.take maxPackageSize⟩ ::
    if maxPackageSize < rest.length then
      buildTaskRequestLoop maxPackageSize hpos workerId role totalLength
        (rest.drop maxPackageSize)
    else []
termination_by rest.length
decreasing_by
  rw [List.length_drop]
  omega

/-- `GrpcChannel::buildTaskRequest`: at least one package, also for no
bytes at all. -/
def buildTaskRequest (maxPackageSize : Nat) (hpos : 0 < maxPackageSize)
    (workerId role : String) (data : Bytes) : List TaskRequest :=
  buildTaskRequestLoop maxPackageSize hpos workerId role data.length data

/-- `LIMITED_PACKAGE_SIZE` (common/common.h). -/
def limitedPackageSize : Nat := 3 * 1024 * 1024

-- ============================================================= receiver

/-- What the tests of one `ProcessReceivedData` call find. -/
structure ReceiverView where
  finishedTask : Bool
  workerReady : Bool
  workerFound : Bool
  linkContext : Bool
  deriving DecidableEq, Repr

/-- Everything pushed onto the receive queues, per worker id and key. -/
abbrev RecvQueues := String → String → List Bytes

/-- `recv_queue.push`. -/
def RecvQueues.push (q : RecvQueues) (workerId key : String) (data : Bytes) :
    RecvQueues := fun w k =>
  if w = workerId ∧ k = key then q w k ++ [data] else q w k

/-- `VMNodeImpl::ProcessReceivedData`. -/
def processReceivedData (view : ReceiverView) (q : RecvQueues)
    (workerId key : String) (data : Bytes) : Retcode × RecvQueues :=
  if view.finishedTask then (.fail, q)
  else if !view.workerReady then (.fail, q)
  else if !view.workerFound then (.fail, q)
  else if !view.linkContext then (.fail, q)
  else (.success, q.push workerId key data)

/-- What one run of the server's handler amounted to. -/
structure Served where
  /-- the verdict of `ProcessReceivedData` -/
  processed : Retcode
  /-- `response->ret_code()` as it goes back to the client -/
  response : Retcode
  deriving DecidableEq, Repr

/-- `set_ret_code`: the last code set is the one sent. -/
def setRetCode (_old new : Retcode) : Retcode := new

/-- `VMNodeInterface::Send` on the requests it reads: task and key are
the first request's, the data is appended up. The response is set to
FAIL when processing failed, and then set to SUCCESS in any case. -/
def vmNodeSend (view : ReceiverView) (q : RecvQueues)
    (requests : List TaskRequest) : Served × RecvQueues :=
  let workerId := (requests.head?.map TaskRequest.workerId).getD ""
  let key := (requests.head?.map TaskRequest.role).getD ""
  let receivedData := (requests.map TaskRequest.data).flatten
  let (ret, q') := processReceivedData view q workerId key receivedData
  let response : Retcode := .success
  let response := if ret ≠ .success then setRetCode response .fail else response
  let response := setRetCode response .success
  (⟨ret, response⟩, q')

-- =============================================================== sender

/-- A `send` call in progress: its arguments, the requests it streams on
every attempt, the errors so far, and the handler's run on the current
RPC if it has happened. -/
structure SendOp where
  role : String
  data : Bytes
  requests : List TaskRequest
  retryTime : Nat
  served : Option Served

/-- A `send` call that has returned. -/
structure SendResult where
  role : String
  data : Bytes
  ret : Retcode
  deriving DecidableEq, Repr

/-- Sender, calls in flight and receiver. -/
structure ChannelState where
  sender : Option SendOp
  abandoned : List (List TaskRequest)
  pushed : RecvQueues
  returned : List SendResult

/-- Nothing sent yet, all queues empty. -/
def ChannelState.init : ChannelState where
  sender := none
  abandoned := []
  pushed := fun _ _ => []
  returned := []

/-- The steps of the channel. -/
inductive ChannelAction
  /-- `send(role, data)` is called and opens its first RPC -/
  | send (role : String) (data : Bytes)
  /-- the handler runs on the current RPC's whole stream -/
  | serve (view : ReceiverView)
  /-- `Finish` reports OK -/
  | finishOk
  /-- `Finish` reports an error; if the handler has not run yet, the
  server may be left with the first `left` requests -/
  | finishErr (left : Option Nat)
  /-- the handler runs on a stream the client has given up on -/
  | serveAbandoned (i : Nat) (view : ReceiverView)

/-- `retry_max_times_` (grpc_link_context.h). -/
def retryMaxTimes : Nat := 3

/-- `send` returns: the sender is free again. -/
def ChannelState.returning (s : ChannelState) (op : SendOp) (ret : Retcode) :
    ChannelState :=
  { s with sender := none, returned := s.returned ++ [⟨op.role, op.data, ret⟩] }

/-- The streams left behind by an RPC that ended with an error. -/
def leftBehind (op : SendOp) (left : Option Nat) : List (List TaskRequest) :=
  match op.served, left with
  | none, some k => [op.requests.take k]
  | _, _ => []

variable (maxPackageSize : Nat) (hpos : 0 < maxPackageSize) (workerId : String)

/-- One step of the channel of the task `workerId`. -/
def channelStep (s : ChannelState) : ChannelAction → Option ChannelState
  | .send role data =>
      match s.sender with
      | some _ => none
      | none =>
          let requests :=
            buildTaskRequest maxPackageSize hpos workerId role data
          some { s with sender := some ⟨role, data, requests, 0, none⟩ }
  | .serve view =>
      match s.sender with
      | none => none
      | some op =>
          if op.served.isSome then none
          else
            let (served, q) := vmNodeSend view s.pushed op.requests
            some { s with
              sender := some { op with served := some served }, pushed := q }
  | .finishOk =>
      match s.sender with
      | none => none
      | some op =>
          match op.served with
          | none => none
          | some served =>
              if served.response ≠ .success then some (s.returning op .fail)
              else some (s.returning op .success)
  | .finishErr left =>
      match s.sender with
      | none => none
      | some op =>
          let s' := { s with abandoned := s.abandoned ++ leftBehind op left }
          let retryTime := op.retryTime + 1
          if retryTime < retryMaxTimes then
            some { s' with
              sender := some { op with retryTime := retryTime, served := none } }
          else some (s'.returning op .fail)
  | .serveAbandoned i view =>
      match s.abandoned[i]? with
      | none => none
      | some requests =>
          some { s with
            abandoned := s.abandoned.eraseIdx i
            pushed := (vmNodeSend view s.pushed requests).2 }

-- =========================================================== the property

/-- The data of the sends on `key` that returned SUCCESS, in order. -/
def deliveredOn (returned : List SendResult) (key : String) : List Bytes :=
  (returned.filter fun r => r.ret = .success ∧ r.role = key).map
    SendResult.data

/-- What a reported result owes the receiver's queues, from the moment
the call started (`s₀`) to the moment it returned (`s₁`): SUCCESS exactly
if the whole data was pushed, once, on its key; FAIL leaves every queue
as it was; and over all calls so far each queue holds the data of the
successful sends on its key, in send order. -/
structure DeliveryReal (s₀ s₁ : ChannelState) (r : SendResult) : Prop where
  success_iff : r.ret = .success ↔
    s₁.pushed workerId r.role = s₀.pushed workerId r.role ++ [r.data]
  fail_unchanged : r.ret = .fail → s₁.pushed = s₀.pushed
  in_order : ∀ key, s₁.pushed workerId key = deliveredOn s₁.returned key

/-- The four tests all pass, so the data is pushed. -/
def ReceiverView.accepts (view : ReceiverView) : Bool :=
  !view.finishedTask && view.workerReady && view.workerFound
    && view.linkContext

/-- The verdict of `ProcessReceivedData` on the current RPC, if its
handler has run. -/
def ChannelState.processed (s : ChannelState) : Option Retcode :=
  (s.sender.bind SendOp.served).map Served.processed

/-- The condition on a step under which reported delivery is real
delivery: an RPC that ends with OK has been processed successfully, and
one that ends with an error has not been and is not processed
successfully later. -/
def StepOk (s : ChannelState) : ChannelAction → Prop
  | .finishOk => s.processed ≠ some .fail
  | .finishErr _ => s.processed ≠ some .success
  | .serveAbandoned _ view => view.accepts = false
  | _ => True

instance (s : ChannelState) (a : ChannelAction) : Decidable (StepOk s a) := by
  cases a <;> unfold StepOk <;> infer_instance

/-- The steps that meet the condition. -/
def okStep (s : ChannelState) (a : ChannelAction) : Option ChannelState :=
  if StepOk s a then channelStep maxPackageSize hpos workerId s a else none

end PrimiHub.Node
