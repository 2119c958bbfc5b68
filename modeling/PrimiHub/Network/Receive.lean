/-
The receives of a task, on the queues of its `LinkContext`
(util/network/link_context.cc), next to the pushes and one `Clean`.

# Steps of a receive

- The two local `Recv`s touch nothing shared between their
  `wait_and_pop` and their return: one step.
- A forwarded receive pops in the server's handler (`forwardPop`) and is
  decided in the client when the RPC ends (`forwardFinish`). A client that
  has given up (a deadline, a lost connection) returns FAIL while its
  handler is still waiting, and the handler pops all the same
  (`abandoned`).
- The passive `SendRecv` pops, then asks `HasStopped` and puts its answer
  on the send queue, then waits for the completion mark: three steps, and
  `Clean` may come between them.

Every pop leaves a record in `pops`, in the order of the pops. The pop
lies between the call and the return of its receive, so receives that do
not overlap stand there in the order they were made. `took` says which
push of the key the receive took off the queue: the pushes are numbered,
and what is in the queue are the last of them (`front`).
-/
import PrimiHub.Network.Exchange

namespace PrimiHub.Network

open Node (Bytes Retcode TaskRequest ReceiverView)

/-- The overloads of `Recv`, and the passive `SendRecv`. -/
inductive RecvVariant
  /-- `Recv(key, std::string*)` -/
  | string
  /-- `Recv(key, char*, recv_size)` -/
  | buffer (recvSize : Nat)
  /-- `Recv(key, dest_node, std::string*)`, or into a buffer of the given
  size -/
  | forward (recvSize : Option Nat)
  /-- `SendRecv(key, send_buf, recv_buf)` -/
  | passive (sendBuf : Bytes)
  deriving DecidableEq, Repr

/-- Where a receive stands after its pop. -/
inductive Progress
  /-- the handler has written its stream, the client has not finished -/
  | forwarded (stream : List TaskRequest)
  /-- `SendRecv` before it asks `HasStopped` -/
  | popped (recvBuf : Bytes)
  /-- `SendRecv` waiting for the completion mark -/
  | replying (recvBuf : Bytes)
  /-- returned, with what the caller's buffer then holds -/
  | returned (ret : Retcode) (recvBuf : Bytes)
  deriving DecidableEq, Repr

/-- A receive from its pop on. -/
structure Receive where
  variant : RecvVariant
  took : Option Nat
  progress : Progress
  deriving DecidableEq, Repr

/-- The context, how far `Clean` has got, everything pushed so far and
the receives that have popped, by key. -/
structure RecvState where
  ctx : LinkContext
  phase : CleanPhase
  pushed : String → List Bytes
  pops : String → List Receive

/-- Nothing pushed, `Clean` not called. -/
def RecvState.init : RecvState where
  ctx := .init
  phase := .notCalled
  pushed := fun _ => []
  pops := fun _ => []

/-- The number of the push at the front of the queue. -/
def RecvState.front (s : RecvState) (key : String) : Nat :=
  (s.pushed key).length - (s.ctx.recvQueue key).items.length

/-- Which push a `wait_and_pop` on the receive queue takes. -/
def RecvState.takes (s : RecvState) (key : String) : Option Nat :=
  (s.ctx.recvQueue key).taken.map fun _ => s.front key

/-- One more record for the key. -/
def RecvState.record (s : RecvState) (ctx : LinkContext) (key : String)
    (r : Receive) : RecvState :=
  { s with
    ctx := ctx
    pops := Function.update s.pops key (s.pops key ++ [r]) }

/-- The `i`-th receive of the key has got on. -/
def RecvState.advance (s : RecvState) (ctx : LinkContext) (key : String)
    (i : Nat) (r : Receive) : RecvState :=
  { s with
    ctx := ctx
    pops := Function.update s.pops key ((s.pops key).set i r) }

-- ================================================================= steps

/-- `wait_and_pop(recv_buf_tmp)` on the receive queue, `recv_buf_tmp`
being empty. -/
def RecvState.pop (s : RecvState) (key : String) (variant : RecvVariant)
    (progress : Bytes → Progress) : Option RecvState :=
  match (s.ctx.recvQueue key).waitAndPop [] with
  | none => none
  | some (q, data) =>
      some (s.record (s.ctx.setRecvQueue key q) key
        ⟨variant, s.takes key, progress data⟩)

/-- How `Recv(key, char*, recv_size)` returns. -/
def recvBufferReturn (recvSize : Nat) (recvBufTmp : Bytes) : Progress :=
  if recvSize ≠ recvBufTmp.length then .returned .fail []
  else .returned .success recvBufTmp

/-- How a forwarded receive returns: the overload into a buffer is built
on the other one. -/
def forwardReturn (recvSize : Option Nat) (stream : List TaskRequest)
    (statusOk : Bool) : Progress :=
  match recvSize with
  | none =>
      let (ret, recvBuf) := recvForward stream statusOk
      .returned ret recvBuf
  | some size =>
      let (ret, recvBuf) := recvForwardBuffer size stream statusOk
      .returned ret recvBuf

/-- The steps around the receive queues of a context. -/
inductive RecvAction
  /-- `ProcessReceivedData` pushes -/
  | push (key : String) (data : Bytes)
  /-- a receive has got its queue and starts waiting -/
  | getRecvQueue (key : String)
  /-- the next part of `Clean` -/
  | clean
  /-- `Recv(key, std::string*)` -/
  | recvString (key : String)
  /-- `Recv(key, char*, recv_size)` -/
  | recvBuffer (key : String) (recvSize : Nat)
  /-- `ProcessForwardData` and the stream `ForwardRecv` writes -/
  | forwardPop (key : String) (recvSize : Option Nat) (view : ReceiverView)
      (abandoned : Bool)
  /-- `Finish` of the `i`-th receive's RPC -/
  | forwardFinish (key : String) (i : Nat) (statusOk : Bool)
  /-- the pop of the passive `SendRecv` -/
  | passivePop (key : String) (sendBuf : Bytes)
  /-- `HasStopped`, and the answer on the send queue -/
  | passiveCheck (key : String) (i : Nat)
  /-- the pop on the completion queue, and the return -/
  | passiveComplete (key : String) (i : Nat)
  /-- `ProcessSendData` takes an answer -/
  | processSendData (key : String) (view : ReceiverView)
  deriving DecidableEq, Repr

section
variable (maxPackageSize : Nat) (hpos : 0 < maxPackageSize)
  (workerId : String)

/-- One step around the receive queues of the task `workerId`. -/
def recvStep (s : RecvState) : RecvAction → Option RecvState
  | .push key data =>
      some { s with
        ctx := s.ctx.setRecvQueue key ((s.ctx.recvQueue key).push data)
        pushed := Function.update s.pushed key (s.pushed key ++ [data]) }
  | .getRecvQueue key => some { s with ctx := s.ctx.getRecvQueue key }
  | .clean =>
      (s.ctx.cleanNext s.phase).map fun p =>
        { s with ctx := p.1, phase := p.2 }
  | .recvString key =>
      s.pop key .string fun data => .returned .success data
  | .recvBuffer key recvSize =>
      s.pop key (.buffer recvSize) (recvBufferReturn recvSize)
  | .forwardPop key recvSize view abandoned =>
      match vmNodeForwardRecv maxPackageSize hpos view s.ctx workerId key with
      | none => none
      | some (stream, ctx') =>
          let took := if view.accepts then s.takes key else none
          some (s.record ctx' key ⟨.forward recvSize, took,
            if abandoned then .returned .fail [] else .forwarded stream⟩)
  | .forwardFinish key i statusOk =>
      match (s.pops key)[i]? with
      | some ⟨.forward recvSize, took, .forwarded stream⟩ =>
          some (s.advance s.ctx key i ⟨.forward recvSize, took,
            forwardReturn recvSize stream statusOk⟩)
      | _ => none
  | .passivePop key sendBuf => s.pop key (.passive sendBuf) .popped
  | .passiveCheck key i =>
      match (s.pops key)[i]? with
      | some ⟨.passive sendBuf, took, .popped recvBuf⟩ =>
          if s.ctx.stop then
            some (s.advance s.ctx key i
              ⟨.passive sendBuf, took, .returned .fail recvBuf⟩)
          else
            let ctx := s.ctx.setSendQueue key
              ((s.ctx.sendQueue key).push sendBuf)
            some (s.advance ctx key i
              ⟨.passive sendBuf, took, .replying recvBuf⟩)
      | _ => none
  | .passiveComplete key i =>
      match (s.pops key)[i]? with
      | some ⟨.passive sendBuf, took, .replying recvBuf⟩ =>
          match (s.ctx.completionQueue key).waitAndPop .success with
          | none => none
          | some (q, _) =>
              some (s.advance (s.ctx.setCompletionQueue key q) key i
                ⟨.passive sendBuf, took, .returned .success recvBuf⟩)
      | _ => none
  | .processSendData key view =>
      (processSendData view s.ctx key []).map fun p =>
        { s with ctx := p.2.1 }

end

-- =========================================================== the property

/-- The receives of a key are authentic: SUCCESS brings a payload that
was pushed and that this receive took; payloads are taken in push order,
none twice; and a payload that was taken is not reported as a failed
receive. -/
structure Authentic (pushed : List Bytes) (pops : List Receive) : Prop where
  genuine : ∀ r ∈ pops, ∀ data, r.progress = .returned .success data →
    ∃ n, r.took = some n ∧ pushed[n]? = some data
  inOrder : (pops.filterMap Receive.took).Pairwise (· < ·)
  notLost : ∀ r ∈ pops, ∀ data, r.progress = .returned .fail data →
    r.took = none

/-- The condition on a step under which receives are authentic.

- `Recv` into a string does not meet a queue that is shut down, nor does
  `Recv` of zero bytes; `Recv` into a buffer asks for the length of the
  payload at the front.
- A handler whose client has given up finds nothing to take.
- A forwarded payload is not empty, has the length asked for, and its RPC
  ends without an error.
- `SendRecv` finds the context running after it has taken a payload. -/
def ReceiveOk (s : RecvState) : RecvAction → Prop
  | .recvString key => (s.ctx.recvQueue key).stop = false
  | .recvBuffer key recvSize =>
      ((s.ctx.recvQueue key).stop = true → recvSize ≠ 0)
        ∧ ∀ data, (s.ctx.recvQueue key).taken = some data →
          recvSize = data.length
  | .forwardPop key _ view abandoned =>
      abandoned = true → view.accepts = true →
        (s.ctx.recvQueue key).stop = true
  | .forwardFinish key i statusOk =>
      ∀ r n data, (s.pops key)[i]? = some r → r.took = some n →
        (s.pushed key)[n]? = some data →
        statusOk = true ∧ data ≠ []
          ∧ ∀ size, r.variant = .forward (some size) → data.length = size
  | .passiveCheck key i =>
      ∀ r, (s.pops key)[i]? = some r → r.took.isSome → s.ctx.stop = false
  | _ => True

end PrimiHub.Network
