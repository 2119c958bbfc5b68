/-
The channel of the MPC engine: `TaskMessagePassInterface`
(util/network/message_interface.h, .cc), as a step relation over the
threads that its calls start.

# Calls and threads

`async_send` and `async_recv` return at once: each starts a detached
thread and hands it the caller's buffers and completion handler. A state
has the threads in the order of the calls that started them, on the
sending peer and on the receiving one, and what the transport holds. Any
thread may take the next step.

# The queue of receives

A receiving thread passes a gate first: under `recv_queue_mu_` it looks
at `recv_wait_queue_` and waits if somebody is in it. Waiting is done
with the mutex held. Only a thread that found the queue occupied enters
it, so the queue starts empty and stays empty.

The transport keeps, for each key, the data of the completed sends in
their order, and all its sends complete. `cancel` and the counters that
only the log reads are not here.
-/
import Mathlib.Algebra.Ring.Nat
import Mathlib.Data.List.Basic
import PrimiHub.Lib.Run
import PrimiHub.Node.Channel

namespace PrimiHub.Network

open Node (Bytes)

-- ============================================================ the two peers

/-- What `Init` builds the keys of. -/
structure TaskMessagePassInterface where
  requestId : String
  subTaskId : String
  localNodeId : String
  peerNodeId : String
  deriving DecidableEq, Repr

/-- `send_key_`. -/
def TaskMessagePassInterface.sendKey (p : TaskMessagePassInterface) :
    String :=
  p.requestId ++ "_" ++ p.subTaskId ++ "_" ++ p.localNodeId ++ "_"
    ++ p.peerNodeId

/-- `recv_key_`. -/
def TaskMessagePassInterface.recvKey (p : TaskMessagePassInterface) :
    String :=
  p.requestId ++ "_" ++ p.subTaskId ++ "_" ++ p.peerNodeId ++ "_"
    ++ p.localNodeId

/-- Two interfaces of one sub-task, each the other's peer. -/
def Joined (sender receiver : TaskMessagePassInterface) : Prop :=
  sender.requestId = receiver.requestId
    ∧ sender.subTaskId = receiver.subTaskId
    ∧ sender.localNodeId = receiver.peerNodeId
    ∧ sender.peerNodeId = receiver.localNodeId

theorem Joined.key_eq {sender receiver : TaskMessagePassInterface}
    (h : Joined sender receiver) : sender.sendKey = receiver.recvKey := by
  obtain ⟨hrequest, hsub, hlocal, hpeer⟩ := h
  rw [TaskMessagePassInterface.sendKey, TaskMessagePassInterface.recvKey,
    hrequest, hsub, hlocal, hpeer]

-- =============================================================== one thread

/-- The error codes a completion handler is given. -/
inductive Errc
  | success
  | interrupted
  | messageSize
  deriving DecidableEq, Repr

/-- One call of a completion handler: `fn(errcode, bytes)`. -/
structure Completion where
  errcode : Errc
  bytes : Nat
  deriving DecidableEq, Repr

/-- A thread in `_channelSend`: its buffers, how many are sent, and the
calls of its handler. -/
structure SendThread where
  buffers : List Bytes
  index : Nat
  bytesSend : Nat
  calls : List Completion
  deriving DecidableEq, Repr

/-- The thread that `async_send` starts. -/
def SendThread.start (buffers : List Bytes) : SendThread :=
  ⟨buffers, 0, 0, []⟩

/-- One turn of the loop: the buffer that is sent and the thread after
it. -/
def SendThread.send (t : SendThread) : Option (Bytes × SendThread) :=
  match t.buffers[t.index]? with
  | none => none
  | some buffer =>
      some (buffer, { t with
        index := t.index + 1
        bytesSend := t.bytesSend + buffer.length })

/-- `fn(errcode, bytes_send)` after the loop, and the end. -/
def SendThread.complete (t : SendThread) : Option SendThread :=
  if t.index = t.buffers.length ∧ t.calls = [] then
    some { t with calls := [⟨.success, t.bytesSend⟩] }
  else none

/-- Where a thread in `_channelRecv` is. -/
inductive Phase
  | entering
  | waiting
  | receiving
  | leaving
  | finished
  deriving DecidableEq, Repr

/-- A thread in `_channelRecv`: the sizes of its buffers, what has been
copied into them, and the calls of its handler. -/
structure RecvThread where
  sizes : List Nat
  received : List Bytes
  bytesRecv : Nat
  errcode : Errc
  phase : Phase
  calls : List Completion
  deriving DecidableEq, Repr

/-- The thread that `async_recv` starts. -/
def RecvThread.start (sizes : List Nat) : RecvThread :=
  ⟨sizes, [], 0, .success, .entering, []⟩

/-- The size of the buffer that is filled next; none when the loop has
ended, at its end or at an error. -/
def RecvThread.wants (t : RecvThread) : Option Nat :=
  if t.phase = .receiving ∧ t.errcode = .success then
    t.sizes[t.received.length]?
  else none

/-- One turn of the loop, with what `forwardRecv` returned. -/
def RecvThread.recv (t : RecvThread) (size : Nat) (recvStr : Bytes) :
    RecvThread :=
  if recvStr.length = 0 then { t with errcode := .interrupted }
  else if recvStr.length ≠ size then { t with errcode := .messageSize }
  else
    { t with
      received := t.received ++ [recvStr]
      bytesRecv := t.bytesRecv + size }

/-- `fn(errcode, bytes_recv)` after the loop. -/
def RecvThread.complete (t : RecvThread) : Option RecvThread :=
  if t.phase = .receiving ∧ t.wants = none then
    some { t with
      phase := .leaving
      calls := t.calls ++ [⟨t.errcode, t.bytesRecv⟩] }
  else none

-- =============================================================== the system

/-- What the two sides call, in order: the buffers given to each
`async_send` and the sizes of those given to each `async_recv`. -/
structure Calls where
  sends : List (List Bytes)
  recvs : List (List Nat)

/-- Buffer sizes match in order and no buffer is empty. -/
def Calls.Matching (c : Calls) : Prop :=
  (∀ buffers ∈ c.sends, ∀ buffer ∈ buffers, buffer ≠ [])
    ∧ ∀ (i : Nat) (buffers : List Bytes) (sizes : List Nat),
      c.sends[i]? = some buffers → c.recvs[i]? = some sizes →
        buffers.map List.length = sizes

/-- The threads of the calls made so far, what the transport holds, and
the receiving peer's `recv_wait_queue_` and the holder of its mutex. -/
structure ChannelState where
  sends : List SendThread
  recvs : List RecvThread
  transport : String → List Bytes
  recvWaitQueue : List Nat
  recvQueueMu : Option Nat

/-- Before the first call. -/
def ChannelState.init : ChannelState :=
  ⟨[], [], fun _ => [], [], none⟩

/-- What the callers and the threads do. -/
inductive ChannelAction
  | asyncSend
  | asyncRecv
  | send (i : Nat)
  | sendComplete (i : Nat)
  | recvEnter (i : Nat)
  | recv (i : Nat)
  | recvComplete (i : Nat)
  | recvLeave (i : Nat)
  deriving DecidableEq, Repr

/-- A step of a thread. -/
def ChannelAction.isThread : ChannelAction → Bool
  | .asyncSend | .asyncRecv => false
  | _ => true

/-- The gate: the thread that finds the queue occupied enters it and
waits, with the mutex held. -/
def ChannelState.recvEnter (s : ChannelState) (i : Nat) (t : RecvThread) :
    Option ChannelState :=
  if t.phase = .entering ∧ s.recvQueueMu = none then
    if s.recvWaitQueue = [] then
      some { s with recvs := s.recvs.set i { t with phase := .receiving } }
    else
      some { s with
        recvs := s.recvs.set i { t with phase := .waiting }
        recvWaitQueue := s.recvWaitQueue ++ [i]
        recvQueueMu := some i }
  else none

/-- The end: the thread at the front of the queue, if any, is notified and
goes on. -/
def ChannelState.recvLeave (s : ChannelState) (i : Nat) (t : RecvThread) :
    Option ChannelState :=
  if t.phase = .leaving ∧ s.recvQueueMu = none then
    let recvs := s.recvs.set i { t with phase := .finished }
    match s.recvWaitQueue with
    | [] => some { s with recvs := recvs }
    | j :: rest =>
        some { s with
          recvs := recvs.modify j fun w => { w with phase := .receiving }
          recvWaitQueue := rest
          recvQueueMu := none }
  else none

/-- One step of a caller or of a thread. -/
def channelStep (sender receiver : TaskMessagePassInterface) (c : Calls)
    (s : ChannelState) : ChannelAction → Option ChannelState
  | .asyncSend => do
      let buffers ← c.sends[s.sends.length]?
      some { s with sends := s.sends ++ [SendThread.start buffers] }
  | .asyncRecv => do
      let sizes ← c.recvs[s.recvs.length]?
      some { s with recvs := s.recvs ++ [RecvThread.start sizes] }
  | .send i => do
      let t ← s.sends[i]?
      let (sendStr, t') ← t.send
      some { s with
        sends := s.sends.set i t'
        transport := Function.update s.transport sender.sendKey
          (s.transport sender.sendKey ++ [sendStr]) }
  | .sendComplete i => do
      let t ← s.sends[i]?
      let t' ← t.complete
      some { s with sends := s.sends.set i t' }
  | .recvEnter i => do
      let t ← s.recvs[i]?
      s.recvEnter i t
  | .recv i => do
      let t ← s.recvs[i]?
      let size ← t.wants
      match s.transport receiver.recvKey with
      | [] => none
      | recvStr :: rest =>
          some { s with
            recvs := s.recvs.set i (t.recv size recvStr)
            transport := Function.update s.transport receiver.recvKey rest }
  | .recvComplete i => do
      let t ← s.recvs[i]?
      let t' ← t.complete
      some { s with recvs := s.recvs.set i t' }
  | .recvLeave i => do
      let t ← s.recvs[i]?
      s.recvLeave i t

-- ====================================================== order of receives

/-- No thread can take a step. -/
def Quiet (sender receiver : TaskMessagePassInterface) (c : Calls)
    (s : ChannelState) : Prop :=
  ∀ a : ChannelAction, a.isThread → channelStep sender receiver c s a = none

/-- What call i of `async_recv` completes with: success, the sizes of all
its buffers together, and in them what call i of `async_send` was given. -/
def RecvThread.Delivers (t : RecvThread) (sent : Option SendThread) : Prop :=
  t.calls = [⟨.success, t.sizes.sum⟩]
    ∧ t.received = (sent.map SendThread.buffers).getD []

/-- A handler is called at most once and only with what is right; where
no thread can take a step every handler has been called, that of a receive
if its send has been made. -/
def Fifo (sender receiver : TaskMessagePassInterface) (c : Calls)
    (s : ChannelState) : Prop :=
  (∀ t ∈ s.sends, t.calls ≠ [] →
      t.calls = [⟨.success, (t.buffers.map List.length).sum⟩])
    ∧ (∀ (i : Nat) (t : RecvThread), s.recvs[i]? = some t → t.calls ≠ [] →
      t.Delivers s.sends[i]?)
    ∧ (Quiet sender receiver c s →
      (∀ t ∈ s.sends, t.calls ≠ [])
        ∧ ∀ (i : Nat) (t : RecvThread), s.recvs[i]? = some t →
          i < s.sends.length → t.calls ≠ [])

/-- A thread sends or takes a message when those of the calls before it on
its side have sent or received all their buffers. -/
def InOrder (s : ChannelState) : ChannelAction → Prop
  | .send i => ∀ t ∈ s.sends.take i, t.index = t.buffers.length
  | .recv i => ∀ t ∈ s.recvs.take i, t.received.length = t.sizes.length
  | _ => True

instance (s : ChannelState) : (a : ChannelAction) → Decidable (InOrder s a)
  | .send i => inferInstanceAs
      (Decidable (∀ t ∈ s.sends.take i, t.index = t.buffers.length))
  | .recv i => inferInstanceAs
      (Decidable (∀ t ∈ s.recvs.take i, t.received.length = t.sizes.length))
  | .asyncSend | .asyncRecv | .sendComplete _ | .recvEnter _
  | .recvComplete _ | .recvLeave _ => isTrue trivial

/-- The number of steps that the threads of all the calls have to take. -/
def Calls.work (c : Calls) : Nat :=
  (c.sends.map fun buffers => buffers.length + 1).sum
    + (c.recvs.map fun sizes => sizes.length + 3).sum

end PrimiHub.Network
