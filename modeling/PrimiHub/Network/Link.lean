/-
A task's queues: `ThreadSafeQueue` (util/threadsafe_queue.h) and
`LinkContext` (util/network/link_context.cc).

# Queues

A `LinkContext` has three maps from keys to queues: data that came in,
data to be fetched, and completion marks. A queue comes into being when
an accessor is first called with its key. `shutdown` sets a flag;
`wait_and_pop` on a queue with the flag set returns at once and leaves
its argument as it was, also when the queue holds something.

`Clean` sets `stop_` and then visits the maps one after the other, each
under the mutex its accessor takes. Its four parts are therefore separate
steps here (`CleanPhase` says how far it has got), and everything else
may happen between two of them.
-/
import Mathlib.Data.List.Basic
import Mathlib.Logic.Function.Basic
import PrimiHub.Lib.Run
import PrimiHub.Node.Channel

namespace PrimiHub.Network

open Node (Bytes Retcode)

-- =============================================================== queues

/-- `ThreadSafeQueue`: `m_queue`, front first, and `stop_`. -/
structure ThreadSafeQueue (α : Type) where
  items : List α
  stop : Bool
  deriving DecidableEq, Repr

/-- A queue as it is constructed. -/
def ThreadSafeQueue.empty {α : Type} : ThreadSafeQueue α := ⟨[], false⟩

/-- `push`: the flag is not looked at. -/
def ThreadSafeQueue.push {α : Type} (q : ThreadSafeQueue α) (item : α) :
    ThreadSafeQueue α :=
  { q with items := q.items ++ [item] }

/-- `shutdown`. -/
def ThreadSafeQueue.shutdown {α : Type} (q : ThreadSafeQueue α) :
    ThreadSafeQueue α :=
  { q with stop := true }

/-- `wait_and_pop(popped_value)`: the queue afterwards and what the
argument holds; `none` while the call waits. -/
def ThreadSafeQueue.waitAndPop {α : Type} (q : ThreadSafeQueue α)
    (poppedValue : α) : Option (ThreadSafeQueue α × α) :=
  if q.stop then some (q, poppedValue)
  else
    match q.items with
    | [] => none
    | item :: rest => some ({ q with items := rest }, item)

/-- The item a call takes off the queue, if any. -/
def ThreadSafeQueue.taken {α : Type} (q : ThreadSafeQueue α) : Option α :=
  if q.stop then none else q.items.head?

/-- The queues of one of the three maps, by key. -/
abbrev QueueMap (α : Type) := String → Option (ThreadSafeQueue α)

/-- The loop `for (it : map) it->second.shutdown()`. -/
def QueueMap.shutdownAll {α : Type} (m : QueueMap α) : QueueMap α :=
  fun key => (m key).map ThreadSafeQueue.shutdown

/-- Every queue of the map is shut down. -/
def QueueMap.Down {α : Type} (m : QueueMap α) : Prop :=
  ∀ key q, m key = some q → q.stop = true

-- ========================================================= link context

/-- `LinkContext`, the part its queues live in. -/
structure LinkContext where
  stop : Bool
  inDataQueue : QueueMap Bytes
  outDataQueue : QueueMap Bytes
  completeQueue : QueueMap Retcode

/-- A context as it is constructed. -/
def LinkContext.init : LinkContext where
  stop := false
  inDataQueue := fun _ => none
  outDataQueue := fun _ => none
  completeQueue := fun _ => none

/-- The queue `GetRecvQueue(key)` refers to: a new one is shut down if
the context has been stopped. -/
def LinkContext.recvQueue (ctx : LinkContext) (key : String) :
    ThreadSafeQueue Bytes :=
  match ctx.inDataQueue key with
  | some q => q
  | none =>
      if ctx.stop then ThreadSafeQueue.empty.shutdown
      else ThreadSafeQueue.empty

/-- The queue `GetSendQueue(key)` refers to. -/
def LinkContext.sendQueue (ctx : LinkContext) (key : String) :
    ThreadSafeQueue Bytes :=
  match ctx.outDataQueue key with
  | some q => q
  | none => ThreadSafeQueue.empty

/-- The queue `GetCompleteQueue(key)` refers to. -/
def LinkContext.completionQueue (ctx : LinkContext) (key : String) :
    ThreadSafeQueue Retcode :=
  match ctx.completeQueue key with
  | some q => q
  | none => ThreadSafeQueue.empty

/-- The receive queue of the key becomes `q`. -/
def LinkContext.setRecvQueue (ctx : LinkContext) (key : String)
    (q : ThreadSafeQueue Bytes) : LinkContext :=
  { ctx with inDataQueue := Function.update ctx.inDataQueue key (some q) }

/-- The send queue of the key becomes `q`. -/
def LinkContext.setSendQueue (ctx : LinkContext) (key : String)
    (q : ThreadSafeQueue Bytes) : LinkContext :=
  { ctx with outDataQueue := Function.update ctx.outDataQueue key (some q) }

/-- The completion queue of the key becomes `q`. -/
def LinkContext.setCompletionQueue (ctx : LinkContext) (key : String)
    (q : ThreadSafeQueue Retcode) : LinkContext :=
  { ctx with
    completeQueue := Function.update ctx.completeQueue key (some q) }

/-- `LinkContext::GetRecvQueue`: the queue is there afterwards. -/
def LinkContext.getRecvQueue (ctx : LinkContext) (key : String) :
    LinkContext :=
  ctx.setRecvQueue key (ctx.recvQueue key)

/-- `LinkContext::GetSendQueue`. -/
def LinkContext.getSendQueue (ctx : LinkContext) (key : String) :
    LinkContext :=
  ctx.setSendQueue key (ctx.sendQueue key)

/-- `LinkContext::GetCompleteQueue`. -/
def LinkContext.getCompleteQueue (ctx : LinkContext) (key : String) :
    LinkContext :=
  ctx.setCompletionQueue key (ctx.completionQueue key)

/-- How far `Clean` has got. -/
inductive CleanPhase
  | notCalled
  | stopSet
  | inDone
  | outDone
  | finished
  deriving DecidableEq, Repr

/-- The next part of `LinkContext::Clean`; there is none once it has
finished. -/
def LinkContext.cleanNext (ctx : LinkContext) :
    CleanPhase → Option (LinkContext × CleanPhase)
  | .notCalled => some ({ ctx with stop := true }, .stopSet)
  | .stopSet =>
      some ({ ctx with inDataQueue := ctx.inDataQueue.shutdownAll }, .inDone)
  | .inDone =>
      some ({ ctx with outDataQueue := ctx.outDataQueue.shutdownAll },
        .outDone)
  | .outDone =>
      some ({ ctx with completeQueue := ctx.completeQueue.shutdownAll },
        .finished)
  | .finished => none

-- ==================================================== queues under Clean

/-- What is done with a queue once an accessor has returned it. -/
inductive QueueUse (α : Type)
  | push (item : α)
  | waitAndPop (poppedValue : α)
  deriving DecidableEq, Repr

/-- The queue after its use; `none` while a pop waits. -/
def QueueUse.apply {α : Type} (q : ThreadSafeQueue α) :
    QueueUse α → Option (ThreadSafeQueue α)
  | .push item => some (q.push item)
  | .waitAndPop poppedValue => (q.waitAndPop poppedValue).map Prod.fst

/-- The steps of a context: accessor calls, uses of the queues they
returned, and the parts of `Clean`. -/
inductive LinkAction
  | getRecvQueue (key : String)
  | getSendQueue (key : String)
  | getCompleteQueue (key : String)
  | useRecvQueue (key : String) (use : QueueUse Bytes)
  | useSendQueue (key : String) (use : QueueUse Bytes)
  | useCompleteQueue (key : String) (use : QueueUse Retcode)
  | clean
  deriving DecidableEq, Repr

/-- A context and how far its `Clean` has got. -/
structure LinkState where
  ctx : LinkContext
  phase : CleanPhase

/-- No queue yet, `Clean` not called. -/
def LinkState.init : LinkState := ⟨.init, .notCalled⟩

/-- One step of a context. A queue can be used only through a reference
that an accessor has returned. -/
def linkStep (s : LinkState) : LinkAction → Option LinkState
  | .getRecvQueue key => some { s with ctx := s.ctx.getRecvQueue key }
  | .getSendQueue key => some { s with ctx := s.ctx.getSendQueue key }
  | .getCompleteQueue key => some { s with ctx := s.ctx.getCompleteQueue key }
  | .useRecvQueue key use =>
      match s.ctx.inDataQueue key with
      | none => none
      | some q => (use.apply q).map fun q' =>
          { s with ctx := s.ctx.setRecvQueue key q' }
  | .useSendQueue key use =>
      match s.ctx.outDataQueue key with
      | none => none
      | some q => (use.apply q).map fun q' =>
          { s with ctx := s.ctx.setSendQueue key q' }
  | .useCompleteQueue key use =>
      match s.ctx.completeQueue key with
      | none => none
      | some q => (use.apply q).map fun q' =>
          { s with ctx := s.ctx.setCompletionQueue key q' }
  | .clean =>
      (s.ctx.cleanNext s.phase).map fun p => ⟨p.1, p.2⟩

/-- Every queue of the three maps is shut down, so a `wait_and_pop` on
it returns. -/
structure ShutdownComplete (ctx : LinkContext) : Prop where
  inDown : ctx.inDataQueue.Down
  outDown : ctx.outDataQueue.Down
  completeDown : ctx.completeQueue.Down
  recvReturns : ∀ key q v, ctx.inDataQueue key = some q →
    (q.waitAndPop v).isSome
  sendReturns : ∀ key q v, ctx.outDataQueue key = some q →
    (q.waitAndPop v).isSome
  completeReturns : ∀ key q v, ctx.completeQueue key = some q →
    (q.waitAndPop v).isSome

/-- `Clean` has visited the map of send queues. -/
def CleanPhase.outVisited : CleanPhase → Bool
  | .outDone | .finished => true
  | _ => false

/-- The condition on a step under which shutdown is complete: once
`Clean` has visited a map of send or completion queues, its accessor is
called only with keys that are in it. -/
def NoLateQueue (s : LinkState) : LinkAction → Prop
  | .getSendQueue key =>
      s.phase.outVisited = true → (s.ctx.outDataQueue key).isSome
  | .getCompleteQueue key =>
      s.phase = .finished → (s.ctx.completeQueue key).isSome
  | _ => True

end PrimiHub.Network
