/-
The receive queues along a run: what the queues themselves see to, in
every interleaving of pushes, receives and one `Clean`.

The queue of a key holds the last pushes of that key, the pops take them
in order, and a receive that has not returned yet still has the payload
it took (`Tracked`). What the receives then report is another matter and
the subject of `Authentic.lean`.

# Chain

1. `recvQueue_setRecvQueue`, `cleanNext_spec`: what the steps do to the
   queue of a key.
2. `KeyTracked` and one lemma for each kind of change.
3. The steps inverted (`pop_spec`, `vmNodeForwardRecv_cases`, the `_inv`
   lemmas), and `tracked_step`.
-/
import PrimiHub.Network.Receive
import PrimiHub.Network.Proofs.Exchange
import PrimiHub.Network.Proofs.Shutdown

namespace PrimiHub.Network

open Lib
open Node (Bytes Retcode TaskRequest ReceiverView buildTaskRequest)

-- ============================================================ the context

/-- The receive queues after one has been put back. -/
theorem recvQueue_setRecvQueue (ctx : LinkContext) (key key' : String)
    (q : ThreadSafeQueue Bytes) :
    (ctx.setRecvQueue key q).recvQueue key'
      = if key' = key then q else ctx.recvQueue key' := by
  unfold LinkContext.recvQueue LinkContext.setRecvQueue
  by_cases hkey : key' = key
  · subst hkey
    simp only [Function.update_self, if_true]
  · simp only [Function.update_of_ne hkey, if_neg hkey]

/-- An accessor call changes no receive queue. -/
theorem recvQueue_getRecvQueue (ctx : LinkContext) (key key' : String) :
    (ctx.getRecvQueue key).recvQueue key' = ctx.recvQueue key' := by
  rw [LinkContext.getRecvQueue, recvQueue_setRecvQueue]
  split
  · next h => rw [h]
  · rfl

/-- A part of `Clean` leaves the context stopped and the contents of the
receive queues as they were. -/
theorem cleanNext_spec {ctx ctx' : LinkContext} {phase phase' : CleanPhase}
    (hstop : phase ≠ .notCalled → ctx.stop = true)
    (h : ctx.cleanNext phase = some (ctx', phase')) :
    ctx'.stop = true
      ∧ ∀ key, (ctx'.recvQueue key).items = (ctx.recvQueue key).items := by
  cases phase with
  | notCalled =>
      injection h with h
      injection h with h _
      subst h
      refine ⟨rfl, fun key => ?_⟩
      unfold LinkContext.recvQueue
      cases ctx.inDataQueue key with
      | some q => rfl
      | none => cases ctx.stop <;> rfl
  | stopSet =>
      injection h with h
      injection h with h _
      subst h
      refine ⟨hstop nofun, fun key => ?_⟩
      unfold LinkContext.recvQueue QueueMap.shutdownAll
      cases hq : ctx.inDataQueue key with
      | some q =>
          simp only [hq, Option.map_some]
          rfl
      | none => simp only [hq, Option.map_none]
  | inDone =>
      injection h with h
      injection h with h _
      subst h
      exact ⟨hstop nofun, fun key => rfl⟩
  | outDone =>
      injection h with h
      injection h with h _
      subst h
      exact ⟨hstop nofun, fun key => rfl⟩
  | finished => cases h

-- ============================================================ one key

/-- What a receive that has not returned holds: the payload it took. A
receive that took nothing has nothing, and if it is a `SendRecv` the
context has been stopped. -/
def Receive.Consistent (stop : Bool) (pushed : List Bytes) (r : Receive) :
    Prop :=
  match r.progress, r.took with
  | .forwarded stream, some n =>
      pushed[n]? = some (stream.map TaskRequest.data).flatten
  | .forwarded stream, none => (stream.map TaskRequest.data).flatten = []
  | .popped recvBuf, some n => pushed[n]? = some recvBuf
  | .popped _, none => stop = true
  | .replying recvBuf, some n => pushed[n]? = some recvBuf
  | .replying _, none => False
  | .returned _ _, _ => True

/-- The queue of a key, its pushes and its receives. -/
structure KeyTracked (stop : Bool) (q : ThreadSafeQueue Bytes)
    (pushed : List Bytes) (pops : List Receive) : Prop where
  queueStop : q.stop = true → stop = true
  lastPushed : q.items <:+ pushed
  bound : ∀ n ∈ pops.filterMap Receive.took,
    n < pushed.length - q.items.length
  inOrder : (pops.filterMap Receive.took).Pairwise (· < ·)
  flight : ∀ r ∈ pops, r.Consistent stop pushed

/-- A position that has been pushed stays what it is. -/
theorem getElem?_concat_of_some {pushed : List Bytes} {n : Nat}
    {data x : Bytes} (h : pushed[n]? = some data) :
    (pushed ++ [x])[n]? = some data := by
  obtain ⟨hlt, -⟩ := List.getElem?_eq_some_iff.mp h
  rw [List.getElem?_append_left hlt, h]

/-- Consistency survives a push and a `Clean`. -/
theorem consistent_mono {stop stop' : Bool} {pushed : List Bytes}
    {r : Receive} (hstop : stop = true → stop' = true)
    (h : r.Consistent stop pushed) (x : Bytes) :
    r.Consistent stop' pushed ∧ r.Consistent stop' (pushed ++ [x]) := by
  obtain ⟨variant, took, progress⟩ := r
  cases progress <;> cases took <;>
    first
    | exact ⟨h, getElem?_concat_of_some h⟩
    | exact ⟨h, h⟩
    | exact ⟨hstop h, hstop h⟩

/-- A push. -/
theorem keyTracked_push {stop : Bool} {q : ThreadSafeQueue Bytes}
    {pushed : List Bytes} {pops : List Receive}
    (h : KeyTracked stop q pushed pops) (data : Bytes) :
    KeyTracked stop (q.push data) (pushed ++ [data]) pops := by
  refine ⟨h.queueStop, ?_, ?_, h.inOrder, ?_⟩
  · obtain ⟨pre, hpre⟩ := h.lastPushed
    exact ⟨pre, by rw [← hpre, List.append_assoc]; rfl⟩
  · intro n hn
    have hlt := h.bound n hn
    show n < (pushed ++ [data]).length - (q.items ++ [data]).length
    rw [List.length_append, List.length_append]
    omega
  · intro r hr
    exact (consistent_mono id (h.flight r hr) data).2

/-- A part of `Clean`. -/
theorem keyTracked_clean {stop : Bool} {q q' : ThreadSafeQueue Bytes}
    {pushed : List Bytes} {pops : List Receive}
    (h : KeyTracked stop q pushed pops) (hitems : q'.items = q.items) :
    KeyTracked true q' pushed pops := by
  refine ⟨fun _ => rfl, hitems ▸ h.lastPushed, hitems ▸ h.bound, h.inOrder,
    ?_⟩
  intro r hr
  exact (consistent_mono (fun _ => rfl) (h.flight r hr) []).1

/-- A receive that takes nothing. -/
theorem keyTracked_record {stop : Bool} {q : ThreadSafeQueue Bytes}
    {pushed : List Bytes} {pops : List Receive} {r : Receive}
    (h : KeyTracked stop q pushed pops) (htook : r.took = none)
    (hr : r.Consistent stop pushed) :
    KeyTracked stop q pushed (pops ++ [r]) := by
  have hsame : (pops ++ [r]).filterMap Receive.took
      = pops.filterMap Receive.took := by
    rw [List.filterMap_append, List.filterMap_cons, htook]
    exact List.append_nil _
  refine ⟨h.queueStop, h.lastPushed, ?_, ?_, ?_⟩
  · rw [hsame]
    exact h.bound
  · rw [hsame]
    exact h.inOrder
  · exact List.forall_mem_append.mpr
      ⟨h.flight, List.forall_mem_singleton.mpr hr⟩

/-- A receive that takes the front: its number is above all before. -/
theorem keyTracked_take {stop : Bool} {q q' : ThreadSafeQueue Bytes}
    {pushed : List Bytes} {pops : List Receive} {r : Receive} {data : Bytes}
    (h : KeyTracked stop q pushed pops) (hitems : q.items = data :: q'.items)
    (hstop : q'.stop = false)
    (htook : r.took = some (pushed.length - q.items.length))
    (hr : r.Consistent stop pushed) :
    KeyTracked stop q' pushed (pops ++ [r]) := by
  have hmore : (pops ++ [r]).filterMap Receive.took
      = pops.filterMap Receive.took ++ [pushed.length - q.items.length] := by
    rw [List.filterMap_append, List.filterMap_cons, htook]
    rfl
  have hlen : q.items.length = q'.items.length + 1 := by
    rw [hitems, List.length_cons]
  have hle : q.items.length ≤ pushed.length := h.lastPushed.length_le
  refine ⟨?_, ?_, ?_, ?_, ?_⟩
  · intro hs
    rw [hstop] at hs
    cases hs
  · obtain ⟨pre, hpre⟩ := h.lastPushed
    exact ⟨pre ++ [data], by rw [← hpre, hitems, List.append_assoc]; rfl⟩
  · rw [hmore]
    intro n hn
    obtain hn | hn := List.mem_append.mp hn
    · have hlt := h.bound n hn
      omega
    · rw [List.mem_singleton.mp hn]
      omega
  · rw [hmore, List.pairwise_append]
    refine ⟨h.inOrder, List.pairwise_singleton _ _, ?_⟩
    intro n hn m hm
    rw [List.mem_singleton.mp hm]
    exact h.bound n hn
  · exact List.forall_mem_append.mpr
      ⟨h.flight, List.forall_mem_singleton.mpr hr⟩

/-- The number at the front is the number of the front item. -/
theorem keyTracked_front {stop : Bool} {q q' : ThreadSafeQueue Bytes}
    {pushed : List Bytes} {pops : List Receive} {data : Bytes}
    (h : KeyTracked stop q pushed pops)
    (hitems : q.items = data :: q'.items) :
    pushed[pushed.length - q.items.length]? = some data := by
  obtain ⟨pre, hpre⟩ := h.lastPushed
  have hlen : pushed.length - q.items.length = pre.length := by
    rw [← hpre, List.length_append]
    omega
  rw [hlen, ← hpre, List.getElem?_append_right (Nat.le_refl _), hitems,
    Nat.sub_self]
  rfl

/-- Replacing a record by one that took the same. -/
theorem filterMap_took_set {pops : List Receive} {i : Nat} {r r' : Receive}
    (hi : pops[i]? = some r) (htook : r'.took = r.took) :
    (pops.set i r').filterMap Receive.took
      = pops.filterMap Receive.took := by
  induction pops generalizing i with
  | nil => rfl
  | cons p pops ih =>
      cases i with
      | zero =>
          rw [List.getElem?_cons_zero, Option.some.injEq] at hi
          rw [List.set_cons_zero, List.filterMap_cons, List.filterMap_cons,
            htook, hi]
      | succ i =>
          rw [List.getElem?_cons_succ] at hi
          rw [List.set_cons_succ, List.filterMap_cons, List.filterMap_cons,
            ih hi]

/-- A receive gets on. -/
theorem keyTracked_advance {stop : Bool} {q : ThreadSafeQueue Bytes}
    {pushed : List Bytes} {pops : List Receive} {i : Nat} {r r' : Receive}
    (h : KeyTracked stop q pushed pops) (hi : pops[i]? = some r)
    (htook : r'.took = r.took) (hr' : r'.Consistent stop pushed) :
    KeyTracked stop q pushed (pops.set i r') := by
  refine ⟨h.queueStop, h.lastPushed, ?_, ?_, ?_⟩
  · rw [filterMap_took_set hi htook]
    exact h.bound
  · rw [filterMap_took_set hi htook]
    exact h.inOrder
  · intro p hp
    obtain hp | hp := List.mem_or_eq_of_mem_set hp
    · exact h.flight p hp
    · rw [hp]
      exact hr'

-- ============================================================== one step

/-- What the queues see to, for every key. -/
structure Tracked (s : RecvState) : Prop where
  stopped : s.phase ≠ .notCalled → s.ctx.stop = true
  keys : ∀ key, KeyTracked s.ctx.stop (s.ctx.recvQueue key) (s.pushed key)
    (s.pops key)

/-- A step that touches one key. -/
theorem tracked_update {s s' : RecvState} (hs : Tracked s) (key : String)
    (hphase : s'.phase = s.phase) (hstop : s'.ctx.stop = s.ctx.stop)
    (hothers : ∀ key' ≠ key, s'.ctx.recvQueue key' = s.ctx.recvQueue key'
      ∧ s'.pushed key' = s.pushed key' ∧ s'.pops key' = s.pops key')
    (hkey : KeyTracked s.ctx.stop (s'.ctx.recvQueue key) (s'.pushed key)
      (s'.pops key)) :
    Tracked s' := by
  constructor
  · rw [hphase, hstop]
    exact hs.stopped
  · intro key'
    rw [hstop]
    by_cases hk : key' = key
    · subst hk
      exact hkey
    · obtain ⟨hqueue, hpushed, hpops⟩ := hothers key' hk
      rw [hqueue, hpushed, hpops]
      exact hs.keys key'

/-- A step that leaves the receive queues, the pushes and the records
alone. -/
theorem tracked_quiet {s : RecvState} (hs : Tracked s) {ctx : LinkContext}
    (hstop : ctx.stop = s.ctx.stop)
    (hqueue : ∀ key, ctx.recvQueue key = s.ctx.recvQueue key) :
    Tracked { s with ctx := ctx } := by
  constructor
  · show _ → ctx.stop = true
    rw [hstop]
    exact hs.stopped
  · intro key
    show KeyTracked ctx.stop (ctx.recvQueue key) _ _
    rw [hstop, hqueue]
    exact hs.keys key

/-- A step that changes the records of one key, and no queue but its
own. -/
theorem tracked_pops {s : RecvState} (hs : Tracked s) {key : String}
    {ctx' : LinkContext} {pops' : List Receive}
    (hstop : ctx'.stop = s.ctx.stop)
    (hothers : ∀ key' ≠ key, ctx'.recvQueue key' = s.ctx.recvQueue key')
    (hkey : KeyTracked s.ctx.stop (ctx'.recvQueue key) (s.pushed key)
      pops') :
    Tracked { s with
      ctx := ctx'
      pops := Function.update s.pops key pops' } := by
  refine tracked_update hs key rfl hstop ?_ ?_
  · intro key' hk
    exact ⟨hothers key' hk, rfl, Function.update_of_ne hk _ _⟩
  · show KeyTracked s.ctx.stop (ctx'.recvQueue key) (s.pushed key)
      (Function.update s.pops key pops' key)
    rw [Function.update_self]
    exact hkey

/-- A pop that returns, and which push it took. -/
theorem takes_cases {s : RecvState} {key : String}
    {q : ThreadSafeQueue Bytes} {data : Bytes}
    (h : (s.ctx.recvQueue key).waitAndPop [] = some (q, data)) :
    ((s.ctx.recvQueue key).stop = true ∧ q = s.ctx.recvQueue key
        ∧ data = [] ∧ (s.ctx.recvQueue key).taken = none
        ∧ s.takes key = none)
      ∨ ((s.ctx.recvQueue key).stop = false
        ∧ (s.ctx.recvQueue key).items = data :: q.items ∧ q.stop = false
        ∧ (s.ctx.recvQueue key).taken = some data
        ∧ s.takes key = some (s.front key)) := by
  unfold RecvState.takes
  obtain ⟨hstop, hq, hdata, htaken⟩ | ⟨hstop, hitems, hq, htaken⟩ :=
    waitAndPop_cases h
  · exact Or.inl ⟨hstop, hq, hdata, htaken, by rw [htaken]; rfl⟩
  · exact Or.inr ⟨hstop, hitems, hq, htaken, by rw [htaken]; rfl⟩

/-- What a pop has in hand is the push it took. -/
theorem takes_data {s : RecvState} (hs : Tracked s) {key : String}
    {q : ThreadSafeQueue Bytes} {data : Bytes}
    (h : (s.ctx.recvQueue key).waitAndPop [] = some (q, data)) :
    match s.takes key with
    | some n => (s.pushed key)[n]? = some data
    | none => data = [] ∧ s.ctx.stop = true := by
  obtain ⟨hstop, -, hdata, -, htakes⟩ | ⟨-, hitems, -, -, htakes⟩ :=
    takes_cases h
  · rw [htakes]
    exact ⟨hdata, (hs.keys key).queueStop hstop⟩
  · rw [htakes]
    exact keyTracked_front (hs.keys key) hitems

/-- A pop on the receive queue, with the record it leaves; `ctx'` may
differ from the context after the pop in other queues. -/
theorem tracked_pop {s : RecvState} (hs : Tracked s) {key : String}
    {q : ThreadSafeQueue Bytes} {data : Bytes} {ctx' : LinkContext}
    {variant : RecvVariant} {progress : Progress}
    (h : (s.ctx.recvQueue key).waitAndPop [] = some (q, data))
    (hstop : ctx'.stop = s.ctx.stop)
    (hqueue : ctx'.recvQueue = (s.ctx.setRecvQueue key q).recvQueue)
    (hr : Receive.Consistent s.ctx.stop (s.pushed key)
      ⟨variant, s.takes key, progress⟩) :
    Tracked (s.record ctx' key ⟨variant, s.takes key, progress⟩) := by
  apply tracked_pops hs hstop
  · intro key' hk
    rw [hqueue, recvQueue_setRecvQueue, if_neg hk]
  · rw [hqueue, recvQueue_setRecvQueue, if_pos rfl]
    obtain ⟨-, hq, -, -, htakes⟩ | ⟨-, hitems, hq, -, htakes⟩ :=
      takes_cases h
    · rw [hq]
      exact keyTracked_record (hs.keys key) htakes hr
    · exact keyTracked_take (hs.keys key) hitems hq htakes hr

/-- The pops of the receives on this side. -/
theorem pop_spec {s s' : RecvState} {key : String} {variant : RecvVariant}
    {progress : Bytes → Progress} (h : s.pop key variant progress = some s') :
    ∃ q data, (s.ctx.recvQueue key).waitAndPop [] = some (q, data)
      ∧ s' = s.record (s.ctx.setRecvQueue key q) key
        ⟨variant, s.takes key, progress data⟩ := by
  unfold RecvState.pop at h
  cases hpop : (s.ctx.recvQueue key).waitAndPop [] with
  | none => simp only [hpop, reduceCtorEq] at h
  | some p =>
      simp only [hpop, Option.some.injEq] at h
      exact ⟨p.1, p.2, rfl, h.symm⟩

/-- A receive gets on. -/
theorem tracked_advance {s : RecvState} (hs : Tracked s) {key : String}
    {i : Nat} {r r' : Receive} {ctx' : LinkContext}
    (hstop : ctx'.stop = s.ctx.stop)
    (hqueue : ctx'.recvQueue = s.ctx.recvQueue)
    (hi : (s.pops key)[i]? = some r) (htook : r'.took = r.took)
    (hr' : r'.Consistent s.ctx.stop (s.pushed key)) :
    Tracked (s.advance ctx' key i r') := by
  apply tracked_pops hs hstop
  · intro key' _
    rw [hqueue]
  · rw [hqueue]
    exact keyTracked_advance (hs.keys key) hi htook hr'

section
variable {maxPackageSize : Nat} {hpos : 0 < maxPackageSize}
  {workerId : String}

/-- The handler of a forwarded receive either pops nothing and writes an
empty stream, or pops and writes what it got. -/
theorem vmNodeForwardRecv_cases {view : ReceiverView}
    {ctx ctx' : LinkContext} {key : String} {stream : List TaskRequest}
    (h : vmNodeForwardRecv maxPackageSize hpos view ctx workerId key
      = some (stream, ctx')) :
    (view.accepts = false ∧ ctx' = ctx
        ∧ (stream.map TaskRequest.data).flatten = [])
      ∨ (view.accepts = true ∧ ∃ q data,
        (ctx.recvQueue key).waitAndPop [] = some (q, data)
        ∧ ctx'.stop = ctx.stop
        ∧ ctx'.recvQueue = (ctx.setRecvQueue key q).recvQueue
        ∧ (stream.map TaskRequest.data).flatten = data) := by
  unfold vmNodeForwardRecv processForwardData at h
  rw [processPop_eq] at h
  cases hview : view.accepts with
  | false =>
      rw [hview, if_neg Bool.false_ne_true] at h
      simp only [Option.some.injEq, Prod.mk.injEq] at h
      obtain ⟨rfl, rfl⟩ := h
      exact Or.inl ⟨rfl, rfl, rfl⟩
  | true =>
      rw [hview, if_pos rfl] at h
      cases hpop : (ctx.recvQueue key).waitAndPop [] with
      | none => simp only [hpop, Option.map_none, reduceCtorEq] at h
      | some p =>
          obtain ⟨q, data⟩ := p
          simp only [hpop, Option.map_some, Option.some.injEq,
            Prod.mk.injEq] at h
          obtain ⟨rfl, rfl⟩ := h
          exact Or.inr ⟨rfl, q, data, rfl, rfl, rfl,
            buildTaskRequest_data workerId key data⟩

/-- `ProcessSendData` leaves the receive queues alone. -/
theorem processSendData_quiet {view : ReceiverView}
    {ctx ctx' : LinkContext} {key : String} {ret : Retcode} {data : Bytes}
    (h : processSendData view ctx key [] = some (ret, ctx', data)) :
    ctx'.stop = ctx.stop ∧ ctx'.recvQueue = ctx.recvQueue := by
  unfold processSendData at h
  rw [processPop_eq] at h
  cases hview : view.accepts with
  | false =>
      rw [hview, if_neg Bool.false_ne_true] at h
      simp only [Option.some.injEq, Prod.mk.injEq] at h
      rw [← h.2.1]
      exact ⟨rfl, rfl⟩
  | true =>
      rw [hview, if_pos rfl, Option.map_eq_some_iff] at h
      obtain ⟨p, -, h⟩ := h
      simp only [Prod.mk.injEq] at h
      rw [← h.2.1]
      exact ⟨rfl, rfl⟩

/-- The pop of a forwarded receive, with the record it leaves. -/
theorem forwardPop_inv {s s' : RecvState} {key : String}
    {recvSize : Option Nat} {view : ReceiverView} {abandoned : Bool}
    (h : recvStep maxPackageSize hpos workerId s
      (.forwardPop key recvSize view abandoned) = some s') :
    ∃ stream ctx',
      s' = s.record ctx' key ⟨.forward recvSize,
        if view.accepts then s.takes key else none,
        if abandoned then .returned .fail [] else .forwarded stream⟩
      ∧ ((view.accepts = false ∧ ctx' = s.ctx
          ∧ (stream.map TaskRequest.data).flatten = [])
        ∨ (view.accepts = true ∧ ∃ q data,
          (s.ctx.recvQueue key).waitAndPop [] = some (q, data)
          ∧ ctx'.stop = s.ctx.stop
          ∧ ctx'.recvQueue = (s.ctx.setRecvQueue key q).recvQueue
          ∧ (stream.map TaskRequest.data).flatten = data)) := by
  simp only [recvStep] at h
  split at h
  · cases h
  · next stream ctx' hfwd =>
    injection h with h
    exact ⟨stream, ctx', h.symm, vmNodeForwardRecv_cases hfwd⟩

/-- A receive in flight at the place a step looks for it. -/
theorem forwardFinish_inv {s s' : RecvState} {key : String} {i : Nat}
    {statusOk : Bool}
    (h : recvStep maxPackageSize hpos workerId s
      (.forwardFinish key i statusOk) = some s') :
    ∃ recvSize took stream,
      (s.pops key)[i]? = some ⟨.forward recvSize, took, .forwarded stream⟩
      ∧ s' = s.advance s.ctx key i
        ⟨.forward recvSize, took, forwardReturn recvSize stream statusOk⟩ := by
  simp only [recvStep] at h
  split at h
  · next recvSize took stream hi =>
    injection h with h
    exact ⟨recvSize, took, stream, hi, h.symm⟩
  · cases h

/-- `HasStopped` decides how a passive `SendRecv` goes on. -/
theorem passiveCheck_inv {s s' : RecvState} {key : String} {i : Nat}
    (h : recvStep maxPackageSize hpos workerId s (.passiveCheck key i)
      = some s') :
    ∃ sendBuf took recvBuf ctx' progress,
      (s.pops key)[i]? = some ⟨.passive sendBuf, took, .popped recvBuf⟩
      ∧ ctx'.stop = s.ctx.stop ∧ ctx'.recvQueue = s.ctx.recvQueue
      ∧ progress = (if s.ctx.stop then .returned .fail recvBuf
        else .replying recvBuf)
      ∧ s' = s.advance ctx' key i ⟨.passive sendBuf, took, progress⟩ := by
  simp only [recvStep] at h
  split at h
  · next sendBuf took recvBuf hi =>
    cases hstop : s.ctx.stop with
    | true =>
        rw [hstop, if_pos rfl, Option.some.injEq] at h
        exact ⟨sendBuf, took, recvBuf, s.ctx, _, hi, hstop, rfl, rfl,
          h.symm⟩
    | false =>
        rw [hstop, if_neg Bool.false_ne_true, Option.some.injEq] at h
        exact ⟨sendBuf, took, recvBuf, s.ctx.setSendQueue key
          ((s.ctx.sendQueue key).push sendBuf), _, hi, hstop, rfl, rfl,
          h.symm⟩
  · cases h

/-- The completion mark lets a passive `SendRecv` return. -/
theorem passiveComplete_inv {s s' : RecvState} {key : String} {i : Nat}
    (h : recvStep maxPackageSize hpos workerId s (.passiveComplete key i)
      = some s') :
    ∃ sendBuf took recvBuf ctx',
      (s.pops key)[i]? = some ⟨.passive sendBuf, took, .replying recvBuf⟩
      ∧ ctx'.stop = s.ctx.stop ∧ ctx'.recvQueue = s.ctx.recvQueue
      ∧ s' = s.advance ctx' key i
        ⟨.passive sendBuf, took, .returned .success recvBuf⟩ := by
  simp only [recvStep] at h
  split at h
  · next sendBuf took recvBuf hi =>
    split at h
    · cases h
    · next q _ _ =>
      injection h with h
      exact ⟨sendBuf, took, recvBuf, s.ctx.setCompletionQueue key q, hi, rfl,
        rfl, h.symm⟩
  · cases h

theorem tracked_push {s : RecvState} (hs : Tracked s) (key : String)
    (data : Bytes) :
    Tracked { s with
      ctx := s.ctx.setRecvQueue key ((s.ctx.recvQueue key).push data)
      pushed := Function.update s.pushed key (s.pushed key ++ [data]) } := by
  refine tracked_update hs key rfl rfl ?_ ?_
  · intro key' hk
    refine ⟨?_, Function.update_of_ne hk _ _, rfl⟩
    show (s.ctx.setRecvQueue key _).recvQueue key' = _
    rw [recvQueue_setRecvQueue, if_neg hk]
  · show KeyTracked s.ctx.stop ((s.ctx.setRecvQueue key _).recvQueue key)
      (Function.update s.pushed key _ key) (s.pops key)
    rw [recvQueue_setRecvQueue, if_pos rfl, Function.update_self]
    exact keyTracked_push (hs.keys key) data

theorem tracked_clean {s : RecvState} (hs : Tracked s) {ctx : LinkContext}
    {phase : CleanPhase} (h : s.ctx.cleanNext s.phase = some (ctx, phase)) :
    Tracked { s with ctx := ctx, phase := phase } := by
  obtain ⟨hstop, hitems⟩ := cleanNext_spec hs.stopped h
  refine ⟨fun _ => hstop, fun key => ?_⟩
  show KeyTracked ctx.stop (ctx.recvQueue key) _ _
  rw [hstop]
  exact keyTracked_clean (hs.keys key) (hitems key)

/-- What a forwarded receive brings from its pop is what it took. -/
theorem tracked_forwardPop {s s' : RecvState} (hs : Tracked s)
    {key : String} {recvSize : Option Nat} {view : ReceiverView}
    {abandoned : Bool}
    (h : recvStep maxPackageSize hpos workerId s
      (.forwardPop key recvSize view abandoned) = some s') :
    Tracked s' := by
  obtain ⟨stream, ctx', rfl, ⟨hview, hctx, hdata⟩ | ⟨hview, q, data, hpop,
    hstop, hqueue, hdata⟩⟩ := forwardPop_inv h
  · rw [hview, if_neg Bool.false_ne_true, hctx]
    apply tracked_pops hs rfl
    · exact fun _ _ => rfl
    · apply keyTracked_record (hs.keys key) rfl
      cases abandoned
      · exact hdata
      · trivial
  · rw [hview, if_pos rfl]
    refine tracked_pop hs hpop hstop hqueue ?_
    cases abandoned with
    | true => trivial
    | false =>
        have htakes := takes_data hs hpop
        unfold Receive.Consistent
        rw [if_neg Bool.false_ne_true]
        cases hn : s.takes key with
        | some n =>
            rw [hn] at htakes
            show _ = some _
            rw [hdata]
            exact htakes
        | none =>
            rw [hn] at htakes
            show _ = []
            rw [hdata]
            exact htakes.1

/-- A passive `SendRecv` that took nothing finds the context stopped. -/
theorem tracked_passiveCheck {s s' : RecvState} (hs : Tracked s)
    {key : String} {i : Nat}
    (h : recvStep maxPackageSize hpos workerId s (.passiveCheck key i)
      = some s') :
    Tracked s' := by
  obtain ⟨sendBuf, took, recvBuf, ctx', progress, hi, hstop, hqueue,
    hprogress, rfl⟩ := passiveCheck_inv h
  refine tracked_advance hs hstop hqueue hi rfl ?_
  have hold := (hs.keys key).flight _ (List.mem_of_getElem? hi)
  rw [hprogress]
  cases hst : s.ctx.stop with
  | true => trivial
  | false =>
      rw [hst] at hold
      cases took with
      | some n => exact hold
      | none => cases hold

/-- One step keeps track. -/
theorem tracked_step {s s' : RecvState} {a : RecvAction}
    (hs : Tracked s) (h : recvStep maxPackageSize hpos workerId s a
      = some s') : Tracked s' := by
  cases a with
  | push key data =>
      injection h with h
      subst h
      exact tracked_push hs key data
  | getRecvQueue key =>
      injection h with h
      subst h
      exact tracked_quiet hs rfl (recvQueue_getRecvQueue s.ctx key)
  | clean =>
      simp only [recvStep, Option.map_eq_some_iff] at h
      obtain ⟨⟨ctx', phase'⟩, hclean, rfl⟩ := h
      exact tracked_clean hs hclean
  | recvString key =>
      obtain ⟨q, data, hpop, rfl⟩ := pop_spec h
      exact tracked_pop hs hpop rfl rfl trivial
  | recvBuffer key recvSize =>
      obtain ⟨q, data, hpop, rfl⟩ := pop_spec h
      refine tracked_pop hs hpop rfl rfl ?_
      unfold recvBufferReturn
      split <;> trivial
  | forwardPop key recvSize view abandoned => exact tracked_forwardPop hs h
  | forwardFinish key i statusOk =>
      obtain ⟨recvSize, took, stream, hi, rfl⟩ := forwardFinish_inv h
      refine tracked_advance hs rfl rfl hi rfl ?_
      cases recvSize <;> trivial
  | passivePop key sendBuf =>
      obtain ⟨q, data, hpop, rfl⟩ := pop_spec h
      refine tracked_pop hs hpop rfl rfl ?_
      -- a response of a given size is taken whole
      have htakes := takes_data hs hpop
      unfold Receive.Consistent
      cases hn : s.takes key with
      | some n =>
          rw [hn] at htakes
          exact htakes
      | none =>
          rw [hn] at htakes
          exact htakes.2
  | passiveCheck key i => exact tracked_passiveCheck hs h
  | passiveComplete key i =>
      obtain ⟨sendBuf, took, recvBuf, ctx', hi, hstop, hqueue, rfl⟩ :=
        passiveComplete_inv h
      exact tracked_advance hs hstop hqueue hi rfl trivial
  | processSendData key view =>
      simp only [recvStep, Option.map_eq_some_iff] at h
      obtain ⟨⟨ret, ctx', data⟩, hsend, rfl⟩ := h
      obtain ⟨hstop, hqueue⟩ := processSendData_quiet hsend
      exact tracked_quiet hs hstop (congrFun hqueue)

end

end PrimiHub.Network
