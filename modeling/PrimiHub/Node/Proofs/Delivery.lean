/-
When reported delivery is real delivery.

The response of `VMNodeInterface::Send` is SUCCESS whatever
`ProcessReceivedData` said, and a retry after an error repeats the push
of an attempt that did get through. So a SUCCESS may stand for no push
or for several, and a FAIL for up to three (`reported_not_delivered`).

Where neither happens (`StepOk`: an attempt that ends with OK was
processed, one that ends with an error was not), the queues are exactly
the successful sends in order. The invariant `QueuesMatch` says so with
the current call included: a push by the current RPC's handler is
pending until `Finish` reports it.

The receiver's side needs one fact about the chunks: reading them all
gives back the key, the task and the whole data (`vmNodeSend_whole`).
-/
import Mathlib.Tactic.Tauto
import PrimiHub.Node.Channel

namespace PrimiHub.Node

open Lib

variable {maxPackageSize : Nat} {hpos : 0 < maxPackageSize}
  {workerId : String}

-- =============================================================== chunks

/-- The chunks of the data, put back together. -/
theorem buildTaskRequestLoop_data (role : String) (total : Nat) (rest : Bytes) :
    ((buildTaskRequestLoop maxPackageSize hpos workerId role total rest).map
      TaskRequest.data).flatten = rest := by
  fun_induction buildTaskRequestLoop maxPackageSize hpos workerId role total
    rest with
  | case1 rest ih =>
      rw [List.map_cons, List.flatten_cons]
      by_cases hmore : maxPackageSize < rest.length
      · rw [if_pos hmore, ih hmore, List.take_append_drop]
      · rw [if_neg hmore, List.map_nil, List.flatten_nil, List.append_nil,
          List.take_of_length_le (Nat.le_of_not_lt hmore)]

/-- The first package names the task and the key. -/
theorem buildTaskRequest_head (role : String) (data : Bytes) :
    (buildTaskRequest maxPackageSize hpos workerId role data).head?
      = some ⟨workerId, role, data.length, data.take maxPackageSize⟩ := by
  rw [buildTaskRequest, buildTaskRequestLoop]
  rfl

-- ============================================================== receiver

/-- `ProcessReceivedData` pushes exactly if its four tests pass. -/
theorem processReceivedData_eq (view : ReceiverView) (q : RecvQueues)
    (w k : String) (data : Bytes) :
    processReceivedData view q w k data
      = if view.accepts then (.success, q.push w k data) else (.fail, q) := by
  obtain ⟨finished, ready, found, link⟩ := view
  cases finished <;> cases ready <;> cases found <;> cases link <;> rfl

/-- The handler on a whole stream: the data arrives in one piece, and
the response is SUCCESS in both cases. -/
theorem vmNodeSend_whole (view : ReceiverView) (q : RecvQueues)
    (role : String) (data : Bytes) :
    vmNodeSend view q (buildTaskRequest maxPackageSize hpos workerId role data)
      = if view.accepts then
          (⟨.success, .success⟩, q.push workerId role data)
        else (⟨.fail, .success⟩, q) := by
  have hdata : ((buildTaskRequest maxPackageSize hpos workerId role data).map
      TaskRequest.data).flatten = data := buildTaskRequestLoop_data role _ data
  simp only [vmNodeSend, buildTaskRequest_head, hdata, Option.map_some,
    Option.getD_some, processReceivedData_eq, setRetCode]
  cases view.accepts <;> rfl

/-- A handler whose tests fail pushes nothing, on any stream. -/
theorem vmNodeSend_rejected {view : ReceiverView} (h : view.accepts = false)
    (q : RecvQueues) (requests : List TaskRequest) :
    (vmNodeSend view q requests).2 = q := by
  simp only [vmNodeSend, processReceivedData_eq, h, Bool.false_eq_true,
    if_false]

-- ============================================================= invariant

/-- The push of the current RPC that `Finish` has not reported yet. -/
def pendingOn (sender : Option SendOp) (key : String) : List Bytes :=
  match sender with
  | none => []
  | some op =>
      if op.served.map Served.processed = some .success ∧ op.role = key then
        [op.data]
      else []

/-- The queues hold the reported deliveries in order, then the pending
one; other tasks' queues are untouched; a call streams its own data and
reads a SUCCESS response. -/
structure QueuesMatch (maxPackageSize : Nat) (hpos : 0 < maxPackageSize)
    (workerId : String) (s : ChannelState) : Prop where
  requests : ∀ op, s.sender = some op → op.requests
    = buildTaskRequest maxPackageSize hpos workerId op.role op.data
  response : ∀ op served, s.sender = some op → op.served = some served →
    served.response = .success
  queues : ∀ w key, s.pushed w key
    = if w = workerId then
        deliveredOn s.returned key ++ pendingOn s.sender key
      else []

/-- One more returned call. -/
theorem deliveredOn_concat (returned : List SendResult) (r : SendResult)
    (key : String) :
    deliveredOn (returned ++ [r]) key
      = deliveredOn returned key
        ++ if r.ret = .success ∧ r.role = key then [r.data] else [] := by
  unfold deliveredOn
  rw [List.filter_append, List.map_append]
  congr 1
  by_cases h : r.ret = .success ∧ r.role = key
  · simp [h]
  · rw [if_neg h]
    simp only [List.filter_cons, List.filter_nil, decide_eq_true_eq, h,
      if_false, List.map_nil]

/-- A push seen from one queue. -/
theorem push_apply (q : RecvQueues) (w k : String) (data : Bytes)
    (w' k' : String) :
    q.push w k data w' k'
      = q w' k' ++ if w' = w ∧ k' = k then [data] else [] := by
  unfold RecvQueues.push
  split <;> simp

-- ================================================================= steps

/-- The invariant at the start. -/
theorem queuesMatch_init :
    QueuesMatch maxPackageSize hpos workerId ChannelState.init where
  requests op h := by cases h
  response op served h := by cases h
  queues w key := by
    show [] = if w = workerId then [] ++ [] else []
    split <;> rfl

/-- A new call has pushed nothing. -/
theorem queuesMatch_send {s s' : ChannelState} {role : String} {data : Bytes}
    (hs : QueuesMatch maxPackageSize hpos workerId s)
    (h : channelStep maxPackageSize hpos workerId s (.send role data)
      = some s') :
    QueuesMatch maxPackageSize hpos workerId s' := by
  simp only [channelStep] at h
  cases hsender : s.sender with
  | some op => rw [hsender] at h; cases h
  | none =>
      rw [hsender] at h
      cases h
      refine ⟨?_, ?_, ?_⟩
      · intro op hop
        cases hop
        rfl
      · intro op served hop hserved
        cases hop
        cases hserved
      · intro w key
        rw [hs.queues w key, hsender]
        rfl

/-- The handler's push, if any, becomes the pending one. -/
theorem queuesMatch_serve {s s' : ChannelState} {view : ReceiverView}
    (hs : QueuesMatch maxPackageSize hpos workerId s)
    (h : channelStep maxPackageSize hpos workerId s (.serve view) = some s') :
    QueuesMatch maxPackageSize hpos workerId s' := by
  simp only [channelStep] at h
  cases hsender : s.sender with
  | none => rw [hsender] at h; cases h
  | some op =>
      simp only [hsender] at h
      split at h
      · cases h
      rename_i hserved
      have hnone : op.served = none := by
        cases hop : op.served with
        | none => rfl
        | some served => rw [hop] at hserved; exact absurd rfl hserved
      have hqueues := hs.queues
      rw [hsender] at hqueues
      rw [hs.requests op hsender, vmNodeSend_whole] at h
      cases hview : view.accepts with
      | false =>
          rw [hview] at h
          cases h
          refine ⟨?_, ?_, ?_⟩
          · intro op' hop
            cases hop
            rfl
          · intro op' served hop hserved'
            cases hop
            cases hserved'
            rfl
          · intro w key
            show s.pushed w key = _
            rw [hqueues w key]
            simp [pendingOn, hnone]
      | true =>
          rw [hview] at h
          cases h
          refine ⟨?_, ?_, ?_⟩
          · intro op' hop
            cases hop
            rfl
          · intro op' served hop hserved'
            cases hop
            cases hserved'
            rfl
          · intro w key
            show s.pushed.push workerId op.role op.data w key = _
            rw [push_apply, hqueues w key]
            by_cases hw : w = workerId
            · simp [pendingOn, hnone, hw, eq_comm]
            · simp [hw]

/-- `Finish` reports OK on a processed RPC: the pending push is now a
reported one. -/
theorem queuesMatch_finishOk {s s' : ChannelState}
    (hs : QueuesMatch maxPackageSize hpos workerId s)
    (hok : StepOk s .finishOk)
    (h : channelStep maxPackageSize hpos workerId s .finishOk = some s') :
    QueuesMatch maxPackageSize hpos workerId s' := by
  simp only [channelStep] at h
  cases hsender : s.sender with
  | none => rw [hsender] at h; cases h
  | some op =>
      simp only [hsender] at h
      cases hserved : op.served with
      | none => rw [hserved] at h; cases h
      | some served =>
          have hresponse := hs.response op served hsender hserved
          simp only [hserved, hresponse, ne_eq, not_true_eq_false,
            if_false] at h
          cases h
          have hprocessed : served.processed = .success := by
            cases hp : served.processed with
            | success => rfl
            | fail =>
                refine absurd ?_ hok
                simp [ChannelState.processed, hsender, hserved, hp]
          refine ⟨?_, ?_, ?_⟩
          · intro op' hop
            cases hop
          · intro op' served' hop
            cases hop
          · intro w key
            have hqueues := hs.queues w key
            rw [hsender] at hqueues
            show s.pushed w key = _
            rw [hqueues]
            simp [ChannelState.returning, deliveredOn_concat, pendingOn,
              hserved, hprocessed]

/-- `Finish` reports an error on an RPC that was not processed: there is
no push to lose or to repeat. -/
theorem queuesMatch_finishErr {s s' : ChannelState} {left : Option Nat}
    (hs : QueuesMatch maxPackageSize hpos workerId s)
    (hok : StepOk s (.finishErr left))
    (h : channelStep maxPackageSize hpos workerId s (.finishErr left)
      = some s') :
    QueuesMatch maxPackageSize hpos workerId s' := by
  simp only [channelStep] at h
  cases hsender : s.sender with
  | none => rw [hsender] at h; cases h
  | some op =>
      simp only [hsender] at h
      have hnot : op.served.map Served.processed ≠ some .success := by
        intro hp
        refine hok ?_
        rw [ChannelState.processed, hsender]
        exact hp
      have hqueues : ∀ w key, s.pushed w key
          = if w = workerId then deliveredOn s.returned key else [] := by
        intro w key
        rw [hs.queues w key, hsender]
        simp [pendingOn, hnot]
      split at h
      · cases h
        refine ⟨?_, ?_, ?_⟩
        · intro op' hop
          cases hop
          exact hs.requests op hsender
        · intro op' served hop hserved
          cases hop
          cases hserved
        · intro w key
          show s.pushed w key = _
          rw [hqueues w key]
          simp [pendingOn]
      · cases h
        refine ⟨?_, ?_, ?_⟩
        · intro op' hop
          cases hop
        · intro op' served hop
          cases hop
        · intro w key
          show s.pushed w key = _
          rw [hqueues w key]
          simp [ChannelState.returning, deliveredOn_concat, pendingOn]

/-- A rejected stream changes no queue. -/
theorem queuesMatch_serveAbandoned {s s' : ChannelState} {i : Nat}
    {view : ReceiverView} (hs : QueuesMatch maxPackageSize hpos workerId s)
    (hok : StepOk s (.serveAbandoned i view))
    (h : channelStep maxPackageSize hpos workerId s (.serveAbandoned i view)
      = some s') :
    QueuesMatch maxPackageSize hpos workerId s' := by
  simp only [channelStep] at h
  split at h
  · cases h
  · rw [vmNodeSend_rejected hok] at h
    cases h
    exact ⟨hs.requests, hs.response, hs.queues⟩

/-- Every step that meets the condition keeps the queues matched. -/
theorem queuesMatch_okStep {s s' : ChannelState} {a : ChannelAction}
    (hs : QueuesMatch maxPackageSize hpos workerId s)
    (h : okStep maxPackageSize hpos workerId s a = some s') :
    QueuesMatch maxPackageSize hpos workerId s' := by
  unfold okStep at h
  split at h
  · rename_i hok
    cases a with
    | send role data => exact queuesMatch_send hs h
    | serve view => exact queuesMatch_serve hs h
    | finishOk => exact queuesMatch_finishOk hs hok h
    | finishErr left => exact queuesMatch_finishErr hs hok h
    | serveAbandoned i view => exact queuesMatch_serveAbandoned hs hok h
  · cases h

-- ================================================================== runs

/-- A state at rest: no call in progress. -/
theorem queuesMatch_idle {s : ChannelState}
    (hs : QueuesMatch maxPackageSize hpos workerId s) (hidle : s.sender = none)
    (w key : String) :
    s.pushed w key
      = if w = workerId then deliveredOn s.returned key else [] := by
  rw [hs.queues w key, hidle]
  simp [pendingOn]

/-- In every run whose steps meet the condition, every call that starts
in `s₀` and returns in `s₁` reports what happened: SUCCESS exactly if its
data was queued once, whole, on its key; FAIL with the queues unchanged;
and the queues hold the successful sends in order. -/
theorem send_delivers {acts₁ acts₂ : List ChannelAction}
    {s₀ s₁ : ChannelState} {r : SendResult}
    (h₁ : run (okStep maxPackageSize hpos workerId) ChannelState.init acts₁
      = some s₀)
    (hidle₀ : s₀.sender = none)
    (h₂ : run (okStep maxPackageSize hpos workerId) s₀ acts₂ = some s₁)
    (hidle₁ : s₁.sender = none)
    (hr : s₁.returned = s₀.returned ++ [r]) :
    DeliveryReal workerId s₀ s₁ r := by
  have hs₀ : QueuesMatch maxPackageSize hpos workerId s₀ :=
    run_invariant (fun _ _ _ => queuesMatch_okStep) queuesMatch_init h₁
  have hs₁ : QueuesMatch maxPackageSize hpos workerId s₁ :=
    run_invariant (fun _ _ _ => queuesMatch_okStep) hs₀ h₂
  have hqueues₀ := queuesMatch_idle hs₀ hidle₀
  have hqueues₁ := queuesMatch_idle hs₁ hidle₁
  have hstep : ∀ key, s₁.pushed workerId key = s₀.pushed workerId key
      ++ if r.ret = .success ∧ r.role = key then [r.data] else [] := by
    intro key
    rw [hqueues₁, hqueues₀, if_pos rfl, if_pos rfl, hr, deliveredOn_concat]
  refine ⟨?_, ?_, ?_⟩
  · rw [hstep r.role]
    by_cases hret : r.ret = .success
    · simp [hret]
    · simp [hret]
  · intro hfail
    funext w key
    rw [hqueues₁, hqueues₀, hr, deliveredOn_concat]
    simp [hfail]
  · intro key
    rw [hqueues₁, if_pos rfl]

-- ====================================================== the two failures

/-- A receiver whose four tests pass. -/
def acceptingView : ReceiverView := ⟨false, true, true, true⟩

/-- A receiver that has marked the task as finished. -/
def finishedView : ReceiverView := ⟨true, true, true, true⟩

/-- The package size is not zero. -/
theorem limitedPackageSize_pos : 0 < limitedPackageSize := by decide

/-- The channel of one task with the source's package size. -/
def taskStep : ChannelState → ChannelAction → Option ChannelState :=
  channelStep limitedPackageSize limitedPackageSize_pos "task"

/-- The rejected send: the task is finished at the receiver, the response
says SUCCESS all the same. -/
def rejectedSend : List ChannelAction :=
  [.send "key" [7], .serve finishedView, .finishOk]

/-- The repeated send: the reply to a processed RPC is lost, the retry is
processed too. -/
def repeatedSend : List ChannelAction :=
  [.send "key" [7], .serve acceptingView, .finishErr none,
    .serve acceptingView, .finishOk]

/-- A send that fails once on the way out and then gets through. -/
def retriedSend : List ChannelAction :=
  [.send "key" [7], .finishErr none, .serve acceptingView, .finishOk]

/-- Reported SUCCESS with nothing queued, and reported SUCCESS with the
data queued twice. -/
theorem reported_not_delivered :
    (∃ s₁, run taskStep ChannelState.init rejectedSend = some s₁
      ∧ s₁.sender = none ∧ s₁.returned = [⟨"key", [7], .success⟩]
      ∧ s₁.pushed "task" "key" = []
      ∧ ¬ DeliveryReal "task" ChannelState.init s₁ ⟨"key", [7], .success⟩)
    ∧ (∃ s₁, run taskStep ChannelState.init repeatedSend = some s₁
      ∧ s₁.sender = none ∧ s₁.returned = [⟨"key", [7], .success⟩]
      ∧ s₁.pushed "task" "key" = [[7], [7]]
      ∧ ¬ DeliveryReal "task" ChannelState.init s₁ ⟨"key", [7], .success⟩) := by
  constructor
  · have hrun : run taskStep ChannelState.init rejectedSend
        = some ⟨none, [], fun _ _ => [], [⟨"key", [7], .success⟩]⟩ := by
      simp [run, taskStep, rejectedSend, channelStep, ChannelState.init,
        vmNodeSend_whole, finishedView, ReceiverView.accepts,
        ChannelState.returning]
    refine ⟨_, hrun, rfl, rfl, rfl, ?_⟩
    intro hreal
    exact absurd (hreal.success_iff.mp rfl) (by decide)
  · have hrun : run taskStep ChannelState.init repeatedSend
        = some ⟨none, [], (RecvQueues.push (fun _ _ => []) "task" "key"
            [7]).push "task" "key" [7], [⟨"key", [7], .success⟩]⟩ := by
      simp [run, taskStep, repeatedSend, channelStep, ChannelState.init,
        vmNodeSend_whole, acceptingView, ReceiverView.accepts,
        ChannelState.returning, leftBehind, retryMaxTimes]
    refine ⟨_, hrun, rfl, rfl, rfl, ?_⟩
    intro hreal
    exact absurd (hreal.success_iff.mp rfl) (by decide)

/-- The condition is met by a run with a failed attempt, a retry and a
delivery. -/
theorem send_delivers_retried :
    ∃ s₁, run (okStep limitedPackageSize limitedPackageSize_pos "task")
        ChannelState.init retriedSend = some s₁
      ∧ s₁.pushed "task" "key" = [[7]]
      ∧ DeliveryReal "task" ChannelState.init s₁ ⟨"key", [7], .success⟩ := by
  have hrun : run (okStep limitedPackageSize limitedPackageSize_pos "task")
      ChannelState.init retriedSend
      = some ⟨none, [], RecvQueues.push (fun _ _ => []) "task" "key" [7],
          [⟨"key", [7], .success⟩]⟩ := by
    simp [run, okStep, StepOk, retriedSend, channelStep, ChannelState.init,
      ChannelState.processed, vmNodeSend_whole, acceptingView,
      ReceiverView.accepts, ChannelState.returning, leftBehind, retryMaxTimes]
  exact ⟨_, hrun, rfl, send_delivers (run_nil _) rfl hrun rfl rfl⟩

end PrimiHub.Node
