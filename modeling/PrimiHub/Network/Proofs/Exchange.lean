/-
When a request/reply exchange is transparent.

`GrpcChannel::sendRecv` looks at the status of the stream only. The
handler ends with an OK status on each of its exits: when the request
could not be processed, when there was no worker to take a reply from,
and when the send queue had been shut down, so that `wait_and_pop` came
back with nothing. The client appends what the responses carry to the
caller's buffer, nothing in these cases, and returns SUCCESS.

# Chain

1. `packages_flatten`, `buildTaskResponse_data`: what was cut is whole
   again.
2. `processPop_eq`, `waitAndPop_cases`: the pops of the handlers.
3. `vmNodeSendRecv_whole`: the handler on the stream of one call.
4. `sendRecv_transparent_iff`.
-/
import PrimiHub.Network.Exchange
import PrimiHub.Node.Proofs.Delivery

namespace PrimiHub.Network

open Node (Bytes Retcode TaskRequest ReceiverView RecvQueues
  buildTaskRequest buildTaskRequest_head buildTaskRequestLoop_data
  processReceivedData processReceivedData_eq limitedPackageSize
  limitedPackageSize_pos)

variable {maxPackageSize : Nat} {hpos : 0 < maxPackageSize}

-- ============================================================= chunking

/-- The packages of a reply are the reply. -/
theorem packages_flatten (rest : Bytes) :
    (packages maxPackageSize hpos rest).flatten = rest := by
  induction rest using packages.induct maxPackageSize hpos with
  | case1 rest ih =>
      rw [packages, List.flatten_cons]
      by_cases hmore : maxPackageSize < rest.length
      · rw [if_pos hmore, ih hmore, List.take_append_drop]
      · rw [if_neg hmore, List.flatten_nil, List.append_nil,
          List.take_of_length_le (Nat.le_of_not_lt hmore)]

/-- The data of the responses is the reply. -/
theorem buildTaskResponse_data (data : Bytes) :
    ((buildTaskResponse maxPackageSize hpos data).map
      TaskResponse.data).flatten = data := by
  rw [buildTaskResponse, List.map_map]
  show (List.map (fun package => package) _).flatten = data
  rw [List.map_id', packages_flatten]

/-- The data of the requests is what was cut. -/
theorem buildTaskRequest_data (workerId role : String) (data : Bytes) :
    ((buildTaskRequest maxPackageSize hpos workerId role data).map
      TaskRequest.data).flatten = data :=
  buildTaskRequestLoop_data role _ data

-- ================================================================== pops

/-- A pop that returns: from a queue that is shut down it brings nothing,
otherwise the front. -/
theorem waitAndPop_cases {α : Type} {q q' : ThreadSafeQueue α} {v x : α}
    (h : q.waitAndPop v = some (q', x)) :
    (q.stop = true ∧ q' = q ∧ x = v ∧ q.taken = none)
      ∨ (q.stop = false ∧ q.items = x :: q'.items ∧ q'.stop = false
        ∧ q.taken = some x) := by
  unfold ThreadSafeQueue.waitAndPop at h
  unfold ThreadSafeQueue.taken
  cases hstop : q.stop with
  | true =>
      rw [hstop, if_pos rfl, Option.some.injEq, Prod.mk.injEq] at h
      exact Or.inl ⟨rfl, h.1.symm, h.2.symm, rfl⟩
  | false =>
      rw [hstop, if_neg Bool.false_ne_true] at h
      cases hitems : q.items with
      | nil => simp only [hitems, reduceCtorEq] at h
      | cons item rest =>
          simp only [hitems, Option.some.injEq, Prod.mk.injEq] at h
          obtain ⟨rfl, rfl⟩ := h
          exact Or.inr ⟨rfl, rfl, rfl, rfl⟩

/-- The tests of a `Process...` function decide whether it pops. -/
theorem processPop_eq (view : ReceiverView) (ctx : LinkContext)
    (key : String) (q : ThreadSafeQueue Bytes)
    (setQueue : ThreadSafeQueue Bytes → LinkContext) (dataBuffer : Bytes) :
    processPop view ctx key q setQueue dataBuffer
      = if view.accepts then
          (q.waitAndPop dataBuffer).map fun p =>
            (.success, (setQueue p.1).setCompletionQueue key
              (((setQueue p.1).completionQueue key).push .success), p.2)
        else some (.fail, ctx, dataBuffer) := by
  obtain ⟨finished, ready, found, link⟩ := view
  unfold processPop
  cases q.waitAndPop dataBuffer <;> cases finished <;> cases ready <;>
    cases found <;> cases link <;> rfl

/-- A send queue that was put back is the one found. -/
theorem sendQueue_setSendQueue (ctx : LinkContext) (key : String)
    (q : ThreadSafeQueue Bytes) :
    (ctx.setSendQueue key q).sendQueue key = q := by
  unfold LinkContext.sendQueue LinkContext.setSendQueue
  simp only [Function.update_self]

/-- The handler on the stream of one `sendRecv` call: which of its exits
it takes, and what it pushes. -/
theorem vmNodeSendRecv_whole (received sending : ReceiverView)
    (q : RecvQueues) (ctx : LinkContext) (workerId role : String)
    (data : Bytes) :
    vmNodeSendRecv maxPackageSize hpos received sending q ctx
        (buildTaskRequest maxPackageSize hpos workerId role data)
      = if received.accepts then
          (match processSendData sending ctx role [] with
            | none => none
            | some (.success, ctx', sendData) =>
                some (buildTaskResponse maxPackageSize hpos sendData, ctx')
            | some (.fail, ctx', _) =>
                some ([⟨.fail, "no data is available for key:" ++ role, 0,
                  []⟩], ctx'),
            q.push workerId role data)
        else
          (some ([⟨.fail, "ProcessReceivedData encountes error", 0, []⟩],
            ctx), q) := by
  simp only [vmNodeSendRecv, buildTaskRequest_head, buildTaskRequest_data,
    Option.map_some, Option.getD_some, processReceivedData_eq]
  cases received.accepts with
  | false => rfl
  | true =>
      cases processSendData sending ctx role [] with
      | none => rfl
      | some p =>
          obtain ⟨ret, ctx', sendData⟩ := p
          cases ret <;> rfl

-- ============================================================== exchange

/-- A call that ends with an error is reported as FAIL, which promises
nothing. -/
theorem transparent_of_fail {workerId role : String} {sendData : Bytes}
    {received sending : ReceiverView} {q : RecvQueues} {ctx : LinkContext}
    {r : SendRecvResult} (h : r.ret = .fail) :
    ExchangeTransparent workerId role sendData received sending q ctx r := by
  constructor
  · intro hs
    rw [h] at hs
    cases hs
  · intro hs
    rw [h] at hs
    cases hs
  · intro _
    exact h
  · intro _
    exact h

/-- Every error status makes the call return FAIL. -/
theorem sendRecv_error {workerId role : String} {sendData recvData : Bytes}
    {handled : Option Nat} {read : Nat} {received sending : ReceiverView}
    {q : RecvQueues} {ctx : LinkContext} {r : SendRecvResult}
    (h : sendRecv maxPackageSize hpos workerId role sendData recvData
      (.error handled read) received sending q ctx = some r) :
    r.ret = .fail := by
  cases handled with
  | none =>
      simp only [sendRecv, Option.some.injEq] at h
      rw [← h]
  | some n =>
      simp only [sendRecv] at h
      split at h
      · injection h with h
        rw [← h]
      · injection h with h
        rw [← h]

/-- Every OK status makes it return SUCCESS. -/
theorem sendRecv_ok_ret {workerId role : String} {sendData recvData : Bytes}
    {received sending : ReceiverView} {q : RecvQueues} {ctx : LinkContext}
    {r : SendRecvResult}
    (h : sendRecv maxPackageSize hpos workerId role sendData recvData .ok
      received sending q ctx = some r) : r.ret = .success := by
  simp only [sendRecv] at h
  split at h
  · cases h
  · injection h with h
    rw [← h]

/-- With both tests passed and a running send queue, the call brings the
front of that queue. -/
theorem sendRecv_served {workerId role : String} {sendData recvData : Bytes}
    {received sending : ReceiverView} {q : RecvQueues} {ctx : LinkContext}
    {r : SendRecvResult} (hrecv : received.accepts = true)
    (hsend : sending.accepts = true)
    (hrunning : (ctx.sendQueue role).stop = false)
    (h : sendRecv maxPackageSize hpos workerId role sendData recvData .ok
      received sending q ctx = some r) :
    ∃ reply, (ctx.sendQueue role).taken = some reply
      ∧ (ctx.sendQueue role).items = reply :: (r.ctx.sendQueue role).items
      ∧ r.recvData = recvData ++ reply
      ∧ r.pushed = q.push workerId role sendData := by
  simp only [sendRecv, vmNodeSendRecv_whole, hrecv, if_true,
    processSendData, processPop_eq, hsend] at h
  cases hpop : (ctx.sendQueue role).waitAndPop [] with
  | none => simp only [hpop, Option.map_none, reduceCtorEq] at h
  | some p =>
      obtain ⟨queue, reply⟩ := p
      simp only [hpop, Option.map_some, Option.some.injEq] at h
      subst h
      obtain ⟨hstop, -⟩ | ⟨-, hitems, -, htaken⟩ := waitAndPop_cases hpop
      · rw [hrunning] at hstop
        cases hstop
      · refine ⟨reply, htaken, ?_, ?_, rfl⟩
        · show _ = reply :: ((ctx.setSendQueue role queue).sendQueue role).items
          rw [sendQueue_setSendQueue, hitems]
        · rw [appendResponses, buildTaskResponse_data]

/-- The exchange is transparent exactly if the RPC ended with an error,
or the server's tests all passed, the send queue was running and the
caller's buffer was empty. -/
theorem sendRecv_transparent_iff {workerId role : String}
    {sendData recvData : Bytes} {status : RpcStatus}
    {received sending : ReceiverView} {q : RecvQueues} {ctx : LinkContext}
    {r : SendRecvResult}
    (h : sendRecv maxPackageSize hpos workerId role sendData recvData status
      received sending q ctx = some r) :
    ExchangeTransparent workerId role sendData received sending q ctx r
      ↔ status ≠ .ok ∨ (received.accepts = true ∧ sending.accepts = true
        ∧ (ctx.sendQueue role).stop = false ∧ recvData = []) := by
  cases status with
  | error handled read =>
      constructor
      · intro _
        exact Or.inl nofun
      · intro _
        exact transparent_of_fail (sendRecv_error h)
  | ok =>
      have hret := sendRecv_ok_ret h
      rw [or_iff_right (not_not_intro rfl)]
      constructor
      · intro ht
        -- SUCCESS was returned, so neither failure can have happened
        have hrecv : received.accepts = true := by
          rw [← Bool.not_eq_false]
          intro hf
          rw [ht.notProcessed hf] at hret
          cases hret
        obtain ⟨hsend, htaken, -⟩ := ht.replied hret
        have hrunning : (ctx.sendQueue role).stop = false := by
          rw [← Bool.not_eq_true]
          intro hstop
          rw [ThreadSafeQueue.taken, if_pos hstop] at htaken
          cases htaken
        obtain ⟨reply, htaken', -, hdata, -⟩ :=
          sendRecv_served hrecv hsend hrunning h
        rw [htaken', Option.some.injEq, hdata] at htaken
        exact ⟨hrecv, hsend, hrunning, List.self_eq_append_left.mp htaken⟩
      · intro hcond
        obtain ⟨hrecv, hsend, hrunning, hbuf⟩ := hcond
        obtain ⟨reply, htaken, hitems, hdata, hpushed⟩ :=
          sendRecv_served hrecv hsend hrunning h
        rw [hbuf, List.nil_append] at hdata
        rw [← hdata] at htaken hitems
        constructor
        · intro _
          exact hpushed
        · intro _
          exact ⟨hsend, htaken, hitems⟩
        · intro hf
          rw [hrecv] at hf
          cases hf
        · intro hf
          obtain hf | hf := hf
          · rw [hsend] at hf
            cases hf
          · rw [htaken] at hf
            cases hf

/-- A view in which everything is there. -/
def openView : ReceiverView := ⟨false, true, true, true⟩

/-- A context whose send queue for `role` holds `reply`. -/
def contextWithReply (role : String) (reply : Bytes) : LinkContext :=
  LinkContext.init.setSendQueue role ⟨[reply], false⟩

/-- One request and its reply. -/
theorem sendRecv_transparent_reply :
    ∃ r, sendRecv limitedPackageSize limitedPackageSize_pos "w" "k" [1, 2] []
        .ok openView openView (fun _ _ => []) (contextWithReply "k" [7])
        = some r
      ∧ ExchangeTransparent "w" "k" [1, 2] openView openView (fun _ _ => [])
        (contextWithReply "k" [7]) r := by
  have hsome : (sendRecv limitedPackageSize limitedPackageSize_pos "w" "k"
      [1, 2] [] .ok openView openView (fun _ _ => [])
      (contextWithReply "k" [7])).isSome := by
    rw [sendRecv, vmNodeSendRecv_whole]
    rfl
  obtain ⟨r, hr⟩ := Option.isSome_iff_exists.mp hsome
  refine ⟨r, hr, (sendRecv_transparent_iff hr).mpr ?_⟩
  exact Or.inr ⟨rfl, rfl, rfl, rfl⟩

/-- The worker has finished: the server answers with `ret_code` FAIL and
an OK status, and the call returns SUCCESS. -/
theorem sendRecv_finished_task :
    ∃ r, sendRecv limitedPackageSize limitedPackageSize_pos "w" "k" [1, 2] []
        .ok ⟨true, true, true, true⟩ openView (fun _ _ => []) .init = some r
      ∧ r.ret = .success
      ∧ ¬ ExchangeTransparent "w" "k" [1, 2] ⟨true, true, true, true⟩
        openView (fun _ _ => []) .init r := by
  have hsome : (sendRecv limitedPackageSize limitedPackageSize_pos "w" "k"
      [1, 2] [] .ok ⟨true, true, true, true⟩ openView (fun _ _ => [])
      .init).isSome := by
    rw [sendRecv, vmNodeSendRecv_whole]
    rfl
  obtain ⟨r, hr⟩ := Option.isSome_iff_exists.mp hsome
  have hret := sendRecv_ok_ret hr
  refine ⟨r, hr, hret, ?_⟩
  intro ht
  rw [ht.notProcessed rfl] at hret
  cases hret

end PrimiHub.Network
