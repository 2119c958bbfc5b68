/-
When the server ends with the client's list.

Both sides return SUCCESS whatever the transport does:
`BroadcastResult` only logs a `Send` that failed, and `ReceiveResult`
tests for a failed receive that brought data, which there is not, since
`LinkContext::Recv` fails exactly when it brought none. So the server's
list is what it reads from the bytes that arrived, and the two lists
agree exactly if these bytes are the broadcast: the frames can be read in
one way only (`decodeResult_eq_some_iff`).
-/
import PrimiHub.Network.Proofs.Pops
import PrimiHub.Psi.Operator

namespace PrimiHub.Psi

open Lib
open Node (Retcode TaskRequest ReceiverView buildTaskRequest
  limitedPackageSize limitedPackageSize_pos)
open Network (LinkContext vmNodeForwardRecv vmNodeForwardRecv_cases
  recvForward forwardRecv waitAndPop_cases ThreadSafeQueue)

-- ================================================================ frames

/-- Reading on after one frame. -/
theorem decodeResult_frame (item : StdString) (data : Bytes) :
    decodeResult (toBe 8 item.val.length ++ item.val ++ data)
      = (decodeResult data).map (item :: ·) := by
  have hlen : ofBe ((toBe 8 item.val.length ++ item.val ++ data).take 8)
      = item.val.length := by
    rw [List.append_assoc, List.take_left' (length_toBe 8 _), ofBe_toBe]
    exact Nat.mod_eq_of_lt item.property
  have hdrop : (toBe 8 item.val.length ++ item.val ++ data).drop 8
      = item.val ++ data := by
    rw [List.append_assoc, List.drop_left' (length_toBe 8 _)]
  have hsize : (toBe 8 item.val.length ++ item.val ++ data).length
      = 8 + item.val.length + data.length := by
    rw [List.length_append, List.length_append, length_toBe]
  rw [decodeResult]
  simp only [hlen, hdrop, hsize]
  rw [if_neg (by omega), if_neg (by omega),
    if_neg (by rw [List.length_append]; omega)]
  simp only [List.drop_left, List.take_left, Subtype.coe_eta]

/-- What was written is read. -/
theorem decodeResult_encodeResult (result : List StdString) :
    decodeResult (encodeResult result) = some result := by
  induction result with
  | nil => rw [encodeResult, decodeResult]; rfl
  | cons item result ih =>
      have hcons : encodeResult (item :: result)
          = toBe 8 item.val.length ++ item.val ++ encodeResult result := rfl
      rw [hcons, decodeResult_frame, ih]
      rfl

/-- What can be read was written. -/
theorem encodeResult_of_decodeResult {data : Bytes} {result : List StdString}
    (h : decodeResult data = some result) : encodeResult result = data := by
  induction data using decodeResult.induct generalizing result with
  | case1 data hnil =>
      rw [decodeResult, if_pos hnil, Option.some.injEq] at h
      rw [← h, List.eq_nil_of_length_eq_zero hnil]
      rfl
  | case2 data hne hshort =>
      rw [decodeResult, if_neg hne, if_pos hshort] at h
      cases h
  | case3 data hne hlong hover =>
      rw [decodeResult, if_neg hne, if_neg hlong, if_pos hover] at h
      cases h
  | case4 data hne hlong hfits ih =>
      rw [decodeResult, if_neg hne, if_neg hlong, if_neg hfits,
        Option.map_eq_some_iff] at h
      obtain ⟨items, hitems, rfl⟩ := h
      have hhead : (data.take 8).length = 8 := by
        rw [List.length_take]
        omega
      have hitem : ((data.drop 8).take (ofBe (data.take 8))).length
          = ofBe (data.take 8) := by
        rw [List.length_take]
        omega
      have hbytes : toBe 8 (ofBe (data.take 8)) = data.take 8 := by
        have hb := toBe_ofBe (data.take 8)
        rwa [hhead] at hb
      show toBe 8 ((data.drop 8).take (ofBe (data.take 8))).length
        ++ (data.drop 8).take (ofBe (data.take 8)) ++ encodeResult items = data
      rw [ih hitems, hitem, hbytes, List.append_assoc, List.take_append_drop,
        List.take_append_drop]

/-- Bytes can be read as a list exactly if they are its frames. -/
theorem decodeResult_eq_some_iff (data : Bytes) (result : List StdString) :
    decodeResult data = some result ↔ data = encodeResult result := by
  constructor
  · intro h
    exact (encodeResult_of_decodeResult h).symm
  · intro h
    rw [h, decodeResult_encodeResult]

/-- Only the empty list has no frames. -/
theorem encodeResult_eq_nil_iff (result : List StdString) :
    encodeResult result = [] ↔ result = [] := by
  cases result with
  | nil => exact ⟨fun _ => rfl, fun _ => rfl⟩
  | cons item result =>
      have hlen : (encodeResult (item :: result)).length
          = 8 + item.val.length + (encodeResult result).length := by
        show (toBe 8 item.val.length ++ item.val
          ++ encodeResult result).length = _
        rw [List.length_append, List.length_append, length_toBe]
      constructor
      · intro h
        rw [h, List.length_nil] at hlen
        omega
      · intro h
        cases h

-- =============================================================== receive

/-- `LinkContext::Recv` fails exactly if it brings nothing, so the test
of `ReceiveResult` never fires. -/
theorem receiveResult_forward (stream : List TaskRequest)
    (statusOk : Bool) :
    receiveResult (recvForward stream statusOk) []
      = (decodeResult (forwardRecv stream statusOk)).map
        fun items => (.success, items) := by
  have hsnd : (recvForward stream statusOk).2
      = forwardRecv stream statusOk := by
    simp only [recvForward]
    split <;> rfl
  have htest : ¬ ((recvForward stream statusOk).1 ≠ .success
      ∧ (recvForward stream statusOk).2 ≠ []) := by
    intro h
    have hne := h.2
    rw [hsnd] at hne
    apply h.1
    simp only [recvForward]
    rw [if_neg (by rwa [List.isEmpty_iff])]
  rw [receiveResult, if_neg htest, hsnd]
  rfl

variable {maxPackageSize : Nat} {hpos : 0 < maxPackageSize}

/-- The bytes the receive ends with. -/
theorem forwardRecv_eq_arrived {view : ReceiverView}
    {ctx ctx' : LinkContext} {workerId : String} {stream : List TaskRequest}
    {statusOk : Bool}
    (h : vmNodeForwardRecv maxPackageSize hpos view ctx workerId syncKey
      = some (stream, ctx')) :
    forwardRecv stream statusOk = arrived view ctx statusOk := by
  unfold forwardRecv arrived
  cases statusOk with
  | false => rfl
  | true =>
      obtain ⟨hview, -, hdata⟩ | ⟨hview, q, data, hpop, -, -, hdata⟩ :=
        vmNodeForwardRecv_cases h
      · rw [hview]
        exact hdata
      · rw [hview, if_pos rfl, if_pos ⟨rfl, rfl⟩, hdata]
        obtain ⟨-, -, hnil, htaken⟩ | ⟨-, -, -, htaken⟩ :=
          waitAndPop_cases hpop
        · rw [htaken, hnil]
          rfl
        · rw [htaken]
          rfl

/-- What the client's and the server's `Execute` come to. -/
theorem agree_iff_decode (send : String → Bytes → Retcode)
    (received : Retcode × Bytes) (partyInfo : List (String × String))
    (result : List StdString) (stream : List TaskRequest) (statusOk : Bool) :
    Agree
        (psiExecute send received partyClient partyInfo true
          (.success, result))
        (psiExecute send (recvForward stream statusOk) partyServer partyInfo
          true (.success, []))
      ↔ decodeResult (forwardRecv stream statusOk) = some result := by
  have hclient : psiExecute send received partyClient partyInfo true
      (.success, result) = some (.success, result) := rfl
  have hserver : psiExecute send (recvForward stream statusOk) partyServer
      partyInfo true (.success, [])
      = (decodeResult (forwardRecv stream statusOk)).map
        fun items => (.success, items) := receiveResult_forward stream statusOk
  rw [hclient, hserver]
  constructor
  · intro h
    obtain hs | ⟨other, hs⟩ := h result rfl
    · rw [Option.map_eq_some_iff] at hs
      obtain ⟨items, hitems, heq⟩ := hs
      injection heq with _ heq
      rw [hitems, heq]
    · rw [Option.map_eq_some_iff] at hs
      obtain ⟨items, -, heq⟩ := hs
      injection heq with heq _
      cases heq
  · intro h r hr
    injection hr with hr
    injection hr with _ hr
    left
    rw [h, ← hr]
    rfl

/-- The server ends with the client's list exactly if the broadcast is at
the front of its running queue, its tests pass and the RPC ends well, or
the list is empty and nothing arrives. -/
theorem sync_agree_iff (send : String → Bytes → Retcode)
    (received : Retcode × Bytes) (partyInfo : List (String × String))
    (result : List StdString) {view : ReceiverView} {ctx ctx' : LinkContext}
    {workerId : String} {stream : List TaskRequest} {statusOk : Bool}
    (h : vmNodeForwardRecv maxPackageSize hpos view ctx workerId syncKey
      = some (stream, ctx')) :
    Agree
        (psiExecute send received partyClient partyInfo true
          (.success, result))
        (psiExecute send (recvForward stream statusOk) partyServer partyInfo
          true (.success, []))
      ↔ (statusOk = true ∧ view.accepts = true
          ∧ (ctx.recvQueue syncKey).taken = some (encodeResult result))
        ∨ (result = [] ∧ (statusOk = false ∨ view.accepts = false
          ∨ (ctx.recvQueue syncKey).stop = true)) := by
  rw [agree_iff_decode, decodeResult_eq_some_iff, forwardRecv_eq_arrived h]
  unfold arrived
  cases statusOk with
  | false =>
      simp only [Bool.false_eq_true, false_and, if_false, false_or, true_or,
        and_true]
      rw [eq_comm, encodeResult_eq_nil_iff]
  | true =>
      obtain ⟨hview, -⟩ | ⟨hview, q, data, hpop, -⟩ :=
        vmNodeForwardRecv_cases h
      · simp only [hview, Bool.false_eq_true, and_false, if_false, false_and,
          false_or, reduceCtorEq, true_or, and_true]
        rw [eq_comm, encodeResult_eq_nil_iff]
      · obtain ⟨hstop, -, -, htaken⟩ | ⟨hstop, -, -, htaken⟩ :=
          waitAndPop_cases hpop
        · simp only [hview, and_self, if_true, htaken, hstop, reduceCtorEq,
            and_false, false_or, or_true, and_true, Option.getD_none]
          rw [eq_comm, encodeResult_eq_nil_iff]
        · simp only [hview, and_self, if_true, htaken, hstop, reduceCtorEq,
            Bool.false_eq_true, or_self, and_false, or_false, true_and,
            Option.getD_some, Option.some.injEq]

/-- Everything is there and everything works. -/
def openView : ReceiverView := ⟨false, true, true, true⟩

/-- The item the client has. -/
def oneItem : StdString := ⟨[7], by decide⟩

/-- A server context with the broadcast of one item in its queue. -/
def contextWithBroadcast : LinkContext :=
  LinkContext.init.setRecvQueue syncKey ⟨[encodeResult [oneItem]], false⟩

/-- A broadcast that arrives. -/
theorem sync_agree_one :
    ∃ stream ctx', vmNodeForwardRecv limitedPackageSize limitedPackageSize_pos
        openView contextWithBroadcast "w" syncKey = some (stream, ctx')
      ∧ Agree
        (psiExecute (fun _ _ => .success) (.success, []) partyClient
          [(partyClient, "a"), (partyServer, "b")] true
          (.success, [oneItem]))
        (psiExecute (fun _ _ => .success) (recvForward stream true)
          partyServer [(partyClient, "a"), (partyServer, "b")] true
          (.success, [])) := by
  obtain ⟨p, hp⟩ := Option.isSome_iff_exists.mp
    (show (vmNodeForwardRecv limitedPackageSize limitedPackageSize_pos
      openView contextWithBroadcast "w" syncKey).isSome from rfl)
  obtain ⟨stream, ctx'⟩ := p
  refine ⟨stream, ctx', hp, (sync_agree_iff _ _ _ _ hp).mpr ?_⟩
  exact Or.inl ⟨rfl, rfl, rfl⟩

/-- The `Send` fails and the server's receive ends with an error: both
sides return SUCCESS, the client with an item, the server with none. -/
theorem sync_lost_broadcast :
    ¬ Agree
      (psiExecute (fun _ _ => .fail) (.success, []) partyClient
        [(partyClient, "a"), (partyServer, "b")] true (.success, [oneItem]))
      (psiExecute (fun _ _ => .fail) (recvForward [] false) partyServer
        [(partyClient, "a"), (partyServer, "b")] true (.success, [])) := by
  intro h
  rw [agree_iff_decode, decodeResult_eq_some_iff] at h
  have hnil : encodeResult [oneItem] = [] := h.symm
  rw [encodeResult_eq_nil_iff] at hnil
  cases hnil

end PrimiHub.Psi
