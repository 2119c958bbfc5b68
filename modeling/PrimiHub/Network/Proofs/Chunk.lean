/-
What was cut is put together again.

# Chain

1. `chunkRound_eq`: a round that starts within the data subtracts without
   wrapping and sends the next `maxPackageSize` bytes, or what there is.
2. `chunkLoop_ends`: the loop ends, with the messages of `packages`, by
   induction on the bytes left.
3. `packages_eq_slices`, `packages_cut`: how many packages there are and
   how long they are.
4. `vmReceive_eq`: the reading loop without the loop.

The three chunkers and the readers are then instances, and the ones the
exchanges of this development are made of are the same functions
(`vmBuildTaskResponse_returns`, `requests_abridged`, `vmReceive_abridged`,
`forwardRecv_abridged`, `appendResponses_eq`). With a limit of 0 the loop
does not end (`chunkLoop_zero`).
-/
import PrimiHub.Network.Chunk
import PrimiHub.Network.Proofs.Exchange

namespace PrimiHub.Network.Chunk

open Lib (Ends Returns ceilDiv slices)
open Node (Bytes Retcode)

variable {maxPackageSize : Nat} {α : Type}

-- ================================================================== loop

theorem sizeSub_of_le {a b : Nat} (ha : a < 2 ^ 64) (h : b ≤ a) :
    sizeSub a b = a - b := by
  unfold sizeSub
  omega

/-- A round from within the data. -/
theorem chunkRound_eq (data : StdString) (message : Nat → Bytes → α)
    {s : ChunkLoop α} {rest : Bytes}
    (hle : s.sendedSize ≤ data.bytes.length)
    (hrest : data.bytes.drop s.sendedSize = rest) :
    chunkRound maxPackageSize data message s
      = ⟨s.sendedSize + min maxPackageSize rest.length, s.messages ++
          [message data.bytes.length (rest.take maxPackageSize)]⟩ := by
  have hsize := data.size_lt
  have hlen : rest.length = data.bytes.length - s.sendedSize := by
    rw [← hrest, List.length_drop]
  simp only [chunkRound, sizeSub_of_le hsize hle, hrest, ← hlen]
  rw [Nat.mod_eq_of_lt (by omega), ← List.take_eq_take_min]

/-- The loop ends when all is sent, with the packages of what was left. -/
theorem chunkLoop_ends (hpos : 0 < maxPackageSize) (data : StdString)
    (message : Nat → Bytes → α) (rest : Bytes) {s : ChunkLoop α}
    (hle : s.sendedSize ≤ data.bytes.length)
    (hrest : data.bytes.drop s.sendedSize = rest) :
    Ends (chunkRound maxPackageSize data message) (moreToSend data) s
      ⟨data.bytes.length, s.messages ++
        (packages maxPackageSize hpos rest).map
          (message data.bytes.length)⟩ := by
  induction rest using packages.induct maxPackageSize hpos generalizing s with
  | case1 rest ih =>
      have hlen : rest.length = data.bytes.length - s.sendedSize := by
        rw [← hrest, List.length_drop]
      have hround : chunkRound maxPackageSize data message s = _ :=
        chunkRound_eq data message hle hrest
      rw [packages, List.map_cons]
      by_cases hmore : maxPackageSize < rest.length
      · rw [Nat.min_eq_left (Nat.le_of_lt hmore)] at hround
        have hagain : moreToSend data
            (chunkRound maxPackageSize data message s) = true := by
          rw [hround, moreToSend, decide_eq_true_eq]
          show s.sendedSize + maxPackageSize < _
          omega
        refine Ends.next hagain ?_
        rw [hround, if_pos hmore]
        have htail := ih hmore
          (s := ⟨s.sendedSize + maxPackageSize, s.messages ++
            [message data.bytes.length (rest.take maxPackageSize)]⟩)
          (show s.sendedSize + maxPackageSize ≤ _ by omega)
          (by rw [← hrest, List.drop_drop])
        rw [List.append_assoc, List.singleton_append] at htail
        exact htail
      · rw [Nat.min_eq_right (Nat.le_of_not_lt hmore),
          show s.sendedSize + rest.length = data.bytes.length by omega]
          at hround
        have hstop : moreToSend data
            (chunkRound maxPackageSize data message s) = false := by
          rw [hround, moreToSend, decide_eq_false_iff_not]
          exact Nat.lt_irrefl _
        rw [if_neg hmore, List.map_nil, ← hround]
        exact Ends.stop hstop

/-- What the loop returns. -/
theorem chunkLoop_returns (hpos : 0 < maxPackageSize) (data : StdString)
    (message : Nat → Bytes → α) :
    Returns (chunkLoop maxPackageSize data message)
      ((packages maxPackageSize hpos data.bytes).map
        (message data.bytes.length)) :=
  (chunkLoop_ends hpos data message data.bytes (s := ⟨0, []⟩)
    (Nat.zero_le _) rfl).returns.map ChunkLoop.messages

/-- With a limit of 0 nothing is ever sent. -/
theorem chunkLoop_zero {data : StdString} (hne : data.bytes ≠ [])
    (message : Nat → Bytes → α) (fuel : Nat) :
    chunkLoop 0 data message fuel = none := by
  have hnot : ∀ t, ¬Ends (chunkRound 0 data message) (moreToSend data)
      ⟨0, []⟩ t := by
    intro t
    have hstay : ∀ s : ChunkLoop α, s.sendedSize = 0 →
        (chunkRound 0 data message s).sendedSize = 0
          ∧ moreToSend data (chunkRound 0 data message s) = true := by
      intro s hs
      have hround : (chunkRound 0 data message s).sendedSize = 0 := by
        simp [chunkRound, hs]
      refine ⟨hround, ?_⟩
      rw [moreToSend, hround, decide_eq_true_eq]
      exact List.length_pos_iff.mpr hne
    exact Lib.not_ends_of_invariant hstay rfl
  rw [chunkLoop, Option.map_eq_none_iff, Option.eq_none_iff_forall_ne_some]
  intro t ht
  exact hnot t ⟨fuel, ht⟩

/-- The three chunkers. -/
theorem grpcBuildTaskRequest_returns (hpos : 0 < maxPackageSize)
    (linkInfo : TaskContext) (role : String) (data : StdString) :
    Returns (grpcBuildTaskRequest maxPackageSize linkInfo role data)
      (.success, (packages maxPackageSize hpos data.bytes).map fun package =>
        ⟨linkInfo, role, data.bytes.length, package⟩) :=
  (chunkLoop_returns hpos data fun totalLength package =>
    (⟨linkInfo, role, totalLength, package⟩ : TaskRequest)).map
    fun requests => (Retcode.success, requests)

theorem vmBuildTaskResponse_returns (hpos : 0 < maxPackageSize)
    (data : StdString) :
    Returns (vmBuildTaskResponse maxPackageSize data)
      (.success, buildTaskResponse maxPackageSize hpos data.bytes) :=
  (chunkLoop_returns hpos data fun totalLength package =>
    (⟨.success, "", totalLength, package⟩ : TaskResponse)).map
    fun responses => (Retcode.success, responses)

theorem vmBuildTaskRequest_returns (hpos : 0 < maxPackageSize)
    (taskInfo : TaskContext) (key : String) (data : StdString) :
    Returns (vmBuildTaskRequest maxPackageSize taskInfo key data)
      (.success, (packages maxPackageSize hpos data.bytes).map fun package =>
        ⟨taskInfo, key, data.bytes.length, package⟩) :=
  (chunkLoop_returns hpos data fun totalLength package =>
    (⟨taskInfo, key, totalLength, package⟩ : TaskRequest)).map
    fun requests => (Retcode.success, requests)

-- ============================================================== packages

/-- The packages are the slices that reach the end, and one for no bytes. -/
theorem packages_eq_slices (hpos : 0 < maxPackageSize) (data : Bytes) :
    packages maxPackageSize hpos data
      = slices maxPackageSize data
          (max 1 (ceilDiv data.length maxPackageSize)) := by
  induction data using packages.induct maxPackageSize hpos with
  | case1 data ih =>
      rw [packages]
      by_cases hmore : maxPackageSize < data.length
      · have hrest : 0 < ceilDiv (data.length - maxPackageSize)
            maxPackageSize := Lib.ceilDiv_pos (by omega) hpos
        have hone : 1 ≤ ceilDiv (data.length - maxPackageSize)
            maxPackageSize + 1 := Nat.le_add_left 1 _
        rw [if_pos hmore, ih hmore, List.length_drop, Nat.max_eq_right hrest,
          Lib.ceilDiv_sub (n := data.length) (by omega) hpos,
          Nat.max_eq_right hone, slices]
      · have hone : ceilDiv data.length maxPackageSize ≤ 1 := by
          rw [Lib.ceilDiv_le_iff hpos]
          omega
        rw [if_neg hmore, Nat.max_eq_left hone]
        rfl

/-- Messages around the packages cut the data as they should. -/
theorem packages_cut (hpos : 0 < maxPackageSize) (data : Bytes)
    {message : Bytes → α} {dataLen : α → Nat} {package : α → Bytes}
    (hlen : ∀ p, dataLen (message p) = data.length)
    (hpackage : ∀ p, package (message p) = p) :
    CutsInto maxPackageSize data dataLen package
      ((packages maxPackageSize hpos data).map message) where
  count := by rw [List.length_map, packages_eq_slices, Lib.slices_length]
  full := by
    intro m hm
    rw [← List.map_dropLast] at hm
    obtain ⟨p, hp, rfl⟩ := List.mem_map.mp hm
    rw [hpackage]
    rw [packages_eq_slices] at hp
    refine Lib.length_of_mem_dropLast_slices ?_ hp
    rcases Nat.eq_zero_or_pos data.length with hzero | hlong
    · rw [hzero, Lib.ceilDiv_zero hpos, Nat.max_eq_left (Nat.zero_le 1),
        Nat.sub_self, Nat.zero_mul]
    · rw [Nat.max_eq_right (Lib.ceilDiv_pos hlong hpos)]
      exact Nat.le_of_lt (Lib.ceilDiv_mul_lt hlong hpos)
  whole := by
    have hid : package ∘ message = id := funext hpackage
    rw [List.map_map, hid, List.map_id, packages_flatten]
  total := by
    intro m hm
    obtain ⟨p, -, rfl⟩ := List.mem_map.mp hm
    exact hlen p

-- =============================================================== readers

/-- The reading loop from the second message on. -/
theorem foldl_read (requests : List TaskRequest) (taskInfo : TaskContext)
    (key : String) (receivedData : Bytes) :
    requests.foldl Reading.read ⟨true, taskInfo, key, receivedData⟩
      = ⟨true, taskInfo, key, receivedData ++
          (requests.map TaskRequest.data).flatten⟩ := by
  induction requests generalizing receivedData with
  | nil => rw [List.foldl_nil, List.map_nil, List.flatten_nil, List.append_nil]
  | cons request rest ih =>
      rw [List.foldl_cons, Reading.read, if_pos rfl, ih, List.map_cons,
        List.flatten_cons, List.append_assoc]

/-- The reading loop: task and key of the first message, data of all. -/
theorem vmReceive_eq (requests : List TaskRequest) :
    vmReceive requests = match requests with
      | [] => Reading.init
      | first :: _ => ⟨true, first.taskInfo, first.role,
          (requests.map TaskRequest.data).flatten⟩ := by
  cases requests with
  | nil => rfl
  | cons first rest =>
      have hfirst : Reading.init.read first
          = ⟨true, first.taskInfo, first.role, first.data⟩ := rfl
      rw [vmReceive, List.foldl_cons, hfirst, foldl_read, List.map_cons,
        List.flatten_cons]

theorem grpcForwardRecv_eq (requests : List TaskRequest) :
    grpcForwardRecv requests = (requests.map TaskRequest.data).flatten := by
  rw [grpcForwardRecv, List.foldl_append_eq_append, List.nil_append]

theorem grpcRecv_eq (recvData : Bytes) (responses : List TaskResponse) :
    grpcRecv recvData responses
      = recvData ++ (responses.map TaskResponse.data).flatten := by
  rw [grpcRecv, List.foldl_append_eq_append]

-- ======================================= the exchanges of this development

/-- The requests `Node.Channel` sends are the ones the loops build. -/
theorem requests_abridged (hpos : 0 < maxPackageSize) (taskInfo : TaskContext)
    (key : String) (data : Bytes) :
    ((packages maxPackageSize hpos data).map fun package =>
        (⟨taskInfo, key, data.length, package⟩ : TaskRequest)).map
        TaskRequest.abridged
      = Node.buildTaskRequest maxPackageSize hpos taskInfo.requestId key
          data := by
  rw [List.map_map, Node.buildTaskRequest]
  generalize htotal : data.length = total
  clear htotal
  induction data using packages.induct maxPackageSize hpos with
  | case1 rest ih =>
      rw [packages, Node.buildTaskRequestLoop, List.map_cons]
      by_cases hmore : maxPackageSize < rest.length
      · rw [if_pos hmore, if_pos hmore, ih hmore]
        rfl
      · rw [if_neg hmore, if_neg hmore]
        rfl

/-- The handler of `Node.Channel` finds what the reading loop finds. -/
theorem vmReceive_abridged (view : Node.ReceiverView) (q : Node.RecvQueues)
    {requests : List TaskRequest} (hne : requests ≠ []) :
    Node.vmNodeSend view q (requests.map TaskRequest.abridged)
      = Node.vmNodeSend view q [⟨(vmReceive requests).taskInfo.requestId,
          (vmReceive requests).key, 0, (vmReceive requests).receivedData⟩] := by
  cases requests with
  | nil => exact absurd rfl hne
  | cons first rest =>
      have hdata : ((first :: rest).map TaskRequest.abridged).map
          Node.TaskRequest.data = (first :: rest).map TaskRequest.data := by
        rw [List.map_map]
        rfl
      simp only [Node.vmNodeSend, vmReceive_eq, hdata]
      simp only [List.map_cons, List.map_nil, List.head?_cons,
        Option.map_some, Option.getD_some, List.flatten_cons,
        List.flatten_nil, List.append_nil, TaskRequest.abridged]

/-- The same for the client's reading loops. -/
theorem forwardRecv_abridged (requests : List TaskRequest) :
    forwardRecv (requests.map TaskRequest.abridged) true
      = grpcForwardRecv requests := by
  rw [forwardRecv, if_pos rfl, grpcForwardRecv_eq, List.map_map]
  rfl

theorem appendResponses_eq (recvData : Bytes)
    (responses : List TaskResponse) :
    appendResponses recvData responses = grpcRecv recvData responses := by
  rw [grpcRecv_eq, appendResponses]

-- =========================================================== the property

/-- Requests around the packages carry the data. -/
theorem requests_carry (hpos : 0 < maxPackageSize) (taskInfo : TaskContext)
    (key : String) (data : Bytes) :
    RequestsCarry maxPackageSize taskInfo key data
      ((packages maxPackageSize hpos data).map fun package =>
        ⟨taskInfo, key, data.length, package⟩) := by
  have hcut : CutsInto maxPackageSize data TaskRequest.dataLen
      TaskRequest.data ((packages maxPackageSize hpos data).map fun package =>
        (⟨taskInfo, key, data.length, package⟩ : TaskRequest)) :=
    packages_cut hpos data (fun _ => rfl) (fun _ => rfl)
  refine ⟨hcut, ?_, ?_, ?_⟩
  · intro r hr
    obtain ⟨p, -, rfl⟩ := List.mem_map.mp hr
    exact ⟨rfl, rfl⟩
  · have hwhole := hcut.whole
    rw [vmReceive_eq]
    rw [packages, List.map_cons] at hwhole ⊢
    dsimp only
    rw [hwhole]
  · rw [grpcForwardRecv_eq, hcut.whole]

/-- Responses around the packages carry the data. -/
theorem responses_carry (hpos : 0 < maxPackageSize) (data : Bytes) :
    ResponsesCarry maxPackageSize data
      (buildTaskResponse maxPackageSize hpos data) := by
  have hcut : CutsInto maxPackageSize data TaskResponse.dataLen
      TaskResponse.data (buildTaskResponse maxPackageSize hpos data) :=
    packages_cut hpos data (fun _ => rfl) (fun _ => rfl)
  refine ⟨hcut, ?_, ?_⟩
  · intro r hr
    obtain ⟨p, -, rfl⟩ := List.mem_map.mp hr
    rfl
  · intro recvData
    rw [grpcRecv_eq, hcut.whole]

/-- For every string and every limit above 0 the three chunkers return, and
what they return carries the string. -/
theorem chunkers_carry (hpos : 1 ≤ maxPackageSize) (taskInfo : TaskContext)
    (key : String) (data : StdString) :
    (∃ requests,
      Returns (grpcBuildTaskRequest maxPackageSize taskInfo key data)
          (.success, requests)
        ∧ RequestsCarry maxPackageSize taskInfo key data.bytes requests)
    ∧ (∃ responses,
      Returns (vmBuildTaskResponse maxPackageSize data) (.success, responses)
        ∧ ResponsesCarry maxPackageSize data.bytes responses)
    ∧ ∃ requests,
      Returns (vmBuildTaskRequest maxPackageSize taskInfo key data)
          (.success, requests)
        ∧ RequestsCarry maxPackageSize taskInfo key data.bytes requests :=
  ⟨⟨_, grpcBuildTaskRequest_returns hpos taskInfo key data,
      requests_carry hpos taskInfo key data.bytes⟩,
    ⟨_, vmBuildTaskResponse_returns hpos data,
      responses_carry hpos data.bytes⟩,
    ⟨_, vmBuildTaskRequest_returns hpos taskInfo key data,
      requests_carry hpos taskInfo key data.bytes⟩⟩

/-- Seven bytes. -/
def sevenBytes : StdString := ⟨[1, 2, 3, 4, 5, 6, 7], by decide⟩

/-- Seven bytes in packages of three. -/
theorem chunkers_carry_seven :
    ∃ requests,
      Returns (grpcBuildTaskRequest 3 ⟨"t", "j", "r", "s"⟩ "key" sevenBytes)
          (.success, requests)
        ∧ RequestsCarry 3 ⟨"t", "j", "r", "s"⟩ "key" sevenBytes.bytes
          requests :=
  (chunkers_carry (by decide) ⟨"t", "j", "r", "s"⟩ "key" sevenBytes).1

end PrimiHub.Network.Chunk
