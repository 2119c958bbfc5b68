/-
How data is cut into messages and put together again
(util/network/grpc_link_context.cc, node/node_interface.cc).

# Cutting

`GrpcChannel::buildTaskRequest`, `VMNodeInterface::BuildTaskResponse` and
`VMNodeInterface::BuildTaskRequest` are the same do-while loop, written
three times, around three messages (`chunkRound`). The loop counts the
bytes sent in a `size_t` and computes what is left by an unsigned
subtraction. It is run with fuel here, and that it ends is proved.

The two `reserve` calls of the loops ask for memory only, and memory is
there. They ask for a whole package even where less is left, so the limit
is meant to be one a `std::string` can have: `reserve` throws a
`length_error` above `max_size()`. The limits in use are a few megabytes.

# Putting together

The readers append what comes, and `VMNodeInterface::Send` takes the task
and the key from the first message. Messages arrive in order.

`Node.buildTaskRequest` and `buildTaskResponse` say what comes out of the
loops without running them, on the bytes that are left; they are what the
rest of this development sends and receives.
-/
import Mathlib.Algebra.Order.Ring.Nat
import PrimiHub.Lib.Run
import PrimiHub.Lib.Slices
import PrimiHub.Network.Exchange

namespace PrimiHub.Network.Chunk

open Lib (doWhile ceilDiv)
open Node (Bytes Retcode)

-- ============================================================== messages

/-- `rpc::TaskContext`. -/
structure TaskContext where
  taskId : String
  jobId : String
  requestId : String
  subTaskId : String
  deriving DecidableEq, Repr

/-- `rpc::TaskRequest`. -/
structure TaskRequest where
  taskInfo : TaskContext
  role : String
  dataLen : Nat
  data : Bytes
  deriving DecidableEq, Repr

/-- What `Node.TaskRequest` keeps of it. -/
def TaskRequest.abridged (r : TaskRequest) : Node.TaskRequest :=
  ⟨r.taskInfo.requestId, r.role, r.dataLen, r.data⟩

/-- A `std::string`: `size()` is a `size_t`. -/
structure StdString where
  bytes : Bytes
  size_lt : bytes.length < 2 ^ 64

-- =============================================================== cutting

/-- A difference of `size_t`. -/
def sizeSub (a b : Nat) : Nat := (a + (2 ^ 64 - b % 2 ^ 64)) % 2 ^ 64

/-- What the loops carry: `sended_size` and the messages so far. -/
structure ChunkLoop (α : Type) where
  sendedSize : Nat
  messages : List α
  deriving DecidableEq, Repr

/-- The body of the loops, up to the test. -/
def chunkRound {α : Type} (maxPackageSize : Nat) (data : StdString)
    (message : Nat → Bytes → α) (s : ChunkLoop α) : ChunkLoop α :=
  let totalLength := data.bytes.length
  let dataLen := min maxPackageSize (sizeSub totalLength s.sendedSize)
  { sendedSize := (s.sendedSize + dataLen) % 2 ^ 64
    messages := s.messages ++
      [message totalLength ((data.bytes.drop s.sendedSize).take dataLen)] }

/-- `sended_size < total_length`: the loops `continue`. -/
def moreToSend {α : Type} (data : StdString) (s : ChunkLoop α) : Bool :=
  s.sendedSize < data.bytes.length

/-- One of the loops, from its start. -/
def chunkLoop {α : Type} (maxPackageSize : Nat) (data : StdString)
    (message : Nat → Bytes → α) (fuel : Nat) : Option (List α) :=
  (doWhile (chunkRound maxPackageSize data message) (moreToSend data) fuel
    ⟨0, []⟩).map ChunkLoop.messages

/-- `GrpcChannel::buildTaskRequest` into an empty vector, with the ids that
`BuildTaskInfo` finds in the link context. -/
def grpcBuildTaskRequest (maxPackageSize : Nat) (linkInfo : TaskContext)
    (role : String) (data : StdString) (fuel : Nat) :
    Option (Retcode × List TaskRequest) :=
  (chunkLoop maxPackageSize data (fun totalLength package =>
    ⟨linkInfo, role, totalLength, package⟩) fuel).map (.success, ·)

/-- `VMNodeInterface::BuildTaskResponse`. -/
def vmBuildTaskResponse (maxPackageSize : Nat) (data : StdString)
    (fuel : Nat) : Option (Retcode × List TaskResponse) :=
  (chunkLoop maxPackageSize data (fun totalLength package =>
    ⟨.success, "", totalLength, package⟩) fuel).map (.success, ·)

/-- `VMNodeInterface::BuildTaskRequest`. -/
def vmBuildTaskRequest (maxPackageSize : Nat) (taskInfo : TaskContext)
    (key : String) (data : StdString) (fuel : Nat) :
    Option (Retcode × List TaskRequest) :=
  (chunkLoop maxPackageSize data (fun totalLength package =>
    ⟨taskInfo, key, totalLength, package⟩) fuel).map (.success, ·)

-- ====================================================== putting together

/-- What `VMNodeInterface::Send` and `SendRecv` carry while they read. -/
structure Reading where
  recvMetaInfo : Bool
  taskInfo : TaskContext
  key : String
  receivedData : Bytes
  deriving DecidableEq, Repr

/-- Before the first message. -/
def Reading.init : Reading := ⟨false, ⟨"", "", "", ""⟩, "", []⟩

/-- One message read. -/
def Reading.read (s : Reading) (request : TaskRequest) : Reading :=
  let s :=
    if s.recvMetaInfo then s
    else
      { s with
        recvMetaInfo := true
        taskInfo := request.taskInfo
        key := request.role }
  { s with receivedData := s.receivedData ++ request.data }

/-- The reading loop of `VMNodeInterface::Send` and `SendRecv`. -/
def vmReceive (requests : List TaskRequest) : Reading :=
  requests.foldl Reading.read Reading.init

/-- The reading loop of `GrpcChannel::forwardRecv`. -/
def grpcForwardRecv (requests : List TaskRequest) : Bytes :=
  requests.foldl (fun tmpBuff response => tmpBuff ++ response.data) []

/-- The reading loop of `GrpcChannel::sendRecv`, onto what the caller's
string holds. -/
def grpcRecv (recvData : Bytes) (responses : List TaskResponse) : Bytes :=
  responses.foldl (fun recvData response => recvData ++ response.data)
    recvData

-- =========================================================== the property

/-- The messages are `data` in packages: as many as there must be and one
for no bytes at all, all but the last full, in order, and each says how
long the whole is. -/
structure CutsInto {α : Type} (maxPackageSize : Nat) (data : Bytes)
    (dataLen : α → Nat) (package : α → Bytes) (messages : List α) : Prop where
  count : messages.length = max 1 (ceilDiv data.length maxPackageSize)
  full : ∀ m ∈ messages.dropLast, (package m).length = maxPackageSize
  whole : (messages.map package).flatten = data
  total : ∀ m ∈ messages, dataLen m = data.length

/-- The requests carry the data, its key and its task, and the reading
loops of the server and of the client find all of it in them. -/
structure RequestsCarry (maxPackageSize : Nat) (taskInfo : TaskContext)
    (key : String) (data : Bytes) (requests : List TaskRequest) : Prop where
  cut : CutsInto maxPackageSize data TaskRequest.dataLen TaskRequest.data
    requests
  labelled : ∀ r ∈ requests, r.taskInfo = taskInfo ∧ r.role = key
  received : vmReceive requests = ⟨true, taskInfo, key, data⟩
  forwarded : grpcForwardRecv requests = data

/-- The responses carry the data, and the client appends it. -/
structure ResponsesCarry (maxPackageSize : Nat) (data : Bytes)
    (responses : List TaskResponse) : Prop where
  cut : CutsInto maxPackageSize data TaskResponse.dataLen TaskResponse.data
    responses
  success : ∀ r ∈ responses, r.retCode = .success
  received : ∀ recvData, grpcRecv recvData responses = recvData ++ data

end PrimiHub.Network.Chunk
