/-
The two RPCs that bring data back: `GrpcChannel::sendRecv` against
`VMNodeInterface::SendRecv`, and `GrpcChannel::forwardRecv` against
`VMNodeInterface::ForwardRecv` (util/network/grpc_link_context.cc,
node/node_interface.cc, node/node_impl.cc).

The handlers end in a `wait_and_pop` on a queue of the task's link
context. Other threads work on that context while a handler waits, so a
handler takes the context as the pop finds it when it returns; what the
context was when the handler started does not matter. The tests the
`Process...` functions make first depend on what else the node is doing
and are a `ReceiverView` for each call.

An RPC that ends with an error may have reached the server or not, and
its handler may have read a part of the stream only; the client may have
read a part of the answer.
-/
import PrimiHub.Network.Link

namespace PrimiHub.Network

open Node (Bytes Retcode TaskRequest ReceiverView RecvQueues
  buildTaskRequest processReceivedData)

/-- `rpc::TaskResponse`. -/
structure TaskResponse where
  retCode : Retcode
  msgInfo : String
  dataLen : Nat
  data : Bytes
  deriving DecidableEq, Repr

-- ============================================================= chunking

/-- The packages the loop of `BuildTaskResponse` cuts `rest` into: at
least one, each of at most `maxPackageSize` bytes. -/
def packages (maxPackageSize : Nat) (hpos : 0 < maxPackageSize)
    (rest : Bytes) : List Bytes :=
  rest.take maxPackageSize ::
    if maxPackageSize < rest.length then
      packages maxPackageSize hpos (rest.drop maxPackageSize)
    else []
termination_by rest.length
decreasing_by
  rw [List.length_drop]
  omega

/-- `VMNodeInterface::BuildTaskResponse`. -/
def buildTaskResponse (maxPackageSize : Nat) (hpos : 0 < maxPackageSize)
    (data : Bytes) : List TaskResponse :=
  (packages maxPackageSize hpos data).map fun package =>
    ⟨.success, "", data.length, package⟩

-- ================================================================ server

/-- The common part of `ProcessSendData` and `ProcessForwardData`: four
tests, a `wait_and_pop(*data_buffer)` on the queue `q` of the key, which
`setQueue` puts back, and a completion mark. `none` while the pop
waits. -/
def processPop (view : ReceiverView) (ctx : LinkContext) (key : String)
    (q : ThreadSafeQueue Bytes)
    (setQueue : ThreadSafeQueue Bytes → LinkContext) (dataBuffer : Bytes) :
    Option (Retcode × LinkContext × Bytes) :=
  if view.finishedTask then some (.fail, ctx, dataBuffer)
  else if !view.workerReady then some (.fail, ctx, dataBuffer)
  else if !view.workerFound then some (.fail, ctx, dataBuffer)
  else if !view.linkContext then some (.fail, ctx, dataBuffer)
  else
    match q.waitAndPop dataBuffer with
    | none => none
    | some (q', data) =>
        let ctx' := setQueue q'
        some (.success,
          ctx'.setCompletionQueue key
            ((ctx'.completionQueue key).push .success), data)

/-- `VMNodeImpl::ProcessSendData`. -/
def processSendData (view : ReceiverView) (ctx : LinkContext)
    (key : String) (dataBuffer : Bytes) :
    Option (Retcode × LinkContext × Bytes) :=
  processPop view ctx key (ctx.sendQueue key) (ctx.setSendQueue key)
    dataBuffer

/-- `VMNodeImpl::ProcessForwardData`. -/
def processForwardData (view : ReceiverView) (ctx : LinkContext)
    (key : String) (dataBuffer : Bytes) :
    Option (Retcode × LinkContext × Bytes) :=
  processPop view ctx key (ctx.recvQueue key) (ctx.setRecvQueue key)
    dataBuffer

/-- `VMNodeInterface::SendRecv` on the requests it reads: the answer and
the context afterwards (`none` while it waits for a reply), and the
receive queues. Both failure exits write a response with `ret_code` FAIL
and no data. -/
def vmNodeSendRecv (maxPackageSize : Nat) (hpos : 0 < maxPackageSize)
    (received sending : ReceiverView) (q : RecvQueues) (ctx : LinkContext)
    (requests : List TaskRequest) :
    Option (List TaskResponse × LinkContext) × RecvQueues :=
  let workerId := (requests.head?.map TaskRequest.workerId).getD ""
  let key := (requests.head?.map TaskRequest.role).getD ""
  let receivedData := (requests.map TaskRequest.data).flatten
  let (ret, q') := processReceivedData received q workerId key receivedData
  if ret ≠ .success then
    (some ([⟨.fail, "ProcessReceivedData encountes error", 0, []⟩], ctx), q')
  else
    match processSendData sending ctx key [] with
    | none => (none, q')
    | some (.success, ctx', sendData) =>
        (some (buildTaskResponse maxPackageSize hpos sendData, ctx'), q')
    | some (.fail, ctx', _) =>
        (some ([⟨.fail, "no data is available for key:" ++ key, 0, []⟩],
          ctx'), q')

/-- `VMNodeInterface::ForwardRecv`: the stream it writes and the context
afterwards. A failure writes one request with nothing in it. -/
def vmNodeForwardRecv (maxPackageSize : Nat) (hpos : 0 < maxPackageSize)
    (view : ReceiverView) (ctx : LinkContext) (workerId key : String) :
    Option (List TaskRequest × LinkContext) :=
  match processForwardData view ctx key [] with
  | none => none
  | some (.success, ctx', recvData) =>
      some (buildTaskRequest maxPackageSize hpos workerId key recvData, ctx')
  | some (.fail, ctx', _) => some ([⟨"", "", 0, []⟩], ctx')

-- ================================================================ client

/-- How an RPC ends for the client. -/
inductive RpcStatus
  /-- the handler has answered and the whole answer has been read -/
  | ok
  /-- an error: the handler was left with the first `handled` requests or
  never ran, and the client has read the first `read` responses -/
  | error (handled : Option Nat) (read : Nat)
  deriving DecidableEq, Repr

/-- What a `sendRecv` call leaves behind. -/
structure SendRecvResult where
  ret : Retcode
  recvData : Bytes
  pushed : RecvQueues
  ctx : LinkContext

/-- `recv_data->append` for every response. -/
def appendResponses (recvData : Bytes) (responses : List TaskResponse) :
    Bytes :=
  recvData ++ (responses.map TaskResponse.data).flatten

/-- `GrpcChannel::sendRecv`: `recvData` is what the caller's buffer holds
before the call. `none` while the call does not return. -/
def sendRecv (maxPackageSize : Nat) (hpos : 0 < maxPackageSize)
    (workerId role : String) (sendData recvData : Bytes)
    (status : RpcStatus) (received sending : ReceiverView) (q : RecvQueues)
    (ctx : LinkContext) : Option SendRecvResult :=
  let sendRequests :=
    buildTaskRequest maxPackageSize hpos workerId role sendData
  match status with
  | .ok =>
      match vmNodeSendRecv maxPackageSize hpos received sending q ctx
        sendRequests with
      | (none, _) => none
      | (some (responses, ctx'), q') =>
          some ⟨.success, appendResponses recvData responses, q', ctx'⟩
  | .error none _ => some ⟨.fail, recvData, q, ctx⟩
  | .error (some n) read =>
      match vmNodeSendRecv maxPackageSize hpos received sending q ctx
        (sendRequests.take n) with
      | (none, q') => some ⟨.fail, recvData, q', ctx⟩
      | (some (responses, ctx'), q') =>
          some ⟨.fail, appendResponses recvData (responses.take read), q',
            ctx'⟩

/-- `GrpcChannel::forwardRecv` on the stream it reads. -/
def forwardRecv (stream : List TaskRequest) (statusOk : Bool) : Bytes :=
  if statusOk then (stream.map TaskRequest.data).flatten else []

/-- `LinkContext::Recv(key, dest_node, recv_buf)`: return code and
buffer. -/
def recvForward (stream : List TaskRequest) (statusOk : Bool) :
    Retcode × Bytes :=
  let recvBuf := forwardRecv stream statusOk
  if recvBuf.isEmpty then (.fail, recvBuf) else (.success, recvBuf)

/-- `LinkContext::Recv(key, dest_node, recv_buf, recv_size)`. -/
def recvForwardBuffer (recvSize : Nat) (stream : List TaskRequest)
    (statusOk : Bool) : Retcode × Bytes :=
  match recvForward stream statusOk with
  | (.success, tmpRecvBuf) =>
      if tmpRecvBuf.length ≠ recvSize then (.fail, [])
      else (.success, tmpRecvBuf)
  | (.fail, _) => (.fail, [])

-- =========================================================== the property

/-- The exchange is transparent: SUCCESS means that the request was
pushed whole and once on the queue of its key and that the buffer holds
exactly the reply taken off the peer's send queue; a request the server
could not process, or for which it had no reply, is reported as FAIL. -/
structure ExchangeTransparent (workerId role : String) (sendData : Bytes)
    (received sending : ReceiverView) (q : RecvQueues) (ctx : LinkContext)
    (r : SendRecvResult) : Prop where
  pushedOnce : r.ret = .success → r.pushed = q.push workerId role sendData
  replied : r.ret = .success → sending.accepts = true
    ∧ (ctx.sendQueue role).taken = some r.recvData
    ∧ (ctx.sendQueue role).items = r.recvData :: (r.ctx.sendQueue role).items
  notProcessed : received.accepts = false → r.ret = .fail
  notReplied : sending.accepts = false ∨ (ctx.sendQueue role).taken = none →
    r.ret = .fail

end PrimiHub.Network
