/-
The keyword PIR exchange (kernel/pir/operator/keyword_pir_impl): the
server's `OnExecute`, the client's, and the proxy node between them, up
to what is sent on which key, fetched from it and counted as complete.

# Programs

Both operators are straight-line code over the link context, so a party
is the list of the operations it still has to do. Only the client's loop
over the result packages depends on what it receives: `recvPackages`
turns into as many receives as the package count says. What the messages
carry besides (parameters, OPRF data, ciphertexts) decides nothing here
and is left out.

# The proxy

A receive is a ForwardRecv call, which runs `ProcessForwardData` on the
proxy: it takes the oldest message of the key and then, in a second
step, pushes a token onto the key's complete queue. The token does not
say what was taken. `CheckSendCompleteStatus` is a CompleteStatus call,
which runs `ProcessCompleteStatus`: it takes as many tokens from the
key's complete queue as it was told, whosever they are. Each handler
makes its turns independently of everything else.

# Failures

A send may fail, with or without its data on the queue, and a call may
end in an error at any time while its handler goes on (`abandoned`). A
receive that fails ends its party; a send that fails ends it too, except
in the thread that sends the result packages: the server then goes
straight to the check. The check calls again until `retry_max_times_`
errors. A handler that refuses the task answers OK all the same.
-/
import Mathlib.Data.List.Basic
import Mathlib.Logic.Function.Basic
import PrimiHub.Lib.Run
import PrimiHub.Node.Channel

namespace PrimiHub.Pir

open Node (Retcode retryMaxTimes)

-- ============================================================== programs

/-- The keys of `BasePirOperator`. -/
inductive PirKey
  /-- `key_`, "pir_key" -/
  | requestKey
  /-- `response_key_`, "response_pir_key" -/
  | responseKey
  /-- `PackageCountKey`, "pack_count" -/
  | packCount
  /-- `key_task_end_`, "pir_task_end" -/
  | taskEnd
  deriving DecidableEq, Repr

/-- What the parties send each other. -/
inductive Message
  | psiParamsRequest
  | psiParams
  | oprfRequest
  | oprfResponse
  | query
  | packageCount (n : UInt32)
  | resultPackage (i : Nat)
  | taskEnd
  deriving DecidableEq, Repr

/-- Whether the message is one of the query's result packages. -/
def Message.isResult : Message → Bool
  | .resultPackage _ => true
  | _ => false

/-- What a party does with its link context. -/
inductive Op
  | send (key : PirKey) (msg : Message)
  /-- one turn of the loop that sends the result packages -/
  | sendResult (i : Nat)
  | recv (key : PirKey)
  /-- receive the package count, then that many packages -/
  | recvPackages
  | checkSendCompleteStatus (key : PirKey) (expected : Nat)
  deriving DecidableEq, Repr

def Op.isSendResult : Op → Bool
  | .sendResult _ => true
  | _ => false

/-- `KeywordPirOperatorServer::ProcessPSIParams`. -/
def processPSIParams : List Op :=
  [.recv .requestKey, .send .responseKey .psiParams]

/-- `KeywordPirOperatorServer::ProcessOprf`. -/
def processOprf : List Op :=
  [.recv .requestKey, .send .responseKey .oprfResponse]

/-- `KeywordPirOperatorServer::ProcessQuery`. -/
def processQuery (packageCount : UInt32) : List Op :=
  [.recv .requestKey, .send .packCount (.packageCount packageCount)]
    ++ (List.range packageCount.toNat).map .sendResult
    ++ [.checkSendCompleteStatus .responseKey packageCount.toNat]

/-- `KeywordPirOperatorServer::OnExecute`, the online branch. -/
def serverOnExecute (packageCount : UInt32) : List Op :=
  processPSIParams ++ processOprf ++ processQuery packageCount
    ++ [.recv .taskEnd]

/-- `KeywordPirOperatorClient::RequestPSIParams`. -/
def requestPSIParams : List Op :=
  [.send .requestKey .psiParamsRequest, .recv .responseKey]

/-- `KeywordPirOperatorClient::RequestOprf`. -/
def requestOprf : List Op :=
  [.send .requestKey .oprfRequest, .recv .responseKey]

/-- `KeywordPirOperatorClient::OnExecute`. -/
def clientOnExecute : List Op :=
  requestPSIParams ++ requestOprf
    ++ [.send .requestKey .query, .recvPackages, .send .taskEnd .taskEnd]

-- ================================================================= proxy

/-- The queues of the task's link context on the proxy. A complete queue
only ever holds `retcode::SUCCESS`, so its length is all there is. -/
structure Proxy where
  recvQueue : PirKey → List Message
  completeQueue : PirKey → Nat
  /-- history: everything taken from the response key, oldest first -/
  forwarded : List Message

/-- A message arrives for a key. -/
def Proxy.push (p : Proxy) (key : PirKey) (msg : Message) : Proxy :=
  { p with
    recvQueue := Function.update p.recvQueue key (p.recvQueue key ++ [msg]) }

/-- A call under way, with what its handler has done so far. -/
inductive Call
  /-- `ProcessForwardData` before its pop -/
  | waiting (key : PirKey)
  /-- between its pop and its push -/
  | taken (key : PirKey) (msg : Message)
  /-- after its push -/
  | forwarded (msg : Message)
  /-- `ProcessCompleteStatus` in its loop -/
  | counting (key : PirKey) (expected completeCount : Nat)
  deriving DecidableEq, Repr

/-- One turn of a handler, if it does not have to wait. -/
def Proxy.turn (p : Proxy) : Call → Option (Proxy × Call)
  | .waiting key =>
      match p.recvQueue key with
      | [] => none
      | msg :: rest =>
          some ({ p with
            recvQueue := Function.update p.recvQueue key rest
            forwarded :=
              if key = .responseKey then p.forwarded ++ [msg] else p.forwarded },
            .taken key msg)
  | .taken key msg =>
      some ({ p with
        completeQueue :=
          Function.update p.completeQueue key (p.completeQueue key + 1) },
        .forwarded msg)
  | .forwarded _ => none
  | .counting key expected completeCount =>
      if completeCount = expected ∨ p.completeQueue key = 0 then none
      else
        some ({ p with
          completeQueue :=
            Function.update p.completeQueue key (p.completeQueue key - 1) },
          .counting key expected (completeCount + 1))

-- ============================================================== exchange

inductive Role
  | server
  | client
  deriving DecidableEq, Repr

/-- A party: the operations left, the call of the first of them if it is
under way, and `retry_time` of the check. -/
structure Party where
  todo : List Op
  call : Option Call
  retryTime : Nat

/-- How `CheckSendCompleteStatus` came to return. -/
inductive CheckReturn
  /-- the handler counted all it was told to -/
  | complete
  /-- the handler refused the task, which the RPC does not report -/
  | refused
  /-- `retry_max_times_` errors -/
  | failed
  deriving DecidableEq, Repr

/-- The code it returned with. -/
def CheckReturn.retcode : CheckReturn → Retcode
  | .complete => .success
  | .refused => .success
  | .failed => .fail

/-- The whole exchange. -/
structure Exchange where
  proxy : Proxy
  party : Role → Party
  /-- handlers whose call has ended in an error -/
  abandoned : List Call
  /-- history: how the server's check returned -/
  checked : Option CheckReturn

/-- The parties before their first operation. -/
def Exchange.init (packageCount : UInt32) : Exchange where
  proxy := ⟨fun _ => [], fun _ => 0, []⟩
  party := fun
    | .server => ⟨serverOnExecute packageCount, none, 0⟩
    | .client => ⟨clientOnExecute, none, 0⟩
  abandoned := []
  checked := none

def Exchange.setParty (s : Exchange) (r : Role) (p : Party) : Exchange :=
  { s with party := Function.update s.party r p }

/-- What can happen next. -/
inductive ExchangeAction
  /-- a party starts its next operation; a send also ends -/
  | start (r : Role)
  /-- the handler of a party's call makes a turn -/
  | turn (r : Role)
  /-- a party's call returns with the answer of its handler -/
  | answer (r : Role)
  /-- a party's operation fails; `queued` if a send's data got through -/
  | fail (r : Role) (queued : Bool)
  /-- the handler of a party's CompleteStatus call refuses the task -/
  | refuse (r : Role)
  /-- a handler nobody waits for makes a turn -/
  | turnAbandoned (i : Nat)
  deriving DecidableEq, Repr

/-- Start the next operation. -/
def Exchange.start (s : Exchange) (r : Role) : Option Exchange :=
  match s.party r with
  | ⟨op :: rest, none, retryTime⟩ =>
      match op with
      | .send key msg =>
          some ({ s with proxy := s.proxy.push key msg }.setParty r
            ⟨rest, none, retryTime⟩)
      | .sendResult i =>
          some ({ s with
            proxy := s.proxy.push .responseKey (.resultPackage i) }.setParty r
            ⟨rest, none, retryTime⟩)
      | .recv key =>
          some (s.setParty r ⟨op :: rest, some (.waiting key), retryTime⟩)
      | .recvPackages =>
          some (s.setParty r ⟨op :: rest, some (.waiting .packCount), retryTime⟩)
      | .checkSendCompleteStatus key expected =>
          some (s.setParty r ⟨op :: rest, some (.counting key expected 0), 0⟩)
  | _ => none

/-- A turn of the handler of the party's call. -/
def Exchange.turn (s : Exchange) (r : Role) : Option Exchange :=
  match s.party r with
  | ⟨todo, some call, retryTime⟩ =>
      match s.proxy.turn call with
      | some (proxy, call) =>
          some ({ s with proxy := proxy }.setParty r ⟨todo, some call, retryTime⟩)
      | none => none
  | _ => none

/-- The party's call returns. -/
def Exchange.answer (s : Exchange) (r : Role) : Option Exchange :=
  match s.party r with
  | ⟨.recv _ :: rest, some (.forwarded _), retryTime⟩ =>
      some (s.setParty r ⟨rest, none, retryTime⟩)
  | ⟨.recvPackages :: rest, some (.forwarded (.packageCount n)), retryTime⟩ =>
      some (s.setParty r
        ⟨List.replicate n.toNat (.recv .responseKey) ++ rest, none, retryTime⟩)
  | ⟨.recvPackages :: _, some (.forwarded _), retryTime⟩ =>
      -- data of another length than a count's
      some (s.setParty r ⟨[], none, retryTime⟩)
  | ⟨_ :: rest, some (.counting _ expected completeCount), retryTime⟩ =>
      if completeCount = expected then
        some ({ s with checked := some .complete }.setParty r
          ⟨rest, none, retryTime⟩)
      else none
  | _ => none

/-- The party's operation fails. -/
def Exchange.fail (s : Exchange) (r : Role) (queued : Bool) :
    Option Exchange :=
  match s.party r with
  | ⟨.send key msg :: _, none, retryTime⟩ =>
      let proxy := if queued then s.proxy.push key msg else s.proxy
      some ({ s with proxy := proxy }.setParty r ⟨[], none, retryTime⟩)
  | ⟨.sendResult i :: rest, none, retryTime⟩ =>
      let proxy :=
        if queued then s.proxy.push .responseKey (.resultPackage i) else s.proxy
      some ({ s with proxy := proxy }.setParty r
        ⟨rest.dropWhile Op.isSendResult, none, retryTime⟩)
  | ⟨op :: rest, some (.counting key expected completeCount), retryTime⟩ =>
      let abandoned := s.abandoned ++ [.counting key expected completeCount]
      if retryTime + 1 < retryMaxTimes then
        some ({ s with abandoned := abandoned }.setParty r
          ⟨op :: rest, some (.counting key expected 0), retryTime + 1⟩)
      else
        some ({ s with
          abandoned := abandoned, checked := some .failed }.setParty r
          ⟨rest, none, retryTime + 1⟩)
  | ⟨_, some call, retryTime⟩ =>
      some ({ s with abandoned := s.abandoned ++ [call] }.setParty r
        ⟨[], none, retryTime⟩)
  | _ => none

/-- The handler of the party's check finds the task finished, its worker
not ready or gone. -/
def Exchange.refuse (s : Exchange) (r : Role) : Option Exchange :=
  match s.party r with
  | ⟨_ :: rest, some (.counting _ _ 0), retryTime⟩ =>
      some ({ s with checked := some .refused }.setParty r
        ⟨rest, none, retryTime⟩)
  | _ => none

/-- A turn of a handler nobody waits for. -/
def Exchange.turnAbandoned (s : Exchange) (i : Nat) : Option Exchange :=
  match s.abandoned[i]? with
  | none => none
  | some call =>
      match s.proxy.turn call with
      | some (proxy, call) =>
          some { s with proxy := proxy, abandoned := s.abandoned.set i call }
      | none => none

/-- One step of the exchange. -/
def exchangeStep (s : Exchange) : ExchangeAction → Option Exchange
  | .start r => s.start r
  | .turn r => s.turn r
  | .answer r => s.answer r
  | .fail r queued => s.fail r queued
  | .refuse r => s.refuse r
  | .turnAbandoned i => s.turnAbandoned i

/-- How many result packages the client has fetched. -/
def Exchange.fetched (s : Exchange) : Nat :=
  s.proxy.forwarded.countP Message.isResult

/-- What the check owes the server: whenever it has returned, the client
has fetched every result package. -/
def CheckMeansFetched (packageCount : UInt32) : Prop :=
  ∀ actions s, Lib.run exchangeStep (.init packageCount) actions = some s →
    s.checked ≠ none → packageCount.toNat ≤ s.fetched

end PrimiHub.Pir
