/-
The parties of a task: how they get their ids
(`LanguageParser::MergePartyAccessInfo`, task/language/parser.cc) and how
the ABY3 scheduler wires them into a ring (`ABY3Scheduler::add_vm` and
`dispatch`, task/semantic/scheduler/aby3_scheduler.cc).

# The protobuf map

`party_access_info` is a protobuf map: a party name is there once, and a
loop over the map sees the entries in an order nothing specifies.
`PartyMap` is the map as such a loop sees it; two values with the same
entries in another order are the same map, copied or rebuilt. `std::map`
is `SortedMap`: it iterates in name order.

# Integers

Ids and ports of endpoints are `int32` in the source. They are `Int`
here: no protobuf message holds enough parties to reach the end of the
range. A port goes through `Node`, where it is unsigned, and back.
-/
import Mathlib.Data.List.Dedup
import Mathlib.Data.String.Basic
import PrimiHub.Lib.SortedMap

namespace PrimiHub.Task

open Lib

-- ============================================================== nodes

/-- `primihub::Node`. -/
structure Node where
  id : String := ""
  ip : String := ""
  port : UInt32 := 0
  useTls : Bool := false
  role : String := ""
deriving DecidableEq, Repr

/-- `Node::to_string`. -/
def Node.toAddress (n : Node) : String :=
  n.id ++ ":" ++ n.ip ++ ":" ++ toString n.port.toNat ++ ":"
    ++ (if n.useTls then "1" else "0") ++ ":" ++ n.role

/-- `rpc::LinkType`. -/
inductive LinkType
  | server
  | client
deriving DecidableEq, Repr

/-- `rpc::EndPoint`. -/
structure EndPoint where
  ip : String
  port : Int
  name : String
  linkType : LinkType
deriving DecidableEq, Repr

/-- `rpc::VirtualMachine`. -/
structure VirtualMachine where
  partyId : Int
  next : EndPoint
  prev : EndPoint
deriving DecidableEq, Repr

/-- `rpc::Node`. -/
structure PbNode where
  nodeId : String := ""
  ip : String := ""
  port : Int32 := 0
  dataPort : Int32 := 0
  useTls : Bool := false
  role : String := ""
  vm : List VirtualMachine := []
  partyId : Int := 0
deriving DecidableEq

/-- `pbNode2Node`. -/
def pbNode2Node (pb : PbNode) : Node where
  id := pb.nodeId
  ip := pb.ip
  port := pb.port.toUInt32
  useTls := pb.useTls
  role := pb.role

/-- `node2PbNode`, onto a node as protobuf makes it. -/
def node2PbNode (node : Node) : PbNode where
  nodeId := node.id
  ip := node.ip
  port := node.port.toInt32
  useTls := node.useTls
  role := node.role

/-- `party_access_info`, in the order a loop over it goes. -/
structure PartyMap where
  entries : List (String × PbNode)
  nodup : (entries.map Prod.fst).Nodup

-- ========================================================== numbering

/-- The two loops of `MergePartyAccessInfo` that fill `filtered_party`:
first what the request has, then what was found. -/
def filteredParty (request : PartyMap) (found : SortedMap String Node) :
    SortedMap String Node :=
  (SortedMap.empty.insertNewAll
      (request.entries.map fun e => (e.1, pbNode2Node e.2))).insertNewAll
    found.entries

/-- The refill loop: each party in turn, with the counter's id. -/
def refill (partyId : Int) : List (String × Node) → List (String × PbNode)
  | [] => []
  | (name, node) :: rest =>
      (name, { node2PbNode node with partyId := partyId })
        :: refill (partyId + 1) rest

theorem refill_names (partyId : Int) (l : List (String × Node)) :
    (refill partyId l).map Prod.fst = l.map Prod.fst := by
  induction l generalizing partyId with
  | nil => rfl
  | cons e rest ih => rw [refill, List.map_cons, List.map_cons, ih]

/-- `MergePartyAccessInfo`: the request's map afterwards, in the order it
was refilled. -/
def mergePartyAccessInfo (request : PartyMap)
    (found : SortedMap String Node) : PartyMap where
  entries := refill 0 (filteredParty request found).entries
  nodup := by
    rw [refill_names]
    exact (filteredParty request found).keys_nodup

-- ============================================================= wiring

/-- `rpc::TaskContext`, as far as a session name needs it. -/
structure TaskInfo where
  taskId : String
  jobId : String

/-- `rpc::TaskType`. -/
inductive TaskType
  | actorTask
  | nodeTask
  | pirTask
  | psiTask
  | nodePirTask
  | nodePsiTask
  | teeTask
  | teeExecutorTask
  | teeDataproviderTask
deriving DecidableEq

/-- How `dispatch` can end before anything is sent. -/
inductive DispatchError
  /-- `RaiseException` -/
  | raised (message : String)
  /-- an index outside `party_nodes`, undefined in the source -/
  | outOfRange
deriving DecidableEq, Repr

/-- `party_nodes[i]`. -/
def nodeAt (partyNodes : List PbNode) (i : Int) :
    Except DispatchError PbNode :=
  if i < 0 then .error .outOfRange
  else match partyNodes[i.toNat]? with
    | some node => .ok node
    | none => .error .outOfRange

/-- The end at party `partyId` of its link with party `peer`. -/
def endPoint (info : TaskInfo) (partyId peer : Int) (ip : String) :
    EndPoint where
  ip := ip
  port := min partyId peer + 12120
  name := info.jobId ++ "_" ++ info.taskId ++ "_"
    ++ (toString (min partyId peer) ++ toString (max partyId peer))
  linkType := if partyId < peer then .server else .client

/-- `ABY3Scheduler::add_vm`. -/
def addVm (partyId : Int) (info : TaskInfo) (partyNodes : List PbNode)
    (node : PbNode) : Except DispatchError PbNode := do
  let next := (partyId + 1).tmod 3
  let prev := (partyId + 2).tmod 3
  let nextNode ← nodeAt partyNodes next
  let prevNode ← nodeAt partyNodes prev
  return { node with vm := node.vm ++
    [{ partyId := partyId
       next := endPoint info partyId next nextNode.ip
       prev := endPoint info partyId prev prevNode.ip }] }

/-- `(*party_access_info)[name]` replaced by what `f` makes of it. The
names come from the map, so the entry is there. -/
def alterParty (name : String) (f : PbNode → Except DispatchError PbNode) :
    List (String × PbNode) → Except DispatchError (List (String × PbNode))
  | [] => .ok []
  | e :: rest =>
      if e.1 = name then do
        let node ← f e.2
        return (e.1, node) :: rest
      else do
        let rest ← alterParty name f rest
        return e :: rest

/-- The loop of `dispatch` over `party_names`. -/
def wireParties (info : TaskInfo) (partyNodes : List PbNode) :
    List String → List (String × PbNode) →
      Except DispatchError (List (String × PbNode))
  | [], entries => .ok entries
  | name :: names, entries => do
      let entries ← alterParty name
        (fun node => addVm node.partyId info partyNodes node) entries
      wireParties info partyNodes names entries

/-- `ABY3Scheduler::dispatch` up to the sending: the parties of
`send_request`, which every party is then sent whole. -/
def dispatch (type : TaskType) (info : TaskInfo) (partyInfo : PartyMap) :
    Except DispatchError (List (String × PbNode)) :=
  if type = .actorTask then
    let partyNames := partyInfo.entries.map Prod.fst
    let partyNodes := partyInfo.entries.map Prod.snd
    let dupFilter :=
      (partyNodes.map fun node => (pbNode2Node node).toAddress).dedup
    let dupNames := partyNames.dedup
    if dupFilter.length ≠ 3 then
      .error (.raised ("ABY3 protocol need 3 party, but get "
        ++ toString dupFilter.length))
    else if dupNames.length ≠ 3 then
      .error (.raised "ABY3 protocol: different party set same name")
    else wireParties info partyNodes partyNames partyInfo.entries
  else .ok partyInfo.entries

end PrimiHub.Task
