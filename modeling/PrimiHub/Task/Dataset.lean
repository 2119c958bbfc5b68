/-
From the datasets a task names to the parties that hold them:
`ProtocolSemanticParser::ParseDatasetToPartyAccessInfo`
(task/semantic/parser.cc) with the stages it goes through,
`ProtoParser::parseDatasets` (task/language/proto_parser.cc),
`GrpcDatasetMetaService::FindPeerListFromDatasets`
(service/dataset/meta_service/grpc_impl.cc), `metasToPartyAccessInfo` and
`MergePartyAccessInfo`.

# The meta service

The service is on the other side of a gRPC call. Here it is a function
from the attempt and the requested ids to a response, or to nothing when
the call fails. Of a record the stages read the id, the address and
whether it is available; the driver, the access info and the schema go
into the meta and are not looked at.

# Addresses

A record's address is a text, read by `Node::fromString`. Fewer than four
fields are out-of-range reads and a port that is no number throws, so
`fromString` is partial and so is everything after it.
-/
import PrimiHub.Lib.Strtol
import PrimiHub.Task.Party

namespace PrimiHub.Task

open Lib

/-- `party_datasets`: for each party its dataset ids by index, as loops
over the two maps see them. -/
abbrev PartyDatasets := List (String × List (String × String))

/-- `ProtoParser::parseDatasets`: pairs of a dataset id and the party that
lists it, empty ids left out. -/
def parseDatasets (parties : PartyDatasets) : List (String × String) :=
  parties.flatMap fun party =>
    party.2.filterMap fun dataset =>
      if dataset.2 = "" then none else some (dataset.2, party.1)

/-- `rpc::DatasetData`, as far as it is read. -/
structure DatasetData where
  available : Bool
  id : String
  address : String
deriving DecidableEq, Repr

/-- `rpc::GetDatasetResponse`. -/
structure GetDatasetResponse where
  success : Bool
  dataSet : List DatasetData

/-- `stub_->GetDataset`, by attempt and requested ids. -/
abbrev MetaService := Nat → List String → Option GetDatasetResponse

/-- The call and its retries, from one attempt on. -/
def getDataset (service : MetaService) (ids : List String) :
    (retries attempt : Nat) → Option GetDatasetResponse
  | retries, attempt =>
      match service attempt ids, retries with
      | some reply, _ => some reply
      | none, 0 => none
      | none, retries + 1 => getDataset service ids retries (attempt + 1)

/-- `id2tag` after its loop. -/
def id2tag (datasets : List (String × String)) : SortedMap String String :=
  SortedMap.empty.insertAll datasets

/-- The loop over the reply: the available records whose id has a tag. -/
def metaList (tags : SortedMap String String) (reply : List DatasetData) :
    List (DatasetData × String) :=
  reply.filterMap fun data =>
    if data.available then
      (tags.find? data.id).map fun tag => (data, tag)
    else none

/-- How `FindPeerListFromDatasets` can end. -/
inductive FindResult
  | fail
  /-- `RaiseException` -/
  | raised (message : String)
  /-- the handler is called -/
  | handled (metas : List (DatasetData × String))

/-- `GrpcDatasetMetaService::FindPeerListFromDatasets`. -/
def findPeerListFromDatasets (service : MetaService) (retryMaxTimes : Nat)
    (datasets : List (String × String)) : FindResult :=
  if datasets = [] then .fail
  else
    match getDataset service (datasets.map Prod.fst) retryMaxTimes 0 with
    | none => .fail
    | some reply =>
        if reply.success then
          let metas := metaList (id2tag datasets) reply.dataSet
          if datasets.length ≠ metas.length then
            .raised ("Failed to get all dataset's meta, no handler triggered. "
              ++ "expected dataset size: " ++ toString datasets.length ++ ", "
              ++ "but get: " ++ toString metas.length)
          else .handled metas
        else .fail

/-- `Node::fromString`. -/
def fromString (info : String) : Option Node :=
  match (info.toList.splitOn ':').map String.ofList with
  | id :: ip :: port :: tls :: rest => do
      let n ← stoi port.toList
      return { id := id
               ip := ip
               port := UInt32.ofInt n
               useTls := tls == "1"
               role := match rest with
                 | [role] => role
                 | _ => "" }
  | _ => none

/-- `metasToPartyAccessInfo`, from a map on. -/
def metasToPartyAccessInfo :
    List (DatasetData × String) → SortedMap String Node →
      Option (SortedMap String Node)
  | [], access => some access
  | (data, partyName) :: rest, access => do
      let node ← fromString data.address
      metasToPartyAccessInfo rest (access.insert partyName node)

/-- How the resolution can go wrong. -/
inductive ResolveError
  | raised (message : String)
  /-- a recorded address that `fromString` does not read -/
  | badAddress
deriving DecidableEq, Repr

/-- `ParseDatasetToPartyAccessInfo`, on the request's parties. -/
def parseDatasetToPartyAccessInfo (metaServiceEnabled : Bool)
    (service : MetaService) (retryMaxTimes : Nat)
    (datasets : List (String × String)) (request : PartyMap) :
    Except ResolveError PartyMap :=
  if metaServiceEnabled then
    match findPeerListFromDatasets service retryMaxTimes datasets with
    | .fail => .ok request
    | .raised message => .error (.raised message)
    | .handled metas =>
        match metasToPartyAccessInfo metas SortedMap.empty with
        | none => .error .badAddress
        | some found => .ok (mergePartyAccessInfo request found)
  else .ok request

end PrimiHub.Task
