/-
The PSI operators as the client sees them (kernel/psi/operator/): how
each of them builds the client's result, and how the result is brought to
the server.

# Results

The cryptographic cores are outside: the ECDH library and the KKRT core
report positions in the client's input, the TEE returns the hashes that
all inputs have. What they report is input here (`CoreReport`); the
operators turn it into a list of items.

`BasePsiOperator::GetResult` lets several threads fill the result, each
its own block of `block_size` places. Their writes go to different
places; `order` is the order in which they happen.

# Synchronisation

`Execute` with `sync_result` has the client broadcast its list, each item
behind its length as eight bytes, and the server read it from its node
with a forwarded receive.
-/
import PrimiHub.Lib.Bytes
import PrimiHub.Network.Exchange
import PrimiHub.Psi.Dataset

namespace PrimiHub.Psi

open Lib
open Node (Retcode ReceiverView)

/-- `PsiType`. -/
inductive PsiType
  | ecdh
  | kkrt
  | tee
  deriving DecidableEq, Repr

/-- `PsiResultType`. -/
inductive PsiResultType
  | intersection
  | difference
  deriving DecidableEq, Repr

-- ========================================================== by positions

/-- The loop of the DIFFERENCE branches: the items whose position is not
in the index. -/
def differenceByIndex (input : List Bytes) (index : List Nat) : List Bytes :=
  (List.range input.length).filterMap fun i =>
    if i ∈ index then none else input[i]?

/-- `EcdhPsiOperator::GetIntersection` on the positions the library
reports. -/
def ecdhGetIntersection (resultType : PsiResultType)
    (originData : List Bytes) (intersection : List Nat) : List Bytes :=
  match resultType with
  | .difference => differenceByIndex originData intersection
  | .intersection => intersection.map fun i => originData.getD i []

/-- `block_size`. -/
def resultBlockSize : Nat := 10000000

/-- The places each task of `GetResult` writes: full blocks, then the
remainder. -/
def resultBlocks (blockSize resultSize : Nat) : List (List Nat) :=
  let blockNum := resultSize / blockSize
  let remNum := resultSize % blockSize
  (List.range blockNum).map (fun i => List.range' (i * blockSize) blockSize)
    ++ if remNum ≠ 0 then [List.range' (blockNum * blockSize) remNum] else []

/-- `BasePsiOperator::GetResult`, the writes of its tasks happening in
the given order. -/
def getResult (resultType : PsiResultType) (input : List Bytes)
    (intersectionIndex : List Nat) (order : List Nat) : List Bytes :=
  match resultType with
  | .difference => differenceByIndex input intersectionIndex
  | .intersection =>
      order.foldl
        (fun result index =>
          result.set index (input.getD (intersectionIndex.getD index 0) []))
        (List.replicate intersectionIndex.length [])

-- ============================================================= by hashes

/-- `hashed_data.insert`: a key that is there stays as it is. -/
def insertHashed (hashedData : List (Bytes × Bytes)) (key item : Bytes) :
    List (Bytes × Bytes) :=
  if (hashedData.lookup key).isSome then hashedData
  else hashedData ++ [(key, item)]

/-- One item of `HashData`: `dup_filter` and `hashed_data` after it. -/
def hashStep (hashToString : Bytes → Bytes)
    (acc : List Bytes × List (Bytes × Bytes)) (item : Bytes) :
    List Bytes × List (Bytes × Bytes) :=
  if item ∈ acc.1 then acc
  else (item :: acc.1, insertHashed acc.2 (hashToString item) item)

/-- `TeePsiOperator::HashData`: the first of equal items only. -/
def hashData (hashToString : Bytes → Bytes) (input : List Bytes) :
    List (Bytes × Bytes) :=
  (input.foldl (hashStep hashToString) ([], [])).2

/-- `TeePsiOperator::GetIntersection`. -/
def teeGetIntersection (resultBuf : Bytes)
    (hashedData : List (Bytes × Bytes)) : List Bytes :=
  let hashSize := (hashedData.head?.map fun p => p.1.length).getD 0
  (List.range (resultBuf.length / hashSize)).filterMap fun i =>
    hashedData.lookup ((resultBuf.drop (i * hashSize)).take hashSize)

/-- The client's part of `TeePsiOperator::ExecuteAsDataProvider` from the
decrypted result on. -/
def teeResult (hashToString : Bytes → Bytes) (input : List Bytes)
    (plainResult : Bytes) : List Bytes :=
  if plainResult.isEmpty then []
  else teeGetIntersection plainResult (hashData hashToString input)

-- ================================================================ reports

/-- The position list names exactly the client items that the server
has. -/
structure ExactIndex (client server : List Bytes) (index : List Nat) :
    Prop where
  nodup : index.Nodup
  mem_iff : ∀ i, i ∈ index ↔ ∃ item, client[i]? = some item ∧ item ∈ server

/-- What the cores report for two inputs, each exactly: the positions
from ECDH and KKRT, an order for the writes of `GetResult`, and from the
TEE the hashes both inputs have, one after the other. Hashes have one
length and tell the items of the two inputs apart. -/
structure CoreReport (client server : List Bytes) where
  ecdhIndex : List Nat
  ecdhExact : ExactIndex client server ecdhIndex
  kkrtIndex : List Nat
  kkrtExact : ExactIndex client server kkrtIndex
  order : List Nat
  orderPerm : order.Perm
    (resultBlocks resultBlockSize kkrtIndex.length).flatten
  hashToString : Bytes → Bytes
  hashSize : Nat
  hashSizePos : 0 < hashSize
  hashLength : ∀ item, (hashToString item).length = hashSize
  hashInjective : ∀ x ∈ client ++ server, ∀ y ∈ client ++ server,
    hashToString x = hashToString y → x = y
  common : List Bytes
  commonNodup : common.Nodup
  commonExact : ∀ h, h ∈ common
    ↔ h ∈ client.map hashToString ∧ h ∈ server.map hashToString

/-- The list `Execute` gives the client. -/
def clientResult {client server : List Bytes}
    (report : CoreReport client server) (resultType : PsiResultType) :
    PsiType → List Bytes
  | .ecdh => ecdhGetIntersection resultType client report.ecdhIndex
  | .kkrt => getResult resultType client report.kkrtIndex report.order
  | .tee => teeResult report.hashToString client report.common.flatten

/-- The set operation asked for. -/
def Requested (resultType : PsiResultType) (client server : List Bytes)
    (item : Bytes) : Prop :=
  item ∈ client ∧ match resultType with
    | .intersection => item ∈ server
    | .difference => item ∉ server

/-- A list has exactly the items asked for. -/
def ExactResult (resultType : PsiResultType) (client server : List Bytes)
    (result : List Bytes) : Prop :=
  ∀ item, item ∈ result ↔ Requested resultType client server item

-- ======================================================== synchronisation

/-- A `std::string`: its size is a `size_t`. -/
abbrev StdString := { bytes : Bytes // bytes.length < 2 ^ 64 }

/-- `PARTY_CLIENT`, `PARTY_TEE_COMPUTE`, `PARTY_SERVER`. -/
def partyClient : String := "CLIENT"
def partyServer : String := "SERVER"
def partyTeeCompute : String := "TEE_COMPUTE"

/-- `key_`. -/
def syncKey : String := "default"

/-- `result_str`: every item behind its length. -/
def encodeResult (result : List StdString) : Bytes :=
  (result.map fun item => toBe 8 item.val.length ++ item.val).flatten

/-- A length read from eight bytes is that of a string. -/
theorem take_length_lt (data rest : Bytes) :
    (rest.take (ofBe (data.take 8))).length < 2 ^ 64 := by
  have hlt := ofBe_lt (data.take 8)
  have hpow : 256 ^ (data.take 8).length ≤ 256 ^ 8 :=
    Nat.pow_le_pow_right (by decide) (List.length_take_le 8 data)
  rw [List.length_take]
  omega

/-- The loop of `ReceiveResult`; `none` where it reads outside the
data. -/
def decodeResult (data : Bytes) : Option (List StdString) :=
  if data.length = 0 then some []
  else if data.length < 8 then none
  else if (data.drop 8).length < ofBe (data.take 8) then none
  else
    (decodeResult ((data.drop 8).drop (ofBe (data.take 8)))).map
      (⟨(data.drop 8).take (ofBe (data.take 8)), take_length_lt data _⟩ :: ·)
termination_by data.length
decreasing_by
  rw [List.length_drop, List.length_drop]
  omega

/-- `BroadcastPartyList` with `IgnoreParty`. -/
def broadcastPartyList (selfParty : String)
    (partyInfo : List (String × String)) : List String :=
  (partyInfo.filter fun p => p.1 ≠ selfParty ∧ p.1 ≠ partyTeeCompute).map
    Prod.snd

/-- `BasePsiOperator::BroadcastResult`: what a `Send` returns is logged,
the function returns SUCCESS. -/
def broadcastResult (send : String → Bytes → Retcode) (selfParty : String)
    (partyInfo : List (String × String)) (result : List StdString) :
    Retcode × List Retcode :=
  (.success, (broadcastPartyList selfParty partyInfo).map fun node =>
    send node (encodeResult result))

/-- `BasePsiOperator::ReceiveResult` on what `LinkContext::Recv` returned;
`none` where it reads outside the received data. -/
def receiveResult (received : Retcode × Bytes) (result : List StdString) :
    Option (Retcode × List StdString) :=
  if received.1 ≠ .success ∧ received.2 ≠ [] then some (.fail, result)
  else
    (decodeResult received.2).map fun items => (.success, result ++ items)

/-- `BasePsiOperator::Execute` with `BroadcastPsiResult`, from the outcome
of `OnExecute` on. -/
def psiExecute (send : String → Bytes → Retcode)
    (received : Retcode × Bytes) (selfParty : String)
    (partyInfo : List (String × String)) (syncResult : Bool)
    (onExecute : Retcode × List StdString) :
    Option (Retcode × List StdString) :=
  if onExecute.1 ≠ .success then some (.fail, onExecute.2)
  else if !syncResult then some onExecute
  else if selfParty = partyTeeCompute then some (.success, onExecute.2)
  else if selfParty = partyClient then
    some ((broadcastResult send selfParty partyInfo onExecute.2).1,
      onExecute.2)
  else receiveResult received onExecute.2

/-- The two parties agree: if both return SUCCESS, the server's list is
the client's. A server that reads outside its data does not. -/
def Agree (client server : Option (Retcode × List StdString)) : Prop :=
  ∀ result, client = some (.success, result) →
    server = some (.success, result) ∨ ∃ other, server = some (.fail, other)

/-- The bytes the server's receive ends with: nothing if a test failed,
the RPC ended with an error or the queue was shut down, else the front of
the queue. -/
def arrived (view : ReceiverView) (ctx : Network.LinkContext)
    (statusOk : Bool) : Bytes :=
  if statusOk = true ∧ view.accepts = true then
    (ctx.recvQueue syncKey).taken.getD []
  else []

end PrimiHub.Psi
