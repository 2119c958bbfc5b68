/-
Frames from the PSI peer: what `BasePsiOperator::ReceiveResult`
(kernel/psi/operator/base_psi.cc) and
`EcdhPsiOperator::ParsePsiResponseFromeString` (ecdh_psi.cc) make of any
byte string.

A length is eight bytes, most significant first, and is believed. Reading
it, making a string of the bytes behind it and handing them to
`ParseFromArray` is `none` here where the range is not inside the data.
`ParseFromArray` takes an `int`; where the pointer goes next is computed
with all 64 bits. What the protobuf library makes of a range is a parameter.
-/
import PrimiHub.Psi.Operator

namespace PrimiHub.Psi

open Lib
open Node (Retcode)

/-- The conversion of a `uint64_t` to an `int`. -/
def toInt32 (n : Nat) : Int := (BitVec.ofNat 32 n).toInt

/-- `setup_info.data_structure_case()`. -/
inductive DataStructure
  | gcs (div hashRange : Int)
  | bloomFilter (numHashFunctions : Int)
  deriving DecidableEq, Repr

/-- `psi_proto::ServerSetup`. -/
structure ServerSetup where
  bits : Bytes
  dataStructure : Option DataStructure
  deriving DecidableEq, Repr

/-- `rpc::PsiResponse`. -/
structure PsiResponse where
  serverSetup : ServerSetup
  encryptedElements : List Bytes
  deriving DecidableEq, Repr

/-- `ParseFromArray` of the two messages. -/
structure Protobuf where
  response : Bytes → List Bytes
  serverSetup : Bytes → ServerSetup

/-- The number in the eight bytes at an offset. -/
def lengthAt (data : Bytes) (offset : Nat) : Nat :=
  ofBe ((data.drop offset).take 8)

/-- `ntohll(*be_len)`. -/
def readLength (data : Bytes) (offset : Nat) : Option Nat :=
  if offset + 8 ≤ data.length then some (lengthAt data offset) else none

/-- The range `ParseFromArray(data + offset, len)` is to read. -/
def arrayAt (data : Bytes) (offset len : Nat) : Option Bytes :=
  if 0 ≤ toInt32 len ∧ offset + (toInt32 len).toNat ≤ data.length then
    some ((data.drop offset).take (toInt32 len).toNat)
  else none

/-- `ParsePsiResponseFromeString`, from the parsed messages on. -/
def mergeResponse (elements : List Bytes) (setupInfo : ServerSetup)
    (response : PsiResponse) : Retcode × PsiResponse :=
  let serverSetup := { response.serverSetup with bits := setupInfo.bits }
  match setupInfo.dataStructure with
  | none => (.fail, { response with serverSetup := serverSetup })
  | some dataStructure =>
      (.success,
        { serverSetup := { serverSetup with dataStructure := dataStructure }
          encryptedElements := response.encryptedElements ++ elements })

/-- `ParsePsiResponseFromeString`; `none` where it reads outside the
string. -/
def parsePsiResponseFromString (protobuf : Protobuf) (hasStopped : Bool)
    (data : Bytes) (response : PsiResponse) :
    Option (Retcode × PsiResponse) :=
  if hasStopped then some (.fail, response)
  else do
    let psiResLen ← readLength data 0
    let psiResponse ← arrayAt data 8 psiResLen
    let recvBuf := (8 + psiResLen) % 2 ^ 64
    let setupInfoLen ← readLength data recvBuf
    let setupInfo ← arrayAt data (recvBuf + 8) setupInfoLen
    some (mergeResponse (protobuf.response psiResponse)
      (protobuf.serverSetup setupInfo) response)

/-- `SendPSIRequestAndWaitResponse`, from what `LinkContext::Recv`
returned on. -/
def recvPsiResponse (protobuf : Protobuf) (hasStopped : Bool)
    (received : Retcode × Bytes) (response : PsiResponse) :
    Option (Retcode × PsiResponse) :=
  if received.1 ≠ .success ∨ received.2 = [] then some (.fail, response)
  else parsePsiResponseFromString protobuf hasStopped received.2 response

-- =========================================================== specification

/-- A sequence of frames and nothing else. -/
def CompleteFrames (data : Bytes) : Prop :=
  ∃ items : List StdString, data = encodeResult items

/-- No byte outside the data is read, and what is not a sequence of frames
ends in FAIL with no new item in the result. -/
def ReceivesWithinBounds (received : Retcode × Bytes)
    (result : List StdString) : Prop :=
  ∃ ret result', receiveResult received result = some (ret, result')
    ∧ (¬ CompleteFrames received.2 → ret = .fail ∧ result' = result)

def ParsesWithinBounds (protobuf : Protobuf) (hasStopped : Bool)
    (received : Retcode × Bytes) (response : PsiResponse) : Prop :=
  ∃ ret response',
    recvPsiResponse protobuf hasStopped received response
        = some (ret, response')
      ∧ (¬ CompleteFrames received.2 → ret = .fail
        ∧ response'.encryptedElements = response.encryptedElements)

/-- The two lengths and the two ranges are inside the data. -/
def PartsInside (data : Bytes) : Prop :=
  16 + lengthAt data 0 ≤ data.length
    ∧ 0 ≤ toInt32 (lengthAt data 0)
    ∧ 0 ≤ toInt32 (lengthAt data (8 + lengthAt data 0))
    ∧ 16 + lengthAt data 0
        + (toInt32 (lengthAt data (8 + lengthAt data 0))).toNat
      ≤ data.length

instance (data : Bytes) : Decidable (PartsInside data) :=
  inferInstanceAs (Decidable (_ ∧ _))

/-- The second range. -/
def setupPart (data : Bytes) : Bytes :=
  (data.drop (16 + lengthAt data 0)).take
    (toInt32 (lengthAt data (8 + lengthAt data 0))).toNat

end PrimiHub.Psi
