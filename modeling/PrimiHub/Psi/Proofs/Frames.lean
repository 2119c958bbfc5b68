/-
When the two readers of frames stay within bounds (`withinBounds_iff`).

Neither checks a length. So the loop of `ReceiveResult` ends inside the
data just where this is a sequence of frames (`receivesWithinBounds_iff`),
and the response parser where both parts happen to be inside
(`parse_isSome_iff`); what it accepts then need not be two frames.
-/
import PrimiHub.Psi.Frames
import PrimiHub.Psi.Proofs.Sync

namespace PrimiHub.Psi

open Lib
open Node (Retcode)

-- ================================================================ the result

theorem completeFrames_iff (data : Bytes) :
    CompleteFrames data ↔ ∃ items, decodeResult data = some items := by
  simp only [CompleteFrames, decodeResult_eq_some_iff]

/-- The loop stays inside the data where it is a sequence of frames, or
where the data is not looked at. -/
theorem receivesWithinBounds_iff (received : Retcode × Bytes)
    (result : List StdString) :
    ReceivesWithinBounds received result
      ↔ (received.1 ≠ .success ∧ received.2 ≠ [])
        ∨ CompleteFrames received.2 := by
  unfold ReceivesWithinBounds receiveResult
  by_cases hfail : received.1 ≠ .success ∧ received.2 ≠ []
  · rw [if_pos hfail]
    exact iff_of_true ⟨.fail, result, rfl, fun _ => ⟨rfl, rfl⟩⟩ (Or.inl hfail)
  · rw [if_neg hfail, or_iff_right hfail, completeFrames_iff]
    cases hdecode : decodeResult received.2 with
    | none =>
        constructor
        · intro h
          obtain ⟨_, _, hsome, -⟩ := h
          cases hsome
        · intro h
          obtain ⟨_, hsome⟩ := h
          cases hsome
    | some items =>
        refine iff_of_true ⟨.success, result ++ items, rfl, ?_⟩ ⟨items, rfl⟩
        intro hnot
        exact absurd ⟨items, rfl⟩ hnot

-- ============================================================== the response

theorem lengthAt_lt (data : Bytes) (offset : Nat) :
    lengthAt data offset < 2 ^ 64 := by
  have hlt := ofBe_lt ((data.drop offset).take 8)
  have hpow : 256 ^ ((data.drop offset).take 8).length ≤ 256 ^ 8 :=
    Nat.pow_le_pow_right (by decide) (List.length_take_le 8 _)
  unfold lengthAt
  omega

theorem toInt32_le (n : Nat) : toInt32 n ≤ n := by
  have hmod := Nat.mod_le n (2 ^ 32)
  unfold toInt32
  rw [BitVec.toInt_eq_toNat_cond, BitVec.toNat_ofNat]
  split
  · omega
  · omega

/-- A pointer that wraps around gave the parser a negative length. -/
theorem toInt32_neg {n : Nat} (hlo : 2 ^ 64 - 8 ≤ n) (hhi : n < 2 ^ 64) :
    toInt32 n < 0 := by
  unfold toInt32
  rw [BitVec.toInt_eq_toNat_cond, BitVec.toNat_ofNat]
  split
  · omega
  · omega

theorem readLength_eq_some_iff {data : Bytes} {offset n : Nat} :
    readLength data offset = some n
      ↔ offset + 8 ≤ data.length ∧ n = lengthAt data offset := by
  unfold readLength
  split
  · next h => rw [Option.some.injEq, and_iff_right h, eq_comm]
  · next h =>
    constructor
    · intro hsome
      cases hsome
    · intro hsome
      exact absurd hsome.1 h

theorem arrayAt_eq_some_iff {data part : Bytes} {offset len : Nat} :
    arrayAt data offset len = some part
      ↔ 0 ≤ toInt32 len ∧ offset + (toInt32 len).toNat ≤ data.length
        ∧ part = (data.drop offset).take (toInt32 len).toNat := by
  unfold arrayAt
  split
  · next h =>
    rw [Option.some.injEq, eq_comm (a := _) (b := part), ← and_assoc,
      and_iff_right h]
  · next h =>
    constructor
    · intro hsome
      cases hsome
    · intro hsome
      exact absurd ⟨hsome.1, hsome.2.1⟩ h

variable {protobuf : Protobuf}

/-- The parser reads inside the data where both parts are, and then merges
what it finds there. -/
theorem parse_eq_some_iff {data : Bytes} (hsize : data.length < 2 ^ 64)
    {response : PsiResponse} {out : Retcode × PsiResponse} :
    parsePsiResponseFromString protobuf false data response = some out
      ↔ PartsInside data
        ∧ out = mergeResponse
            (protobuf.response
              ((data.drop 8).take (toInt32 (lengthAt data 0)).toNat))
            (protobuf.serverSetup (setupPart data)) response := by
  have hlt := lengthAt_lt data 0
  have hle := toInt32_le (lengthAt data 0)
  unfold parsePsiResponseFromString
  rw [if_neg Bool.false_ne_true]
  simp only [Option.bind_eq_bind, Option.bind_eq_some_iff,
    readLength_eq_some_iff, arrayAt_eq_some_iff, Option.some.injEq]
  constructor
  · intro h
    obtain ⟨_, ⟨-, rfl⟩, _, ⟨hnonneg, -, rfl⟩, _, ⟨hoff, rfl⟩, _,
      ⟨hnonneg', hin, rfl⟩, rfl⟩ := h
    -- past the end of the address space the first length was negative
    have hmod : (8 + lengthAt data 0) % 2 ^ 64 = 8 + lengthAt data 0 := by
      apply Nat.mod_eq_of_lt
      by_contra hwrap
      have hneg := @toInt32_neg (lengthAt data 0) (by omega) hlt
      omega
    rw [hmod] at hoff hnonneg' hin ⊢
    refine ⟨⟨by omega, hnonneg, hnonneg', by omega⟩, ?_⟩
    have hcomm : 8 + lengthAt data 0 + 8 = 16 + lengthAt data 0 := by omega
    rw [hcomm, setupPart]
  · intro h
    obtain ⟨⟨hoff, hnonneg, hnonneg', hin⟩, rfl⟩ := h
    have hmod : (8 + lengthAt data 0) % 2 ^ 64 = 8 + lengthAt data 0 :=
      Nat.mod_eq_of_lt (by omega)
    have hcomm : 8 + lengthAt data 0 + 8 = 16 + lengthAt data 0 := by omega
    refine ⟨_, ⟨by omega, rfl⟩, _, ⟨hnonneg, by omega, rfl⟩, _,
      ⟨by omega, rfl⟩, _, ⟨by rwa [hmod], by rw [hmod]; omega, rfl⟩, ?_⟩
    rw [hmod, hcomm, setupPart]

/-- The merge fails, and adds nothing, where the setup has no data
structure. -/
theorem mergeResponse_rejects_iff (elements : List Bytes)
    (setupInfo : ServerSetup) (response : PsiResponse) :
    ((mergeResponse elements setupInfo response).1 = .fail
        ∧ (mergeResponse elements setupInfo response).2.encryptedElements
          = response.encryptedElements)
      ↔ setupInfo.dataStructure = none := by
  unfold mergeResponse
  cases hstructure : setupInfo.dataStructure with
  | none => exact iff_of_true ⟨rfl, rfl⟩ rfl
  | some dataStructure =>
      constructor
      · intro h
        cases h.1
      · intro h
        cases h

theorem parsesWithinBounds_iff (protobuf : Protobuf) (hasStopped : Bool)
    (ret : Retcode) (data : StdString) (response : PsiResponse) :
    ParsesWithinBounds protobuf hasStopped (ret, data) response
      ↔ ret ≠ .success ∨ data.val = [] ∨ hasStopped = true
        ∨ PartsInside data
          ∧ (CompleteFrames data
            ∨ (protobuf.serverSetup (setupPart data)).dataStructure = none)
    := by
  unfold ParsesWithinBounds recvPsiResponse
  rw [← or_assoc]
  by_cases hempty : ret ≠ .success ∨ data.val = []
  · rw [if_pos hempty]
    exact iff_of_true ⟨.fail, response, rfl, fun _ => ⟨rfl, rfl⟩⟩
      (Or.inl hempty)
  rw [if_neg hempty, or_iff_right hempty]
  cases hasStopped with
  | true =>
      exact iff_of_true ⟨.fail, response, rfl, fun _ => ⟨rfl, rfl⟩⟩
        (Or.inl rfl)
  | false =>
      rw [or_iff_right Bool.false_ne_true]
      simp only [parse_eq_some_iff data.property]
      constructor
      · intro h
        obtain ⟨ret', response', ⟨hinside, hout⟩, hreject⟩ := h
        refine ⟨hinside, ?_⟩
        by_cases hcomplete : CompleteFrames data.val
        · exact Or.inl hcomplete
        · right
          rw [← mergeResponse_rejects_iff _ _ response, ← hout]
          exact hreject hcomplete
      · intro h
        obtain ⟨hinside, hcase⟩ := h
        refine ⟨_, _, ⟨hinside, rfl⟩, ?_⟩
        intro hnot
        exact (mergeResponse_rejects_iff _ _ response).mpr
          (hcase.resolve_left hnot)

/-- Both stay within bounds, and reject what is no sequence of frames, where
the data is not looked at or is one; the response parser also where its two
parts are inside and the setup has no data structure. -/
theorem withinBounds_iff (protobuf : Protobuf) (hasStopped : Bool)
    (ret : Retcode) (data : StdString) (result : List StdString)
    (response : PsiResponse) :
    (ReceivesWithinBounds (ret, data) result
        ↔ (ret ≠ .success ∧ data.val ≠ []) ∨ CompleteFrames data)
      ∧ (ParsesWithinBounds protobuf hasStopped (ret, data) response
        ↔ ret ≠ .success ∨ data.val = [] ∨ hasStopped = true
          ∨ PartsInside data
            ∧ (CompleteFrames data
              ∨ (protobuf.serverSetup (setupPart data)).dataStructure
                = none)) :=
  ⟨receivesWithinBounds_iff (ret, data) result,
    parsesWithinBounds_iff protobuf hasStopped ret data response⟩

/-- One byte: both read behind it. Two whole parts with a byte more: the
response is accepted. -/
theorem not_withinBounds :
    ¬ ReceivesWithinBounds (.success, [0]) []
      ∧ (∀ protobuf, ¬ ParsesWithinBounds protobuf false (.success, [0])
          ⟨⟨[], none⟩, []⟩)
      ∧ ¬ ParsesWithinBounds
          ⟨fun _ => [[7]], fun _ => ⟨[], some (.gcs 1 2)⟩⟩ false
          (.success, toBe 8 0 ++ toBe 8 0 ++ [0]) ⟨⟨[], none⟩, []⟩ := by
  have hshort : ¬ CompleteFrames [0] := by
    rw [completeFrames_iff]
    intro h
    obtain ⟨items, hitems⟩ := h
    rw [decodeResult, if_neg (by decide), if_pos (by decide)] at hitems
    cases hitems
  have hlong : ¬ CompleteFrames (toBe 8 0 ++ toBe 8 0 ++ [0]) := by
    rw [completeFrames_iff]
    intro h
    obtain ⟨items, hitems⟩ := h
    rw [List.append_assoc] at hitems
    have hframe := fun data => decodeResult_frame ⟨[], by decide⟩ data
    have hfirst := hframe (toBe 8 0 ++ [0])
    have hsecond := hframe [0]
    have hlast : decodeResult [0] = none := by
      rw [decodeResult, if_neg (by decide), if_pos (by decide)]
    simp only [List.length_nil, List.append_nil] at hfirst hsecond
    rw [hfirst, hsecond, hlast] at hitems
    cases hitems
  refine ⟨?_, ?_, ?_⟩
  · rw [receivesWithinBounds_iff]
    intro h
    obtain h | h := h
    · exact h.1 rfl
    · exact hshort h
  · intro protobuf h
    rw [parsesWithinBounds_iff protobuf false .success ⟨[0], by decide⟩] at h
    obtain h | h | h | h := h
    · exact h rfl
    · cases h
    · cases h
    · exact absurd h.1 (by decide)
  · intro h
    rw [parsesWithinBounds_iff _ false .success
      ⟨toBe 8 0 ++ toBe 8 0 ++ [0], by decide⟩] at h
    obtain h | h | h | h := h
    · exact h rfl
    · cases h
    · cases h
    · obtain h | h := h.2
      · exact hlong h
      · cases h

end PrimiHub.Psi
