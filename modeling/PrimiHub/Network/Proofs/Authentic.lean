/-
When receives are authentic.

What a receive reports is right or wrong at the step it returns, and
stays so. Each step adds at most one verdict, and the verdict is right
exactly if the step meets `ReceiveOk` (`honest_step`); the order of the
payloads is the queues' doing and holds anyway (`Tracked`).

The steps that go wrong: a `Recv` into a string on a queue that is shut
down returns SUCCESS with nothing; a `Recv` into a buffer of another size
than the payload has taken the payload when it returns FAIL; a forwarded
payload that is empty, or whose RPC fails after the pop, is off the
queue and reported as a failure; and so is one that a `SendRecv` took
just before `Clean`.
-/
import PrimiHub.Network.Proofs.Pops

namespace PrimiHub.Network

open Lib
open Node (Bytes Retcode TaskRequest ReceiverView limitedPackageSize
  limitedPackageSize_pos)

-- ============================================================== verdicts

/-- The verdict of a receive is right: SUCCESS brings the payload it
took, FAIL means that it took none. -/
def Receive.Honest (pushed : List Bytes) (r : Receive) : Prop :=
  match r.progress with
  | .returned .success data =>
      ∃ n, r.took = some n ∧ pushed[n]? = some data
  | .returned .fail _ => r.took = none
  | _ => True

/-- Every verdict so far is right. -/
def AllHonest (s : RecvState) : Prop :=
  ∀ key, ∀ r ∈ s.pops key, r.Honest (s.pushed key)

/-- Where the queues are tracked, authentic means honest. -/
theorem authentic_iff {s : RecvState} (hs : Tracked s) :
    (∀ key, Authentic (s.pushed key) (s.pops key)) ↔ AllHonest s := by
  constructor
  · intro h key r hr
    obtain ⟨variant, took, progress⟩ := r
    cases progress with
    | forwarded | popped | replying => trivial
    | returned ret data =>
        cases ret with
        | success => exact (h key).genuine _ hr data rfl
        | fail => exact (h key).notLost _ hr data rfl
  · intro h key
    refine ⟨?_, (hs.keys key).inOrder, ?_⟩
    · intro r hr data hret
      have hr' := h key r hr
      rw [Receive.Honest, hret] at hr'
      exact hr'
    · intro r hr data hret
      have hr' := h key r hr
      rw [Receive.Honest, hret] at hr'
      exact hr'

/-- A family changed at one key: it has the property if it had it before
and the change brings no more than `C`. -/
theorem forall_update_iff {β : Type} {P : String → β → Prop}
    {f : String → β} {key : String} {v : β} {C : Prop}
    (h : P key v ↔ P key (f key) ∧ C) :
    (∀ k, P k (Function.update f key v k)) ↔ (∀ k, P k (f k)) ∧ C := by
  constructor
  · intro hall
    have hkey : P key v := by
      have hk := hall key
      rwa [Function.update_self] at hk
    refine ⟨fun k => ?_, (h.mp hkey).2⟩
    by_cases hk : k = key
    · subst hk
      exact (h.mp hkey).1
    · have hk' := hall k
      rwa [Function.update_of_ne hk] at hk'
  · intro hall k
    by_cases hk : k = key
    · subst hk
      rw [Function.update_self]
      exact h.mpr ⟨hall.1 k, hall.2⟩
    · rw [Function.update_of_ne hk]
      exact hall.1 k

/-- One more record. -/
theorem allHonest_record {s : RecvState} {ctx : LinkContext} {key : String}
    {r : Receive} :
    AllHonest (s.record ctx key r)
      ↔ AllHonest s ∧ r.Honest (s.pushed key) := by
  apply forall_update_iff
    (P := fun k pops => ∀ p ∈ pops, Receive.Honest (s.pushed k) p)
  rw [List.forall_mem_append, List.forall_mem_singleton]

/-- A record in flight replaced by another one. -/
theorem allHonest_advance {s : RecvState} {ctx : LinkContext}
    {key : String} {i : Nat} {r r' : Receive}
    (hi : (s.pops key)[i]? = some r) (hr : r.Honest (s.pushed key)) :
    AllHonest (s.advance ctx key i r')
      ↔ AllHonest s ∧ r'.Honest (s.pushed key) := by
  apply forall_update_iff
    (P := fun k pops => ∀ p ∈ pops, Receive.Honest (s.pushed k) p)
  obtain ⟨hlt, hget⟩ := List.getElem?_eq_some_iff.mp hi
  constructor
  · intro hall
    refine ⟨fun p hp => ?_, hall r' (List.mem_set hlt r')⟩
    obtain ⟨j, hj, rfl⟩ := List.mem_iff_getElem.mp hp
    by_cases hij : i = j
    · subst hij
      rw [hget]
      exact hr
    · apply hall
      rw [← List.getElem_set_ne hij (a := r') (by simpa using hj)]
      exact List.getElem_mem _
  · intro hall p hp
    obtain hp | hp := List.mem_or_eq_of_mem_set hp
    · exact hall.1 p hp
    · rw [hp]
      exact hall.2

/-- A push does not change a verdict. -/
theorem honest_push {pushed : List Bytes} {r : Receive} {data : Bytes}
    (hbound : ∀ n, r.took = some n → n < pushed.length) :
    r.Honest (pushed ++ [data]) ↔ r.Honest pushed := by
  obtain ⟨variant, took, progress⟩ := r
  cases progress with
  | forwarded | popped | replying => exact Iff.rfl
  | returned ret buf =>
      cases ret with
      | fail => exact Iff.rfl
      | success =>
          constructor
          · intro h
            obtain ⟨n, hn, hget⟩ := h
            rw [List.getElem?_append_left (hbound n hn)] at hget
            exact ⟨n, hn, hget⟩
          · intro h
            obtain ⟨n, hn, hget⟩ := h
            exact ⟨n, hn, getElem?_concat_of_some hget⟩

/-- A push, over all keys. -/
theorem allHonest_push {s : RecvState} (hs : Tracked s) (key : String)
    (data : Bytes) :
    AllHonest { s with
        ctx := s.ctx.setRecvQueue key ((s.ctx.recvQueue key).push data)
        pushed := Function.update s.pushed key (s.pushed key ++ [data]) }
      ↔ AllHonest s := by
  refine (forall_update_iff
    (P := fun k pushed => ∀ r ∈ s.pops k, Receive.Honest pushed r)
    (C := True) ?_).trans (and_iff_left trivial)
  rw [and_true]
  refine forall₂_congr fun r hr => honest_push fun n hn => ?_
  have hmem : n ∈ (s.pops key).filterMap Receive.took :=
    List.mem_filterMap.mpr ⟨r, hr, hn⟩
  have hlt := (hs.keys key).bound n hmem
  omega

-- ==================================================== one verdict each

/-- How a forwarded receive returns: with the payload if the RPC ended
well and the payload is not empty and has the length asked for. -/
theorem forwardReturn_cases (recvSize : Option Nat)
    (stream : List TaskRequest) (statusOk : Bool) {data : Bytes}
    (hdata : (stream.map TaskRequest.data).flatten = data) :
    (statusOk = true ∧ data ≠ [] ∧ (∀ size, recvSize = some size →
        data.length = size)
      ∧ forwardReturn recvSize stream statusOk = .returned .success data)
    ∨ (¬ (statusOk = true ∧ data ≠ [] ∧ (∀ size, recvSize = some size →
        data.length = size))
      ∧ ∃ buf, forwardReturn recvSize stream statusOk
        = .returned .fail buf) := by
  cases statusOk with
  | false =>
      refine Or.inr ⟨fun h => Bool.false_ne_true h.1, ?_⟩
      cases recvSize with
      | none => exact ⟨_, rfl⟩
      | some size => exact ⟨_, rfl⟩
  | true =>
      cases data with
      | nil =>
          refine Or.inr ⟨fun h => h.2.1 rfl, ?_⟩
          cases recvSize <;>
            simp [forwardReturn, recvForwardBuffer, recvForward, forwardRecv,
              hdata]
      | cons b rest =>
          cases recvSize with
          | none =>
              refine Or.inl ⟨rfl, List.cons_ne_nil _ _, nofun, ?_⟩
              simp [forwardReturn, recvForward, forwardRecv, hdata]
          | some size =>
              by_cases hsize : (b :: rest).length = size
              · refine Or.inl ⟨rfl, List.cons_ne_nil _ _, ?_, ?_⟩
                · intro size' h
                  injection h with h
                  rw [← h, hsize]
                · simp only [forwardReturn, recvForwardBuffer, recvForward,
                    forwardRecv, hdata, if_true, List.isEmpty_cons,
                    Bool.false_eq_true, if_false, hsize, ne_eq,
                    not_true_eq_false]
              · refine Or.inr ⟨fun h => hsize (h.2.2 size rfl), [], ?_⟩
                simp only [forwardReturn, recvForwardBuffer, recvForward,
                  forwardRecv, hdata, if_true, List.isEmpty_cons,
                  Bool.false_eq_true, if_false, ne_eq, hsize,
                  not_false_eq_true]

section
variable {maxPackageSize : Nat} {hpos : 0 < maxPackageSize}
  {workerId : String}

/-- `Recv` into a string. -/
theorem honest_recvString {s : RecvState} (hs : Tracked s) {key : String}
    {q : ThreadSafeQueue Bytes} {data : Bytes}
    (hpop : (s.ctx.recvQueue key).waitAndPop [] = some (q, data)) :
    Receive.Honest (s.pushed key)
        ⟨.string, s.takes key, .returned .success data⟩
      ↔ (s.ctx.recvQueue key).stop = false := by
  show (∃ n, s.takes key = some n ∧ (s.pushed key)[n]? = some data) ↔ _
  have hdata := takes_data hs hpop
  obtain ⟨hstop, -, -, -, htakes⟩ | ⟨hstop, -, -, -, htakes⟩ :=
    takes_cases hpop
  · rw [htakes, hstop]
    simp only [reduceCtorEq, false_and, exists_false]
  · rw [htakes] at hdata
    rw [htakes, hstop, eq_self, iff_true]
    exact ⟨_, rfl, hdata⟩

/-- `Recv` into a buffer. -/
theorem honest_recvBuffer {s : RecvState} (hs : Tracked s) {key : String}
    {recvSize : Nat} {q : ThreadSafeQueue Bytes} {data : Bytes}
    (hpop : (s.ctx.recvQueue key).waitAndPop [] = some (q, data)) :
    Receive.Honest (s.pushed key)
        ⟨.buffer recvSize, s.takes key, recvBufferReturn recvSize data⟩
      ↔ ReceiveOk s (.recvBuffer key recvSize) := by
  have hdata := takes_data hs hpop
  unfold recvBufferReturn
  show _ ↔ ((s.ctx.recvQueue key).stop = true → recvSize ≠ 0)
    ∧ ∀ data, (s.ctx.recvQueue key).taken = some data →
      recvSize = data.length
  obtain ⟨hstop, -, hnil, htaken, htakes⟩ | ⟨hstop, -, -, htaken, htakes⟩ :=
    takes_cases hpop
  · -- shut down: nothing is in hand
    rw [htakes, hstop, htaken, hnil]
    cases recvSize with
    | zero => simp [Receive.Honest]
    | succ n => simp [Receive.Honest]
  · rw [htakes] at hdata
    rw [htakes, hstop, htaken]
    by_cases hsize : recvSize = data.length
    · rw [if_neg (not_not_intro hsize)]
      simp only [Receive.Honest, Option.some.injEq, exists_eq_left', hdata,
        Bool.false_eq_true, false_imp_iff, true_and, forall_eq', hsize]
    · rw [if_pos hsize]
      simp only [Receive.Honest, reduceCtorEq, Bool.false_eq_true,
        false_imp_iff, true_and, Option.some.injEq, forall_eq', hsize]

/-- The end of a forwarded receive. -/
theorem honest_forwardFinish {s : RecvState} (hs : Tracked s)
    {key : String} {i : Nat} {recvSize took : Option Nat}
    {stream : List TaskRequest} {statusOk : Bool}
    (hi : (s.pops key)[i]?
      = some ⟨.forward recvSize, took, .forwarded stream⟩) :
    Receive.Honest (s.pushed key)
        ⟨.forward recvSize, took, forwardReturn recvSize stream statusOk⟩
      ↔ ReceiveOk s (.forwardFinish key i statusOk) := by
  have hold := (hs.keys key).flight _ (List.mem_of_getElem? hi)
  unfold Receive.Honest
  show _ ↔ ∀ r n data, (s.pops key)[i]? = some r → r.took = some n →
    (s.pushed key)[n]? = some data → statusOk = true ∧ data ≠ []
      ∧ ∀ size, r.variant = .forward (some size) → data.length = size
  rw [hi]
  cases took with
  | none =>
      -- it took nothing, so it returns FAIL
      have hnil : (stream.map TaskRequest.data).flatten = [] := hold
      obtain ⟨-, hne, -⟩ | ⟨-, buf, hret⟩ :=
        forwardReturn_cases recvSize stream statusOk hnil
      · exact absurd rfl hne
      · rw [hret]
        constructor
        · intro _ r n data hr hn
          rw [Option.some.injEq] at hr
          rw [← hr] at hn
          cases hn
        · intro _
          rfl
  | some n =>
      have hget : (s.pushed key)[n]? = some _ := hold
      obtain ⟨hok, hne, hsize, hret⟩ | ⟨hbad, buf, hret⟩ :=
        forwardReturn_cases recvSize stream statusOk rfl
      · rw [hret]
        constructor
        · intro _ r m data hr hm hdata
          rw [Option.some.injEq] at hr
          subst hr
          rw [Option.some.injEq] at hm
          subst hm
          rw [hget, Option.some.injEq] at hdata
          subst hdata
          refine ⟨hok, hne, fun size hv => hsize size ?_⟩
          injection hv
        · intro _
          exact ⟨n, rfl, hget⟩
      · rw [hret]
        constructor
        · intro h
          cases h
        · intro h
          obtain ⟨hok, hne, hsize⟩ := h _ n _ rfl rfl hget
          refine absurd ⟨hok, hne, fun size hv => hsize size ?_⟩ hbad
          rw [hv]

/-- A forwarded receive whose client has given up. -/
theorem honest_forwardPop {s s' : RecvState} {key : String}
    {recvSize : Option Nat} {view : ReceiverView} {abandoned : Bool}
    (h : recvStep maxPackageSize hpos workerId s
      (.forwardPop key recvSize view abandoned) = some s') :
    AllHonest s' ↔ AllHonest s
      ∧ ReceiveOk s (.forwardPop key recvSize view abandoned) := by
  obtain ⟨stream, ctx', rfl, hcases⟩ := forwardPop_inv h
  rw [allHonest_record]
  apply and_congr_right
  intro _
  cases abandoned with
  | false =>
      constructor
      · intro _ h
        cases h
      · intro _
        trivial
  | true =>
      show (if view.accepts then s.takes key else none) = none
        ↔ (true = true → view.accepts = true → _)
      obtain ⟨hview, -⟩ | ⟨hview, q, data, hpop, -⟩ := hcases
      · rw [hview]
        constructor
        · intro _ _ haccepts
          cases haccepts
        · intro _
          rfl
      · rw [hview, if_pos rfl]
        obtain ⟨hstop, -, -, -, htakes⟩ | ⟨hstop, -, -, -, htakes⟩ :=
          takes_cases hpop
        · rw [htakes, hstop]
          exact ⟨fun _ _ _ => rfl, fun _ => rfl⟩
        · rw [htakes, hstop]
          constructor
          · intro htook
            cases htook
          · intro hf
            cases hf rfl rfl

/-- A passive `SendRecv` that asks `HasStopped`. -/
theorem honest_passiveCheck {s s' : RecvState} {key : String} {i : Nat}
    (h : recvStep maxPackageSize hpos workerId s (.passiveCheck key i)
      = some s') :
    AllHonest s' ↔ AllHonest s ∧ ReceiveOk s (.passiveCheck key i) := by
  obtain ⟨sendBuf, took, recvBuf, ctx', progress, hi, hstop, hqueue,
    hprogress, rfl⟩ := passiveCheck_inv h
  rw [allHonest_advance hi trivial]
  apply and_congr_right
  intro _
  show _ ↔ ∀ r, (s.pops key)[i]? = some r → r.took.isSome →
    s.ctx.stop = false
  rw [hi, hprogress]
  cases hst : s.ctx.stop with
  | false => exact ⟨fun _ _ _ _ => rfl, fun _ => trivial⟩
  | true =>
      show took = none ↔ _
      cases took with
      | none =>
          constructor
          · intro _ r hr hsome
            rw [Option.some.injEq] at hr
            rw [← hr] at hsome
            cases hsome
          · intro _
            rfl
      | some n =>
          constructor
          · intro htook
            cases htook
          · intro hf
            cases hf _ rfl rfl

/-- Each step keeps the verdicts right exactly if they were and the step
meets the condition. -/
theorem honest_step {s s' : RecvState} {a : RecvAction} (hs : Tracked s)
    (h : recvStep maxPackageSize hpos workerId s a = some s') :
    AllHonest s' ↔ AllHonest s ∧ ReceiveOk s a := by
  cases a with
  | push key data =>
      injection h with h
      subst h
      exact (allHonest_push hs key data).trans (and_iff_left trivial).symm
  | getRecvQueue key =>
      injection h with h
      subst h
      exact (and_iff_left trivial).symm
  | clean =>
      simp only [recvStep, Option.map_eq_some_iff] at h
      obtain ⟨p, -, rfl⟩ := h
      exact (and_iff_left trivial).symm
  | recvString key =>
      obtain ⟨q, data, hpop, rfl⟩ := pop_spec h
      rw [allHonest_record, honest_recvString hs hpop]
      rfl
  | recvBuffer key recvSize =>
      obtain ⟨q, data, hpop, rfl⟩ := pop_spec h
      rw [allHonest_record, honest_recvBuffer hs hpop]
  | forwardPop key recvSize view abandoned => exact honest_forwardPop h
  | forwardFinish key i statusOk =>
      obtain ⟨recvSize, took, stream, hi, rfl⟩ := forwardFinish_inv h
      rw [allHonest_advance hi trivial, honest_forwardFinish hs hi]
  | passivePop key sendBuf =>
      obtain ⟨q, data, hpop, rfl⟩ := pop_spec h
      rw [allHonest_record]
      exact Iff.rfl
  | passiveCheck key i => exact honest_passiveCheck h
  | passiveComplete key i =>
      obtain ⟨sendBuf, took, recvBuf, ctx', hi, -, -, rfl⟩ :=
        passiveComplete_inv h
      rw [allHonest_advance hi trivial]
      apply and_congr_right
      intro _
      have hold := (hs.keys key).flight _ (List.mem_of_getElem? hi)
      cases took with
      | none => cases hold
      | some n => exact ⟨fun _ => trivial, fun _ => ⟨n, rfl, hold⟩⟩
  | processSendData key view =>
      simp only [recvStep, Option.map_eq_some_iff] at h
      obtain ⟨p, -, rfl⟩ := h
      exact (and_iff_left trivial).symm

/-- In every reachable state, the receives of every key are authentic
exactly if every step so far met `ReceiveOk`. -/
theorem receives_authentic_iff {acts : List RecvAction} {s : RecvState}
    (hrun : run (recvStep maxPackageSize hpos workerId) .init acts
      = some s) :
    (∀ key, Authentic (s.pushed key) (s.pops key))
      ↔ Along (recvStep maxPackageSize hpos workerId) ReceiveOk .init
        acts := by
  have hinit : Tracked .init := by
    refine ⟨fun h => absurd rfl h, fun key => ?_⟩
    exact ⟨nofun, List.nil_suffix, nofun, List.Pairwise.nil, nofun⟩
  have htracked : Tracked s :=
    run_invariant (fun _ _ _ hs h => tracked_step hs h) hinit hrun
  have hhonest : AllHonest .init := fun _ => nofun
  rw [authentic_iff htracked,
    run_iff_along_of_invariant (fun _ _ _ hs h => tracked_step hs h)
      (fun _ _ _ hs h => honest_step hs h) hinit hrun,
    and_iff_right hhonest]

end

/-- A push, its receive, and `Clean` before another receive, one into a
buffer, finds the queue shut down. -/
theorem receives_authentic_before_clean :
    ∃ s, run (recvStep limitedPackageSize limitedPackageSize_pos "w") .init
        [.push "k" [1], .recvString "k", .clean, .clean, .recvBuffer "k" 4]
        = some s
      ∧ ∀ key, Authentic (s.pushed key) (s.pops key) := by
  obtain ⟨s, hrun⟩ : ∃ s, run
      (recvStep limitedPackageSize limitedPackageSize_pos "w") .init
      [.push "k" [1], .recvString "k", .clean, .clean, .recvBuffer "k" 4]
      = some s := ⟨_, rfl⟩
  refine ⟨s, hrun, (receives_authentic_iff hrun).mpr ?_⟩
  iterate 5 rw [along_cons_iff rfl]
  exact ⟨trivial, rfl, trivial, trivial, ⟨nofun, nofun⟩, trivial⟩

/-- `Recv` into a string after `Clean`: SUCCESS, and nothing was ever
pushed. -/
theorem recvString_after_clean :
    ∃ s, run (recvStep limitedPackageSize limitedPackageSize_pos "w") .init
        [.clean, .clean, .recvString "k"] = some s
      ∧ ¬ ∀ key, Authentic (s.pushed key) (s.pops key) := by
  refine ⟨_, rfl, ?_⟩
  intro h
  obtain ⟨n, hn, -⟩ := (h "k").genuine _ List.mem_cons_self [] rfl
  cases hn

end PrimiHub.Network
