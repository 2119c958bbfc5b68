/-
The completion protocol of the scheduler, over every interleaving.

# One step, said once

`fires w e` is the value the call `e` hands to the promise when it is
the first to do so; `handle_finishPromise` and
`handle_schedulerFinished` say what a call does to the promise and to
its flag in terms of it. Every fact about the promise below goes through
these two, so the branches of `updateTaskStatus` are opened once.

# What holds of every list of calls

`completionInv` makes no assumption on the calls: reports may repeat,
come late, be non-final, and the count may be set any number of times.
The promise and its flag agree, it is set at most once, a `FAIL` report
has always fired it, and a `FAIL` value always has a `FAIL` report
behind it.

# What does not

The count is compared inside `updateTaskStatus` only. When the last call
is `setPartyCount` and nobody failed, every comparison so far was
against the initial count 0, and there is no further call to compare
again: the promise is never set and `waitUntilTaskFinish` blocks
(`not_fired_before_count`). With any report after it, the last of them
sees all `n` parties and the right count (`fired_by_last_report`).
-/
import Mathlib.Data.List.Perm.Basic
import Mathlib.Data.List.Infix
import Mathlib.Data.List.Nodup
import PrimiHub.Node.Scheduler

namespace PrimiHub.Node

-- ============================================================= one step

/-- The value a call hands to the promise if it finds it unset. -/
def fires (w : SchedulerWorker) : Event → Option Retcode
  | .update st =>
      if st.status = .fail then some .fail
      else if st.status = .success ∧
          (w.finalStatus.insert st.party st.status).size = w.partyCount then
        some .success
      else none
  | .setPartyCount _ => none

/-- The names of the parties whose final report is among the calls, in
order, repetitions included. -/
def finalParties (es : List Event) : List String :=
  es.filterMap fun
    | .update st => if st.isFinal then some st.party else none
    | .setPartyCount _ => none

/-- The worker with a party's final report written down. -/
def SchedulerWorker.noted (w : SchedulerWorker) (st : TaskStatus) :
    SchedulerWorker :=
  { w with finalStatus := w.finalStatus.insert st.party st.status }

/-- A second guarded `set_value` does nothing. -/
theorem finishOnce_finishOnce (w : SchedulerWorker) (a b : Retcode) :
    (w.finishOnce a).finishOnce b = w.finishOnce a := by
  unfold SchedulerWorker.finishOnce
  cases h : w.schedulerFinished <;> simp [h]

/-- A `FAIL` report fires `FAIL`; the comparison that follows finds the
flag set. -/
theorem recordFinal_fail {w : SchedulerWorker} {st : TaskStatus}
    (h : st.status = .fail) :
    w.recordFinal st = (w.noted st).finishOnce .fail := by
  unfold SchedulerWorker.recordFinal
  simp only [h, if_pos]
  rw [finishOnce_finishOnce, ite_self, SchedulerWorker.noted, h]

/-- A `SUCCESS` report fires `SUCCESS` if it completes the count. -/
theorem recordFinal_success {w : SchedulerWorker} {st : TaskStatus}
    (h : st.status = .success) :
    w.recordFinal st
      = if (w.noted st).finalStatus.size = w.partyCount then
          (w.noted st).finishOnce .success
        else w.noted st := by
  unfold SchedulerWorker.recordFinal SchedulerWorker.noted
  simp only [h, reduceCtorEq, if_false]

/-- `finishOnce` on the promise and on its flag. -/
theorem finishOnce_spec (w : SchedulerWorker) (ret : Retcode) :
    (w.finishOnce ret).finishPromise
        = (if w.schedulerFinished then w.finishPromise
          else w.finishPromise ++ [ret])
      ∧ (w.finishOnce ret).schedulerFinished = true := by
  unfold SchedulerWorker.finishOnce
  cases h : w.schedulerFinished <;> simp [h]

/-- What a call does to the promise and to its flag. -/
theorem handle_spec (w : SchedulerWorker) (e : Event) :
    (w.handle e).finishPromise
        = (if w.schedulerFinished then w.finishPromise
          else w.finishPromise ++ (fires w e).toList)
      ∧ (w.handle e).schedulerFinished
        = (w.schedulerFinished || (fires w e).isSome) := by
  cases e with
  | setPartyCount count =>
      simp [SchedulerWorker.handle, SchedulerWorker.setPartyCount, fires]
  | update st =>
      show (if st.isFinal then w.recordFinal st else w).finishPromise = _
        ∧ (if st.isFinal then w.recordFinal st else w).schedulerFinished = _
      by_cases hfail : st.status = .fail
      · have hfin : st.isFinal = true := by simp [TaskStatus.isFinal, hfail]
        obtain ⟨hp, hd⟩ := finishOnce_spec (w.noted st) .fail
        rw [if_pos hfin, recordFinal_fail hfail, hp, hd]
        simp [fires, hfail, SchedulerWorker.noted]
      · by_cases hsucc : st.status = .success
        · have hfin : st.isFinal = true := by simp [TaskStatus.isFinal, hsucc]
          obtain ⟨hp, hd⟩ := finishOnce_spec (w.noted st) .success
          rw [if_pos hfin, recordFinal_success hsucc]
          by_cases hn : (w.noted st).finalStatus.size = w.partyCount
          · have hn' : (w.finalStatus.insert st.party .success).size
                = w.partyCount := by rw [← hn, ← hsucc]; rfl
            rw [if_pos hn, hp, hd]
            simp [fires, hsucc, hn', SchedulerWorker.noted]
          · have hn' : (w.finalStatus.insert st.party .success).size
                ≠ w.partyCount := by rw [← hsucc]; exact hn
            rw [if_neg hn]
            simp [fires, hsucc, hn', SchedulerWorker.noted]
        · have hfin : ¬st.isFinal = true := by
            simp [TaskStatus.isFinal, hfail, hsucc]
          rw [if_neg hfin]
          simp [fires, hfail, hsucc]

/-- The count moves with `setPartyCount` only. -/
theorem handle_partyCount (w : SchedulerWorker) (e : Event) :
    (w.handle e).partyCount
      = match e with
        | .setPartyCount count => count
        | .update _ => w.partyCount := by
  cases e with
  | setPartyCount count => rfl
  | update st =>
      simp only [SchedulerWorker.handle, SchedulerWorker.updateTaskStatus,
        SchedulerWorker.recordFinal, SchedulerWorker.finishOnce]
      repeat' split
      all_goals rfl

/-- The map of final statuses grows with final reports only. -/
theorem handle_finalStatus (w : SchedulerWorker) (e : Event) :
    (w.handle e).finalStatus
      = match e with
        | .setPartyCount _ => w.finalStatus
        | .update st =>
            if st.isFinal then w.finalStatus.insert st.party st.status
            else w.finalStatus := by
  cases e with
  | setPartyCount count => rfl
  | update st =>
      simp only [SchedulerWorker.handle, SchedulerWorker.updateTaskStatus,
        SchedulerWorker.recordFinal, SchedulerWorker.finishOnce]
      repeat' split
      all_goals rfl

/-- One more call. -/
theorem afterEvents_concat (es : List Event) (e : Event) :
    afterEvents (es ++ [e]) = (afterEvents es).handle e := by
  rw [afterEvents, afterEvents, List.foldl_append]
  rfl

-- =================================================== every list of calls

/-- What holds after any calls whatever. -/
structure CompletionInv (es : List Event) (w : SchedulerWorker) : Prop where
  flag : w.schedulerFinished = true ↔ w.finishPromise ≠ []
  once : w.finishPromise.length ≤ 1
  failFired : FailReported es → w.finishPromise ≠ []
  failReported : w.finishPromise = [.fail] → FailReported es
  reported : ∀ p, p ∈ w.finalStatus ↔ p ∈ finalParties es
  counted : (finalParties es).Nodup →
    w.finalStatus.size = (finalParties es).length

/-- `FailReported` under one more call. -/
theorem failReported_concat (es : List Event) (e : Event) :
    FailReported (es ++ [e])
      ↔ FailReported es ∨ ∃ st, e = .update st ∧ st.status = .fail := by
  constructor
  · intro hc
    obtain ⟨st, hmem, hst⟩ := hc
    rcases List.mem_append.mp hmem with h | h
    · exact Or.inl ⟨st, h, hst⟩
    · exact Or.inr ⟨st, (List.mem_singleton.mp h).symm, hst⟩
  · intro hc
    obtain ⟨st, hmem, hst⟩ | ⟨st, rfl, hst⟩ := hc
    · exact ⟨st, List.mem_append_left _ hmem, hst⟩
    · exact ⟨st, List.mem_append_right _ (List.mem_singleton_self _), hst⟩

/-- Which calls fire `FAIL`. -/
theorem fires_fail {w : SchedulerWorker} {e : Event} :
    fires w e = some .fail ↔ ∃ st, e = .update st ∧ st.status = .fail := by
  cases e with
  | setPartyCount count => simp [fires]
  | update st =>
      simp only [fires]
      constructor
      · intro h
        by_cases hst : st.status = .fail
        · exact ⟨st, rfl, hst⟩
        · rw [if_neg hst] at h
          split at h <;> simp at h
      · intro hc
        obtain ⟨st', h, hst⟩ := hc
        injection h with h
        rw [h, if_pos hst]

/-- The final parties under one more call. -/
theorem finalParties_concat (es : List Event) (e : Event) :
    finalParties (es ++ [e]) = finalParties es ++ finalParties [e] :=
  List.filterMap_append

/-- A call keeps the map of final statuses in step with the reports. -/
theorem reported_step {es : List Event} {w : SchedulerWorker} (e : Event)
    (h : ∀ p, p ∈ w.finalStatus ↔ p ∈ finalParties es) (p : String) :
    p ∈ (w.handle e).finalStatus ↔ p ∈ finalParties (es ++ [e]) := by
  rw [finalParties_concat, List.mem_append, handle_finalStatus, ← h p]
  cases e with
  | setPartyCount count => simp [finalParties]
  | update st =>
      by_cases hf : st.isFinal = true
      · simp only [hf, if_true, Std.TreeMap.mem_insert, finalParties,
          Std.compare_eq_iff_eq, List.filterMap_cons, List.filterMap_nil,
          List.mem_singleton]
        tauto
      · simp [hf, finalParties]

/-- With no party reporting twice, the map's size counts the reports. -/
theorem counted_step {es : List Event} {w : SchedulerWorker} (e : Event)
    (hmem : ∀ p, p ∈ w.finalStatus ↔ p ∈ finalParties es)
    (h : (finalParties es).Nodup →
      w.finalStatus.size = (finalParties es).length)
    (hnd : (finalParties (es ++ [e])).Nodup) :
    (w.handle e).finalStatus.size = (finalParties (es ++ [e])).length := by
  rw [finalParties_concat] at hnd ⊢
  rw [List.length_append, handle_finalStatus]
  have hes := h (List.Nodup.of_append_left hnd)
  cases e with
  | setPartyCount count => simpa [finalParties] using hes
  | update st =>
      by_cases hf : st.isFinal = true
      · have hnew : st.party ∉ w.finalStatus := by
          rw [hmem]
          intro hin
          refine List.disjoint_of_nodup_append hnd hin ?_
          simp [finalParties, hf]
        rw [Std.TreeMap.mem_iff_contains] at hnew
        simp only [hf, if_true, Std.TreeMap.size_insert, hnew,
          Bool.false_eq_true, if_false, hes]
        simp [finalParties, hf]
      · simpa [hf, finalParties] using hes

/-- The invariant holds of every list of calls, by induction on the
calls from the right. -/
theorem completionInv (es : List Event) :
    CompletionInv es (afterEvents es) := by
  induction es using List.reverseRecOn with
  | nil =>
      refine ⟨by simp [afterEvents, SchedulerWorker.init], by
        simp [afterEvents, SchedulerWorker.init], ?_, ?_, ?_, ?_⟩
      · intro hc
        obtain ⟨st, hmem, -⟩ := hc
        cases hmem
      · intro h
        simp [afterEvents, SchedulerWorker.init] at h
      · intro p
        simp [afterEvents, SchedulerWorker.init, finalParties]
      · intro _
        rfl
  | append_singleton es e ih =>
      rw [afterEvents_concat]
      obtain ⟨hp, hd⟩ := handle_spec (afterEvents es) e
      have hreported := reported_step e ih.reported
      have hcounted := counted_step e ih.reported ih.counted
      by_cases hfin : (afterEvents es).schedulerFinished = true
      · -- already set: the call leaves the promise alone
        rw [if_pos hfin] at hp
        rw [hfin, Bool.true_or] at hd
        have hne := ih.flag.mp hfin
        refine ⟨?_, ?_, ?_, ?_, hreported, hcounted⟩
        · rw [hp, hd]
          exact ⟨fun _ => hne, fun _ => rfl⟩
        · rw [hp]; exact ih.once
        · rw [hp]; exact fun _ => hne
        · rw [hp, failReported_concat]
          exact fun h => Or.inl (ih.failReported h)
      -- not set yet: the call fires as its status says
      · have hempty : (afterEvents es).finishPromise = [] := by
          by_contra hne
          exact hfin (ih.flag.mpr hne)
        rw [if_neg hfin, hempty, List.nil_append] at hp
        rw [Bool.eq_false_iff.mpr hfin, Bool.false_or] at hd
        refine ⟨?_, ?_, ?_, ?_, hreported, hcounted⟩
        · rw [hp, hd]
          cases fires (afterEvents es) e <;> simp
        · rw [hp]
          cases fires (afterEvents es) e <;> simp
        · rw [failReported_concat]
          intro hc
          obtain h | h := hc
          · exact absurd hempty (ih.failFired h)
          · rw [hp, fires_fail.mpr h]
            simp
        · intro h
          rw [hp] at h
          rw [failReported_concat]
          refine Or.inr (fires_fail (w := afterEvents es).mp ?_)
          cases hf : fires (afterEvents es) e with
          | none => rw [hf] at h; cases h
          | some v => rw [hf] at h; injection h with h; rw [h]

/-- The value handed to an unset promise is `FAIL` exactly if a `FAIL`
report has come in, the call's own included. -/
theorem value_of_fired {pre : List Event} {e : Event} {v : Retcode}
    (hbefore : (afterEvents pre).finishPromise = [])
    (hafter : (afterEvents (pre ++ [e])).finishPromise = [v]) :
    v = .fail ↔ FailReported (pre ++ [e]) := by
  have ih := completionInv pre
  have hfin : ¬(afterEvents pre).schedulerFinished = true := fun h =>
    ih.flag.mp h hbefore
  have hnone : ¬FailReported pre := fun h => ih.failFired h hbefore
  rw [afterEvents_concat, (handle_spec _ e).1, if_neg hfin, hbefore,
    List.nil_append] at hafter
  rw [failReported_concat, ← fires_fail (w := afterEvents pre)]
  cases hf : fires (afterEvents pre) e with
  | none => rw [hf] at hafter; cases hafter
  | some u =>
      rw [hf] at hafter
      injection hafter with hv
      rw [hv]
      simp [hnone]

-- ==================================================== counting the parties

/-- Once a count `n` and no other has been set, it stays. -/
theorem partyCount_of_set {n : Nat} :
    ∀ (es : List Event), (∀ count, Event.setPartyCount count ∈ es → count = n) →
      Event.setPartyCount n ∈ es → (afterEvents es).partyCount = n := by
  intro es
  induction es using List.reverseRecOn with
  | nil => intro _ hmem; cases hmem
  | append_singleton es e ih =>
      intro honly hmem
      rw [afterEvents_concat, handle_partyCount]
      cases e with
      | setPartyCount count =>
          exact honly count (List.mem_append_right _ (List.mem_singleton_self _))
      | update st =>
          refine ih (fun count h => honly count (List.mem_append_left _ h)) ?_
          rcases List.mem_append.mp hmem with h | h
          · exact h
          · cases List.mem_singleton.mp h

/-- Before any count is set and with nobody failing, the promise stays
unset: every comparison is against 0, and a report makes the map
nonempty. -/
theorem not_fired_before_count :
    ∀ (es : List Event), (∀ count, Event.setPartyCount count ∉ es) →
      ¬FailReported es →
      (afterEvents es).finishPromise = [] ∧ (afterEvents es).partyCount = 0 := by
  intro es
  induction es using List.reverseRecOn with
  | nil => intro _ _; exact ⟨rfl, rfl⟩
  | append_singleton es e ih =>
      intro hcount hfail
      rw [failReported_concat, not_or] at hfail
      obtain ⟨hempty, hzero⟩ := ih
        (fun count h => hcount count (List.mem_append_left _ h)) hfail.1
      cases e with
      | setPartyCount count =>
          exact absurd (List.mem_append_right _ (List.mem_singleton_self _))
            (hcount count)
      | update st =>
          have hfires : fires (afterEvents es) (.update st) = none := by
            have hst : st.status ≠ .fail := fun h => hfail.2 ⟨st, rfl, h⟩
            have hsize : ((afterEvents es).finalStatus.insert st.party
                st.status).size ≠ (afterEvents es).partyCount := by
              rw [hzero, Std.TreeMap.size_insert]
              split
              · next hin =>
                intro h0
                have hnil : (afterEvents es).finalStatus.isEmpty = true := by
                  rw [Std.TreeMap.isEmpty_eq_size_eq_zero, h0]
                  rfl
                rw [Std.TreeMap.contains_of_isEmpty hnil] at hin
                cases hin
              · omega
            simp only [fires, hst, if_false, hsize, and_false]
          rw [afterEvents_concat]
          refine ⟨?_, by rw [handle_partyCount]; exact hzero⟩
          rw [(handle_spec _ _).1, hfires, hempty]
          split <;> rfl

-- ========================================================== interleavings

/-- The parties that report in an interleaving are its parties. -/
theorem Interleaving.finalParties_perm (il : Interleaving) :
    (finalParties il.events).Perm (il.reports.map TaskStatus.party) := by
  have hall : ∀ l : List TaskStatus, (∀ st ∈ l, st.isFinal = true) →
      finalParties (l.map .update) = l.map TaskStatus.party := by
    intro l
    induction l with
    | nil => intro _; rfl
    | cons st l ih =>
        intro h
        have hst := h st (List.mem_cons_self ..)
        have hl := ih fun st' h' => h st' (List.mem_cons_of_mem _ h')
        simp only [finalParties] at hl
        simp only [finalParties, List.map_cons, List.filterMap_cons, hst,
          if_true, hl]
  have hperm := il.events_perm.filterMap (fun
    | .update st => if st.isFinal then some st.party else none
    | .setPartyCount _ => none)
  rw [← hall il.reports il.reports_final]
  exact hperm

/-- The only count an interleaving sets is the number of parties. -/
theorem Interleaving.count_eq (il : Interleaving) {count : Nat}
    (h : Event.setPartyCount count ∈ il.events) : count = il.n := by
  have hmem := il.events_perm.mem_iff.mp h
  rcases List.mem_cons.mp hmem with h | h
  · injection h
  · obtain ⟨st, -, hst⟩ := List.mem_map.mp h
    cases hst

/-- If the last call is a report, it finds all parties and the right
count, so the promise is set when it returns. -/
theorem Interleaving.fired_by_last_report (il : Interleaving)
    {pre : List Event} {st : TaskStatus}
    (hev : il.events = pre ++ [.update st]) :
    (afterEvents il.events).finishPromise ≠ [] := by
  have hcount : (afterEvents pre).partyCount = il.n := by
    refine partyCount_of_set pre (fun count h => ?_) ?_
    · refine il.count_eq ?_
      rw [hev]
      exact List.mem_append_left _ h
    · have hmem : Event.setPartyCount il.n ∈ il.events :=
        il.events_perm.mem_iff.mpr (List.mem_cons_self ..)
      rw [hev] at hmem
      rcases List.mem_append.mp hmem with h | h
      · exact h
      · cases List.mem_singleton.mp h
  have hst : st.isFinal = true := by
    have hmem : Event.update st ∈ il.events := by
      rw [hev]
      exact List.mem_append_right _ (List.mem_singleton_self _)
    rcases List.mem_cons.mp (il.events_perm.mem_iff.mp hmem) with h | h
    · cases h
    · obtain ⟨st', hin, heq⟩ := List.mem_map.mp h
      injection heq with heq
      exact heq ▸ il.reports_final st' hin
  have hsize : ((afterEvents pre).finalStatus.insert st.party
      st.status).size = il.n := by
    have hnd : (finalParties il.events).Nodup :=
      il.finalParties_perm.nodup_iff.mpr il.parties_nodup
    have h := (completionInv il.events).counted hnd
    rw [il.finalParties_perm.length_eq, List.length_map,
      il.reports_length, hev, afterEvents_concat, handle_finalStatus] at h
    simpa only [hst, if_true] using h
  have hfires : (fires (afterEvents pre) (.update st)).isSome = true := by
    simp only [TaskStatus.isFinal, decide_eq_true_eq] at hst
    rcases hst with hst | hst
    · rw [hst] at hsize
      simp [fires, hst, hsize, hcount]
    · simp [fires, hst]
  rw [hev]
  refine (completionInv _).flag.mp ?_
  rw [afterEvents_concat, (handle_spec _ _).2, hfires, Bool.or_true]

/-- If the last call sets the count and nobody failed, the promise is
unset when everything has happened. -/
theorem Interleaving.stuck_of_count_last (il : Interleaving)
    {pre : List Event} (hev : il.events = pre ++ [.setPartyCount il.n])
    (hfail : ¬FailReported il.events) :
    (afterEvents il.events).finishPromise = [] := by
  have hperm : pre.Perm (il.reports.map .update) := by
    have h := il.events_perm
    rw [hev] at h
    exact (List.perm_cons _).mp ((List.perm_append_singleton _ _).symm.trans h)
  have hnocount : ∀ count, Event.setPartyCount count ∉ pre := by
    intro count h
    obtain ⟨st, -, hst⟩ := List.mem_map.mp (hperm.mem_iff.mp h)
    cases hst
  have hnofail : ¬FailReported pre := by
    intro hc
    obtain ⟨st, hmem, hst⟩ := hc
    refine hfail ⟨st, ?_, hst⟩
    rw [hev]
    exact List.mem_append_left _ hmem
  rw [hev, afterEvents_concat, (handle_spec _ _).1,
    (not_fired_before_count pre hnocount hnofail).1]
  split <;> rfl

/-- An interleaving ends with some call. -/
theorem Interleaving.events_ne_nil (il : Interleaving) : il.events ≠ [] := by
  intro h
  have := il.events_perm.length_eq
  rw [h] at this
  simp at this

/-- The protocol completes an interleaving exactly if some party fails
or the count is not the last thing to arrive. -/
theorem Interleaving.completes_iff (il : Interleaving) :
    il.Completes
      ↔ FailReported il.events
        ∨ il.events.getLast? ≠ some (.setPartyCount il.n) := by
  obtain ⟨pre, e, hev⟩ := il.events.eq_nil_or_concat.resolve_left
    il.events_ne_nil
  have hlast : il.events.getLast? = some e := by
    rw [hev, List.concat_eq_append, List.getLast?_append]
    rfl
  rw [List.concat_eq_append] at hev
  constructor
  · intro hc
    by_contra hne
    rw [not_or, not_not, hlast, Option.some.injEq] at hne
    rw [hne.2] at hev
    exact hc.notStuck (il.stuck_of_count_last hev hne.1)
  · intro h
    refine ⟨fun pre _ => (completionInv pre).once,
      fun pre e v _ hb ha => value_of_fired hb ha, ?_⟩
    rcases h with hfail | hne
    · exact (completionInv _).failFired hfail
    · cases e with
      | update st => exact il.fired_by_last_report hev
      | setPartyCount count =>
          have hcount : count = il.n := il.count_eq (by
            rw [hev]
            exact List.mem_append_right _ (List.mem_singleton_self _))
          rw [hlast, hcount] at hne
          exact absurd rfl hne

/-- One party that succeeds before the dispatcher gets to call
`setPartyCount(1)`. -/
def lateCount : Interleaving where
  n := 1
  n_pos := Nat.le_refl 1
  reports := [⟨"PARTY0", .success, "task finished"⟩]
  reports_length := rfl
  parties_nodup := List.nodup_singleton _
  reports_final := by
    intro st hst
    rw [List.mem_singleton.mp hst]
    rfl
  events := [.update ⟨"PARTY0", .success, "task finished"⟩, .setPartyCount 1]
  events_perm := List.Perm.swap _ _ _

/-- On that interleaving the promise is never set. -/
theorem lateCount_not_completes : ¬lateCount.Completes := by
  intro h
  have hev : lateCount.events
      = [.update ⟨"PARTY0", .success, "task finished"⟩]
        ++ [.setPartyCount lateCount.n] := rfl
  refine h.notStuck (lateCount.stuck_of_count_last hev ?_)
  intro hc
  obtain ⟨st, hmem, hst⟩ := hc
  have hmem' : Event.update st
      ∈ [.update ⟨"PARTY0", .success, "task finished"⟩, .setPartyCount 1] :=
    hmem
  simp only [List.mem_cons, Event.update.injEq, reduceCtorEq,
    List.not_mem_nil, or_false] at hmem'
  rw [hmem'] at hst
  cases hst

end PrimiHub.Node
