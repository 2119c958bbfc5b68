/-
What a client gets to see of the status reports.

In every run each report is taken at most once and in the order it was
pushed, and the reply of a call is what the call took (`Accounted`),
with one entry more: the one the last turn of the loop added before it
found the queue empty. A returned reply is therefore one entry longer
than what it drained, whatever the other calls do, and the returned
replies together are too long by their number. So reporting is faithful
exactly as long as every turn of a drain loop finds a report, that is, as
long as no call has come to its end.
-/
import Mathlib.Algebra.GroupWithZero.Nat
import Mathlib.Data.List.Basic
import PrimiHub.Node.Status

namespace PrimiHub.Node

open Lib

-- ============================================================== one step

/-- What a step can do: a report is pushed, a call begins, a call takes
the oldest report, or it finds none and returns with a blank entry. -/
theorem statusStep_cases {s s' : StatusRun} {a : StatusAction}
    (h : statusStep s a = some s') :
    (∃ st, s' = { s with
        worker := s.worker.updateTaskStatus st, pushed := s.pushed ++ [st] })
    ∨ s' = { s with
        calls := s.calls + 1
        draining := Function.update s.draining s.calls (some []) }
    ∨ (∃ call reply st rest, s.draining call = some reply
        ∧ s.worker.taskStatus = st :: rest
        ∧ s' = { s with
            worker := { s.worker with taskStatus := rest }
            poppedBy := s.poppedBy ++ [call]
            draining :=
              Function.update s.draining call (some (reply ++ [st])) })
    ∨ (∃ call reply, s.draining call = some reply
        ∧ s' = { s with
            draining := Function.update s.draining call none
            replies := s.replies ++ [(call, reply ++ [.blank])] }) := by
  cases a with
  | report st =>
      cases h
      exact Or.inl ⟨st, rfl⟩
  | begin =>
      cases h
      exact Or.inr (Or.inl rfl)
  | drain call =>
      simp only [statusStep] at h
      split at h
      · cases h
      · rename_i reply hreply
        simp only [drainOnce, SchedulerWorker.fetchTaskStatus] at h
        cases hqueue : s.worker.taskStatus with
        | nil =>
            rw [hqueue] at h
            cases h
            exact Or.inr (Or.inr (Or.inr ⟨call, reply, hreply, rfl⟩))
        | cons st rest =>
            rw [hqueue] at h
            cases h
            exact Or.inr (Or.inr (Or.inl ⟨call, reply, st, rest, hreply,
              rfl, rfl⟩))

/-- Every report reaches the queue. -/
theorem updateTaskStatus_taskStatus (w : SchedulerWorker) (st : TaskStatus) :
    (w.updateTaskStatus st).taskStatus = w.taskStatus ++ [st] := by
  unfold SchedulerWorker.updateTaskStatus SchedulerWorker.recordFinal
    SchedulerWorker.finishOnce
  dsimp only
  split_ifs <;> rfl

-- ============================================================= accounting

/-- What stands beyond the shorter list does not show. -/
theorem zip_append_of_le {α β : Type} {xs ys : List α} {zs : List β}
    (h : zs.length ≤ xs.length) : (xs ++ ys).zip zs = xs.zip zs := by
  induction xs generalizing zs with
  | nil =>
      cases zs with
      | nil => simp
      | cons z zs => simp at h
  | cons x xs ih =>
      cases zs with
      | nil => simp
      | cons z zs =>
          rw [List.cons_append, List.zip_cons_cons, List.zip_cons_cons,
            ih (Nat.le_of_succ_le_succ h)]

/-- A report that nobody has taken yet is in nobody's share. -/
theorem takenBy_pushed {s : StatusRun}
    (hle : s.poppedBy.length ≤ s.pushed.length) (st : TaskStatus)
    (w : SchedulerWorker) (calls : List Nat) :
    StatusRun.takenBy { s with worker := w, pushed := s.pushed ++ [st] } calls
      = s.takenBy calls := by
  unfold StatusRun.takenBy
  dsimp only
  rw [zip_append_of_le hle]

/-- The next report goes to the call that takes it. -/
theorem takenBy_popped {s : StatusRun} {st : TaskStatus}
    {rest : List TaskStatus}
    (hqueue : s.pushed.drop s.poppedBy.length = st :: rest)
    (w : SchedulerWorker) (call : Nat)
    (draining : Nat → Option (List TaskStatus)) (calls : List Nat) :
    StatusRun.takenBy { s with
        worker := w, poppedBy := s.poppedBy ++ [call], draining := draining }
        calls
      = s.takenBy calls ++ if call ∈ calls then [st] else [] := by
  unfold StatusRun.takenBy
  have hsplit : s.pushed = s.pushed.take s.poppedBy.length ++ st :: rest := by
    rw [← hqueue, List.take_append_drop]
  have hlen : (s.pushed.take s.poppedBy.length).length = s.poppedBy.length := by
    have hdrop := congrArg List.length hqueue
    rw [List.length_drop, List.length_cons] at hdrop
    rw [List.length_take]
    omega
  have hzip : s.pushed.zip (s.poppedBy ++ [call])
      = s.pushed.zip s.poppedBy ++ [(st, call)] := by
    generalize s.pushed.take s.poppedBy.length = front at hsplit hlen
    rw [hsplit, List.zip_append hlen, zip_append_of_le (Nat.le_of_eq hlen.symm),
      List.zip_cons_cons, List.zip_nil_right]
  dsimp only
  rw [hzip, List.filter_append, List.map_append]
  by_cases hmem : call ∈ calls
  · simp [hmem]
  · simp [hmem]

/-- The share of several calls is as large as their shares together. -/
theorem takenBy_length (s : StatusRun) {calls : List Nat}
    (h : calls.Nodup) :
    (s.takenBy calls).length
      = (calls.map fun call => (s.takenBy [call]).length).sum := by
  unfold StatusRun.takenBy
  simp only [List.length_map, ← List.countP_eq_length_filter]
  induction calls with
  | nil => simp
  | cons call calls ih =>
      obtain ⟨hnot, hrest⟩ := List.nodup_cons.1 h
      rw [List.map_cons, List.sum_cons, ← ih hrest]
      induction s.pushed.zip s.poppedBy with
      | nil => rfl
      | cons p ps ihp =>
          rw [List.countP_cons, List.countP_cons, List.countP_cons, ihp]
          by_cases hp : p.2 = call
          · subst hp
            simp [hnot]
            omega
          · simp [hp]
            omega

/-- What holds in every run: the queue holds the reports nobody has
taken, the reply of a call under way is what the call took, and that of
a call that has returned has a blank entry behind it. -/
structure Accounted (s : StatusRun) : Prop where
  popped_le : s.poppedBy.length ≤ s.pushed.length
  queue : s.worker.taskStatus = s.pushed.drop s.poppedBy.length
  draining : ∀ call reply, s.draining call = some reply →
    reply = s.takenBy [call]
  replied : ∀ r ∈ s.replies, r.2 = s.takenBy [r.1] ++ [.blank]
  nodup : (s.replies.map Prod.fst).Nodup
  gone : ∀ r ∈ s.replies, s.draining r.1 = none
  begun : ∀ call, call ∈ s.poppedBy ∨ (s.draining call).isSome
    ∨ call ∈ s.replies.map Prod.fst → call < s.calls

theorem accounted_init : Accounted StatusRun.init := by
  refine ⟨Nat.le_refl _, rfl, ?_, ?_, List.nodup_nil, ?_, ?_⟩
  · intro call reply h
    cases h
  · intro r h
    cases h
  · intro r h
    cases h
  · rintro call (h | h | h) <;> cases h

theorem accounted_report {s : StatusRun} (hs : Accounted s)
    (st : TaskStatus) :
    Accounted { s with
      worker := s.worker.updateTaskStatus st, pushed := s.pushed ++ [st] } := by
  refine ⟨?_, ?_, ?_, ?_, hs.nodup, hs.gone, hs.begun⟩
  · have hle := hs.popped_le
    simp only [List.length_append, List.length_singleton]
    omega
  · rw [updateTaskStatus_taskStatus, hs.queue,
      List.drop_append_of_le_length hs.popped_le]
  · intro call reply h
    rw [takenBy_pushed hs.popped_le]
    exact hs.draining call reply h
  · intro r h
    rw [takenBy_pushed hs.popped_le]
    exact hs.replied r h

theorem accounted_begin {s : StatusRun} (hs : Accounted s) :
    Accounted { s with
      calls := s.calls + 1
      draining := Function.update s.draining s.calls (some []) } := by
  have hfresh : s.calls ∉ s.poppedBy := fun h =>
    Nat.lt_irrefl _ (hs.begun s.calls (Or.inl h))
  have hnothing : s.takenBy [s.calls] = [] := by
    unfold StatusRun.takenBy
    rw [List.map_eq_nil_iff, List.filter_eq_nil_iff]
    intro hc hp
    obtain ⟨st, call⟩ := hc
    simp only [List.mem_singleton, decide_eq_true_eq]
    rintro rfl
    exact hfresh (List.of_mem_zip hp).2
  refine ⟨hs.popped_le, hs.queue, ?_, hs.replied, hs.nodup, ?_, ?_⟩
  · intro call reply h
    dsimp only at h
    by_cases hcall : call = s.calls
    · subst hcall
      rw [Function.update_self, Option.some.injEq] at h
      rw [← h]
      exact hnothing.symm
    · rw [Function.update_of_ne hcall] at h
      exact hs.draining call reply h
  · intro r hr
    have hlt := hs.begun r.1 (Or.inr (Or.inr (List.mem_map_of_mem hr)))
    dsimp only
    rw [Function.update_of_ne (Nat.ne_of_lt hlt)]
    exact hs.gone r hr
  · rintro call (h | h | h)
    · exact Nat.lt_succ_of_lt (hs.begun call (Or.inl h))
    · dsimp only at h
      by_cases hcall : call = s.calls
      · subst hcall
        exact Nat.lt_succ_self _
      · rw [Function.update_of_ne hcall] at h
        exact Nat.lt_succ_of_lt (hs.begun call (Or.inr (Or.inl h)))
    · exact Nat.lt_succ_of_lt (hs.begun call (Or.inr (Or.inr h)))

theorem accounted_pop {s : StatusRun} (hs : Accounted s) {call : Nat}
    {reply rest : List TaskStatus} {st : TaskStatus}
    (hreply : s.draining call = some reply)
    (hqueue : s.worker.taskStatus = st :: rest) :
    Accounted { s with
      worker := { s.worker with taskStatus := rest }
      poppedBy := s.poppedBy ++ [call]
      draining := Function.update s.draining call (some (reply ++ [st])) } := by
  have hdrop := hs.queue.symm.trans hqueue
  have hbegun := hs.begun call (Or.inr (Or.inl (by rw [hreply]; rfl)))
  refine ⟨?_, ?_, ?_, ?_, hs.nodup, ?_, ?_⟩
  · have hlen := congrArg List.length hdrop
    rw [List.length_drop, List.length_cons] at hlen
    simp only [List.length_append, List.length_singleton]
    omega
  · simp only [List.length_append, List.length_singleton]
    rw [← List.drop_drop, hdrop]
    rfl
  · intro call' reply' h
    dsimp only at h
    -- the status belongs to the call that popped it
    rw [takenBy_popped hdrop]
    by_cases hcall : call' = call
    · subst hcall
      rw [Function.update_self, Option.some.injEq] at h
      rw [← h, if_pos (List.mem_singleton_self _),
        hs.draining call' reply hreply]
    · rw [Function.update_of_ne hcall] at h
      rw [if_neg (by simpa using Ne.symm hcall), List.append_nil]
      exact hs.draining call' reply' h
  · intro r hr
    have hne : call ≠ r.1 := by
      rintro rfl
      rw [hs.gone r hr] at hreply
      cases hreply
    rw [takenBy_popped hdrop, if_neg (by simpa using hne), List.append_nil]
    exact hs.replied r hr
  · intro r hr
    have hne : r.1 ≠ call := by
      intro heq
      rw [← heq, hs.gone r hr] at hreply
      cases hreply
    dsimp only
    rw [Function.update_of_ne hne]
    exact hs.gone r hr
  · rintro call' (h | h | h)
    · rcases List.mem_append.1 h with h | h
      · exact hs.begun call' (Or.inl h)
      · rw [List.mem_singleton.1 h]
        exact hbegun
    · dsimp only at h
      by_cases hcall : call' = call
      · subst hcall
        exact hbegun
      · rw [Function.update_of_ne hcall] at h
        exact hs.begun call' (Or.inr (Or.inl h))
    · exact hs.begun call' (Or.inr (Or.inr h))

theorem accounted_return {s : StatusRun} (hs : Accounted s) {call : Nat}
    {reply : List TaskStatus} (hreply : s.draining call = some reply) :
    Accounted { s with
      draining := Function.update s.draining call none
      replies := s.replies ++ [(call, reply ++ [.blank])] } := by
  have hbegun := hs.begun call (Or.inr (Or.inl (by rw [hreply]; rfl)))
  -- a call that is draining has not replied yet
  have hnew : call ∉ s.replies.map Prod.fst := by
    intro hmem
    obtain ⟨r, hr, rfl⟩ := List.mem_map.1 hmem
    rw [hs.gone r hr] at hreply
    cases hreply
  refine ⟨hs.popped_le, hs.queue, ?_, ?_, ?_, ?_, ?_⟩
  · intro call' reply' h
    dsimp only at h
    by_cases hcall : call' = call
    · subst hcall
      rw [Function.update_self] at h
      cases h
    · rw [Function.update_of_ne hcall] at h
      exact hs.draining call' reply' h
  · intro r hr
    rcases List.mem_append.1 hr with hr | hr
    · exact hs.replied r hr
    · rw [List.mem_singleton.1 hr]
      exact congrArg (· ++ [TaskStatus.blank]) (hs.draining call reply hreply)
  · rw [List.map_append, List.nodup_append]
    refine ⟨hs.nodup, by simp, ?_⟩
    rintro call' hmem call'' hmem' rfl
    simp only [List.map_singleton, List.mem_singleton] at hmem'
    rw [hmem'] at hmem
    exact hnew hmem
  · intro r hr
    dsimp only
    rcases List.mem_append.1 hr with hr | hr
    · by_cases hcall : r.1 = call
      · rw [hcall, Function.update_self]
      · rw [Function.update_of_ne hcall]
        exact hs.gone r hr
    · rw [List.mem_singleton.1 hr]
      exact Function.update_self ..
  · rintro call' (h | h | h)
    · exact hs.begun call' (Or.inl h)
    · dsimp only at h
      by_cases hcall : call' = call
      · subst hcall
        exact hbegun
      · rw [Function.update_of_ne hcall] at h
        exact hs.begun call' (Or.inr (Or.inl h))
    · rw [List.map_append] at h
      rcases List.mem_append.1 h with h | h
      · exact hs.begun call' (Or.inr (Or.inr h))
      · rw [List.mem_singleton.1 h]
        exact hbegun

/-- Every step keeps account. -/
theorem accounted_step {s s' : StatusRun} {a : StatusAction}
    (hs : Accounted s) (h : statusStep s a = some s') : Accounted s' := by
  obtain ⟨st, rfl⟩ | rfl | ⟨call, reply, st, rest, hreply, hqueue, rfl⟩
    | ⟨call, reply, hreply, rfl⟩ := statusStep_cases h
  · exact accounted_report hs st
  · exact accounted_begin hs
  · exact accounted_pop hs hreply hqueue
  · exact accounted_return hs hreply

-- ================================================================ results

/-- The returned replies hold what was drained and one entry each. -/
theorem replies_length {s : StatusRun} (hs : Accounted s) :
    (s.replies.map Prod.snd).flatten.length
      = (s.takenBy (s.replies.map Prod.fst)).length + s.replies.length := by
  rw [takenBy_length s hs.nodup, List.length_flatten, List.map_map,
    List.map_map]
  have hreplied := hs.replied
  generalize s.replies = replies at hreplied
  induction replies with
  | nil => rfl
  | cons r rs ih =>
      rw [List.map_cons, List.map_cons, List.sum_cons, List.sum_cons,
        List.length_cons]
      have hrest := ih fun r' hr' => hreplied r' (List.mem_cons_of_mem _ hr')
      have hlen := congrArg List.length (hreplied r (List.mem_cons_self ..))
      rw [List.length_append, List.length_singleton] at hlen
      simp only [Function.comp_apply]
      omega

/-- A reply comes from a turn that finds no report, and stays. -/
theorem no_reply_step {s s' : StatusRun} {a : StatusAction}
    (h : statusStep s a = some s') :
    s'.replies = [] ↔ s.replies = [] ∧ FindsReport s a := by
  cases a with
  | report st =>
      cases h
      simp [FindsReport]
  | begin =>
      cases h
      simp [FindsReport]
  | drain call =>
      simp only [statusStep] at h
      split at h
      · cases h
      · simp only [drainOnce, SchedulerWorker.fetchTaskStatus] at h
        cases hqueue : s.worker.taskStatus with
        | nil =>
            rw [hqueue] at h
            cases h
            simp [FindsReport, hqueue]
        | cons st rest =>
            rw [hqueue] at h
            cases h
            simp [FindsReport, hqueue]

/-- In every run, the returned replies are the drained reports exactly if
every turn of every drain loop found a report: that is, as long as no
call has come to its end. -/
theorem faithful_iff_finds_report {actions : List StatusAction}
    {s : StatusRun} (h : run statusStep .init actions = some s) :
    s.Faithful ↔ Along statusStep FindsReport .init actions := by
  have hs : Accounted s :=
    run_invariant (fun _ _ _ hs hstep => accounted_step hs hstep)
      accounted_init h
  have hreplies : s.replies = []
      ↔ Along statusStep FindsReport .init actions := by
    rw [run_iff_along (fun _ _ _ => no_reply_step) h]
    exact and_iff_right rfl
  rw [← hreplies]
  constructor
  · intro hfaithful
    have hlen := congrArg List.length hfaithful
    rw [replies_length hs] at hlen
    exact List.length_eq_zero_iff.1 (by omega)
  · intro hnone
    unfold StatusRun.Faithful
    rw [hnone]
    simp [StatusRun.takenBy]

/-- A report that one call takes while another is under way; neither has
come to its end. -/
def openPolls : List StatusAction :=
  [.begin, .report ⟨"PARTY0", .running, ""⟩, .begin, .drain 1]

theorem openPolls_faithful :
    ∃ s, run statusStep .init openPolls = some s ∧ s.Faithful := by
  refine ⟨_, rfl, ?_⟩
  rw [faithful_iff_finds_report
    (show run statusStep .init openPolls = _ from rfl)]
  simp [openPolls, Along, FindsReport, statusStep, StatusRun.init,
    SchedulerWorker.init, beginFetch, updateTaskStatus_taskStatus]

/-- One report and one poll. -/
def onePoll : List StatusAction :=
  [.report ⟨"PARTY0", .success, "done"⟩, .begin, .drain 0, .drain 0]

/-- The client of one report gets two entries, the second of them
reported by nobody. -/
theorem poll_invents_status :
    ∃ s, run statusStep .init onePoll = some s
      ∧ s.replies
        = [(0, [⟨"PARTY0", .success, "done"⟩, ⟨"", .running, ""⟩])]
      ∧ s.takenBy [0] = [⟨"PARTY0", .success, "done"⟩]
      ∧ ¬s.Faithful := by
  refine ⟨_, rfl, rfl, rfl, ?_⟩
  intro hfaithful
  have hlen := congrArg List.length hfaithful
  exact absurd hlen (by decide)

end PrimiHub.Node
