/-
When the filter tells tasks apart (`isDuplicateTask_iff`).

The invariant (`FilterInv`) says what the filter knows: the names of the
tasks that are held, each held once. A task that has the name of another one
is taken for it.
-/
import Mathlib.Data.List.Induction
import PrimiHub.Node.DuplicateTask

namespace PrimiHub.Node

open Lib

variable {taskIdTimeoutS : Int} {s s' : TaskFilter} {history : List FilterEvent}

-- =================================================================== histories

/-- What is held after one more event. -/
theorem held_append_iff {e : FilterEvent} {task : TaskContext} {time : Int} :
    Held taskIdTimeoutS (history ++ [e]) task time
      ↔ e = .answered task time false
        ∨ Held taskIdTimeoutS history task time
          ∧ ∀ now, e = .cleaned now → now - time ≤ taskIdTimeoutS := by
  constructor
  · intro h
    obtain ⟨before, since, heq, hsince⟩ := h
    obtain ⟨rfl, he⟩ | ⟨since, rfl, rfl⟩ : (history = before
        ∧ e = .answered task time false) ∨ ∃ rest, since = rest ++ [e]
          ∧ history = before ++ .answered task time false :: rest := by
      cases since using List.reverseRecOn with
      | nil =>
          have hlast := List.append_inj' heq rfl
          exact Or.inl ⟨hlast.1, List.head_eq_of_cons_eq hlast.2⟩
      | append_singleton rest last =>
          rw [← List.cons_append, ← List.append_assoc] at heq
          have hlast := List.append_inj' heq rfl
          refine Or.inr ⟨rest, ?_, hlast.1⟩
          rw [List.head_eq_of_cons_eq hlast.2]
    · exact Or.inl he
    · refine Or.inr ⟨⟨before, since, rfl, ?_⟩, ?_⟩
      · intro now hnow
        exact hsince now (List.mem_append_left [e] hnow)
      · intro now hnow
        rw [hnow] at hsince
        exact hsince now (List.mem_append_right since List.mem_cons_self)
  · intro h
    obtain rfl | ⟨⟨before, since, rfl, hsince⟩, hclean⟩ := h
    · exact ⟨history, [], rfl, fun _ hnow => absurd hnow List.not_mem_nil⟩
    · refine ⟨before, since ++ [e], ?_, ?_⟩
      · rw [List.append_assoc, List.cons_append]
      · intro now hnow
        obtain hold | hnew := List.mem_append.mp hnow
        · exact hsince now hold
        · exact hclean now (List.mem_singleton.mp hnew).symm

/-- The time of an event. -/
def FilterEvent.time : FilterEvent → Int
  | .answered _ time _ => time
  | .cleaned time => time

/-- What the filter knows. -/
structure FilterInv (taskIdTimeoutS : Int) (s : TaskFilter) : Prop where
  filter : ∀ uid time, s.filter uid = some time
    ↔ ∃ task, task.uid = uid ∧ Held taskIdTimeoutS s.history task time
  unique : ∀ task time other time',
    Held taskIdTimeoutS s.history task time →
    Held taskIdTimeoutS s.history other time' →
    task.uid = other.uid → task = other
  clock : ∀ e ∈ s.history, e.time ≤ s.clock
  once : AcceptedOnce taskIdTimeoutS s.history

theorem filterInv_init : FilterInv taskIdTimeoutS .init := by
  have hnone : ∀ task time,
      ¬ Held taskIdTimeoutS TaskFilter.init.history task time := by
    intro task time h
    obtain ⟨before, since, heq, -⟩ := h
    exact List.append_ne_nil_of_right_ne_nil before
      (List.cons_ne_nil _ since) heq.symm
  refine ⟨?_, ?_, ?_, ?_⟩
  · intro uid time
    constructor
    · intro h
      cases h
    · intro h
      obtain ⟨task, -, hheld⟩ := h
      exact absurd hheld (hnone task time)
  · intro task time _ _ hheld
    exact absurd hheld (hnone task time)
  · intro e he
    exact absurd he List.not_mem_nil
  · intro before between after task time time' heq
    exact absurd heq.symm (List.append_ne_nil_of_right_ne_nil _
      (List.cons_ne_nil _ after))

/-- A name is found where a task of this name is held. -/
theorem FilterInv.isDuplicateTask_iff_held (h : FilterInv taskIdTimeoutS s)
    (task : TaskContext) :
    s.isDuplicateTask task = true
      ↔ ∃ other time, other.uid = task.uid
        ∧ Held taskIdTimeoutS s.history other time := by
  rw [TaskFilter.isDuplicateTask, Option.isSome_iff_exists]
  constructor
  · intro hsome
    obtain ⟨time, htime⟩ := hsome
    obtain ⟨other, huid, hheld⟩ := (h.filter _ _).mp htime
    exact ⟨other, time, huid, hheld⟩
  · intro hheld
    obtain ⟨other, time, huid, hheld⟩ := hheld
    exact ⟨time, (h.filter _ _).mpr ⟨other, huid, hheld⟩⟩

/-- An event that accepts nothing twice. -/
theorem acceptedOnce_append {e : FilterEvent}
    (h : AcceptedOnce taskIdTimeoutS history)
    (hnew : ∀ task now, e = .answered task now false →
      (∀ time, ¬ Held taskIdTimeoutS history task time)
        ∧ ∀ e' ∈ history, e'.time ≤ now) :
    AcceptedOnce taskIdTimeoutS (history ++ [e]) := by
  intro before between after task time time' heq
  cases after using List.reverseRecOn with
  | append_singleton rest last =>
      rw [← List.cons_append, ← List.append_assoc] at heq
      exact h before between rest task time time'
        (List.append_inj' heq rfl).1
  | nil =>
      -- the second time is the new event, so the first is not held
      have hlast := List.append_inj' heq rfl
      obtain ⟨hnot, hclock⟩ := hnew task time'
        (List.head_eq_of_cons_eq hlast.2)
      by_contra hclose
      refine hnot time ⟨before, between, hlast.1, ?_⟩
      intro now hnow
      have hle := hclock (.cleaned now) (by
        rw [hlast.1]
        exact List.mem_append_right before (List.mem_cons_of_mem _ hnow))
      have htime : FilterEvent.time (.cleaned now) = now := rfl
      omega

/-- Events stay before the clock. -/
theorem clock_append {clock now : Int} {e : FilterEvent}
    (h : ∀ e ∈ history, e.time ≤ clock) (hle : ¬ now < clock)
    (he : e.time = now) : ∀ e' ∈ history ++ [e], e'.time ≤ now := by
  intro e' he'
  obtain hold | hnew := List.mem_append.mp he'
  · exact Int.le_trans (h e' hold) (Int.not_lt.mp hle)
  · rw [List.mem_singleton.mp hnew]
    exact Int.le_of_eq he

/-- What a call keeps. -/
theorem FilterInv.step {call : FilterCall} (h : FilterInv taskIdTimeoutS s)
    (hstep : s.step taskIdTimeoutS call = some s') :
    FilterInv taskIdTimeoutS s' := by
  cases call with
  | cleanDuplicateTaskIdFilter now =>
      simp only [TaskFilter.step] at hstep
      split at hstep
      · cases hstep
      next hclock =>
      cases hstep
      -- a sweep lets go of what is older than the timeout
      have hheld : ∀ task time,
          Held taskIdTimeoutS (s.history ++ [.cleaned now]) task time
            ↔ Held taskIdTimeoutS s.history task time
              ∧ now - time ≤ taskIdTimeoutS := by
        intro task time
        rw [held_append_iff, or_iff_right FilterEvent.noConfusion]
        refine and_congr_right fun _ => ?_
        constructor
        · intro hall
          exact hall now rfl
        · intro hle now' hnow'
          cases hnow'
          exact hle
      refine ⟨?_, ?_, clock_append h.clock hclock rfl, ?_⟩
      · intro uid time
        simp only [hheld, TaskFilter.sweep, Option.bind_eq_some_iff]
        constructor
        · intro hsome
          obtain ⟨time', htime, hif⟩ := hsome
          split at hif
          · cases hif
          · cases hif
            obtain ⟨task, huid, hold⟩ := (h.filter uid time).mp htime
            exact ⟨task, huid, hold, by omega⟩
        · intro hsome
          obtain ⟨task, huid, hold, hle⟩ := hsome
          exact ⟨time, (h.filter uid time).mpr ⟨task, huid, hold⟩,
            if_neg (by omega)⟩
      · intro task time other time' hold hold'
        exact h.unique task time other time' ((hheld _ _).mp hold).1
          ((hheld _ _).mp hold').1
      · exact acceptedOnce_append h.once fun _ _ heq => by cases heq
  | isDuplicateTask task now =>
      simp only [TaskFilter.step] at hstep
      split at hstep
      · cases hstep
      next hclock =>
      cases hstep
      -- only a task that is not in the filter enters it
      cases hdup : s.isDuplicateTask task with
      | true =>
          have hheld : ∀ other time, Held taskIdTimeoutS
              (s.history ++ [.answered task now true]) other time
                ↔ Held taskIdTimeoutS s.history other time := by
            intro other time
            rw [held_append_iff, or_iff_right]
            · exact and_iff_left fun _ heq => by cases heq
            · intro heq
              cases heq
          refine ⟨?_, ?_, clock_append h.clock hclock rfl, ?_⟩
          · intro uid time
            simp only [hheld, TaskFilter.note, hdup, if_true]
            exact h.filter uid time
          · simp only [hheld]
            exact h.unique
          · exact acceptedOnce_append h.once fun _ _ heq => by cases heq
      | false =>
          -- nothing is held under its id, so it may be accepted once more
          have hnone : ∀ other time, Held taskIdTimeoutS s.history other time →
              other.uid ≠ task.uid := by
            intro other time hold huid
            have hsome := (h.isDuplicateTask_iff_held task).mpr
              ⟨other, time, huid, hold⟩
            rw [hdup] at hsome
            cases hsome
          have hheld : ∀ other time, Held taskIdTimeoutS
              (s.history ++ [.answered task now false]) other time
                ↔ (task = other ∧ now = time)
                  ∨ Held taskIdTimeoutS s.history other time := by
            intro other time
            rw [held_append_iff, FilterEvent.answered.injEq, and_iff_left rfl]
            refine or_congr_right (and_iff_left fun _ heq => by cases heq)
          refine ⟨?_, ?_, clock_append h.clock hclock rfl, ?_⟩
          · intro uid time
            simp only [hheld, TaskFilter.note, hdup, if_false,
              Bool.false_eq_true]
            by_cases huid : uid = task.uid
            · rw [huid, Function.update_self, Option.some.injEq]
              constructor
              · intro hnow
                exact ⟨task, rfl, Or.inl ⟨rfl, hnow⟩⟩
              · intro hsome
                obtain ⟨other, hsame, hnew | hold⟩ := hsome
                · exact hnew.2
                · exact absurd hsame (hnone other time hold)
            · rw [Function.update_of_ne huid, h.filter]
              refine exists_congr fun other => and_congr_right fun hsame => ?_
              rw [or_iff_right]
              intro hnew
              rw [hnew.1] at huid
              exact huid hsame.symm
          · intro first time second time' hold hold' huid
            rw [hheld] at hold hold'
            obtain ⟨rfl, -⟩ | hold := hold
            · obtain ⟨rfl, -⟩ | hold' := hold'
              · rfl
              · exact absurd huid.symm (hnone second time' hold')
            · obtain ⟨rfl, -⟩ | hold' := hold'
              · exact absurd huid (hnone first time hold)
              · exact h.unique first time second time' hold hold' huid
          · refine acceptedOnce_append h.once fun other now' heq => ?_
            cases heq
            refine ⟨fun time hold => hnone task time hold rfl, ?_⟩
            intro e he
            have hle := h.clock e he
            omega

-- ====================================================================== runs

/-- A call is answered right where no other task of its name is held. -/
theorem FilterInv.answersRight_iff (h : FilterInv taskIdTimeoutS s)
    (call : FilterCall) :
    AnswersRight taskIdTimeoutS s call ↔ NoClash taskIdTimeoutS s call := by
  cases call with
  | cleanDuplicateTaskIdFilter now => exact Iff.rfl
  | isDuplicateTask task now =>
      unfold AnswersRight NoClash
      dsimp only
      rw [h.isDuplicateTask_iff_held]
      constructor
      · intro hright other time hold huid
        obtain ⟨time', hold'⟩ := hright.mp ⟨other, time, huid, hold⟩
        exact h.unique other time task time' hold hold' huid
      · intro hclash
        constructor
        · intro hsome
          obtain ⟨other, time, huid, hold⟩ := hsome
          rw [hclash other time hold huid] at hold
          exact ⟨time, hold⟩
        · intro hsome
          obtain ⟨time, hold⟩ := hsome
          exact ⟨task, time, rfl, hold⟩

/-- The calls of a run are answered right exactly where none of them meets
another task of its name; no run accepts a task twice within the
time-out. -/
theorem isDuplicateTask_iff {calls : List FilterCall}
    (hrun : run (TaskFilter.step taskIdTimeoutS) .init calls = some s) :
    (Along (TaskFilter.step taskIdTimeoutS) (AnswersRight taskIdTimeoutS)
          .init calls
      ↔ Along (TaskFilter.step taskIdTimeoutS) (NoClash taskIdTimeoutS)
          .init calls)
      ∧ AcceptedOnce taskIdTimeoutS s.history := by
  have hinv : FilterInv taskIdTimeoutS s :=
    run_invariant (fun _ _ _ => FilterInv.step) filterInv_init hrun
  refine ⟨?_, hinv.once⟩
  exact along_congr_of_invariant (fun _ _ _ => FilterInv.step)
    (fun _ call h => h.answersRight_iff call) filterInv_init

/-- The tasks of the answers are among these. -/
def AnswersAmong (tasks : List TaskContext) (s : TaskFilter) : Prop :=
  ∀ task time duplicate,
    FilterEvent.answered task time duplicate ∈ s.history → task ∈ tasks

/-- The task of the call is among these. -/
def CallAmong (tasks : List TaskContext) : FilterCall → Prop
  | .isDuplicateTask task _ => task ∈ tasks
  | .cleanDuplicateTaskIdFilter _ => True

theorem AnswersAmong.step {tasks : List TaskContext} {call : FilterCall}
    (h : AnswersAmong tasks s) (hcall : CallAmong tasks call)
    (hstep : s.step taskIdTimeoutS call = some s') :
    AnswersAmong tasks s' := by
  cases call with
  | isDuplicateTask task now =>
      simp only [TaskFilter.step] at hstep
      split at hstep
      · cases hstep
      · cases hstep
        intro other time duplicate hmem
        obtain hold | hnew := List.mem_append.mp hmem
        · exact h other time duplicate hold
        · cases List.mem_singleton.mp hnew
          exact hcall
  | cleanDuplicateTaskIdFilter now =>
      simp only [TaskFilter.step] at hstep
      split at hstep
      · cases hstep
      · cases hstep
        intro other time duplicate hmem
        obtain hold | hnew := List.mem_append.mp hmem
        · exact h other time duplicate hold
        · cases List.mem_singleton.mp hnew

/-- Tasks with names of their own do not clash. -/
theorem noClash_of_distinct {tasks : List TaskContext}
    (hdistinct : ∀ a ∈ tasks, ∀ b ∈ tasks, a.uid = b.uid → a = b)
    {calls : List FilterCall} (hcalls : ∀ call ∈ calls, CallAmong tasks call)
    (h : AnswersAmong tasks s) :
    Along (TaskFilter.step taskIdTimeoutS) (NoClash taskIdTimeoutS) s calls
    := by
  induction calls generalizing s with
  | nil => trivial
  | cons call calls ih =>
      obtain ⟨hcall, hrest⟩ := List.forall_mem_cons.mp hcalls
      refine ⟨?_, fun s' hstep => ih hrest (h.step hcall hstep)⟩
      cases call with
      | cleanDuplicateTaskIdFilter now => trivial
      | isDuplicateTask task now =>
          intro other time hold huid
          obtain ⟨before, since, heq, -⟩ := hold
          refine hdistinct other (h other time false ?_) task hcall huid
          rw [heq]
          exact List.mem_append_right before List.mem_cons_self

/-- A task that comes again within the time-out, and after a sweep. -/
def sampleCalls : List FilterCall :=
  [.isDuplicateTask ⟨"r", "a"⟩ 0, .isDuplicateTask ⟨"r", "b"⟩ 1,
    .isDuplicateTask ⟨"r", "a"⟩ 30, .cleanDuplicateTaskIdFilter 31,
    .isDuplicateTask ⟨"r", "a"⟩ 31]

theorem isDuplicateTask_sample :
    ∃ s, run (TaskFilter.step 30) .init sampleCalls = some s
      ∧ Along (TaskFilter.step 30) (AnswersRight 30) .init sampleCalls
      ∧ AcceptedOnce 30 s.history := by
  have hnames : Along (TaskFilter.step 30) (NoClash 30) .init sampleCalls := by
    refine @noClash_of_distinct _ _ [⟨"r", "a"⟩, ⟨"r", "b"⟩] (by decide) _ ?_
      fun _ _ _ hmem => absurd hmem List.not_mem_nil
    intro call hcall
    simp only [sampleCalls, List.mem_cons, List.not_mem_nil, or_false] at hcall
    obtain rfl | rfl | rfl | rfl | rfl := hcall
    · exact List.mem_cons_self
    · exact List.mem_cons_of_mem _ List.mem_cons_self
    · exact List.mem_cons_self
    · trivial
    · exact List.mem_cons_self
  obtain ⟨hright, honce⟩ := @isDuplicateTask_iff 30 _ sampleCalls rfl
  exact ⟨_, rfl, hright.mpr hnames, honce⟩

/-- Two tasks of one name: the second is taken for the first. -/
theorem not_isDuplicateTask_right :
    ¬ Along (TaskFilter.step 30) (AnswersRight 30) .init
      [.isDuplicateTask ⟨"a_b", "c"⟩ 0, .isDuplicateTask ⟨"a", "b_c"⟩ 0] := by
  intro h
  have hsecond := (h.2 _ rfl).1
  have hinv : FilterInv 30 _ := FilterInv.step filterInv_init
    (rfl : TaskFilter.step 30 .init (.isDuplicateTask ⟨"a_b", "c"⟩ 0)
      = some _)
  have hheld : Held 30 [.answered ⟨"a_b", "c"⟩ 0 false] ⟨"a_b", "c"⟩ 0 :=
    ⟨[], [], rfl, fun _ hmem => absurd hmem List.not_mem_nil⟩
  have hsame := (hinv.answersRight_iff _).mp hsecond ⟨"a_b", "c"⟩ 0 hheld rfl
  revert hsame
  decide

end PrimiHub.Node
