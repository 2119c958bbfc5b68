/-
When `LinkContext::Clean` leaves no queue running.

`GetRecvQueue` shuts a queue down that it creates after `stop_` was set;
`GetSendQueue` and `GetCompleteQueue` do not. So the receive queues are
all down after `Clean`, whatever else happened (`recvDown_step`), while a
send or completion queue that comes into being after `Clean` has visited
its map stays running for good, since nothing visits it again
(`lateDown_step`). Both are followed along a run; the second as an
equivalence, step by step.

# Chain

1. `down_update_same`, `down_get_iff`: one map and one key.
2. `recvDown_step`, `lateDown_step`: one step.
3. `shutdown_complete_iff`: whole runs.
-/
import PrimiHub.Network.Link

namespace PrimiHub.Network

open Lib
open Node (Bytes Retcode)

variable {α : Type}

-- ========================================================== one map

/-- A pop on a queue that is shut down does not wait. -/
theorem waitAndPop_of_stop {q : ThreadSafeQueue α} (h : q.stop = true)
    (v : α) : q.waitAndPop v = some (q, v) := by
  rw [ThreadSafeQueue.waitAndPop, if_pos h]

/-- Neither use of a queue touches its flag. -/
theorem queueUse_stop {q q' : ThreadSafeQueue α} {use : QueueUse α}
    (h : use.apply q = some q') : q'.stop = q.stop := by
  cases use with
  | push item =>
      rw [QueueUse.apply, Option.some.injEq] at h
      rw [← h]
      rfl
  | waitAndPop v =>
      rw [QueueUse.apply, Option.map_eq_some_iff] at h
      obtain ⟨⟨q₁, w⟩, hpop, rfl⟩ := h
      unfold ThreadSafeQueue.waitAndPop at hpop
      split at hpop
      · injection hpop with hpop
        injection hpop with hq _
        rw [← hq]
      · split at hpop
        · cases hpop
        · injection hpop with hpop
          injection hpop with hq _
          rw [← hq]

/-- A step that uses a queue of a map finds it there and keeps its
flag. -/
theorem use_inv (m : QueueMap α) (key : String) (use : QueueUse α)
    (put : ThreadSafeQueue α → LinkState) {s' : LinkState}
    (h : ((m key).bind fun q => (use.apply q).map put) = some s') :
    ∃ q q', m key = some q ∧ q'.stop = q.stop ∧ s' = put q' := by
  obtain ⟨q, hq, hstep⟩ := Option.bind_eq_some_iff.mp h
  obtain ⟨q', huse, rfl⟩ := Option.map_eq_some_iff.mp hstep
  exact ⟨q, q', hq, queueUse_stop huse, rfl⟩

theorem useRecvQueue_inv {s s' : LinkState} {key : String}
    {use : QueueUse Bytes}
    (h : linkStep s (.useRecvQueue key use) = some s') :
    ∃ q q', s.ctx.inDataQueue key = some q ∧ q'.stop = q.stop
      ∧ s' = ⟨s.ctx.setRecvQueue key q', s.phase⟩ := by
  apply use_inv s.ctx.inDataQueue key use
    fun q => ⟨s.ctx.setRecvQueue key q, s.phase⟩
  rw [← h, linkStep]
  cases s.ctx.inDataQueue key <;> rfl

theorem useSendQueue_inv {s s' : LinkState} {key : String}
    {use : QueueUse Bytes}
    (h : linkStep s (.useSendQueue key use) = some s') :
    ∃ q q', s.ctx.outDataQueue key = some q ∧ q'.stop = q.stop
      ∧ s' = ⟨s.ctx.setSendQueue key q', s.phase⟩ := by
  apply use_inv s.ctx.outDataQueue key use
    fun q => ⟨s.ctx.setSendQueue key q, s.phase⟩
  rw [← h, linkStep]
  cases s.ctx.outDataQueue key <;> rfl

theorem useCompleteQueue_inv {s s' : LinkState} {key : String}
    {use : QueueUse Retcode}
    (h : linkStep s (.useCompleteQueue key use) = some s') :
    ∃ q q', s.ctx.completeQueue key = some q ∧ q'.stop = q.stop
      ∧ s' = ⟨s.ctx.setCompletionQueue key q', s.phase⟩ := by
  apply use_inv s.ctx.completeQueue key use
    fun q => ⟨s.ctx.setCompletionQueue key q, s.phase⟩
  rw [← h, linkStep]
  cases s.ctx.completeQueue key <;> rfl

/-- After the loop of `Clean` over a map, all of it is down. -/
theorem shutdownAll_down (m : QueueMap α) : m.shutdownAll.Down := by
  intro key q hq
  unfold QueueMap.shutdownAll at hq
  rw [Option.map_eq_some_iff] at hq
  obtain ⟨q₀, -, rfl⟩ := hq
  rfl

/-- One queue replaced: the map is down if that one is and the others
are. -/
theorem down_update_iff (m : QueueMap α) (key : String)
    (q : ThreadSafeQueue α) :
    QueueMap.Down (Function.update m key (some q))
      ↔ q.stop = true ∧ ∀ key' ≠ key, ∀ q', m key' = some q' →
        q'.stop = true := by
  constructor
  · intro h
    constructor
    · apply h key
      exact Function.update_self key _ m
    · intro key' hne q' hq'
      apply h key'
      rw [Function.update_of_ne hne, hq']
  · intro hc key' q' hq'
    obtain ⟨hq, hothers⟩ := hc
    by_cases hkey : key' = key
    · subst hkey
      rw [Function.update_self, Option.some.injEq] at hq'
      rw [← hq', hq]
    · rw [Function.update_of_ne hkey] at hq'
      exact hothers key' hkey q' hq'

/-- A queue replaced by one with the same flag changes nothing. -/
theorem down_update_same {m : QueueMap α} {key : String}
    {q q' : ThreadSafeQueue α} (hq : m key = some q)
    (hstop : q'.stop = q.stop) :
    QueueMap.Down (Function.update m key (some q')) ↔ m.Down := by
  rw [down_update_iff, hstop]
  constructor
  · intro hc key' q₁ hq₁
    obtain ⟨hdown, hothers⟩ := hc
    by_cases hkey : key' = key
    · subst hkey
      rw [hq, Option.some.injEq] at hq₁
      rw [← hq₁, hdown]
    · exact hothers key' hkey q₁ hq₁
  · intro h
    exact ⟨h key q hq, fun key' _ q₁ hq₁ => h key' q₁ hq₁⟩

/-- An accessor that does not shut down what it creates: the map stays
down exactly if the key was in it. -/
theorem down_get_iff (m : QueueMap α) (key : String) :
    QueueMap.Down (Function.update m key (some ((m key).getD .empty)))
      ↔ m.Down ∧ (m key).isSome := by
  cases hkey : m key with
  | some q =>
      rw [Option.getD_some, down_update_same hkey rfl]
      simp only [Option.isSome_some, and_true]
  | none =>
      rw [Option.getD_none, down_update_iff]
      simp only [ThreadSafeQueue.empty, Bool.false_eq_true, false_and,
        Option.isSome_none, and_false]

/-- `GetSendQueue`'s queue, with the default spelled out. -/
theorem sendQueue_eq (ctx : LinkContext) (key : String) :
    ctx.sendQueue key = (ctx.outDataQueue key).getD .empty := by
  unfold LinkContext.sendQueue
  cases ctx.outDataQueue key <;> rfl

/-- `GetCompleteQueue`'s queue, with the default spelled out. -/
theorem completionQueue_eq (ctx : LinkContext) (key : String) :
    ctx.completionQueue key = (ctx.completeQueue key).getD .empty := by
  unfold LinkContext.completionQueue
  cases ctx.completeQueue key <;> rfl

-- ========================================================== receive queues

/-- The part of shutdown `GetRecvQueue` sees to: `stop_` is set from the
first part of `Clean` on, and the receive queues are down from the second
on. -/
structure RecvDown (s : LinkState) : Prop where
  stopped : s.phase ≠ .notCalled → s.ctx.stop = true
  down : s.phase ≠ .notCalled → s.phase ≠ .stopSet → s.ctx.inDataQueue.Down

/-- `GetRecvQueue` on a stopped context keeps the map down. -/
theorem down_getRecvQueue {ctx : LinkContext} (hstop : ctx.stop = true)
    (h : ctx.inDataQueue.Down) (key : String) :
    (ctx.getRecvQueue key).inDataQueue.Down := by
  show QueueMap.Down (Function.update ctx.inDataQueue key
    (some (ctx.recvQueue key)))
  rw [down_update_iff]
  refine ⟨?_, fun key' _ q' hq' => h key' q' hq'⟩
  unfold LinkContext.recvQueue
  cases hkey : ctx.inDataQueue key with
  | some q => exact h key q hkey
  | none =>
      show (if ctx.stop = true then ThreadSafeQueue.empty.shutdown
        else (ThreadSafeQueue.empty : ThreadSafeQueue Bytes)).stop = true
      rw [if_pos hstop]
      rfl

/-- No step leaves a receive queue running that `Clean` has passed. -/
theorem recvDown_step {s s' : LinkState} {a : LinkAction}
    (h : linkStep s a = some s') (hs : RecvDown s) : RecvDown s' := by
  cases a with
  | getRecvQueue key =>
      rw [linkStep, Option.some.injEq] at h
      subst h
      -- a queue that is asked for after the stop is shut down at once
      exact ⟨hs.stopped, fun h₁ h₂ =>
        down_getRecvQueue (hs.stopped h₁) (hs.down h₁ h₂) key⟩
  | getSendQueue key =>
      rw [linkStep, Option.some.injEq] at h
      subst h
      exact ⟨hs.stopped, hs.down⟩
  | getCompleteQueue key =>
      rw [linkStep, Option.some.injEq] at h
      subst h
      exact ⟨hs.stopped, hs.down⟩
  | useRecvQueue key use =>
      obtain ⟨q, q', hq, hstop, rfl⟩ := useRecvQueue_inv h
      refine ⟨hs.stopped, fun h₁ h₂ => ?_⟩
      exact (down_update_same hq hstop).mpr (hs.down h₁ h₂)
  | useSendQueue key use =>
      obtain ⟨q, q', -, -, rfl⟩ := useSendQueue_inv h
      exact ⟨hs.stopped, hs.down⟩
  | useCompleteQueue key use =>
      obtain ⟨q, q', -, -, rfl⟩ := useCompleteQueue_inv h
      exact ⟨hs.stopped, hs.down⟩
  | clean =>
      unfold linkStep at h
      obtain ⟨ctx, phase⟩ := s
      cases phase with
      | notCalled =>
          injection h with h
          subst h
          exact ⟨fun _ => rfl, fun _ h₂ => absurd rfl h₂⟩
      | stopSet =>
          injection h with h
          subst h
          exact ⟨fun _ => hs.stopped nofun, fun _ _ =>
            shutdownAll_down _⟩
      | inDone =>
          injection h with h
          subst h
          exact ⟨fun _ => hs.stopped nofun,
            fun _ _ => hs.down nofun nofun⟩
      | outDone =>
          injection h with h
          subst h
          exact ⟨fun _ => hs.stopped nofun,
            fun _ _ => hs.down nofun nofun⟩
      | finished => cases h

-- ================================================ send and completion queues

/-- The maps `Clean` has visited among those of the send and completion
queues are down. -/
def LateDown (s : LinkState) : Prop :=
  (s.phase.outVisited = true → s.ctx.outDataQueue.Down)
    ∧ (s.phase = .finished → s.ctx.completeQueue.Down)

/-- An implication whose conclusion gains a conjunct. -/
theorem imp_and_iff {p a b : Prop} : (p → a ∧ b) ↔ (p → a) ∧ (p → b) :=
  forall_and

/-- A step leaves the visited maps down exactly if they were and it does
not create a queue in one of them: a running queue in a visited map is
never visited again. -/
theorem lateDown_step {s s' : LinkState} {a : LinkAction}
    (h : linkStep s a = some s') :
    LateDown s' ↔ LateDown s ∧ NoLateQueue s a := by
  cases a with
  | getRecvQueue key =>
      rw [linkStep, Option.some.injEq] at h
      subst h
      exact (and_iff_left trivial).symm
  | getSendQueue key =>
      rw [linkStep, Option.some.injEq] at h
      subst h
      show ((s.phase.outVisited = true → QueueMap.Down
          (Function.update s.ctx.outDataQueue key
            (some (s.ctx.sendQueue key)))) ∧ _) ↔ _
      -- a queue that is created runs, so it must not come after the visit
      rw [sendQueue_eq, down_get_iff, imp_and_iff, and_right_comm]
      rfl
  | getCompleteQueue key =>
      rw [linkStep, Option.some.injEq] at h
      subst h
      show (_ ∧ (s.phase = .finished → QueueMap.Down
          (Function.update s.ctx.completeQueue key
            (some (s.ctx.completionQueue key))))) ↔ _
      rw [completionQueue_eq, down_get_iff, imp_and_iff, ← and_assoc]
      rfl
  | useRecvQueue key use =>
      obtain ⟨q, q', -, -, rfl⟩ := useRecvQueue_inv h
      exact (and_iff_left trivial).symm
  | useSendQueue key use =>
      obtain ⟨q, q', hq, hstop, rfl⟩ := useSendQueue_inv h
      show ((_ → QueueMap.Down (Function.update _ key (some q'))) ∧ _) ↔ _
      rw [down_update_same hq hstop]
      exact (and_iff_left trivial).symm
  | useCompleteQueue key use =>
      obtain ⟨q, q', hq, hstop, rfl⟩ := useCompleteQueue_inv h
      show (_ ∧ (_ → QueueMap.Down (Function.update _ key (some q')))) ↔ _
      rw [down_update_same hq hstop]
      exact (and_iff_left trivial).symm
  | clean =>
      rw [show NoLateQueue s .clean ↔ True from Iff.rfl, and_true]
      unfold linkStep at h
      -- the visits, one map at a time
      obtain ⟨ctx, phase⟩ := s
      cases phase with
      | notCalled =>
          injection h with h
          subst h
          exact ⟨fun _ => ⟨nofun, nofun⟩, fun _ => ⟨nofun, nofun⟩⟩
      | stopSet =>
          injection h with h
          subst h
          exact ⟨fun _ => ⟨nofun, nofun⟩, fun _ => ⟨nofun, nofun⟩⟩
      | inDone =>
          injection h with h
          subst h
          exact ⟨fun _ => ⟨nofun, nofun⟩, fun _ =>
            ⟨fun _ => shutdownAll_down _, nofun⟩⟩
      | outDone =>
          injection h with h
          subst h
          exact ⟨fun hd => ⟨hd.1, nofun⟩, fun hd =>
            ⟨hd.1, fun _ => shutdownAll_down _⟩⟩
      | finished => cases h

-- ================================================================== runs

/-- With the three maps down, shutdown is complete. -/
theorem shutdownComplete_iff (ctx : LinkContext) :
    ShutdownComplete ctx ↔ ctx.inDataQueue.Down ∧ ctx.outDataQueue.Down
      ∧ ctx.completeQueue.Down := by
  constructor
  · intro h
    exact ⟨h.inDown, h.outDown, h.completeDown⟩
  · intro h
    obtain ⟨hin, hout, hcomplete⟩ := h
    refine ⟨hin, hout, hcomplete, ?_, ?_, ?_⟩
    · intro key q v hq
      rw [waitAndPop_of_stop (hin key q hq), Option.isSome_some]
    · intro key q v hq
      rw [waitAndPop_of_stop (hout key q hq), Option.isSome_some]
    · intro key q v hq
      rw [waitAndPop_of_stop (hcomplete key q hq), Option.isSome_some]

/-- In every state after `Clean` has finished, every queue is shut down
exactly if no send or completion queue was created after `Clean` had
visited its map. -/
theorem shutdown_complete_iff {acts : List LinkAction} {s : LinkState}
    (hrun : run linkStep .init acts = some s) (hfin : s.phase = .finished) :
    ShutdownComplete s.ctx ↔ Along linkStep NoLateQueue .init acts := by
  have hinit : RecvDown .init := ⟨nofun, nofun⟩
  have hrecv : RecvDown s :=
    run_invariant (fun _ _ _ hi h => recvDown_step h hi) hinit hrun
  have hin : s.ctx.inDataQueue.Down := by
    apply hrecv.down <;> rw [hfin] <;> decide
  have hlate : LateDown s
      ↔ LateDown .init ∧ Along linkStep NoLateQueue _ acts :=
    run_iff_along (fun _ _ _ h => lateDown_step h) hrun
  have hstart : LateDown .init := ⟨nofun, nofun⟩
  rw [shutdownComplete_iff, and_iff_right hin]
  rw [and_iff_right hstart] at hlate
  rw [← hlate]
  unfold LateDown
  rw [hfin]
  constructor
  · intro h
    exact ⟨fun _ => h.1, fun _ => h.2⟩
  · intro h
    exact ⟨h.1 rfl, h.2 rfl⟩

/-- A run with queues made before and during `Clean`, and a receive
queue made after it. -/
theorem shutdown_complete_early :
    ∃ s, run linkStep .init [.getSendQueue "k", .clean, .clean,
        .getCompleteQueue "k", .clean, .clean, .getRecvQueue "late"] = some s
      ∧ ShutdownComplete s.ctx := by
  have hrun : run linkStep .init [.getSendQueue "k", .clean, .clean,
      .getCompleteQueue "k", .clean, .clean, .getRecvQueue "late"]
      = some _ := rfl
  refine ⟨_, hrun, (shutdown_complete_iff hrun rfl).mpr ?_⟩
  iterate 7 rw [along_cons_iff rfl]
  exact ⟨nofun, trivial, trivial, nofun, trivial, trivial, trivial, trivial⟩

/-- `GetSendQueue` with a new key after `Clean`: the queue it creates is
running, and a `wait_and_pop` on it waits. -/
theorem late_send_queue_running :
    ∃ s, run linkStep .init [.clean, .clean, .clean, .clean,
        .getSendQueue "k"] = some s ∧ s.phase = .finished
      ∧ ¬ ShutdownComplete s.ctx := by
  refine ⟨_, rfl, rfl, ?_⟩
  intro h
  have hstop := h.outDown "k" .empty rfl
  cases hstop

end PrimiHub.Network
