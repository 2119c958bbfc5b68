/-
What every run of the task registry keeps (`tracked_step`).

The map is what the messages made of it: the entry of an id is that of the
messages of this id alone, in their order (`entryOf`). An executor that has
been added and not destroyed is on its way through one of the queues
(`Registry.Holds`), and the calls for data hold only workers that were
added.

For each step first what it can do, one inversion lemma a function, and
then what it keeps.
-/
import Mathlib.Data.List.Induction
import Mathlib.Tactic.Tauto
import PrimiHub.Node.Registry

namespace PrimiHub.Node

open Lib

-- =============================================================== entries

/-- One more message seen from one id. -/
theorem entryOf_concat (id : String) (messages : List ManageMessage)
    (m : ManageMessage) :
    entryOf id (messages ++ [m])
      = if m.workerId = id then entryStep (entryOf id messages) m
        else entryOf id messages := by
  unfold entryOf
  rw [List.filter_append, List.foldl_append]
  by_cases h : m.workerId = id
  · simp [h]
  · simp [h]

/-- An executor in an entry was added to it. -/
theorem mem_entryOf {id : String} {messages : List ManageMessage}
    {queue : List Nat} {e : Nat} (h : entryOf id messages = some queue)
    (he : e ∈ queue) : ⟨id, .kAdd e⟩ ∈ messages := by
  induction messages using List.reverseRecOn generalizing queue with
  | nil => cases h
  | append_singleton messages m ih =>
      rw [entryOf_concat] at h
      rw [List.mem_append]
      split at h
      · rename_i hid
        obtain ⟨workerId, type⟩ := m
        cases type with
        | kAdd e' =>
            simp only [entryStep, Option.some.injEq] at h
            rw [← h, List.mem_append, List.mem_singleton] at he
            rcases he with he | rfl
            · left
              cases hprev : entryOf id messages with
              | none => simp [hprev] at he
              | some prev =>
                  rw [hprev] at he
                  exact ih hprev he
            · right
              rw [List.mem_singleton, ← hid]
        | kDel => cases h
        | kKill => cases h
      · exact Or.inl (ih h he)

-- ============================================================= invariant

/-- The executor is registered, or on its way to or from the map. -/
def Registry.Holds (s : Registry) (e : Nat) : Prop :=
  (∃ id queue, s.taskExecutorMap id = some queue ∧ e ∈ queue)
  ∨ (∃ id, ⟨id, .kAdd e⟩ ∈ s.taskManageQueue)
  ∨ e ∈ s.finishedTaskQueue.flatten ∨ e ∈ s.killTaskQueue.flatten
  ∨ e ∈ s.cleaning ∨ e ∈ s.killing

/-- What holds in every run, timely or not. -/
structure Tracked (s : Registry) : Prop where
  map_eq : ∀ id, s.taskExecutorMap id = entryOf id s.handled
  fresh : ∀ e, s.created ≤ e → s.executors e = none
  added : ∀ id e, ⟨id, .kAdd e⟩ ∈ s.history →
    ∃ x, s.executors e = some x ∧ x.workerId = id ∧ x.call = .added
  held : ∀ e x, s.executors e = some x → x.call = .added →
    x.owned = true → s.Holds e
  refused : ∀ e x, s.executors e = some x → x.call = .refused →
    x.owned = false
  holders : ∀ e ∈ s.holders, ∃ x, s.executors e = some x ∧ x.call = .added

/-- The invariant after `Init`. -/
theorem tracked_init : Tracked Registry.init := by
  refine ⟨fun _ => rfl, fun _ _ => rfl, ?_, ?_, ?_, ?_⟩
  · intro id e h
    cases h
  · intro e x h
    cases h
  · intro e x h
    cases h
  · intro e h
    cases h

-- =================================================== what a step can do

section Inversion

variable {s s' : Registry} {e : Nat} {id : String}

/-- `set_ready` answers once, while its thread runs. -/
theorem setReady_inv {ready : Bool} (h : setReady s e ready = some s') :
    ∃ x, s.executors e = some x ∧ (x.thread = .running ∧ x.ready = none)
      ∧ s' = s.setExecutor e { x with ready := some ready } := by
  unfold setReady at h
  split at h
  · rename_i x hx
    split at h
    · rename_i hcond
      cases h
      exact ⟨x, hx, hcond, rfl⟩
    · cases h
  · cases h

/-- A call whose executor is ready registers it and queues the message to
add it. -/
theorem addTask_inv (h : addTask s e = some s') :
    ∃ x, s.executors e = some x ∧ (x.call = .waiting ∧ x.ready = some true)
      ∧ s' = (s.setExecutor e { x with call := .added }).push
          ⟨x.workerId, .kAdd e⟩ := by
  unfold addTask at h
  split at h
  · rename_i x hx
    split at h
    · rename_i hcond
      cases h
      exact ⟨x, hx, hcond, rfl⟩
    · cases h
  · cases h

/-- A call whose executor did not come up lets go of it when the thread has
ended. -/
theorem refuseTask_inv (h : refuseTask s e = some s') :
    ∃ x, s.executors e = some x
      ∧ (x.call = .waiting ∧ x.ready = some false ∧ x.thread = .ended)
      ∧ s' = s.drop e { x with call := .refused } := by
  unfold refuseTask at h
  split at h
  · rename_i x hx
    split at h
    · rename_i hcond
      cases h
      exact ⟨x, hx, hcond, rfl⟩
    · cases h
  · cases h

/-- The thread of a sub task that was not launched by hand caches its
status. -/
theorem cacheStatus_inv (h : cacheStatus s e = some s') :
    ∃ x, s.executors e = some x
      ∧ (x.thread = .running ∧ x.manualLaunch = false)
      ∧ s' = { s.setExecutor e { x with thread := .cached } with
          finishedTaskStatus := x.workerId :: s.finishedTaskStatus } := by
  unfold cacheStatus at h
  split at h
  · rename_i x hx
    split at h
    · rename_i hcond
      cases h
      exact ⟨x, hx, hcond, rfl⟩
    · cases h
  · cases h

/-- A sub task launched by hand ends without a word; any other pushes a
kDel message. -/
theorem complete_inv (h : complete s e = some s') :
    ∃ x, s.executors e = some x
      ∧ ((x.thread = .running ∧ x.manualLaunch = true
          ∧ s' = s.setExecutor e { x with thread := .ended })
        ∨ (x.thread = .cached
          ∧ s' = (s.push ⟨x.workerId, .kDel⟩).setExecutor e
              { x with thread := .ended })) := by
  unfold complete at h
  split at h
  · rename_i x hx
    refine ⟨x, hx, ?_⟩
    simp only at h
    split at h
    · rename_i hthread
      split at h
      · rename_i hmanual
        cases h
        exact Or.inl ⟨hthread, hmanual, rfl⟩
      · cases h
    · rename_i hthread
      cases h
      exact Or.inr ⟨hthread, rfl⟩
    · cases h
  · cases h

/-- The second half of a kill: the workers of the id are stopped and the
message is queued. -/
theorem killPush_inv (h : killPush s id = some s') :
    id ∈ s.killCalls
      ∧ s' = ({ s with killCalls := s.killCalls.erase id }.markStopped
          id).push ⟨id, .kKill⟩ := by
  unfold killPush at h
  split at h
  · rename_i hcall
    cases h
    exact ⟨hcall, rfl⟩
  · cases h

/-- `GetWorker` finds the worker at the front of the entry, or the call
fails. -/
theorem dataWorker_inv (h : dataWorker s id = some s') :
    s' = { s with dataCalls := s.dataCalls.erase id }
      ∨ ∃ e rest, s.taskExecutorMap id = some (e :: rest)
        ∧ s' = { s with
            dataCalls := s.dataCalls.erase id, holders := e :: s.holders } := by
  unfold dataWorker at h
  split at h
  · simp only at h
    split at h
    · rename_i e rest hentry
      cases h
      exact Or.inr ⟨e, rest, hentry, rfl⟩
    · cases h
      exact Or.inl rfl
  · cases h

/-- A call that returns gives up its handle, and the last handle takes the
context with it. -/
theorem dataReturn_inv (h : dataReturn s e = some s') :
    ∃ x, s.executors e = some x ∧ e ∈ s.holders
      ∧ s' = { s.setExecutor e { x with context :=
            if x.owned ∨ e ∈ s.holders.erase e then x.context
            else .released } with
          holders := s.holders.erase e } := by
  unfold dataReturn at h
  split at h
  · rename_i x hx
    split at h
    · rename_i hheld
      cases h
      exact ⟨x, hx, hheld, rfl⟩
    · cases h
  · cases h

/-- The cleaning thread takes the next batch of finished executors. -/
theorem cleanPop_inv (h : cleanPop s = some s') :
    ∃ queue rest, s.cleaning = [] ∧ s.finishedTaskQueue = queue :: rest
      ∧ s' = { s with cleaning := queue, finishedTaskQueue := rest } := by
  unfold cleanPop at h
  split at h
  · rename_i queue rest hcleaning hfinished
    cases h
    exact ⟨queue, rest, hcleaning, hfinished, rfl⟩
  · cases h

/-- The killing thread takes the next batch of killed executors. -/
theorem killPop_inv (h : killPop s = some s') :
    ∃ queue rest, s.killing = [] ∧ s.killTaskQueue = queue :: rest
      ∧ s' = { s with killing := queue, killTaskQueue := rest } := by
  unfold killPop at h
  split at h
  · rename_i queue rest hkilling hkill
    cases h
    exact ⟨queue, rest, hkilling, hkill, rfl⟩
  · cases h

/-- The cleaning thread destroys an executor whose thread has ended. -/
theorem cleanDrop_inv (h : cleanDrop s = some s') :
    ∃ e rest x, s.cleaning = e :: rest ∧ s.executors e = some x
      ∧ x.thread = .ended ∧ s' = { s.drop e x with cleaning := rest } := by
  unfold cleanDrop at h
  split at h
  · cases h
  · rename_i e rest hcleaning
    split at h
    · rename_i x hx
      split at h
      · rename_i hthread
        cases h
        exact ⟨e, rest, x, hcleaning, hx, hthread, rfl⟩
      · cases h
    · cases h

/-- The killing thread cleans the context of the first of its batch. -/
theorem killFront_inv (h : killFront s = some s') :
    ∃ e rest x, s.killing = e :: rest ∧ s.executors e = some x
      ∧ s' = s.setExecutor e { x with context := .cleaned } := by
  unfold killFront at h
  split at h
  · cases h
  · rename_i e rest hkilling
    split at h
    · rename_i x hx
      cases h
      exact ⟨e, rest, x, hkilling, hx, rfl⟩
    · cases h

/-- The killing thread destroys an executor that has been cleaned and whose
thread has ended. -/
theorem killDrop_inv (h : killDrop s = some s') :
    ∃ e rest x, s.killing = e :: rest ∧ s.executors e = some x
      ∧ (x.context ≠ .live ∧ x.thread = .ended)
      ∧ s' = { s.drop e x with killing := rest } := by
  unfold killDrop at h
  split at h
  · cases h
  · rename_i e rest hkilling
    split at h
    · rename_i x hx
      split at h
      · rename_i hcond
        cases h
        exact ⟨e, rest, x, hkilling, hx, hcond, rfl⟩
      · cases h
    · cases h

end Inversion

-- ================================================== the pieces of a step

/-- The executor that was set. -/
theorem setExecutor_self (s : Registry) (e : Nat) (y : Executor) :
    (s.setExecutor e y).executors e = some y :=
  Function.update_self ..

/-- Every other executor is as before. -/
theorem setExecutor_ne (s : Registry) {e e' : Nat} (h : e' ≠ e)
    (y : Executor) : (s.setExecutor e y).executors e' = s.executors e' :=
  Function.update_of_ne h ..

/-- A kill asks the executors of its id to stop and no other. -/
theorem markStopped_executors (s : Registry) (id : String) (e : Nat) :
    (s.markStopped id).executors e = (s.executors e).map fun x =>
      if x.workerId = id then { x with stopRequested := true } else x :=
  rfl

/-- An index in use is not a fresh one. -/
theorem ne_of_fresh {s : Registry} {e e' : Nat} {x : Executor}
    (hx : s.executors e = some x) (hfresh : s.executors e' = none) :
    e' ≠ e := by
  intro he
  rw [he, hx] at hfresh
  cases hfresh

/-- What a new record leaves of the executors. -/
theorem setExecutor_cases {s : Registry} {e e' : Nat} {x' y : Executor}
    (h : (s.setExecutor e y).executors e' = some x') :
    (e' = e ∧ x' = y) ∨ (e' ≠ e ∧ s.executors e' = some x') := by
  by_cases he : e' = e
  · subst he
    rw [setExecutor_self, Option.some.injEq] at h
    exact Or.inl ⟨rfl, h.symm⟩
  · rw [setExecutor_ne s he] at h
    exact Or.inr ⟨he, h⟩

/-- A new record for an executor that keeps its id and does not become
added or owned. -/
theorem tracked_setExecutor {s : Registry} {e : Nat} {x y : Executor}
    (hs : Tracked s) (hx : s.executors e = some x)
    (hid : y.workerId = x.workerId)
    (hcall : y.call = .added ↔ x.call = .added)
    (howned : y.owned = true → x.owned = true)
    (hrefused : y.call = .refused → y.owned = false) :
    Tracked (s.setExecutor e y) := by
  have hadded : ∀ e', (∃ x', s.executors e' = some x' ∧ x'.call = .added) →
      ∃ x', (s.setExecutor e y).executors e' = some x'
        ∧ x'.call = .added := by
    intro e' h
    obtain ⟨x', hx', hadded⟩ := h
    by_cases he : e' = e
    · subst he
      rw [hx, Option.some.injEq] at hx'
      subst hx'
      exact ⟨y, setExecutor_self s e' y, hcall.mpr hadded⟩
    · exact ⟨x', (setExecutor_ne s he y).trans hx', hadded⟩
  refine ⟨hs.map_eq, ?_, ?_, ?_, ?_, fun e' he' => hadded e' (hs.holders e' he')⟩
  · intro e' he'
    have hold := hs.fresh e' he'
    rw [setExecutor_ne s (ne_of_fresh hx hold)]
    exact hold
  · intro id e' hmem
    obtain ⟨x', hx', hid', hadded'⟩ := hs.added id e' hmem
    by_cases he : e' = e
    · subst he
      rw [hx, Option.some.injEq] at hx'
      subst hx'
      exact ⟨y, setExecutor_self s e' y, hid.trans hid', hcall.mpr hadded'⟩
    · exact ⟨x', by rw [setExecutor_ne s he, hx'], hid', hadded'⟩
  · intro e' x' h hadded' howned'
    obtain ⟨rfl, rfl⟩ | ⟨-, hx'⟩ := setExecutor_cases h
    · exact hs.held e' x hx (hcall.mp hadded') (howned howned')
    · exact hs.held e' x' hx' hadded' howned'
  · intro e' x' h
    obtain ⟨rfl, rfl⟩ | ⟨-, hx'⟩ := setExecutor_cases h
    · exact hrefused
    · exact hs.refused e' x' hx'

/-- The filter of request ids, the cached statuses and the open calls of
KillTask and for data play no part. -/
theorem tracked_bookkeeping {s : Registry} (hs : Tracked s)
    (filter statuses kills calls : List String) :
    Tracked { s with
      duplicateTaskIdFilter := filter, finishedTaskStatus := statuses,
      killCalls := kills, dataCalls := calls } :=
  ⟨hs.map_eq, hs.fresh, hs.added, hs.held, hs.refused, hs.holders⟩

/-- Calls for data that hold workers which were added. -/
theorem tracked_holders {s : Registry} (hs : Tracked s) {holders : List Nat}
    (hholders : ∀ e ∈ holders,
      ∃ x, s.executors e = some x ∧ x.call = .added) :
    Tracked { s with holders := holders } :=
  ⟨hs.map_eq, hs.fresh, hs.added, hs.held, hs.refused, hholders⟩

/-- A push shows at the end of the history. -/
theorem push_history (s : Registry) (m : ManageMessage) :
    (s.push m).history = s.history ++ [m] := by
  rw [Registry.history, Registry.push, Registry.history, List.append_assoc]

/-- The pushed message is in the history, after the others. -/
theorem mem_push_history {s : Registry} {m m' : ManageMessage} :
    m' ∈ (s.push m).history ↔ m' ∈ s.history ∨ m' = m := by
  rw [push_history, List.mem_append, List.mem_singleton]

/-- A push keeps what is held. -/
theorem holds_push {s : Registry} {e : Nat} (m : ManageMessage)
    (h : s.Holds e) : (s.push m).Holds e := by
  rcases h with h | ⟨id, h⟩ | h
  · exact Or.inl h
  · exact Or.inr (Or.inl ⟨id, List.mem_append_left _ h⟩)
  · exact Or.inr (Or.inr h)

/-- Pushing a kDel or kKill message. -/
theorem tracked_push {s : Registry} (hs : Tracked s) {m : ManageMessage}
    (hm : ∀ e, m.type ≠ .kAdd e) : Tracked (s.push m) := by
  refine ⟨hs.map_eq, hs.fresh, ?_, ?_, hs.refused, hs.holders⟩
  · intro id e h
    rcases mem_push_history.mp h with h | rfl
    · exact hs.added id e h
    · exact absurd rfl (hm e)
  · intro e x hx hadded howned
    exact holds_push m (hs.held e x hx hadded howned)

/-- Marking the executors of an id. -/
theorem tracked_markStopped {s : Registry} (hs : Tracked s) (id : String) :
    Tracked (s.markStopped id) := by
  have hmark : ∀ e y, (s.markStopped id).executors e = some y →
      ∃ x, s.executors e = some x ∧ y.call = x.call ∧ y.owned = x.owned := by
    intro e y h
    obtain ⟨x, hx, hy⟩ := Option.map_eq_some_iff.mp h
    refine ⟨x, hx, ?_⟩
    rw [← hy]
    split <;> exact ⟨rfl, rfl⟩
  have hkeep : ∀ e x, s.executors e = some x →
      ∃ y, (s.markStopped id).executors e = some y
        ∧ y.workerId = x.workerId ∧ y.call = x.call := by
    intro e x hx
    refine ⟨_, by rw [markStopped_executors, hx]; rfl, ?_⟩
    dsimp only
    split <;> exact ⟨rfl, rfl⟩
  refine ⟨hs.map_eq, ?_, ?_, ?_, ?_, ?_⟩
  · intro e he
    rw [markStopped_executors, hs.fresh e he]
    rfl
  · intro id' e hmem
    obtain ⟨x, hx, hid, hadded⟩ := hs.added id' e hmem
    obtain ⟨y, hy, hyid, hycall⟩ := hkeep e x hx
    exact ⟨y, hy, hyid.trans hid, hycall.trans hadded⟩
  · intro e y h hadded howned
    obtain ⟨x, hx, hcall, howned'⟩ := hmark e y h
    exact hs.held e x hx (hcall ▸ hadded) (howned' ▸ howned)
  · intro e y h hrefused
    obtain ⟨x, hx, hcall, howned⟩ := hmark e y h
    rw [howned]
    exact hs.refused e x hx (hcall ▸ hrefused)
  · intro e he
    obtain ⟨x, hx, hadded⟩ := hs.holders e he
    obtain ⟨y, hy, -, hycall⟩ := hkeep e x hx
    exact ⟨y, hy, hycall.trans hadded⟩

/-- A step that only moves executors between the queues behind the map,
and loses none that is owned. -/
theorem tracked_moved {s : Registry} (hs : Tracked s)
    (finished kill : List (List Nat)) (cleaning killing : List Nat)
    (hmoved : ∀ e x, s.executors e = some x → x.owned = true →
      e ∈ s.finishedTaskQueue.flatten ∨ e ∈ s.killTaskQueue.flatten
        ∨ e ∈ s.cleaning ∨ e ∈ s.killing →
      e ∈ finished.flatten ∨ e ∈ kill.flatten ∨ e ∈ cleaning
        ∨ e ∈ killing) :
    Tracked { s with
      finishedTaskQueue := finished, killTaskQueue := kill,
      cleaning := cleaning, killing := killing } := by
  refine ⟨hs.map_eq, hs.fresh, hs.added, ?_, hs.refused, hs.holders⟩
  intro e x hx hadded howned
  rcases hs.held e x hx hadded howned with h | h | h
  · exact Or.inl h
  · exact Or.inr (Or.inl h)
  · exact Or.inr (Or.inr (hmoved e x hx howned h))

-- ============================================================== producers

/-- A new executor is not yet added. -/
theorem tracked_executeTask {s : Registry} (hs : Tracked s)
    (requestId subTaskId : String) (manualLaunch : Bool) :
    Tracked (executeTask s requestId subTaskId manualLaunch) := by
  unfold executeTask
  simp only
  split
  · exact hs
  · have hnew := hs.fresh s.created (Nat.le_refl _)
    have hold : ∀ e x, s.executors e = some x →
        Function.update s.executors s.created (some ⟨requestId, manualLaunch,
          none, .running, .waiting, false, true, .live⟩) e = some x := by
      intro e x hx
      rw [Function.update_of_ne (ne_of_fresh hx hnew).symm]
      exact hx
    have hupdate : ∀ e x, e ≠ s.created → Function.update s.executors s.created
        (some ⟨requestId, manualLaunch, none, .running, .waiting, false, true,
          .live⟩) e = some x → s.executors e = some x := by
      intro e x he h
      rwa [Function.update_of_ne he] at h
    refine ⟨hs.map_eq, ?_, ?_, ?_, ?_, ?_⟩
    · intro e he
      have hlt : s.created < e := he
      show Function.update s.executors s.created _ e = none
      rw [Function.update_of_ne (by omega)]
      exact hs.fresh e (by omega)
    · intro id e h
      obtain ⟨x, hx, hid, hadded⟩ := hs.added id e h
      exact ⟨x, hold e x hx, hid, hadded⟩
    · intro e x hx hadded howned
      by_cases he : e = s.created
      · subst he
        cases (Function.update_self ..).symm.trans hx
        cases hadded
      · exact hs.held e x (hupdate e x he hx) hadded howned
    · intro e x hx hrefused
      by_cases he : e = s.created
      · subst he
        cases (Function.update_self ..).symm.trans hx
        cases hrefused
      · exact hs.refused e x (hupdate e x he hx) hrefused
    · intro e he
      obtain ⟨x, hx, hadded⟩ := hs.holders e he
      exact ⟨x, hold e x hx, hadded⟩

/-- An answer moves no executor between the queues. -/
theorem tracked_setReady {s s' : Registry} {e : Nat} {ready : Bool}
    (hs : Tracked s) (h : setReady s e ready = some s') : Tracked s' := by
  obtain ⟨x, hx, -, rfl⟩ := setReady_inv h
  exact tracked_setExecutor hs hx rfl Iff.rfl (fun h => h)
    (hs.refused e x hx)

/-- The executor is added and its kAdd message is under way. -/
theorem tracked_addTask {s s' : Registry} {e : Nat} (hs : Tracked s)
    (h : addTask s e = some s') : Tracked s' := by
  obtain ⟨x, hx, -, rfl⟩ := addTask_inv h
  have hadded : ∀ e', (∃ x', s.executors e' = some x' ∧ x'.call = .added) →
      ∃ x', (s.setExecutor e { x with call := .added }).executors e' = some x'
        ∧ x'.call = .added := by
    intro e' h
    obtain ⟨x', hx', hadded⟩ := h
    by_cases he : e' = e
    · subst he
      exact ⟨_, setExecutor_self s e' _, rfl⟩
    · exact ⟨x', (setExecutor_ne s he _).trans hx', hadded⟩
  refine ⟨hs.map_eq, ?_, ?_, ?_, ?_, fun e' he' => hadded e' (hs.holders e' he')⟩
  · intro e' he'
    have hold := hs.fresh e' he'
    exact (setExecutor_ne s (ne_of_fresh hx hold) _).trans hold
  · intro id e' hmem
    obtain hmem | hmem := mem_push_history.mp hmem
    · obtain ⟨x', hx', hid, hadded'⟩ := hs.added id e' hmem
      by_cases he : e' = e
      · subst he
        rw [hx, Option.some.injEq] at hx'
        subst hx'
        exact ⟨_, setExecutor_self s e' _, hid, rfl⟩
      · exact ⟨x', (setExecutor_ne s he _).trans hx', hid, hadded'⟩
    · cases hmem
      exact ⟨_, setExecutor_self s e _, rfl, rfl⟩
  · intro e' x' h hadded' howned
    obtain ⟨rfl, -⟩ | ⟨-, hx'⟩ := setExecutor_cases h
    · refine Or.inr (Or.inl ⟨x.workerId, ?_⟩)
      exact List.mem_append_right _ (List.mem_singleton.mpr rfl)
    · exact holds_push _ (hs.held e' x' hx' hadded' howned)
  · intro e' x' h hrefused
    obtain ⟨-, rfl⟩ | ⟨-, hx'⟩ := setExecutor_cases h
    · cases hrefused
    · exact hs.refused e' x' hx' hrefused

/-- A destroyed executor. -/
theorem tracked_drop {s : Registry} {e : Nat} {x y : Executor}
    (hs : Tracked s) (hx : s.executors e = some x)
    (hid : y.workerId = x.workerId)
    (hcall : y.call = .added ↔ x.call = .added) : Tracked (s.drop e y) :=
  tracked_setExecutor hs hx hid hcall (fun h => absurd h Bool.false_ne_true)
    (fun _ => rfl)

/-- An executor that was never added is on no way to a queue. -/
theorem tracked_refuseTask {s s' : Registry} {e : Nat} (hs : Tracked s)
    (h : refuseTask s e = some s') : Tracked s' := by
  obtain ⟨x, hx, hcond, rfl⟩ := refuseTask_inv h
  refine tracked_drop hs hx rfl ?_
  rw [hcond.1]
  exact iff_of_false (fun h => by cases h) (fun h => by cases h)

/-- The message for the cached status joins the others. -/
theorem tracked_cacheStatus {s s' : Registry} {e : Nat} (hs : Tracked s)
    (h : cacheStatus s e = some s') : Tracked s' := by
  obtain ⟨x, hx, -, rfl⟩ := cacheStatus_inv h
  have hset := tracked_setExecutor (y := { x with thread := .cached })
    hs hx rfl Iff.rfl (fun h => h) (hs.refused e x hx)
  exact tracked_bookkeeping hset _ _ _ _

/-- The end of an executor thread. -/
theorem tracked_complete {s s' : Registry} {e : Nat} (hs : Tracked s)
    (h : complete s e = some s') : Tracked s' := by
  obtain ⟨x, hx, ⟨-, -, rfl⟩ | ⟨-, rfl⟩⟩ := complete_inv h
  · exact tracked_setExecutor hs hx rfl Iff.rfl (fun h => h)
      (hs.refused e x hx)
  · exact tracked_setExecutor (x := x)
      (tracked_push hs (fun _ h => by cases h)) hx rfl Iff.rfl
      (fun h => h) (hs.refused e x hx)

/-- A message that ends an id, and the mark on its executors. -/
theorem tracked_stop {s : Registry} (hs : Tracked s) (id : String)
    {type : OperateTaskType} (htype : type = .kDel ∨ type = .kKill) :
    Tracked ((s.markStopped id).push ⟨id, type⟩) := by
  refine tracked_push (tracked_markStopped hs id) ?_
  rintro e rfl
  rcases htype with h | h <;> cases h

/-- A kill that has begun has put nothing into a queue yet. -/
theorem tracked_killTask {s : Registry} (hs : Tracked s) (id : String)
    (executor : KillExecutor) : Tracked (killTask s id executor) := by
  have hmarked := tracked_markStopped hs id
  unfold killTask
  simp only
  split
  · exact hmarked
  · cases executor with
    | client => exact hmarked
    | scheduler => exact tracked_bookkeeping hmarked _ _ _ _

/-- The message of a kill joins the others, and no executor changes its
place. -/
theorem tracked_killPush {s s' : Registry} {id : String} (hs : Tracked s)
    (h : killPush s id = some s') : Tracked s' := by
  obtain ⟨-, rfl⟩ := killPush_inv h
  exact tracked_stop (tracked_bookkeeping hs _ _ _ _) id (Or.inr rfl)

-- ========================================================= calls for data

/-- The worker at the front of an entry was added. -/
theorem added_of_entry {s : Registry} (hs : Tracked s) {id : String}
    {queue : List Nat} (hentry : s.taskExecutorMap id = some queue)
    {e : Nat} (he : e ∈ queue) :
    ∃ x, s.executors e = some x ∧ x.workerId = id ∧ x.call = .added := by
  rw [hs.map_eq] at hentry
  exact hs.added id e (List.mem_append_left _ (mem_entryOf hentry he))

/-- A call takes hold of a worker of the map, which was added. -/
theorem tracked_dataWorker {s s' : Registry} {id : String} (hs : Tracked s)
    (h : dataWorker s id = some s') : Tracked s' := by
  obtain rfl | ⟨e, rest, hentry, rfl⟩ := dataWorker_inv h
  · exact tracked_bookkeeping hs _ _ _ _
  · have hcalls := tracked_bookkeeping hs s.duplicateTaskIdFilter
      s.finishedTaskStatus s.killCalls (s.dataCalls.erase id)
    refine tracked_holders hcalls ?_
    intro e' he'
    obtain rfl | he' := List.mem_cons.mp he'
    · obtain ⟨x, hx, -, hadded⟩ := added_of_entry hs hentry
        List.mem_cons_self
      exact ⟨x, hx, hadded⟩
    · exact hs.holders e' he'

/-- A call that returns gives up its own handle. -/
theorem tracked_dataReturn {s s' : Registry} {e : Nat} (hs : Tracked s)
    (h : dataReturn s e = some s') : Tracked s' := by
  obtain ⟨x, hx, -, rfl⟩ := dataReturn_inv h
  have hset := tracked_setExecutor (y := { x with
      context :=
        if x.owned ∨ e ∈ s.holders.erase e then x.context else .released })
    hs hx rfl Iff.rfl (fun h => h) (hs.refused e x hx)
  exact tracked_holders hset fun e' he' =>
    hset.holders e' (List.mem_of_mem_erase he')

-- ============================================================== consumers

/-- The manager's move of a message from the queue to the handled ones
does not show in the history. -/
theorem manage_history {s : Registry} {m : ManageMessage}
    {rest : List ManageMessage} (h : s.taskManageQueue = m :: rest) :
    (s.handled ++ [m]) ++ rest = s.history := by
  rw [Registry.history, h, List.append_assoc, List.singleton_append]

/-- One handled message: the entry of its id follows it, the entries of
the other ids stay, and what was held in the entry, the message or the
queues behind the map stays held. -/
theorem tracked_handled {s s' : Registry} {m : ManageMessage}
    {rest : List ManageMessage} (hs : Tracked s)
    (hqueue : s.taskManageQueue = m :: rest)
    (hexecutors : s'.executors = s.executors)
    (hcreated : s'.created = s.created)
    (hholders : s'.holders = s.holders)
    (hhandled : s'.handled = s.handled ++ [m])
    (hrest : s'.taskManageQueue = rest)
    (hmap : s'.taskExecutorMap = Function.update s.taskExecutorMap m.workerId
      (entryStep (s.taskExecutorMap m.workerId) m))
    (hentry : ∀ queue e, s.taskExecutorMap m.workerId = some queue →
      e ∈ queue → s'.Holds e)
    (hmessage : ∀ e, m.type = .kAdd e → s'.Holds e)
    (hbehind : ∀ e, e ∈ s.finishedTaskQueue.flatten
        ∨ e ∈ s.killTaskQueue.flatten ∨ e ∈ s.cleaning ∨ e ∈ s.killing →
      e ∈ s'.finishedTaskQueue.flatten ∨ e ∈ s'.killTaskQueue.flatten
        ∨ e ∈ s'.cleaning ∨ e ∈ s'.killing) : Tracked s' := by
  have hhistory : s'.history = s.history := by
    rw [Registry.history, hhandled, hrest, manage_history hqueue]
  have hheld : ∀ e, s.Holds e → s'.Holds e := by
    rintro e (⟨id, queue, hq, he⟩ | ⟨id, hmem⟩ | h)
    · by_cases hid : id = m.workerId
      · subst hid
        exact hentry queue e hq he
      · refine Or.inl ⟨id, queue, ?_, he⟩
        rw [hmap, Function.update_of_ne hid, hq]
    · rw [hqueue, List.mem_cons] at hmem
      rcases hmem with rfl | hmem
      · exact hmessage e rfl
      · exact Or.inr (Or.inl ⟨id, hrest ▸ hmem⟩)
    · exact Or.inr (Or.inr (hbehind e h))
  refine ⟨?_, ?_, ?_, ?_, ?_, ?_⟩
  · intro id
    rw [hmap, hhandled, entryOf_concat]
    by_cases hid : m.workerId = id
    · subst hid
      rw [Function.update_self, if_pos rfl, hs.map_eq]
    · rw [Function.update_of_ne (Ne.symm hid), if_neg hid, hs.map_eq]
  · rw [hexecutors, hcreated]
    exact hs.fresh
  · rw [hexecutors, hhistory]
    exact hs.added
  · rw [hexecutors]
    intro e x hx hadded howned
    exact hheld e (hs.held e x hx hadded howned)
  · rw [hexecutors]
    exact hs.refused
  · rw [hexecutors, hholders]
    exact hs.holders

/-- kAdd moves the executor from the message into the map. -/
theorem tracked_manage_add {s : Registry} {id : String} {e : Nat}
    {rest : List ManageMessage} (hs : Tracked s)
    (hqueue : s.taskManageQueue = ⟨id, .kAdd e⟩ :: rest) :
    Tracked (executeAddTaskOperation { s with
      taskManageQueue := rest, handled := s.handled ++ [⟨id, .kAdd e⟩] }
      id e) := by
  have heq : executeAddTaskOperation { s with
      taskManageQueue := rest, handled := s.handled ++ [⟨id, .kAdd e⟩] } id e
      = { s with
          taskManageQueue := rest, handled := s.handled ++ [⟨id, .kAdd e⟩]
          taskExecutorMap := Function.update s.taskExecutorMap id
            (some ((s.taskExecutorMap id).getD [] ++ [e])) } := by
    unfold executeAddTaskOperation
    cases s.taskExecutorMap id <;> rfl
  rw [heq]
  refine tracked_handled hs hqueue rfl rfl rfl rfl rfl rfl ?_ ?_
    (fun _ h => h)
  · intro queue e' hq he
    refine Or.inl ⟨id, _, Function.update_self .., ?_⟩
    rw [hq]
    exact List.mem_append_left _ he
  · intro e' htype
    cases htype
    refine Or.inl ⟨id, _, Function.update_self .., ?_⟩
    exact List.mem_append_right _ (List.mem_singleton.mpr rfl)

/-- A kDel or kKill message for an id without an entry changes nothing
but the queue. -/
theorem tracked_manage_absent {s : Registry} {m : ManageMessage}
    {rest : List ManageMessage} (hs : Tracked s)
    (hqueue : s.taskManageQueue = m :: rest)
    (hends : m.ends m.workerId = true)
    (habsent : s.taskExecutorMap m.workerId = none) :
    Tracked { s with
      taskManageQueue := rest, handled := s.handled ++ [m] } := by
  obtain ⟨id, type⟩ := m
  have hstep : ∀ entry, entryStep entry ⟨id, type⟩ = none := by
    intro entry
    cases type with
    | kAdd e => simp [ManageMessage.ends] at hends
    | kDel => rfl
    | kKill => rfl
  refine tracked_handled hs hqueue rfl rfl rfl rfl rfl ?_ ?_ ?_
    (fun _ h => h)
  · rw [hstep, ← habsent, Function.update_eq_self]
  · intro queue e hq
    rw [habsent] at hq
    cases hq
  · rintro e rfl
    simp [ManageMessage.ends] at hends

/-- kDel moves the entry to the cleaning thread. -/
theorem tracked_manage_del {s : Registry} {id : String}
    {rest : List ManageMessage} (hs : Tracked s)
    (hqueue : s.taskManageQueue = ⟨id, .kDel⟩ :: rest) :
    Tracked (executeDelTaskOperation { s with
      taskManageQueue := rest, handled := s.handled ++ [⟨id, .kDel⟩] } id) := by
  unfold executeDelTaskOperation
  split
  · rename_i queue hentry
    refine tracked_handled hs hqueue rfl rfl rfl rfl rfl rfl ?_ ?_ ?_
    · intro queue' e hq he
      cases hq.symm.trans hentry
      refine Or.inr (Or.inr (Or.inl ?_))
      simp [he]
    · intro e htype
      cases htype
    · rintro e (h | h)
      · left
        simp [h]
      · exact Or.inr h
  · rename_i hentry
    exact tracked_manage_absent hs hqueue (by simp [ManageMessage.ends]) hentry

/-- kKill moves the entry to the kill thread. -/
theorem tracked_manage_kill {s : Registry} {id : String}
    {rest : List ManageMessage} (hs : Tracked s)
    (hqueue : s.taskManageQueue = ⟨id, .kKill⟩ :: rest) :
    Tracked (executeKillTaskOperation { s with
      taskManageQueue := rest, handled := s.handled ++ [⟨id, .kKill⟩] } id) := by
  unfold executeKillTaskOperation
  split
  · rename_i queue hentry
    refine tracked_handled hs hqueue rfl rfl rfl rfl rfl rfl ?_ ?_ ?_
    · intro queue' e hq he
      cases hq.symm.trans hentry
      refine Or.inr (Or.inr (Or.inr (Or.inl ?_)))
      simp [he]
    · intro e htype
      cases htype
    · rintro e (h | h | h)
      · exact Or.inl h
      · refine Or.inr (Or.inl ?_)
        simp [h]
      · exact Or.inr (Or.inr h)
  · rename_i hentry
    exact tracked_manage_absent hs hqueue (by simp [ManageMessage.ends]) hentry

/-- The manager moves the entry of an id from the map to one of the two
queues. -/
theorem tracked_manage {s s' : Registry} (hs : Tracked s)
    (h : manage s = some s') : Tracked s' := by
  unfold manage at h
  split at h
  · cases h
  · rename_i m rest hqueue
    obtain ⟨id, type⟩ := m
    cases type with
    | kAdd e =>
        cases h
        exact tracked_manage_add hs hqueue
    | kDel =>
        cases h
        exact tracked_manage_del hs hqueue
    | kKill =>
        cases h
        exact tracked_manage_kill hs hqueue

/-- A batch goes from the queue to the hands of the cleaning thread. -/
theorem tracked_cleanPop {s s' : Registry} (hs : Tracked s)
    (h : cleanPop s = some s') : Tracked s' := by
  obtain ⟨queue, rest, hcleaning, hfinished, rfl⟩ := cleanPop_inv h
  refine tracked_moved hs rest s.killTaskQueue queue s.killing ?_
  intro e x _ _ hbehind
  rw [hcleaning, hfinished, List.flatten_cons, List.mem_append] at hbehind
  tauto

/-- A batch goes from the queue to the hands of the killing thread. -/
theorem tracked_killPop {s s' : Registry} (hs : Tracked s)
    (h : killPop s = some s') : Tracked s' := by
  obtain ⟨queue, rest, hkilling, hkill, rfl⟩ := killPop_inv h
  refine tracked_moved hs s.finishedTaskQueue rest s.cleaning queue ?_
  intro e x _ _ hbehind
  rw [hkilling, hkill, List.flatten_cons, List.mem_append] at hbehind
  tauto

/-- An executor that is owned is not the one just destroyed. -/
theorem ne_of_owned {s : Registry} {e e' : Nat} {x x' : Executor}
    (h : (s.drop e x).executors e' = some x') (howned : x'.owned = true) :
    e' ≠ e := by
  rintro rfl
  cases (setExecutor_self s e' _).symm.trans h
  cases howned

/-- An executor that is destroyed need not be on its way any more. -/
theorem tracked_cleanDrop {s s' : Registry} (hs : Tracked s)
    (h : cleanDrop s = some s') : Tracked s' := by
  obtain ⟨e, rest, x, hcleaning, hx, -, rfl⟩ := cleanDrop_inv h
  refine tracked_moved (tracked_drop hs hx rfl Iff.rfl) s.finishedTaskQueue
    s.killTaskQueue rest s.killing ?_
  intro e' x' hx' howned hbehind
  have hne := ne_of_owned hx' howned
  have hcleaning' : (s.drop e x).cleaning = e :: rest := hcleaning
  rw [hcleaning', List.mem_cons] at hbehind
  tauto

/-- A context that is cleaned changes no place. -/
theorem tracked_killFront {s s' : Registry} (hs : Tracked s)
    (h : killFront s = some s') : Tracked s' := by
  obtain ⟨e, rest, x, -, hx, rfl⟩ := killFront_inv h
  exact tracked_setExecutor hs hx rfl Iff.rfl (fun h => h)
    (hs.refused e x hx)

/-- As in the cleaning thread. -/
theorem tracked_killDrop {s s' : Registry} (hs : Tracked s)
    (h : killDrop s = some s') : Tracked s' := by
  obtain ⟨e, rest, x, hkilling, hx, -, rfl⟩ := killDrop_inv h
  refine tracked_moved (tracked_drop hs hx rfl Iff.rfl) s.finishedTaskQueue
    s.killTaskQueue s.cleaning rest ?_
  intro e' x' hx' howned hbehind
  have hne := ne_of_owned hx' howned
  have hkilling' : (s.drop e x).killing = e :: rest := hkilling
  rw [hkilling', List.mem_cons] at hbehind
  tauto

/-- Every step of the registry keeps track. -/
theorem tracked_step {s s' : Registry} {a : RegistryAction} (hs : Tracked s)
    (h : registryStep s a = some s') : Tracked s' := by
  cases a with
  | executeTask requestId subTaskId manualLaunch =>
      cases h
      exact tracked_executeTask hs requestId subTaskId manualLaunch
  | setReady e ready => exact tracked_setReady hs h
  | addTask e => exact tracked_addTask hs h
  | refuseTask e => exact tracked_refuseTask hs h
  | cacheStatus e => exact tracked_cacheStatus hs h
  | complete e => exact tracked_complete hs h
  | stopTask id =>
      cases h
      exact tracked_stop hs id (Or.inl rfl)
  | killTask id executor =>
      cases h
      exact tracked_killTask hs id executor
  | killPush id => exact tracked_killPush hs h
  | dataCall id =>
      cases h
      unfold dataCall
      split
      · exact hs
      · exact tracked_bookkeeping hs _ _ _ _
  | dataWorker id => exact tracked_dataWorker hs h
  | dataReturn e => exact tracked_dataReturn hs h
  | manage => exact tracked_manage hs h
  | cleanPop => exact tracked_cleanPop hs h
  | cleanDrop => exact tracked_cleanDrop hs h
  | killPop => exact tracked_killPop hs h
  | killFront => exact tracked_killFront hs h
  | killDrop => exact tracked_killDrop hs h
  | cleanDuplicateTaskId uid =>
      cases h
      exact tracked_bookkeeping hs _ _ _ _
  | cleanTaskStatus id =>
      cases h
      exact tracked_bookkeeping hs _ _ _ _

end PrimiHub.Node
