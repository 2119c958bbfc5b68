/-
When a task leaves nothing behind in the registry.

`ExecuteTask` starts the executor thread before it pushes kAdd, so a
short task, a stop or a kill can get its message into the queue first.
Erasing an id that is not there does nothing, and the kAdd message then
registers a task nobody will ever erase again.

Two kinds of tasks give no message at all when they end: a sub task
launched by hand, and a task a client kills. And a call for data that is
still blocked on a queue of the link context keeps the worker, so that the
cleaning thread destroys the executor but not the context
(`not_cleanedUp_leakingRuns` has a run of each kind).

Where none of this happens (`InTime`), the registry is clean after every
drained run. What holds in every run (`Tracked`): the map is what the
messages made of it, and an executor that has been added and not destroyed
is on its way through one of the queues. What holds in the runs with timely
messages (`TrackedInTime`): an executor that has ended has left a kDel or
kKill message, or is about to; once an id has been ended, the messages
pushed so far leave it without an entry; and a destroyed executor has taken
its context along.
-/
import PrimiHub.Node.Proofs.Registry

namespace PrimiHub.Node

open Lib

-- =================================================== the marks of an end

/-- The id has been ended, or is about to be: a kDel or kKill message was
pushed, or a `KillTask` call or an executor thread is before its push. -/
def Registry.Ending (s : Registry) (workerId : String) : Prop :=
  s.EndPushed workerId ∨ workerId ∈ s.killCalls
  ∨ ∃ e x, s.executors e = some x ∧ x.workerId = workerId
    ∧ x.thread = .cached

/-- The manager pushes nothing and touches only the map and the queues. -/
theorem manage_frame {s s' : Registry} (h : manage s = some s') :
    s'.history = s.history ∧ s'.executors = s.executors
      ∧ s'.killCalls = s.killCalls
      ∧ s'.finishedTaskStatus = s.finishedTaskStatus := by
  unfold manage at h
  split at h
  · cases h
  · rename_i m rest hqueue
    rw [← manage_history hqueue]
    obtain ⟨id, type⟩ := m
    cases type with
    | kAdd e =>
        cases h
        unfold executeAddTaskOperation
        split <;> exact ⟨rfl, rfl, rfl, rfl⟩
    | kDel =>
        cases h
        unfold executeDelTaskOperation
        split <;> exact ⟨rfl, rfl, rfl, rfl⟩
    | kKill =>
        cases h
        unfold executeKillTaskOperation
        split <;> exact ⟨rfl, rfl, rfl, rfl⟩

/-- What a step does to the history: nothing, or one more message, which
ends its id or is the kAdd of an `addTask` step. -/
theorem step_history {s s' : Registry} {a : RegistryAction}
    (h : registryStep s a = some s') :
    s'.history = s.history ∨ ∃ m, s'.history = s.history ++ [m]
      ∧ (m.ends m.workerId = true
        ∨ ∃ e x, a = .addTask e ∧ s.executors e = some x
          ∧ m.workerId = x.workerId) := by
  cases a with
  | executeTask requestId subTaskId manualLaunch =>
      cases h
      unfold executeTask
      simp only
      split <;> exact Or.inl rfl
  | setReady e ready =>
      obtain ⟨x, -, -, rfl⟩ := setReady_inv h
      exact Or.inl rfl
  | addTask e =>
      -- the only message that ends nothing
      obtain ⟨x, hx, -, rfl⟩ := addTask_inv h
      exact Or.inr ⟨_, push_history _ _, Or.inr ⟨e, x, rfl, hx, rfl⟩⟩
  | refuseTask e =>
      obtain ⟨x, -, -, rfl⟩ := refuseTask_inv h
      exact Or.inl rfl
  | cacheStatus e =>
      obtain ⟨x, -, -, rfl⟩ := cacheStatus_inv h
      exact Or.inl rfl
  | complete e =>
      -- ⟨-, rfl⟩⟩ | with a cached status the thread sends kDel when it ends
      obtain ⟨x, -, ⟨-, -, rfl⟩ | ⟨-, rfl⟩⟩ := complete_inv h
      · exact Or.inl rfl
      · exact Or.inr ⟨⟨x.workerId, .kDel⟩, push_history s _,
          Or.inl (by simp [ManageMessage.ends])⟩
  | stopTask id =>
      cases h
      exact Or.inr ⟨_, push_history _ _, Or.inl (by simp [ManageMessage.ends])⟩
  | killTask id executor =>
      cases h
      unfold killTask
      simp only
      split
      · exact Or.inl rfl
      -- the branch of the client sends nothing, and that of the scheduler only
      -- later
      · cases executor <;> exact Or.inl rfl
  | killPush id =>
      obtain ⟨-, rfl⟩ := killPush_inv h
      exact Or.inr ⟨_, push_history _ _, Or.inl (by simp [ManageMessage.ends])⟩
  | dataCall id =>
      cases h
      unfold dataCall
      split <;> exact Or.inl rfl
  | dataWorker id =>
      obtain rfl | ⟨e, rest, -, rfl⟩ := dataWorker_inv h
      · exact Or.inl rfl
      · exact Or.inl rfl
  | dataReturn e =>
      obtain ⟨x, -, -, rfl⟩ := dataReturn_inv h
      exact Or.inl rfl
  | manage => exact Or.inl (manage_frame h).1
  | cleanPop =>
      obtain ⟨queue, rest, -, -, rfl⟩ := cleanPop_inv h
      exact Or.inl rfl
  | cleanDrop =>
      obtain ⟨e, rest, x, -, -, -, rfl⟩ := cleanDrop_inv h
      exact Or.inl rfl
  | killPop =>
      obtain ⟨queue, rest, -, -, rfl⟩ := killPop_inv h
      exact Or.inl rfl
  | killFront =>
      obtain ⟨e, rest, x, -, -, rfl⟩ := killFront_inv h
      exact Or.inl rfl
  | killDrop =>
      obtain ⟨e, rest, x, -, -, -, rfl⟩ := killDrop_inv h
      exact Or.inl rfl
  | cleanDuplicateTaskId uid =>
      cases h
      exact Or.inl rfl
  | cleanTaskStatus id =>
      cases h
      exact Or.inl rfl

/-- What a step may make of the record of an executor. -/
structure Evolves (s : Registry) (a : RegistryAction) (e : Nat)
    (x y : Executor) : Prop where
  workerId : y.workerId = x.workerId
  thread : y.thread = x.thread ∨ (a = .cacheStatus e ∧ y.thread = .cached)
    ∨ (a = .complete e ∧ (x.manualLaunch = true ∨ x.thread = .cached))
  stopRequested : y.stopRequested = true → x.stopRequested = true
    ∨ a = .stopTask x.workerId ∨ (∃ executor, a = .killTask x.workerId executor)
    ∨ a = .killPush x.workerId
  released : y.owned = false → y.context = .live →
    (x.owned = false ∧ x.context = .live)
    ∨ (a = .cleanDrop ∧ s.cleaning.head? = some e ∧ e ∈ s.holders)

/-- A record that stays as it is. -/
theorem Evolves.refl (s : Registry) (a : RegistryAction) (e : Nat)
    (x : Executor) : Evolves s a e x x :=
  ⟨rfl, Or.inl rfl, Or.inl, fun howned hlive => Or.inl ⟨howned, hlive⟩⟩

/-- What a step makes of the executors, of the open kills and of the cached
statuses. -/
structure Advances (s : Registry) (a : RegistryAction) (s' : Registry) :
    Prop where
  executors : ∀ e x, s.executors e = some x →
    ∃ y, s'.executors e = some y ∧ Evolves s a e x y
  created : ∀ e y, s.executors e = none → s'.executors e = some y →
    ¬ y.Ended ∧ y.owned = true
  kills : ∀ id ∈ s.killCalls, id ∈ s'.killCalls ∨ a = .killPush id
  statuses : ∀ id ∈ s'.finishedTaskStatus, id ∈ s.finishedTaskStatus
    ∨ ∃ e y, s'.executors e = some y ∧ y.workerId = id ∧ y.thread = .cached

section Advance

variable {s s' : Registry} {a : RegistryAction}

/-- A step that leaves the executors alone. -/
theorem advances_same (hexecutors : s'.executors = s.executors)
    (hkills : s'.killCalls = s.killCalls)
    (hstatuses : ∀ id ∈ s'.finishedTaskStatus, id ∈ s.finishedTaskStatus) :
    Advances s a s' := by
  refine ⟨?_, ?_, ?_, fun id hid => Or.inl (hstatuses id hid)⟩
  · intro e x hx
    exact ⟨x, hexecutors ▸ hx, .refl s a e x⟩
  · intro e y hnone hy
    rw [hexecutors, hnone] at hy
    cases hy
  · intro id hid
    exact Or.inl (hkills ▸ hid)

/-- A step that changes the record of one executor. -/
theorem advances_set {e : Nat} {x y : Executor}
    (hx : s.executors e = some x)
    (hexecutors : s'.executors = (s.setExecutor e y).executors)
    (hevolves : Evolves s a e x y)
    (hkills : s'.killCalls = s.killCalls)
    (hstatuses : ∀ id ∈ s'.finishedTaskStatus, id ∈ s.finishedTaskStatus
      ∨ (id = y.workerId ∧ y.thread = .cached)) : Advances s a s' := by
  refine ⟨?_, ?_, ?_, ?_⟩
  · intro e' x' hx'
    rw [hexecutors]
    by_cases he : e' = e
    · subst he
      rw [hx, Option.some.injEq] at hx'
      subst hx'
      exact ⟨y, setExecutor_self s e' y, hevolves⟩
    · exact ⟨x', (setExecutor_ne s he y).trans hx', .refl s a e' x'⟩
  · intro e' y' hnone hy
    rw [hexecutors, setExecutor_ne s (ne_of_fresh hx hnone), hnone] at hy
    cases hy
  · intro id hid
    exact Or.inl (hkills ▸ hid)
  · intro id hid
    obtain hid | ⟨rfl, hthread⟩ := hstatuses id hid
    · exact Or.inl hid
    · refine Or.inr ⟨e, y, ?_, rfl, hthread⟩
      rw [hexecutors]
      exact setExecutor_self s e y

/-- A step that marks the executors of an id as stopped. -/
theorem advances_mark {id : String}
    (ha : a = .stopTask id ∨ (∃ executor, a = .killTask id executor)
      ∨ a = .killPush id)
    (hexecutors : s'.executors = (s.markStopped id).executors)
    (hkills : ∀ id' ∈ s.killCalls, id' ∈ s'.killCalls ∨ a = .killPush id')
    (hstatuses : s'.finishedTaskStatus = s.finishedTaskStatus) :
    Advances s a s' := by
  refine ⟨?_, ?_, hkills, fun id' hid => Or.inl (hstatuses ▸ hid)⟩
  · intro e x hx
    refine ⟨if x.workerId = id then { x with stopRequested := true } else x,
      ?_, ?_⟩
    · rw [hexecutors, markStopped_executors, hx]
      rfl
    · split
      · rename_i hid
        subst hid
        exact ⟨rfl, Or.inl rfl, fun _ => Or.inr ha,
          fun howned hlive => Or.inl ⟨howned, hlive⟩⟩
      · exact .refl s a e x
  · intro e y hnone hy
    rw [hexecutors, markStopped_executors, hnone] at hy
    cases hy

/-- A new executor is running. -/
theorem advances_executeTask (hs : Tracked s) (requestId subTaskId : String)
    (manualLaunch : Bool) :
    Advances s a (executeTask s requestId subTaskId manualLaunch) := by
  unfold executeTask
  simp only
  split
  · exact advances_same rfl rfl fun _ h => h
  · have hnew := hs.fresh s.created (Nat.le_refl _)
    refine ⟨?_, ?_, fun id hid => Or.inl hid, fun id hid => Or.inl hid⟩
    · intro e x hx
      exact ⟨x, (setExecutor_ne s (ne_of_fresh hx hnew).symm _).trans hx,
        .refl s a e x⟩
    · intro e y hnone hy
      obtain ⟨rfl, rfl⟩ | ⟨-, hy⟩ := setExecutor_cases hy
      · refine ⟨?_, rfl⟩
        rintro (h | h) <;> cases h
      · rw [hnone] at hy
        cases hy

/-- Whatever the step, a record changes as `Evolves` allows. -/
theorem step_advances (hs : Tracked s) (h : registryStep s a = some s') :
    Advances s a s' := by
  cases a with
  | executeTask requestId subTaskId manualLaunch =>
      cases h
      exact advances_executeTask hs requestId subTaskId manualLaunch
  | setReady e ready =>
      obtain ⟨x, hx, -, rfl⟩ := setReady_inv h
      exact advances_set hx rfl ⟨rfl, Or.inl rfl, Or.inl,
        fun howned hlive => Or.inl ⟨howned, hlive⟩⟩ rfl
        fun _ h => Or.inl h
  | addTask e =>
      obtain ⟨x, hx, -, rfl⟩ := addTask_inv h
      exact advances_set hx rfl ⟨rfl, Or.inl rfl, Or.inl,
        fun howned hlive => Or.inl ⟨howned, hlive⟩⟩ rfl
        fun _ h => Or.inl h
  | refuseTask e =>
      obtain ⟨x, hx, ⟨hcall, -⟩, rfl⟩ := refuseTask_inv h
      -- a worker that was not added is held by no call for data
      have hfree : e ∉ s.holders := by
        intro he
        obtain ⟨x', hx', hadded⟩ := hs.holders e he
        rw [hx, Option.some.injEq] at hx'
        subst hx'
        rw [hcall] at hadded
        cases hadded
      refine advances_set hx rfl ⟨rfl, Or.inl rfl, Or.inl, ?_⟩ rfl
        fun _ h => Or.inl h
      intro _ hlive
      rw [if_neg hfree] at hlive
      cases hlive
  | cacheStatus e =>
      obtain ⟨x, hx, -, rfl⟩ := cacheStatus_inv h
      refine advances_set hx rfl ⟨rfl, Or.inr (Or.inl ⟨rfl, rfl⟩), Or.inl,
        fun howned hlive => Or.inl ⟨howned, hlive⟩⟩ rfl ?_
      intro id hid
      obtain rfl | hid := List.mem_cons.mp hid
      · exact Or.inr ⟨rfl, rfl⟩
      · exact Or.inl hid
  | complete e =>
      obtain ⟨x, hx, ⟨-, hmanual, rfl⟩ | ⟨hcached, rfl⟩⟩ := complete_inv h
      · exact advances_set hx rfl ⟨rfl, Or.inr (Or.inr ⟨rfl, Or.inl hmanual⟩),
          Or.inl, fun howned hlive => Or.inl ⟨howned, hlive⟩⟩ rfl
          fun _ h => Or.inl h
      · exact advances_set hx rfl ⟨rfl, Or.inr (Or.inr ⟨rfl, Or.inr hcached⟩),
          Or.inl, fun howned hlive => Or.inl ⟨howned, hlive⟩⟩ rfl
          fun _ h => Or.inl h
  | stopTask id =>
      cases h
      exact advances_mark (Or.inl rfl) rfl (fun _ h => Or.inl h) rfl
  | killTask id executor =>
      cases h
      unfold killTask
      simp only
      split
      · exact advances_mark (Or.inr (Or.inl ⟨executor, rfl⟩)) rfl
          (fun _ h => Or.inl h) rfl
      · cases executor with
        | client =>
            exact advances_mark (Or.inr (Or.inl ⟨_, rfl⟩)) rfl
              (fun _ h => Or.inl h) rfl
        | scheduler =>
            exact advances_mark (Or.inr (Or.inl ⟨_, rfl⟩)) rfl
              (fun _ h => Or.inl (List.mem_cons_of_mem _ h)) rfl
  | killPush id =>
      obtain ⟨-, rfl⟩ := killPush_inv h
      refine advances_mark (Or.inr (Or.inr rfl)) rfl ?_ rfl
      intro id' hid
      by_cases heq : id' = id
      · exact Or.inr (heq ▸ rfl)
      · exact Or.inl ((List.mem_erase_of_ne heq).mpr hid)
  | dataCall id =>
      cases h
      unfold dataCall
      split <;> exact advances_same rfl rfl fun _ h => h
  | dataWorker id =>
      obtain rfl | ⟨e, rest, -, rfl⟩ := dataWorker_inv h
      · exact advances_same rfl rfl fun _ h => h
      · exact advances_same rfl rfl fun _ h => h
  | dataReturn e =>
      obtain ⟨x, hx, -, rfl⟩ := dataReturn_inv h
      refine advances_set hx rfl ⟨rfl, Or.inl rfl, Or.inl, ?_⟩ rfl
        fun _ h => Or.inl h
      intro howned hlive
      split at hlive
      · exact Or.inl ⟨howned, hlive⟩
      · cases hlive
  | manage =>
      obtain ⟨-, hexecutors, hkills, hstatuses⟩ := manage_frame h
      exact advances_same hexecutors hkills fun _ h => hstatuses ▸ h
  | cleanPop =>
      obtain ⟨queue, rest, -, -, rfl⟩ := cleanPop_inv h
      exact advances_same rfl rfl fun _ h => h
  | cleanDrop =>
      obtain ⟨e, rest, x, hcleaning, hx, -, rfl⟩ := cleanDrop_inv h
      refine advances_set hx rfl ⟨rfl, Or.inl rfl, Or.inl, ?_⟩ rfl
        fun _ h => Or.inl h
      intro _ hlive
      -- the one step that may leave a context without its executor
      by_cases hheld : e ∈ s.holders
      · refine Or.inr ⟨rfl, ?_, hheld⟩
        rw [hcleaning]
        rfl
      · rw [if_neg hheld] at hlive
        cases hlive
  | killPop =>
      obtain ⟨queue, rest, -, -, rfl⟩ := killPop_inv h
      exact advances_same rfl rfl fun _ h => h
  | killFront =>
      obtain ⟨e, rest, x, -, hx, rfl⟩ := killFront_inv h
      exact advances_set hx rfl ⟨rfl, Or.inl rfl, Or.inl,
        fun _ hlive => by cases hlive⟩ rfl fun _ h => Or.inl h
  | killDrop =>
      -- here the context was cleaned before
      obtain ⟨e, rest, x, -, hx, ⟨hdead, -⟩, rfl⟩ := killDrop_inv h
      refine advances_set hx rfl ⟨rfl, Or.inl rfl, Or.inl, ?_⟩ rfl
        fun _ h => Or.inl h
      intro _ hlive
      dsimp only at hlive
      split at hlive
      · exact absurd hlive hdead
      · cases hlive
  | cleanDuplicateTaskId uid =>
      cases h
      exact advances_same rfl rfl fun _ h => h
  | cleanTaskStatus id =>
      cases h
      exact advances_same rfl rfl fun _ h => List.mem_of_mem_filter h

/-- A message that ends the id is in the history from then on. -/
theorem endPushed_step {id : String} (h : registryStep s a = some s')
    (hend : s.EndPushed id) : s'.EndPushed id := by
  obtain ⟨m, hm, hends⟩ := hend
  refine ⟨m, ?_, hends⟩
  obtain heq | ⟨m', heq, -⟩ := step_history h
  · rw [heq]
    exact hm
  · rw [heq]
    exact List.mem_append_left _ hm

/-- A kDel or kKill message ends its id. -/
theorem endPushed_push {id : String} {type : OperateTaskType}
    (htype : type = .kDel ∨ type = .kKill) (s : Registry) :
    (s.push ⟨id, type⟩).EndPushed id := by
  refine ⟨⟨id, type⟩, mem_push_history.mpr (Or.inr rfl), ?_⟩
  rcases htype with rfl | rfl <;> simp [ManageMessage.ends]

/-- An executor thread that has cached its status pushes kDel. -/
theorem endPushed_complete {e : Nat} {x : Executor}
    (hx : s.executors e = some x) (hcached : x.thread = .cached)
    (h : complete s e = some s') : s'.EndPushed x.workerId := by
  obtain ⟨x', hx', ⟨hrunning, -, -⟩ | ⟨-, rfl⟩⟩ := complete_inv h
  · rw [hx, Option.some.injEq] at hx'
    subst hx'
    rw [hcached] at hrunning
    cases hrunning
  · rw [hx, Option.some.injEq] at hx'
    subst hx'
    exact endPushed_push (Or.inl rfl) s

/-- An id that is ending stays so. -/
theorem ending_step {id : String} (hs : Tracked s)
    (h : registryStep s a = some s') (hend : s.Ending id) :
    s'.Ending id := by
  have hadvances := step_advances hs h
  obtain hpushed | hkill | ⟨e, x, hx, rfl, hcached⟩ := hend
  · exact Or.inl (endPushed_step h hpushed)
  · obtain hkill | rfl := hadvances.kills id hkill
    · exact Or.inr (Or.inl hkill)
    · obtain ⟨-, rfl⟩ := killPush_inv h
      exact Or.inl (endPushed_push (Or.inr rfl) _)
  · obtain ⟨y, hy, hevolves⟩ := hadvances.executors e x hx
    obtain hthread | ⟨-, hthread⟩ | ⟨rfl, -⟩ := hevolves.thread
    · exact Or.inr (Or.inr ⟨e, y, hy, hevolves.workerId,
        hthread.trans hcached⟩)
    · exact Or.inr (Or.inr ⟨e, y, hy, hevolves.workerId, hthread⟩)
    · exact Or.inl (endPushed_complete hx hcached h)

end Advance

-- ======================================================= timely messages

/-- Once an id has been ended, the messages pushed so far leave it
without an entry. -/
def EndsStick (messages : List ManageMessage) : Prop :=
  ∀ id, (∃ m ∈ messages, m.ends id = true) → entryOf id messages = none

/-- A message that ends its id. -/
theorem endsStick_end {messages : List ManageMessage} {m : ManageMessage}
    (hs : EndsStick messages) (hends : m.ends m.workerId = true) :
    EndsStick (messages ++ [m]) := by
  rintro id ⟨m', hm', hends'⟩
  rw [entryOf_concat]
  split
  -- the last message is of this id: it erases the entry
  · obtain ⟨workerId, type⟩ := m
    cases type with
    | kAdd e => simp [ManageMessage.ends] at hends
    | kDel => rfl
    | kKill => rfl
  · rename_i hid
    -- the id was ended before, and the last message is of another
    refine hs id ⟨m', ?_, hends'⟩
    rw [List.mem_append, List.mem_singleton] at hm'
    rcases hm' with hm' | rfl
    · exact hm'
    · refine absurd ?_ hid
      simp only [ManageMessage.ends, Bool.and_eq_true, decide_eq_true_eq]
        at hends'
      exact hends'.1

/-- A kAdd message for an id that has not been ended. -/
theorem endsStick_add {messages : List ManageMessage} {m : ManageMessage}
    (hs : EndsStick messages)
    (htime : ∀ m' ∈ messages, m'.ends m.workerId = false) :
    EndsStick (messages ++ [m]) := by
  cases hends : m.ends m.workerId with
  | true => exact endsStick_end hs hends
  | false =>
      rintro id ⟨m', hm', hends'⟩
      rw [entryOf_concat]
      rw [List.mem_append, List.mem_singleton] at hm'
      -- an id that was ended is not that of the new message
      have hid : m.workerId ≠ id := by
        rintro rfl
        rcases hm' with hm' | rfl
        · rw [htime m' hm'] at hends'
          cases hends'
        · rw [hends] at hends'
          cases hends'
      rw [if_neg hid]
      rcases hm' with hm' | rfl
      · exact hs id ⟨m', hm', hends'⟩
      · simp only [ManageMessage.ends, Bool.and_eq_true, decide_eq_true_eq]
          at hends'
        exact absurd hends'.1 hid

/-- What the runs with timely messages keep. -/
structure TrackedInTime (s : Registry) : Prop where
  tracked : Tracked s
  inTime : EndsStick s.history
  statuses : ∀ id ∈ s.finishedTaskStatus, s.Ending id
  ended : ∀ e x, s.executors e = some x → x.Ended → s.Ending x.workerId
  released : ∀ e x, s.executors e = some x → x.owned = false →
    x.context ≠ .live

/-- Nothing has happened yet. -/
theorem trackedInTime_init : TrackedInTime Registry.init := by
  refine ⟨tracked_init, ?_, ?_, ?_, ?_⟩
  · rintro id ⟨m, hm, -⟩
    cases hm
  · intro id hid
    cases hid
  · intro e x hx
    cases hx
  · intro e x hx
    cases hx

section InTime

variable {s s' : Registry} {a : RegistryAction}

/-- A kAdd message in time comes before the end of its id. -/
theorem endsStick_step (hs : TrackedInTime s) (htime : InTime s a)
    (h : registryStep s a = some s') : EndsStick s'.history := by
  obtain heq | ⟨m, heq, hends | ⟨e, x, rfl, hx, hid⟩⟩ := step_history h
  · rw [heq]
    exact hs.inTime
  · rw [heq]
    exact endsStick_end hs.inTime hends
  · rw [heq]
    refine endsStick_add hs.inTime fun m' hm' => ?_
    rw [hid, ← Bool.not_eq_true]
    exact fun hends => htime x hx ⟨m', hm', hends⟩

/-- An executor that ends by itself in time has left a message, or one was
there. -/
theorem ending_complete {e : Nat} {x : Executor}
    (hx : s.executors e = some x) (htime : InTime s (.complete e))
    (h : complete s e = some s')
    (hcase : x.manualLaunch = true ∨ x.thread = .cached) :
    s'.EndPushed x.workerId := by
  obtain hmanual | hcached := hcase
  · exact endPushed_step (a := .complete e) h (htime x hx hmanual)
  · exact endPushed_complete hx hcached h

/-- A kill in time is followed by its message, or comes after one. -/
theorem ending_killTask {id : String} {executor : KillExecutor}
    (hs : TrackedInTime s) (htime : InTime s (.killTask id executor)) :
    (killTask s id executor).Ending id := by
  have hkeeps : s.Ending id → (killTask s id executor).Ending id :=
    ending_step (a := .killTask id executor) hs.tracked rfl
  by_cases hfinished : id ∈ s.finishedTaskStatus
  · exact hkeeps (hs.statuses id hfinished)
  · cases executor with
    | client => exact hkeeps (Or.inl (htime.resolve_left hfinished))
    | scheduler =>
        refine Or.inr (Or.inl ?_)
        unfold killTask
        rw [if_neg hfinished]
        exact List.mem_cons_self

/-- An executor has ended only if its id is ending. -/
theorem ended_step (hs : TrackedInTime s) (htime : InTime s a)
    (h : registryStep s a = some s') {e : Nat} {y : Executor}
    (hy : s'.executors e = some y) (hended : y.Ended) :
    s'.Ending y.workerId := by
  have hadvances := step_advances hs.tracked h
  cases hx : s.executors e with
  | none => exact absurd hended (hadvances.created e y hx hy).1
  | some x =>
      obtain ⟨y', hy', hevolves⟩ := hadvances.executors e x hx
      rw [hy, Option.some.injEq] at hy'
      subst hy'
      rw [hevolves.workerId]
      have hold : x.Ended → s'.Ending x.workerId := fun hx' =>
        ending_step hs.tracked h (hs.ended e x hx hx')
      -- hstop := hended | its thread has ended, or it was asked to stop
      obtain hthread | hstop := hended
      · obtain heq | ⟨-, hcached⟩ | ⟨rfl, hcase⟩ := hevolves.thread
        · exact hold (Or.inl (heq ▸ hthread))
        · rw [hcached] at hthread
          cases hthread
        · exact Or.inl (ending_complete hx htime h hcase)
      -- rfl | ⟨executor, rfl⟩ | rfl := | asked by this step: each of the three
      -- leaves its message
      · obtain hstop | rfl | ⟨executor, rfl⟩ | rfl :=
          hevolves.stopRequested hstop
        · exact hold (Or.inr hstop)
        · cases h
          exact Or.inl (endPushed_push (Or.inl rfl) _)
        · cases h
          exact ending_killTask hs htime
        · obtain ⟨-, rfl⟩ := killPush_inv h
          exact Or.inl (endPushed_push (Or.inr rfl) _)

/-- A destroyed executor has taken its context along, as no call for data
held the worker. -/
theorem released_step (hs : TrackedInTime s) (htime : InTime s a)
    (h : registryStep s a = some s') {e : Nat} {y : Executor}
    (hy : s'.executors e = some y) (howned : y.owned = false) :
    y.context ≠ .live := by
  intro hlive
  have hadvances := step_advances hs.tracked h
  cases hx : s.executors e with
  | none =>
      rw [(hadvances.created e y hx hy).2] at howned
      cases howned
  | some x =>
      obtain ⟨y', hy', hevolves⟩ := hadvances.executors e x hx
      rw [hy, Option.some.injEq] at hy'
      subst hy'
      obtain ⟨howned', hlive'⟩ | ⟨rfl, hhead, hheld⟩ :=
        hevolves.released howned hlive
      · exact hs.released e x hx howned' hlive'
      -- a call held the worker the cleaning thread took, which is not in time
      · exact htime e hhead hheld

/-- Every step in time keeps all of it. -/
theorem trackedInTime_step (hs : TrackedInTime s)
    (h : inTimeStep s a = some s') : TrackedInTime s' := by
  unfold inTimeStep at h
  split at h
  · rename_i htime
    refine ⟨tracked_step hs.tracked h, endsStick_step hs htime h, ?_, ?_, ?_⟩
    · intro id hid
      obtain hold | hnew := (step_advances hs.tracked h).statuses id hid
      · exact ending_step hs.tracked h (hs.statuses id hold)
      · exact Or.inr (Or.inr hnew)
    · exact fun e y hy hended => ended_step hs htime h hy hended
    · exact fun e y hy howned => released_step hs htime h hy howned
  · cases h

end InTime

-- ================================================================== runs

/-- In every run whose steps are all in time, once an executor has finished
or a stop or kill was requested for it, and the queues are drained, nothing
of its worker id is left and no other entry was touched. -/
theorem ended_cleanedUp {actions : List RegistryAction} {s : Registry}
    {workerId : String}
    (hrun : run inTimeStep Registry.init actions = some s)
    (hended : ∃ e x, s.executors e = some x ∧ x.workerId = workerId ∧ x.Ended)
    (hdrained : Drained s workerId) : CleanedUp s workerId := by
  have hs : TrackedInTime s :=
    run_invariant (fun _ _ _ => trackedInTime_step) trackedInTime_init hrun
  have hhistory : s.history = s.handled := by
    rw [Registry.history, hdrained.manage, List.append_nil]
  obtain ⟨e, x, hx, rfl, hxended⟩ := hended
  have hpushed : s.EndPushed x.workerId := by
    obtain h | h | ⟨e', x', hx', hid, hcached⟩ := hs.ended e x hx hxended
    · exact h
    · exact absurd h hdrained.kills
    · exact absurd hcached (hdrained.threads e' x' hx' hid)
  have herased : s.taskExecutorMap x.workerId = none := by
    rw [hs.tracked.map_eq, ← hhistory]
    exact hs.inTime x.workerId hpushed
  refine ⟨herased, ?_, hs.tracked.map_eq⟩
  intro e' x' hx' hid hlive
  have howned : x'.owned = true := by
    rw [← Bool.not_eq_false]
    exact fun h => hs.released e' x' hx' h hlive
  cases hcall : x'.call with
  | waiting => exact hdrained.calls e' x' hx' hid hcall
  | refused =>
      rw [hs.tracked.refused e' x' hx' hcall] at howned
      cases howned
  | added =>
      -- every place an added executor can be in is empty
      have hheld := hs.tracked.held e' x' hx' hcall howned
      rw [Registry.Holds, hdrained.manage, hdrained.finished, hdrained.kill,
        hdrained.cleaning, hdrained.killing] at hheld
      obtain ⟨id, queue, hq, he⟩ | h := hheld
      · obtain ⟨y, hy, hyid, -⟩ := added_of_entry hs.tracked hq he
        rw [hx', Option.some.injEq] at hy
        subst hy
        rw [← hyid, hid, herased] at hq
        cases hq
      · simp at h

/-- Whether the registry is drained can be read off the executors that were
created. -/
theorem Drained.of_created {s : Registry} {workerId : String}
    (hs : Tracked s) (hmanage : s.taskManageQueue = [])
    (hfinished : s.finishedTaskQueue = []) (hkill : s.killTaskQueue = [])
    (hcleaning : s.cleaning = []) (hkilling : s.killing = [])
    (hexecutors : ∀ e < s.created, ∀ x ∈ s.executors e,
      x.call ≠ .waiting ∧ x.thread ≠ .cached)
    (hkills : workerId ∉ s.killCalls) : Drained s workerId := by
  have hall : ∀ e x, s.executors e = some x →
      x.call ≠ .waiting ∧ x.thread ≠ .cached := by
    intro e x hx
    refine hexecutors e (Nat.lt_of_not_le fun hle => ?_) x hx
    rw [hs.fresh e hle] at hx
    cases hx
  exact ⟨hmanage, hfinished, hkill, hcleaning, hkilling,
    fun e x hx _ => (hall e x hx).1, fun e x hx _ => (hall e x hx).2, hkills⟩

/-- Two tasks in the intended order. The first serves a call for data that
returns, ends, and is taken down; the second is killed by the scheduler
while a call for data waits on its context. -/
def timelyRun : List RegistryAction :=
  [.executeTask "req" "sub" false, .setReady 0 true, .addTask 0, .manage,
    .dataCall "req", .dataWorker "req", .dataReturn 0, .cacheStatus 0,
    .complete 0, .manage, .cleanPop, .cleanDrop,
    .executeTask "other" "sub" true, .setReady 1 true, .addTask 1, .manage,
    .dataCall "other", .dataWorker "other", .killTask "other" .scheduler,
    .killPush "other", .manage, .killPop, .killFront, .complete 1, .killDrop]

/-- The intended order meets the condition. -/
theorem ended_cleanedUp_timely :
    ∃ s, run inTimeStep Registry.init timelyRun = some s
      ∧ s.holders = [1] ∧ CleanedUp s "req" ∧ CleanedUp s "other" := by
  obtain ⟨s, hrun⟩ : ∃ s, run inTimeStep Registry.init timelyRun = some s :=
    ⟨_, rfl⟩
  have hs : TrackedInTime s :=
    run_invariant (fun _ _ _ => trackedInTime_step) trackedInTime_init hrun
  refine ⟨s, hrun, ?_, ended_cleanedUp hrun ?_ ?_, ended_cleanedUp hrun ?_ ?_⟩
  all_goals cases hrun
  · rfl
  · exact ⟨0, _, rfl, rfl, Or.inl rfl⟩
  · exact .of_created hs.tracked rfl rfl rfl rfl rfl (by decide) (by decide)
  · exact ⟨1, _, rfl, rfl, Or.inl rfl⟩
  · exact .of_created hs.tracked rfl rfl rfl rfl rfl (by decide) (by decide)

/-- Runs that each break one part of the condition: the task ends before
`ExecuteTask` has pushed its kAdd, and a kill comes before that; a sub task
launched by hand ends; a client kills the task; a call for data still waits
on the context when the executor is cleaned up. -/
def leakingRuns : List (List RegistryAction) :=
  [[.executeTask "req" "sub" false, .setReady 0 true, .cacheStatus 0,
      .complete 0, .addTask 0, .manage, .manage],
    [.executeTask "req" "sub" false, .killTask "req" .scheduler,
      .killPush "req", .setReady 0 true, .addTask 0, .manage, .manage],
    [.executeTask "req" "sub" true, .setReady 0 true, .addTask 0, .manage,
      .complete 0],
    [.executeTask "req" "sub" false, .setReady 0 true, .addTask 0, .manage,
      .killTask "req" .client],
    [.executeTask "req" "sub" false, .setReady 0 true, .addTask 0, .manage,
      .dataCall "req", .dataWorker "req", .cacheStatus 0, .complete 0,
      .manage, .cleanPop, .cleanDrop]]

/-- The run drains the queues behind a task that has ended, and leaves
something of it: it is still registered, or its context is live. -/
def Leaks (actions : List RegistryAction) : Prop :=
  ∃ s, run registryStep Registry.init actions = some s
    ∧ (∃ e x, s.executors e = some x ∧ x.workerId = "req" ∧ x.Ended)
    ∧ Drained s "req" ∧ ¬ CleanedUp s "req"

/-- A run that has drained the queues and left something. -/
theorem leaks_of_run {actions : List RegistryAction} {s : Registry}
    (hrun : run registryStep Registry.init actions = some s)
    (hended : ∃ e x, s.executors e = some x ∧ x.workerId = "req" ∧ x.Ended)
    (hmanage : s.taskManageQueue = []) (hfinished : s.finishedTaskQueue = [])
    (hkill : s.killTaskQueue = []) (hcleaning : s.cleaning = [])
    (hkilling : s.killing = [])
    (hexecutors : ∀ e < s.created, ∀ x ∈ s.executors e,
      x.call ≠ .waiting ∧ x.thread ≠ .cached)
    (hkills : "req" ∉ s.killCalls) (hleak : ¬ CleanedUp s "req") :
    Leaks actions := by
  have hs : Tracked s :=
    run_invariant (fun _ _ _ => tracked_step) tracked_init hrun
  exact ⟨s, hrun, hended, .of_created hs hmanage hfinished hkill hcleaning
    hkilling hexecutors hkills, hleak⟩

/-- Each of them does. -/
theorem not_cleanedUp_leakingRuns : leakingRuns.Forall Leaks := by
  rw [List.forall_iff_forall_mem]
  simp only [leakingRuns, List.forall_mem_cons]
  refine ⟨?_, ?_, ?_, ?_, ?_, nofun⟩
  · exact leaks_of_run rfl ⟨0, _, rfl, rfl, Or.inl rfl⟩ rfl rfl rfl rfl rfl
      (by decide) (by decide) fun h => by cases h.erased
  · exact leaks_of_run rfl ⟨0, _, rfl, rfl, Or.inr rfl⟩ rfl rfl rfl rfl rfl
      (by decide) (by decide) fun h => by cases h.erased
  · exact leaks_of_run rfl ⟨0, _, rfl, rfl, Or.inl rfl⟩ rfl rfl rfl rfl rfl
      (by decide) (by decide) fun h => by cases h.erased
  · exact leaks_of_run rfl ⟨0, _, rfl, rfl, Or.inr rfl⟩ rfl rfl rfl rfl rfl
      (by decide) (by decide) fun h => by cases h.erased
  · exact leaks_of_run rfl ⟨0, _, rfl, rfl, Or.inl rfl⟩ rfl rfl rfl rfl rfl
      (by decide) (by decide) fun h => h.contexts 0 _ rfl rfl rfl

end PrimiHub.Node
