/-
When the verdict of `dispatch` is the outcome of the calls.

What the threads leave behind does not depend on their order: the flag is
up if some thread raises it, and the calls and the task servers are those
of all threads (`dispatched`). Each scheduler but the one for Python
raises the flag for a call that fails (`raises_iff`), so the verdict of
that one is wrong exactly if a call fails (`truthful_iff`).
-/
import Mathlib.Data.List.Flatten
import PrimiHub.Task.Dispatch

namespace PrimiHub.Task

open Lib

variable {scheduler : Scheduler} {localNode : Node} {request : RpcTask}
  {replies : String → Reply}

-- ============================================================ the shared state

/-- What an action adds to the calls, to the flag and to the servers. -/
def ThreadAction.calls : ThreadAction → List (Node × RpcTask)
  | .executeTask destNode request => [(destNode, request)]
  | _ => []

def ThreadAction.raises : ThreadAction → Bool
  | .setError => true
  | _ => false

def ThreadAction.adds : ThreadAction → List Node
  | .addTaskServer node => [node]
  | _ => []

theorem act_eq (s : DispatchState) (a : ThreadAction) :
    s.act a = ⟨s.sent ++ a.calls, s.error || a.raises,
      s.taskServerInfo ++ a.adds⟩ := by
  cases a with
  | executeTask destNode request =>
      simp [DispatchState.act, ThreadAction.calls, ThreadAction.raises,
        ThreadAction.adds]
  | setError =>
      simp [DispatchState.act, ThreadAction.calls, ThreadAction.raises,
        ThreadAction.adds]
  | addTaskServer node =>
      simp [DispatchState.act, ThreadAction.calls, ThreadAction.raises,
        ThreadAction.adds]

theorem foldl_act (actions : List ThreadAction) (s : DispatchState) :
    actions.foldl DispatchState.act s
      = ⟨s.sent ++ actions.flatMap ThreadAction.calls,
        s.error || actions.any ThreadAction.raises,
        s.taskServerInfo ++ actions.flatMap ThreadAction.adds⟩ := by
  induction actions generalizing s with
  | nil => simp
  | cons a actions ih =>
      rw [List.foldl_cons, ih, act_eq]
      simp [Bool.or_assoc]

/-- What is there after the join, in whatever order the threads went. -/
theorem dispatched {schedule : List Nat}
    {p : Pool DispatchState ThreadAction}
    (h : run (Pool.step DispatchState.act)
      (scheduler.threads localNode request replies) schedule = some p)
    (hp : p.Joined) :
    let actions :=
      (scheduler.threads localNode request replies).threads.flatten
    p.shared.sent.Perm (actions.flatMap ThreadAction.calls)
      ∧ p.shared.error = actions.any ThreadAction.raises
      ∧ p.shared.taskServerInfo.Perm (actions.flatMap ThreadAction.adds) := by
  obtain ⟨done, hshared, hperm⟩ := Pool.exists_perm_of_joined h hp
  have hstart : (scheduler.threads localNode request replies).shared = {} :=
    rfl
  rw [hshared, hstart, foldl_act]
  refine ⟨hperm.flatMap_right _, ?_, hperm.flatMap_right _⟩
  rw [Bool.false_or]
  exact hperm.any_eq

-- ================================================================= one thread

section Thread

variable {fill : RpcTask → RpcTask} {onFailure : List ThreadAction}

/-- A thread makes one call, under the name of its party. -/
theorem calls_scheduleTask
    (hfill : ∀ task, (fill task).partyName = task.partyName)
    (honly : ∀ a ∈ onFailure, a = .setError) (name : String) (dest : Node)
    (reply : Reply) :
    ((scheduleTask fill onFailure localNode name dest request reply).flatMap
      ThreadAction.calls).map (fun call => (call.1, call.2.partyName))
      = [(dest, name)] := by
  have hrest : (afterCall onFailure reply).flatMap ThreadAction.calls
      = [] := by
    rw [List.flatMap_eq_nil_iff]
    cases reply with
    | none =>
        intro a ha
        rw [honly a ha]
        rfl
    | some servers =>
        intro a ha
        obtain ⟨node, -, rfl⟩ := List.mem_map.mp ha
        rfl
  unfold scheduleTask
  rw [List.flatMap_cons, hrest, List.append_nil]
  exact congrArg (fun n => [(dest, n)])
    (hfill { request with partyName := name })

/-- It raises the flag if the call fails and the scheduler says so. -/
theorem raises_scheduleTask (name : String) (dest : Node) (reply : Reply) :
    (scheduleTask fill onFailure localNode name dest request reply).any
      ThreadAction.raises
      = (reply.isNone && onFailure.any ThreadAction.raises) := by
  have hcall : ∀ request, (ThreadAction.executeTask dest request).raises
      = false := fun _ => rfl
  unfold scheduleTask
  rw [List.any_cons, hcall, Bool.false_or]
  cases reply with
  | none => rfl
  | some servers =>
      rw [Option.isNone_some, Bool.false_and, List.any_eq_false]
      intro a ha
      obtain ⟨node, -, rfl⟩ := List.mem_map.mp ha
      exact Bool.false_ne_true

/-- It adds the servers of a reply. -/
theorem adds_scheduleTask (honly : ∀ a ∈ onFailure, a = .setError)
    (name : String) (dest : Node) (reply : Reply) :
    (scheduleTask fill onFailure localNode name dest request reply).flatMap
      ThreadAction.adds = (reply.getD []).map taskServerOf := by
  have hcall : ∀ request, (ThreadAction.executeTask dest request).adds = [] :=
    fun _ => rfl
  unfold scheduleTask
  rw [List.flatMap_cons, hcall, List.nil_append]
  cases reply with
  | none =>
      rw [Option.getD_none, List.map_nil, List.flatMap_eq_nil_iff]
      intro a ha
      rw [honly a ha]
      rfl
  | some servers =>
      rw [Option.getD_some, afterCall, List.flatMap_map]
      exact List.flatMap_pure_eq_map taskServerOf servers

end Thread

/-- What a scheduler does when a call fails. -/
def Scheduler.onFailure : Scheduler → List ThreadAction
  | .fl => []
  | _ => [.setError]

theorem only_setError (scheduler : Scheduler) :
    ∀ a ∈ scheduler.onFailure, a = .setError := by
  cases scheduler with
  | fl => exact fun _ ha => absurd ha List.not_mem_nil
  | vm => exact fun _ ha => List.mem_singleton.mp ha
  | pir => exact fun _ ha => List.mem_singleton.mp ha
  | aby3 => exact fun _ ha => List.mem_singleton.mp ha

/-- The copies of `ScheduleTask` differ in this only, and in what they
leave out of the request. -/
theorem scheduleTask_eq (scheduler : Scheduler) :
    ∃ fill : RpcTask → RpcTask,
      (∀ task, (fill task).partyName = task.partyName)
      ∧ scheduler.scheduleTask = scheduleTask fill scheduler.onFailure := by
  cases scheduler with
  | vm => exact ⟨_, fun _ => rfl, rfl⟩
  | fl => exact ⟨_, fun _ => rfl, rfl⟩
  | pir =>
      refine ⟨clearClientData, fun task => ?_, rfl⟩
      unfold clearClientData
      split
      · rfl
      · rfl
  | aby3 => exact ⟨_, fun _ => rfl, rfl⟩

-- ================================================================ all threads

section Threads

variable (scheduler : Scheduler) (localNode : Node) (request : RpcTask)
  (replies : String → Reply)

theorem calls_threads :
    ((scheduler.threads localNode request replies).threads.flatten.flatMap
      ThreadAction.calls).map (fun call => (call.1, call.2.partyName))
      = request.partyAccessInfo.entries.map
        fun e => (pbNode2Node e.2, e.1) := by
  obtain ⟨fill, hfill, heq⟩ := scheduleTask_eq scheduler
  unfold Scheduler.threads
  rw [heq]
  dsimp only
  induction request.partyAccessInfo.entries with
  | nil => rfl
  | cons e entries ih =>
      rw [List.map_cons, List.flatten_cons, List.flatMap_append,
        List.map_append, ih,
        calls_scheduleTask hfill (only_setError scheduler)]
      rfl

theorem adds_threads :
    (scheduler.threads localNode request replies).threads.flatten.flatMap
      ThreadAction.adds
      = request.partyAccessInfo.entries.flatMap fun e =>
        ((replies e.1).getD []).map taskServerOf := by
  obtain ⟨fill, -, heq⟩ := scheduleTask_eq scheduler
  unfold Scheduler.threads
  rw [heq]
  dsimp only
  induction request.partyAccessInfo.entries with
  | nil => rfl
  | cons e entries ih =>
      rw [List.map_cons, List.flatten_cons, List.flatMap_append, ih,
        adds_scheduleTask (only_setError scheduler), List.flatMap_cons]

/-- The flag goes up for a failed call, except under `FLScheduler`. -/
theorem raises_threads :
    (scheduler.threads localNode request replies).threads.flatten.any
      ThreadAction.raises = true
      ↔ scheduler ≠ .fl
        ∧ ∃ e ∈ request.partyAccessInfo.entries, replies e.1 = none := by
  obtain ⟨fill, -, heq⟩ := scheduleTask_eq scheduler
  have hfailure : scheduler.onFailure.any ThreadAction.raises = true
      ↔ scheduler ≠ .fl := by
    cases scheduler with
    | fl => exact iff_of_false Bool.false_ne_true (not_not_intro rfl)
    | vm => exact iff_of_true rfl nofun
    | pir => exact iff_of_true rfl nofun
    | aby3 => exact iff_of_true rfl nofun
  have hthread : ∀ e : String × PbNode,
      (scheduler.scheduleTask localNode e.1 (pbNode2Node e.2) request
        (replies e.1)).any ThreadAction.raises = true
      ↔ scheduler ≠ .fl ∧ replies e.1 = none := by
    intro e
    rw [heq, raises_scheduleTask, Bool.and_eq_true, hfailure,
      Option.isNone_iff_eq_none, and_comm]
  unfold Scheduler.threads
  simp only [List.any_flatten, List.any_map, List.any_eq_true,
    Function.comp_apply, hthread]
  constructor
  · intro h
    obtain ⟨e, hmem, hfl, hnone⟩ := h
    exact ⟨hfl, e, hmem, hnone⟩
  · intro h
    obtain ⟨hfl, e, hmem, hnone⟩ := h
    exact ⟨e, hmem, hfl, hnone⟩

end Threads

-- ================================================================ the verdict

theorem verdict_eq_success (s : DispatchState) :
    s.verdict = .success ↔ s.error = false := by
  unfold DispatchState.verdict
  cases s.error with
  | false => exact iff_of_true rfl rfl
  | true => exact iff_of_false nofun nofun

/-- The verdict at the join. -/
theorem verdict_iff {schedule : List Nat}
    {p : Pool DispatchState ThreadAction}
    (h : run (Pool.step DispatchState.act)
      (scheduler.threads localNode request replies) schedule = some p)
    (hp : p.Joined) :
    p.shared.verdict = .success
      ↔ (scheduler ≠ .fl → ∀ e ∈ request.partyAccessInfo.entries,
        replies e.1 ≠ none) := by
  obtain ⟨-, herror, -⟩ := dispatched h hp
  rw [verdict_eq_success, herror, ← Bool.not_eq_true, raises_threads]
  constructor
  · intro hnot hfl e hmem hnone
    exact hnot ⟨hfl, e, hmem, hnone⟩
  · intro hall hraised
    obtain ⟨hfl, e, hmem, hnone⟩ := hraised
    exact hall hfl e hmem hnone

/-- When a scheduler's verdict is the outcome of the calls. -/
theorem truthful_of_scheduler (scheduler : Scheduler) (localNode : Node)
    (request : RpcTask) (replies : String → Reply) :
    Truthful scheduler localNode request replies
      ↔ (scheduler = .fl → ∀ e ∈ request.partyAccessInfo.entries,
        replies e.1 ≠ none) := by
  constructor
  · intro h hfl
    obtain ⟨schedule, p, hrun, hp⟩ := Pool.exists_joined DispatchState.act
      (scheduler.threads localNode request replies)
    refine (h.verdict schedule p hrun hp).mp ?_
    exact (verdict_iff hrun hp).mpr fun hne => absurd hfl hne
  · intro h
    refine ⟨?_, ?_, ?_, ?_⟩
    · intro schedule p _
      exact Pool.exists_joined DispatchState.act p
    · intro schedule p hrun hp
      rw [verdict_iff hrun hp]
      constructor
      · intro hall
        by_cases hfl : scheduler = .fl
        · exact h hfl
        · exact hall hfl
      · intro hall _
        exact hall
    · intro schedule p hrun hp
      rw [← calls_threads scheduler localNode request replies]
      exact (dispatched hrun hp).1.map _
    · intro schedule p hrun hp
      rw [← adds_threads scheduler localNode request replies]
      exact (dispatched hrun hp).2.2

/-- Python tasks, and only these, are given to `FLScheduler`. -/
theorem createScheduler_fl {task : RpcTask}
    (h : createScheduler task = some scheduler) :
    scheduler = .fl ↔ task.language = .python := by
  unfold createScheduler at h
  cases hlanguage : task.language with
  | python =>
      rw [hlanguage] at h
      cases h
      exact iff_of_true rfl rfl
  | java =>
      rw [hlanguage] at h
      cases h
  | cpp =>
      rw [hlanguage] at h
      cases h
  | proto =>
      rw [hlanguage] at h
      refine iff_of_false (fun hfl => ?_) nofun
      subst hfl
      dsimp only [createProtoScheduler, createMPCScheduler] at h
      split at h
      · split at h
        · cases h
        · cases h
      · cases h
      · cases h
      · cases h

theorem mem_putNode {m : PartyMap} {name : String} (added : String)
    (node : Node) (h : name ∈ m.entries.map Prod.fst) :
    name ∈ (m.putNode added node).entries.map Prod.fst := by
  unfold PartyMap.putNode
  dsimp only
  split
  · obtain ⟨e, hmem, rfl⟩ := List.mem_map.mp h
    refine List.mem_map.mpr ⟨_, List.mem_map_of_mem hmem, ?_⟩
    split
    · rfl
    · rfl
  · rw [List.map_append]
    exact List.mem_append_left _ h

/-- The parties of a task are those of the request that is sent. -/
theorem mem_prepare {task : RpcTask} {name : String}
    (h : scheduler.prepare localNode task = .ok request)
    (hname : name ∈ task.partyAccessInfo.entries.map Prod.fst) :
    name ∈ request.partyAccessInfo.entries.map Prod.fst := by
  cases scheduler with
  | vm =>
      cases h
      exact hname
  | fl =>
      cases h
      exact hname
  | pir =>
      have hclient : name
          ∈ (addClient localNode task).partyAccessInfo.entries.map
            Prod.fst := by
        unfold addClient
        split
        · split
          · exact mem_putNode "CLIENT" localNode hname
          · exact hname
        · exact hname
      dsimp only [Scheduler.prepare, preparePir] at h
      generalize addClient localNode task = client at h hclient
      split at h
      · cases h
        exact hclient
      · split at h
        · cases h
        · cases h
          exact hclient
  | aby3 =>
      dsimp only [Scheduler.prepare, prepareAby3] at h
      split at h
      case h_1 => cases h
      case h_2 entries hdispatch =>
        cases h
        rw [dispatch_names hdispatch]
        exact hname

/-- `dispatch` is truthful for every task that is not Python, and for a
Python task if no call fails. -/
theorem dispatchTruthful_iff {task : RpcTask}
    (hcreate : createScheduler task = some scheduler) (localNode : Node)
    (replies : String → Reply) :
    DispatchTruthful scheduler localNode task replies
      ↔ (task.language = .python →
        ∀ e ∈ task.partyAccessInfo.entries, replies e.1 ≠ none) := by
  constructor
  · intro h hpython
    have hfl := (createScheduler_fl hcreate).mpr hpython
    subst hfl
    exact (truthful_of_scheduler .fl localNode task replies).mp
      (h task rfl).2 rfl
  · intro h request hprepare
    refine ⟨fun name hname => mem_prepare hprepare hname, ?_⟩
    rw [truthful_of_scheduler]
    intro hfl
    subst hfl
    cases hprepare
    exact h ((createScheduler_fl hcreate).mp rfl)

/-- Two hosts, one of which does not answer. -/
def twoHosts : PartyMap where
  entries :=
    [("PARTY0", { ip := "10.0.0.1" }), ("PARTY1", { ip := "10.0.0.2" })]
  nodup := by decide

def onlyFirst (name : String) : Reply :=
  if name = "PARTY0" then some [{ ip := "10.0.0.1", port := 50050 }] else none

def psiTask : RpcTask where
  type := .psiTask
  language := .proto
  taskInfo := ⟨"t", "j"⟩
  partyAccessInfo := twoHosts

def pythonTask : RpcTask := { psiTask with language := .python }

theorem dispatchTruthful_psi :
    DispatchTruthful .vm {} psiTask onlyFirst :=
  (dispatchTruthful_iff (show createScheduler psiTask = some .vm from rfl) {}
    onlyFirst).mpr nofun

/-- A Python task that one of two hosts never got counts as dispatched. -/
theorem not_dispatchTruthful_python :
    createScheduler pythonTask = some .fl
      ∧ ¬DispatchTruthful .fl {} pythonTask onlyFirst := by
  refine ⟨rfl, fun h => ?_⟩
  have hall := (truthful_of_scheduler .fl {} pythonTask onlyFirst).mp
    (h pythonTask rfl).2 rfl
  exact hall ("PARTY1", { ip := "10.0.0.2" })
    (List.mem_cons_of_mem _ List.mem_cons_self) rfl

end PrimiHub.Task
