/-
When the control commands report their fate (`commands_truthful_iff`).

With the condition `true` the loop is the retry it is meant to be
(`commandLoop_truthful`): the attempts before the current one have failed,
and below the limit there is always another. With `0` there is one attempt
(`submitTask_truthful_iff`).
-/
import PrimiHub.Network.Command

namespace PrimiHub.Network

open Node (Retcode)

variable {ρ : Type} {retryMaxTimes : Nat} {rpc : Nat → Option ρ}

/-- FAIL is the truth where all attempts failed. -/
theorem truthful_of_failed {attempts : Nat} (hlimit : attempts ≤ retryMaxTimes)
    (hfailed : ∀ k < attempts, rpc k = none) :
    Truthful retryMaxTimes rpc ⟨.fail, attempts, none⟩ := by
  refine ⟨hlimit, ?_, ?_, ?_⟩
  · intro k hk
    exact hfailed k (Nat.lt_of_succ_lt hk)
  · constructor
    · intro h
      cases h
    · intro h
      obtain ⟨k, hk, hok⟩ := h
      exact absurd (hfailed k hk) hok
  · intro k hk hok
    exact absurd (hfailed k hk) hok

/-- The loop after `retryTime` failed attempts. -/
theorem commandLoop_truthful {retryTime : Nat}
    (hbefore : ∀ k < retryTime, rpc k = none)
    (hlimit : retryTime < retryMaxTimes) :
    Truthful retryMaxTimes rpc
      (commandLoop retryMaxTimes rpc true retryTime) := by
  unfold commandLoop
  cases hrpc : rpc retryTime with
  | some reply =>
      have hne : rpc retryTime ≠ none := by
        rw [hrpc]
        exact Option.some_ne_none reply
      refine ⟨hlimit, ?_, ?_, ?_⟩
      · intro k hk
        exact hbefore k (Nat.lt_of_succ_lt_succ hk)
      · exact iff_of_true rfl ⟨retryTime, Nat.lt_succ_self retryTime, hne⟩
      · intro k hk hok
        obtain hlt | rfl := Nat.lt_succ_iff_lt_or_eq.mp hk
        · exact absurd (hbefore k hlt) hok
        · exact hrpc.symm
  | none =>
      have hfailed : ∀ k < retryTime + 1, rpc k = none := by
        intro k hk
        obtain hlt | rfl := Nat.lt_succ_iff_lt_or_eq.mp hk
        · exact hbefore k hlt
        · exact hrpc
      by_cases hmore : retryTime + 1 < retryMaxTimes
      · dsimp only
        rw [if_pos hmore, if_pos rfl]
        exact commandLoop_truthful hfailed hmore
      · dsimp only
        rw [if_neg hmore]
        exact truthful_of_failed hlimit hfailed
termination_by retryMaxTimes - retryTime

theorem retry_truthful (hlimit : 1 ≤ retryMaxTimes) :
    Truthful retryMaxTimes rpc (commandLoop retryMaxTimes rpc true 0) :=
  commandLoop_truthful (fun k hk => absurd hk (Nat.not_lt_zero k)) hlimit

/-- `submitTask` makes one attempt, and reports the failure of it only where
no other is allowed. -/
theorem submitTask_truthful_iff (hlimit : 1 ≤ retryMaxTimes) :
    Truthful retryMaxTimes rpc (submitTask retryMaxTimes rpc)
      ↔ retryMaxTimes = 1 ∨ rpc 0 ≠ none := by
  unfold submitTask commandLoop
  cases hrpc : rpc 0 with
  | some reply =>
      refine iff_of_true ⟨hlimit, ?_, ?_, ?_⟩
        (Or.inr (Option.some_ne_none reply))
      · intro k hk
        exact absurd (Nat.lt_of_succ_lt_succ hk) (Nat.not_lt_zero k)
      · refine iff_of_true rfl ⟨0, Nat.one_pos, ?_⟩
        rw [hrpc]
        exact Option.some_ne_none reply
      · intro k hk _
        rw [Nat.lt_one_iff.mp hk, hrpc]
  | none =>
      have hfailed : ∀ k < 1, rpc k = none := by
        intro k hk
        rwa [Nat.lt_one_iff.mp hk]
      rw [or_iff_left (not_not.mpr rfl)]
      by_cases hmore : 0 + 1 < retryMaxTimes
      · refine iff_of_false ?_ (by omega)
        dsimp only
        rw [if_pos hmore, if_neg Bool.false_ne_true]
        intro h
        obtain ⟨k, hk, hok⟩ := h.success_iff.mp rfl
        exact hok (hfailed k hk)
      · refine iff_of_true ?_ (by omega)
        dsimp only
        rw [if_neg hmore]
        exact truthful_of_failed hlimit hfailed

/-- The commands are truthful where one attempt is allowed, or the first
attempt of `submitTask` is OK. -/
theorem commands_truthful_iff (hlimit : 1 ≤ retryMaxTimes)
    (rpc : Command → Nat → Option ρ) :
    (∀ command : Command, Truthful retryMaxTimes (rpc command)
        (command.run retryMaxTimes (rpc command)))
      ↔ retryMaxTimes = 1 ∨ rpc .submitTask 0 ≠ none := by
  rw [← submitTask_truthful_iff hlimit]
  constructor
  · intro h
    exact h .submitTask
  · intro hsubmit command
    cases command with
    | submitTask => exact hsubmit
    | _ => exact retry_truthful hlimit

/-- The first attempt fails, but not that of `submitTask`. -/
def firstFails (command : Command) (k : Nat) : Option String :=
  if command = .submitTask ∨ k = 1 then some "reply" else none

theorem commands_truthful_three :
    Truthful 3 (firstFails .killTask)
      (Command.killTask.run 3 (firstFails .killTask)) :=
  (commands_truthful_iff (by decide) firstFails).mpr (Or.inr (by decide))
    .killTask

/-- Three attempts are allowed, the first one fails: SUCCESS. -/
theorem not_submitTask_truthful :
    ¬ Truthful 3 (fun _ => none)
      (submitTask 3 fun _ => (none : Option String)) := by
  intro h
  obtain hone | hok := (submitTask_truthful_iff (by decide)).mp h
  · cases hone
  · exact hok rfl

end PrimiHub.Network
