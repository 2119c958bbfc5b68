/-
The control commands of a channel: `GrpcChannel::submitTask`,
`executeTask`, `StopTask`, `killTask`, `updateTaskStatus`,
`fetchTaskStatus`, `CheckSendCompleteStatus` and `NewDataset`
(util/network/grpc_link_context.cc).

Each is a `do ... while` around one RPC. A failed attempt is counted and
ends in `continue` below the limit, in FAIL at the limit; `continue` goes
on to the condition of the loop, which is `0` in one of the eight and
`true` in the others.

How the attempts of a call end is input: the reply of attempt `k`, or
`none` where its status is not OK.
-/
import PrimiHub.Node.Scheduler

namespace PrimiHub.Network

open Node (Retcode)

/-- What a command returns, how often it called the RPC, and the reply it
was given. -/
structure CommandRun (ρ : Type) where
  ret : Retcode
  attempts : Nat
  reply : Option ρ
  deriving DecidableEq, Repr

section Commands

variable {ρ : Type} (retryMaxTimes : Nat) (rpc : Nat → Option ρ)

/-- The loop of a command, with its condition, after `retryTime` failed
attempts. -/
def commandLoop (condition : Bool) (retryTime : Nat) : CommandRun ρ :=
  match rpc retryTime with
  -- break
  | some reply => ⟨.success, retryTime + 1, some reply⟩
  | none =>
      if retryTime + 1 < retryMaxTimes then
        -- continue
        if condition then commandLoop condition (retryTime + 1)
        else ⟨.success, retryTime + 1, none⟩
      else ⟨.fail, retryTime + 1, none⟩
termination_by retryMaxTimes - retryTime

def submitTask : CommandRun ρ := commandLoop retryMaxTimes rpc false 0

def executeTask : CommandRun ρ := commandLoop retryMaxTimes rpc true 0

def stopTask : CommandRun ρ := commandLoop retryMaxTimes rpc true 0

def killTask : CommandRun ρ := commandLoop retryMaxTimes rpc true 0

def updateTaskStatus : CommandRun ρ := commandLoop retryMaxTimes rpc true 0

def fetchTaskStatus : CommandRun ρ := commandLoop retryMaxTimes rpc true 0

def checkSendCompleteStatus : CommandRun ρ :=
  commandLoop retryMaxTimes rpc true 0

def newDataset : CommandRun ρ := commandLoop retryMaxTimes rpc true 0

end Commands

-- =========================================================== specification

/-- At most `retryMaxTimes` attempts, none after one that was OK, and
SUCCESS just for one that was, with its reply. -/
structure Truthful {ρ : Type} (retryMaxTimes : Nat) (rpc : Nat → Option ρ)
    (run : CommandRun ρ) : Prop where
  bounded : run.attempts ≤ retryMaxTimes
  stops : ∀ k, k + 1 < run.attempts → rpc k = none
  success_iff : run.ret = .success ↔ ∃ k < run.attempts, rpc k ≠ none
  reply : ∀ k < run.attempts, rpc k ≠ none → run.reply = rpc k

/-- The eight commands. -/
inductive Command
  | submitTask
  | executeTask
  | stopTask
  | killTask
  | updateTaskStatus
  | fetchTaskStatus
  | checkSendCompleteStatus
  | newDataset
  deriving DecidableEq, Repr

def Command.run {ρ : Type} :
    Command → Nat → (Nat → Option ρ) → CommandRun ρ
  | .submitTask => Network.submitTask
  | .executeTask => Network.executeTask
  | .stopTask => Network.stopTask
  | .killTask => Network.killTask
  | .updateTaskStatus => Network.updateTaskStatus
  | .fetchTaskStatus => Network.fetchTaskStatus
  | .checkSendCompleteStatus => Network.checkSendCompleteStatus
  | .newDataset => Network.newDataset

end PrimiHub.Network
