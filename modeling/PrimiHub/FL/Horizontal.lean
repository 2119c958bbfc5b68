/-
The parties of a horizontally partitioned task, a server and its clients,
and what they agree on.

The protocols are rounds: the server receives a message from every client,
or sends one to all of them, in the order of its channel. A list of rounds
is a script, and each party's part of it is one action a round for a
client and one for each client for the server. If all parties follow
their parts they agree on the value (`agree_of_rounds`); if the server
raises after some rounds they never do (`not_agree_of_rounds`).
-/
import Mathlib.Data.List.Nodup
import PrimiHub.Lib.Network

namespace PrimiHub.FL.Horizontal

open Lib

/-- The parties of a task with so many clients. -/
inductive Party (clients : Nat)
  | server
  | client (i : Fin clients)
  deriving DecidableEq, Repr

/-- `self.Clients` of the server's channel. -/
def allClients (clients : Nat) : List (Party clients) :=
  (List.finRange clients).map Party.client

variable {clients : Nat} {τ : Type} {μ : τ → Type} {ε β : Type}

/-- A value for each client; that of the server does not matter. -/
def ofClients (server : β) (f : Fin clients → β) : Party clients → β
  | .server => server
  | .client i => f i

/-- A round of a protocol, and what is known of its messages. -/
inductive Round (clients : Nat) {τ : Type} (μ : τ → Type)
  | gather (tag : τ) (ok : Party clients → μ tag → Prop)
  | scatter (tag : τ) (ok : μ tag → Prop)

namespace Round

/-- The communications of a round. -/
def comms : Round clients μ → List (Comm (Party clients) μ)
  | gather tag ok => gatherEach (allClients clients) .server tag ok
  | scatter tag ok => Lib.scatter .server (allClients clients) tag ok

/-- What a client does in a round. -/
def ofClient (i : Fin clients) : Round clients μ → Act (Party clients) μ
  | gather tag ok => .send .server tag (ok (.client i))
  | scatter tag ok => .recv .server tag ok

/-- What the server does in a round. -/
def ofServer : Round clients μ → List (Act (Party clients) μ)
  | gather tag ok =>
      (allClients clients).map fun src => .recv src tag (ok src)
  | scatter tag ok => (allClients clients).map fun dst => .send dst tag ok

end Round

/-- Whatever the schedule, all parties return, with one value and `Q`. -/
def Agree [DecidableEq τ] (procs : Party clients → Peer (Party clients) μ ε β)
    (Q : β → Prop) : Prop :=
  Completes procs fun v =>
    Q (v .server) ∧ ∀ i, v (.client i) = v .server

-- ================================================================= the parts

theorem mem_allClients (i : Fin clients) :
    Party.client i ∈ allClients clients :=
  List.mem_map.mpr ⟨i, List.mem_finRange i, rfl⟩

theorem map_allClients (f : Party clients → β) :
    (allClients clients).map f = (List.finRange clients).map fun i =>
      f (.client i) :=
  List.map_map

theorem map_ofClients (server : β) (f : Fin clients → β) :
    (allClients clients).map (ofClients server f)
      = (List.finRange clients).map f :=
  map_allClients _

theorem server_not_mem_allClients :
    (Party.server : Party clients) ∉ allClients clients := by
  intro h
  obtain ⟨i, -, hi⟩ := List.mem_map.mp h
  cases hi

theorem nodup_allClients : (allClients clients).Nodup :=
  (List.nodup_finRange clients).map fun _ _ h => Party.client.inj h

theorem Round.project_client (i : Fin clients) (round : Round clients μ) :
    project (.client i) round.comms = [round.ofClient i] := by
  cases round with
  | gather tag ok =>
      exact project_gatherEach_src nodup_allClients (mem_allClients i) nofun
  | scatter tag ok =>
      exact project_scatter_dst nodup_allClients nofun (mem_allClients i)

theorem Round.project_server (round : Round clients μ) :
    project .server round.comms = round.ofServer := by
  cases round with
  | gather tag ok => exact project_gatherEach_dst server_not_mem_allClients
  | scatter tag ok => exact project_scatter_src

/-- Nobody sends to itself. -/
theorem Round.src_ne_dst (round : Round clients μ) :
    ∀ c ∈ round.comms, c.src ≠ c.dst := by
  intro c hc
  cases round with
  | gather tag ok =>
      obtain ⟨src, hsrc, rfl⟩ := List.mem_map.mp hc
      obtain ⟨i, -, rfl⟩ := List.mem_map.mp hsrc
      nofun
  | scatter tag ok =>
      obtain ⟨dst, hdst, rfl⟩ := List.mem_map.mp hc
      obtain ⟨i, -, rfl⟩ := List.mem_map.mp hdst
      nofun

theorem project_client_rounds (i : Fin clients)
    (rounds : List (Round clients μ)) :
    project (.client i) (rounds.flatMap Round.comms)
      = rounds.map (Round.ofClient i) := by
  induction rounds with
  | nil => rfl
  | cons round rounds ih =>
      rw [List.flatMap_cons, project_append, Round.project_client, ih]
      rfl

theorem project_server_rounds (rounds : List (Round clients μ)) :
    project .server (rounds.flatMap Round.comms)
      = rounds.flatMap Round.ofServer := by
  induction rounds with
  | nil => rfl
  | cons round rounds ih =>
      rw [List.flatMap_cons, project_append, Round.project_server, ih,
        List.flatMap_cons]

theorem rounds_src_ne_dst (rounds : List (Round clients μ)) :
    ∀ c ∈ rounds.flatMap Round.comms, c.src ≠ c.dst := by
  intro c hc
  obtain ⟨round, -, hc⟩ := List.mem_flatMap.mp hc
  exact round.src_ne_dst c hc

/-- The server receives from all clients. -/
theorem recvAll_follows (tag : τ) (m : Party clients → μ tag) :
    Follows (Peer.recvAll (ε := ε) tag (allClients clients))
      (Round.gather tag fun p x => x = m p : Round clients μ).ofServer
      (· = (allClients clients).map m) :=
  Follows.recvEach m (allClients clients)

/-- The server sends a value to all clients. -/
theorem sendAll_follows (tag : τ) (m : μ tag) :
    Follows (Peer.sendAll (ε := ε) tag m (allClients clients))
      (Round.scatter tag (· = m) : Round clients μ).ofServer
      fun _ => True :=
  @Follows.sendAll _ _ _ _ tag (· = m) m rfl _

/-- The last action of the server: it sends a value and returns. -/
theorem sendAll_ret (tag : τ) (m : μ tag) (v : β) :
    Follows
      (Peer.sendAll (ε := ε) tag m (allClients clients) >>= fun _ => pure v)
      ((Round.scatter tag (· = m) : Round clients μ).ofServer ++ [])
      (· = v) :=
  (sendAll_follows tag m).bind fun _ _ => .ret rfl

-- =============================================================== agreement

/-- Parties that follow their parts all return, whatever the schedule, each
with what its part says. -/
theorem completes_of_rounds [DecidableEq τ] {α : Party clients → Type}
    (rounds : List (Round clients μ))
    {procs : (p : Party clients) → Peer (Party clients) μ ε (α p)}
    {Q : (p : Party clients) → α p → Prop}
    (hclient : ∀ i, Follows (procs (.client i))
      (rounds.map (Round.ofClient i)) (Q (.client i)))
    (hserver : Follows (procs .server) (rounds.flatMap Round.ofServer)
      (Q .server)) : Completes procs fun v => ∀ p, Q p (v p) := by
  refine completes_of_follows (rounds_src_ne_dst rounds) fun p => ?_
  cases p with
  | server =>
      rw [project_server_rounds]
      exact hserver
  | client i =>
      rw [project_client_rounds]
      exact hclient i

/-- If the server raises after some rounds, the parties do not all
return. -/
theorem not_completes_of_rounds [DecidableEq τ] {α : Party clients → Type}
    (rounds : List (Round clients μ))
    {procs : (p : Party clients) → Peer (Party clients) μ ε (α p)}
    {R : ((p : Party clients) → α p) → Prop}
    (hclient : ∀ i, Reaches (procs (.client i))
      (rounds.map (Round.ofClient i)) fun _ => True)
    (hserver : Reaches (procs .server) (rounds.flatMap Round.ofServer)
      fun p => ∃ e, p = .raise e) : ¬ Completes procs R := by
  refine not_completes_of_reaches (rounds_src_ne_dst rounds)
    (i := Party.server)
    (P := fun p q => p = Party.server → ∃ e, q = .raise e)
    (fun p => ?_) fun q hq => hq rfl
  cases p with
  | server =>
      rw [project_server_rounds]
      exact hserver.mono fun q hq _ => hq
  | client i =>
      rw [project_client_rounds]
      exact (hclient i).mono fun q _ => nofun

section Agreement

variable [DecidableEq τ] {procs : Party clients → Peer (Party clients) μ ε β}

theorem Agree.mono {Q R : β → Prop} (h : Agree procs Q)
    (hQR : ∀ v, Q v → R v) : Agree procs R :=
  Completes.mono h fun _ hv => ⟨hQR _ hv.1, hv.2⟩

/-- The value the parties agree on is the only one. -/
theorem Agree.iff_of_eq {v : β} (h : Agree procs (· = v)) {Q : β → Prop} :
    Agree procs Q ↔ Q v := by
  constructor
  · intro hQ
    obtain ⟨w, hw, hw'⟩ := Completes.results_eq h hQ
    exact hw.1 ▸ hw'.1
  · intro hQ
    exact h.mono fun w hw => hw ▸ hQ

/-- Parties that follow their parts to one value agree on it. -/
theorem agree_of_rounds (rounds : List (Round clients μ)) {v : β}
    (hclient : ∀ i, Follows (procs (.client i))
      (rounds.map (Round.ofClient i)) (· = v))
    (hserver : Follows (procs .server) (rounds.flatMap Round.ofServer)
      (· = v)) : Agree procs (· = v) := by
  have hall : Completes procs fun w => ∀ p, w p = v :=
    completes_of_rounds (Q := fun _ => (· = v)) rounds hclient hserver
  exact hall.mono fun w hw =>
    ⟨hw .server, fun i => (hw (.client i)).trans (hw .server).symm⟩

/-- If the server raises after some rounds, the parties do not agree. -/
theorem not_agree_of_rounds (rounds : List (Round clients μ)) {Q : β → Prop}
    (hclient : ∀ i, Reaches (procs (.client i))
      (rounds.map (Round.ofClient i)) fun _ => True)
    (hserver : Reaches (procs .server) (rounds.flatMap Round.ofServer)
      fun p => ∃ e, p = .raise e) : ¬ Agree procs Q :=
  not_completes_of_rounds rounds hclient hserver

end Agreement

end PrimiHub.FL.Horizontal
