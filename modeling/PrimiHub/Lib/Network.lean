/-
Any number of processes that exchange tagged messages, under any
schedule.

The processes are those of `Lib.Process`; a port is the other party and a
tag. What a party sends to another under a tag goes into a queue of that
sender, receiver and tag, and a receive takes the oldest message of its
queue or waits.

The steps of different parties commute (`step_diamond`), so one complete
run is enough. It is read off a script: one list of all communications,
in some order. A process `Follows` the part of the script that concerns
its party, whatever the messages it receives as long as they are as the
script says; the rules for `Follows` go along the process. If every party
follows its projection of one script, every schedule completes
(`completes_of_follows`).
-/
import PrimiHub.Lib.Process

namespace PrimiHub.Lib

variable {ι τ : Type} {μ : τ → Type} {ε α β : Type}

/-- A process of a network: it names the other party with the tag. -/
abbrev Peer (ι : Type) {τ : Type} (μ : τ → Type) (ε α : Type) : Type :=
  Proc (fun port : ι × τ => μ port.2) ε α

/-- The processes, and what is in flight by receiver, sender and tag. -/
structure Network (ι : Type) {τ : Type} (μ : τ → Type) (ε : Type)
    (α : ι → Type) where
  procs : (i : ι) → Peer ι μ ε (α i)
  flight : Queues fun key : ι × ι × τ => μ key.2.2

namespace Network

/-- All processes before their first action. -/
def start {α : ι → Type} (procs : (i : ι) → Peer ι μ ε (α i)) :
    Network ι μ ε α :=
  ⟨procs, fun _ => []⟩

/-- All processes have returned, and nothing is in flight. -/
def returned {α : ι → Type} (v : (i : ι) → α i) : Network ι μ ε α :=
  start fun i => .ret (v i)

end Network

-- ================================================================= scripts

/-- A communication: who sends to whom under which tag, and what is known
of the message. -/
structure Comm (ι : Type) {τ : Type} (μ : τ → Type) where
  src : ι
  dst : ι
  tag : τ
  ok : μ tag → Prop

/-- What one party does in a communication. -/
inductive Act (ι : Type) {τ : Type} (μ : τ → Type)
  | send (dst : ι) (tag : τ) (ok : μ tag → Prop)
  | recv (src : ι) (tag : τ) (ok : μ tag → Prop)

/-- The process does these actions and returns with `Q`, whatever it
receives, as long as the messages are as the actions say. -/
inductive Follows : Peer ι μ ε α → List (Act ι μ) → (α → Prop) → Prop
  | ret {a Q} (h : Q a) : Follows (.ret a) [] Q
  | send {dst tag ok m next acts Q} (hm : ok m)
      (h : Follows next acts Q) :
      Follows (.send (dst, tag) m next) (.send dst tag ok :: acts) Q
  | recv {src tag ok next acts Q}
      (h : ∀ m, ok m → Follows (next m) acts Q) :
      Follows (.recv (src, tag) next) (.recv src tag ok :: acts) Q

/-- The process does these actions and is then as `P` says. -/
inductive Reaches : Peer ι μ ε α → List (Act ι μ) →
    (Peer ι μ ε α → Prop) → Prop
  | done {p P} (h : P p) : Reaches p [] P
  | send {dst tag ok m next acts P} (hm : ok m)
      (h : Reaches next acts P) :
      Reaches (.send (dst, tag) m next) (.send dst tag ok :: acts) P
  | recv {src tag ok next acts P}
      (h : ∀ m, ok m → Reaches (next m) acts P) :
      Reaches (.recv (src, tag) next) (.recv src tag ok :: acts) P

/-- Every member of the list sends to `dst`. -/
def gather (srcs : List ι) (dst : ι) (tag : τ) (ok : μ tag → Prop) :
    List (Comm ι μ) :=
  srcs.map fun src => ⟨src, dst, tag, ok⟩

/-- Every member of the list sends to `dst`, and of each something else is
known. -/
def gatherEach (srcs : List ι) (dst : ι) (tag : τ)
    (ok : ι → μ tag → Prop) : List (Comm ι μ) :=
  srcs.map fun src => ⟨src, dst, tag, ok src⟩

/-- `src` sends to every member of the list. -/
def scatter (src : ι) (dsts : List ι) (tag : τ) (ok : μ tag → Prop) :
    List (Comm ι μ) :=
  dsts.map fun dst => ⟨src, dst, tag, ok⟩

namespace Peer

/-- Send one message to every member of the list, in order. -/
def sendAll (tag : τ) (m : μ tag) : List ι → Peer ι μ ε Unit
  | [] => pure ()
  | dst :: rest => do
      Proc.put (μ := fun port : ι × τ => μ port.2) (dst, tag) m
      sendAll tag m rest

/-- Send to every member of the list its own message, in order. -/
def sendSeparately (tag : τ) : List (ι × μ tag) → Peer ι μ ε Unit
  | [] => pure ()
  | (dst, m) :: rest => do
      Proc.put (μ := fun port : ι × τ => μ port.2) (dst, tag) m
      sendSeparately tag rest

/-- Receive one message from every member of the list, in order. -/
def recvAll (tag : τ) : List ι → Peer ι μ ε (List (μ tag))
  | [] => pure []
  | src :: rest => do
      let m ← Proc.get (μ := fun port : ι × τ => μ port.2) (src, tag)
      let ms ← recvAll tag rest
      pure (m :: ms)

/-- A loop over a list that collects the results. -/
def forEach {κ : Type} (f : κ → Peer ι μ ε β) : List κ → Peer ι μ ε (List β)
  | [] => pure []
  | k :: rest => do
      let b ← f k
      let bs ← forEach f rest
      pure (b :: bs)

end Peer

/-- To follow actions is to reach a result. -/
theorem Follows.reaches {p : Peer ι μ ε α} {acts : List (Act ι μ)}
    {Q : α → Prop} (h : Follows p acts Q) :
    Reaches p acts fun q => ∃ a, Q a ∧ q = .ret a := by
  induction h with
  | ret ha => exact .done ⟨_, ha, rfl⟩
  | send hm _ ih => exact .send hm ih
  | recv _ ih => exact .recv ih

/-- A process that follows some actions does the first of them. -/
theorem Follows.reaches_left {p : Peer ι μ ε α}
    {acts acts' : List (Act ι μ)} {Q : α → Prop}
    (h : Follows p (acts ++ acts') Q) : Reaches p acts fun _ => True := by
  induction acts generalizing p with
  | nil => exact .done trivial
  | cons act acts ih =>
      cases h with
      | send hm hnext => exact .send hm (ih hnext)
      | recv hnext => exact .recv fun m hm => ih (hnext m hm)

section Schedules

variable [DecidableEq ι] [DecidableEq τ]

/-- One step of the network: the action of one party. -/
def Network.step {α : ι → Type} (s : Network ι μ ε α) (i : ι) :
    Option (Network ι μ ε α) :=
  match s.procs i with
  | .ret _ => none
  | .raise _ => none
  | .send (dst, tag) m next =>
      some ⟨Function.update s.procs i next, s.flight.push (dst, i, tag) m⟩
  | .recv (src, tag) next =>
      match (s.flight (i, src, tag)).head? with
      | none => none
      | some m =>
          some ⟨Function.update s.procs i (next m),
            s.flight.pop (i, src, tag)⟩

/-- Whatever the schedule, all processes return, with results that `R`
relates: the run cannot go on for ever, nobody waits for a message that is
not sent, and no message is left over. -/
def Completes {α : ι → Type} (procs : (i : ι) → Peer ι μ ε (α i))
    (R : ((i : ι) → α i) → Prop) : Prop :=
  ∃ (v : (i : ι) → α i) (n : Nat), R v ∧
    ∀ schedule s, run Network.step (Network.start procs) schedule = some s →
      schedule.length ≤ n
      ∧ (∃ rest, run Network.step s rest = some (Network.returned v))
      ∧ ((∀ i, s.step i = none) → s = Network.returned v)

/-- The part of a script that concerns one party. -/
def project (i : ι) : List (Comm ι μ) → List (Act ι μ)
  | [] => []
  | c :: rest =>
      if c.src = i then .send c.dst c.tag c.ok :: project i rest
      else if c.dst = i then .recv c.src c.tag c.ok :: project i rest
      else project i rest

-- ============================================================ commutation

/-- Messages into different queues. -/
theorem Queues.push_push {κ : Type} {ν : κ → Type} [DecidableEq κ]
    {q : Queues ν} {k k' : κ} {m : ν k} {m' : ν k'} (h : k ≠ k') :
    (q.push k m).push k' m' = (q.push k' m').push k m := by
  unfold Queues.push
  rw [Function.update_of_ne (Ne.symm h), Function.update_of_ne h,
    Function.update_comm h]

/-- Messages out of different queues. -/
theorem Queues.pop_pop {κ : Type} {ν : κ → Type} [DecidableEq κ]
    {q : Queues ν} {k k' : κ} (h : k ≠ k') :
    (q.pop k).pop k' = (q.pop k').pop k := by
  unfold Queues.pop
  rw [Function.update_of_ne (Ne.symm h), Function.update_of_ne h,
    Function.update_comm h]

theorem Queues.pop_of_ne {κ : Type} {ν : κ → Type} [DecidableEq κ]
    {q : Queues ν} {k k' : κ} (h : k' ≠ k) : q.pop k k' = q k' := by
  rw [Queues.pop, Function.update_of_ne h]

section Steps

variable {α : ι → Type}

/-- What a step is. -/
theorem Network.step_cases {s s' : Network ι μ ε α} {i : ι}
    (h : s.step i = some s') :
    (∃ dst tag m next, s.procs i = .send (dst, tag) m next
      ∧ s' = ⟨Function.update s.procs i next,
          s.flight.push (dst, i, tag) m⟩)
    ∨ ∃ src tag m next, s.procs i = .recv (src, tag) next
      ∧ (s.flight (i, src, tag)).head? = some m
      ∧ s' = ⟨Function.update s.procs i (next m),
          s.flight.pop (i, src, tag)⟩ := by
  unfold Network.step at h
  split at h
  · cases h
  · cases h
  · next dst tag m next hp =>
    rw [Option.some.injEq] at h
    exact Or.inl ⟨dst, tag, m, next, hp, h.symm⟩
  · next src tag next hp =>
    split at h
    · cases h
    · next m hm =>
      rw [Option.some.injEq] at h
      exact Or.inr ⟨src, tag, m, next, hp, hm, h.symm⟩

theorem Network.step_send {procs : (i : ι) → Peer ι μ ε (α i)}
    {flight : Queues fun key : ι × ι × τ => μ key.2.2} {i dst : ι} {tag : τ}
    {m : μ tag} {next : Peer ι μ ε (α i)}
    (h : procs i = .send (dst, tag) m next) :
    Network.step ⟨procs, flight⟩ i
      = some ⟨Function.update procs i next,
          flight.push (dst, i, tag) m⟩ := by
  simp only [Network.step, h]

theorem Network.step_recv {procs : (i : ι) → Peer ι μ ε (α i)}
    {flight : Queues fun key : ι × ι × τ => μ key.2.2} {i src : ι} {tag : τ}
    {m : μ tag} {next : μ tag → Peer ι μ ε (α i)}
    (h : procs i = .recv (src, tag) next)
    (hm : (flight (i, src, tag)).head? = some m) :
    Network.step ⟨procs, flight⟩ i
      = some ⟨Function.update procs i (next m),
          flight.pop (i, src, tag)⟩ := by
  simp only [Network.step, h, hm]

/-- Steps of different parties commute. -/
theorem Network.step_diamond {s s₁ s₂ : Network ι μ ε α} {i j : ι}
    (hij : i ≠ j) (hi : s.step i = some s₁) (hj : s.step j = some s₂) :
    ∃ s₃, s₁.step j = some s₃ ∧ s₂.step i = some s₃ := by
  obtain ⟨procs, flight⟩ := s
  have hkeep : ∀ p, Function.update procs i p j = procs j :=
    fun p => Function.update_of_ne (Ne.symm hij) p procs
  have hkeep' : ∀ p, Function.update procs j p i = procs i :=
    fun p => Function.update_of_ne hij p procs
  obtain ⟨dst, tag, m, next, hp, rfl⟩ | ⟨src, tag, m, next, hp, hm, rfl⟩ :=
    Network.step_cases hi <;>
  obtain ⟨dst', tag', m', next', hp', rfl⟩
    | ⟨src', tag', m', next', hp', hm', rfl⟩ := Network.step_cases hj
  · have hkey : (dst, i, tag) ≠ (dst', j, tag') := by
      intro h
      exact hij (Prod.mk.inj (Prod.mk.inj h).2).1
    refine ⟨_, Network.step_send ((hkeep next).trans hp'), ?_⟩
    rw [Network.step_send ((hkeep' next').trans hp),
      Function.update_comm hij, Queues.push_push hkey]
  · refine ⟨_, Network.step_recv ((hkeep next).trans hp')
      (Queues.head?_push hm'), ?_⟩
    rw [Network.step_send ((hkeep' (next' m')).trans hp),
      Function.update_comm hij, Queues.pop_push hm']
  · refine ⟨_, Network.step_send ((hkeep (next m)).trans hp'), ?_⟩
    rw [Network.step_recv ((hkeep' next').trans hp) (Queues.head?_push hm),
      Function.update_comm hij, Queues.pop_push hm]
  · have hkey : (i, src, tag) ≠ (j, src', tag') := by
      intro h
      exact hij (Prod.mk.inj h).1
    refine ⟨_, Network.step_recv ((hkeep (next m)).trans hp')
      ((congrArg List.head? (Queues.pop_of_ne (Ne.symm hkey))).trans hm'),
      ?_⟩
    rw [Network.step_recv ((hkeep' (next' m')).trans hp)
      ((congrArg List.head? (Queues.pop_of_ne hkey)).trans hm),
      Function.update_comm hij, Queues.pop_pop hkey]

/-- Nobody moves after everybody has returned. -/
theorem Network.step_returned (v : (i : ι) → α i) (i : ι) :
    (Network.returned v : Network ι μ ε α).step i = none := rfl

end Steps

-- ========================================================== one run

/-- One communication: sent and received at once. -/
theorem Network.run_comm {α : ι → Type}
    {procs : (i : ι) → Peer ι μ ε (α i)} {src dst : ι} (hne : src ≠ dst)
    {tag : τ} {m : μ tag} {p : Peer ι μ ε (α src)}
    {q : μ tag → Peer ι μ ε (α dst)}
    (hsend : procs src = .send (dst, tag) m p)
    (hrecv : procs dst = .recv (src, tag) q) (schedule : List ι) :
    run Network.step (Network.start procs) (src :: dst :: schedule)
      = run Network.step (Network.start
          (Function.update (Function.update procs src p) dst (q m)))
          schedule := by
  unfold Network.start
  rw [run_cons (Network.step_send hsend)]
  apply run_cons
  rw [Network.step_recv
    ((Function.update_of_ne (Ne.symm hne) p procs).trans hrecv)
    (Queues.head_push_empty (μ := fun key : ι × ι × τ => μ key.2.2)
      (dst, src, tag) m), Queues.pop_push_empty]

/-- Processes that do their parts of one script have a run to its end. -/
theorem exists_run_of_reaches {α : ι → Type} {script : List (Comm ι μ)}
    (hne : ∀ c ∈ script, c.src ≠ c.dst)
    {procs : (i : ι) → Peer ι μ ε (α i)}
    {P : (i : ι) → Peer ι μ ε (α i) → Prop}
    (h : ∀ i, Reaches (procs i) (project i script) (P i)) :
    ∃ (procs' : (i : ι) → Peer ι μ ε (α i)) (schedule : List ι),
      (∀ i, P i (procs' i)) ∧
      run Network.step (Network.start procs) schedule
        = some (Network.start procs') := by
  induction script generalizing procs with
  | nil =>
      refine ⟨procs, [], fun i => ?_, rfl⟩
      have hi := h i
      rw [project] at hi
      generalize procs i = p at hi
      cases hi with
      | done hp => exact hp
  | cons c script ih =>
      obtain ⟨src, dst, tag, ok⟩ := c
      have hne' : src ≠ dst := hne _ List.mem_cons_self
      -- the first message of the script: its sender is about to send it
      obtain ⟨m, p, hm, hsend, hp⟩ : ∃ m p, ok m
          ∧ procs src = .send (dst, tag) m p
          ∧ Reaches p (project src script) (P src) := by
        have hsrc := h src
        simp only [project, if_true] at hsrc
        generalize hp : procs src = p at hsrc
        cases hsrc with
        | send hm hnext => exact ⟨_, _, hm, rfl, hnext⟩
      obtain ⟨q, hrecv, hq⟩ : ∃ q, procs dst = .recv (src, tag) q
          ∧ ∀ m, ok m → Reaches (q m) (project dst script) (P dst) := by
        have hdst := h dst
        simp only [project, if_neg hne', if_true] at hdst
        generalize hp : procs dst = p at hdst
        cases hdst with
        | recv hnext => exact ⟨_, rfl, hnext⟩
      -- the two have gone on, and nobody else has moved
      have hnext : ∀ i, Reaches
          (Function.update (Function.update procs src p) dst (q m) i)
          (project i script) (P i) := by
        intro i
        by_cases hid : i = dst
        · subst hid
          rw [Function.update_self]
          exact hq m hm
        · rw [Function.update_of_ne hid]
          by_cases his : i = src
          · subst his
            rw [Function.update_self]
            exact hp
          · rw [Function.update_of_ne his]
            have hi := h i
            rwa [project, if_neg (Ne.symm his), if_neg (Ne.symm hid)]
              at hi
      obtain ⟨procs', schedule, hv, hrun⟩ :=
        ih (fun c hc => hne c (List.mem_cons_of_mem _ hc)) hnext
      exact ⟨procs', src :: dst :: schedule, hv,
        (Network.run_comm hne' hsend hrecv schedule).trans hrun⟩

/-- Processes that follow their parts of one script have a complete run. -/
theorem exists_run_of_follows {α : ι → Type} {script : List (Comm ι μ)}
    (hne : ∀ c ∈ script, c.src ≠ c.dst)
    {procs : (i : ι) → Peer ι μ ε (α i)} {Q : (i : ι) → α i → Prop}
    (h : ∀ i, Follows (procs i) (project i script) (Q i)) :
    ∃ (v : (i : ι) → α i) (schedule : List ι), (∀ i, Q i (v i)) ∧
      run Network.step (Network.start procs) schedule
        = some (Network.returned v) := by
  obtain ⟨procs', schedule, hret, hrun⟩ :=
    exists_run_of_reaches hne fun i => (h i).reaches
  choose v hv hp using hret
  refine ⟨v, schedule, hv, ?_⟩
  rw [hrun, funext hp]
  rfl

/-- Processes that follow their parts of one script complete under every
schedule. -/
theorem completes_of_follows {α : ι → Type} {script : List (Comm ι μ)}
    (hne : ∀ c ∈ script, c.src ≠ c.dst)
    {procs : (i : ι) → Peer ι μ ε (α i)} {Q : (i : ι) → α i → Prop}
    (h : ∀ i, Follows (procs i) (project i script) (Q i)) :
    Completes procs fun v => ∀ i, Q i (v i) := by
  obtain ⟨v, whole, hv, hwhole⟩ := exists_run_of_follows hne h
  refine ⟨v, whole.length, hv, ?_⟩
  intro schedule s hs
  obtain ⟨rest, hlen, hrest⟩ := run_completes Network.step_diamond hwhole
    (Network.step_returned v) hs
  refine ⟨by omega, ⟨rest, hrest⟩, ?_⟩
  intro hstuck
  cases rest with
  | nil =>
      rw [run_nil, Option.some.injEq] at hrest
      exact hrest
  | cons i rest =>
      rw [run_cons_none (hstuck i)] at hrest
      cases hrest

/-- A process that has raised stays as it is. -/
theorem Network.step_raised {α : ι → Type} {s s' : Network ι μ ε α}
    {i j : ι} {e : ε} (hstep : s.step j = some s')
    (h : s.procs i = .raise e) : s'.procs i = .raise e := by
  have hij : ∀ p, s.procs j = p → p ≠ .raise e → i ≠ j := by
    intro p hp hne heq
    rw [← hp, ← heq] at hne
    exact hne h
  obtain ⟨dst, tag, m, next, hp, rfl⟩ | ⟨src, tag, m, next, hp, -, rfl⟩ :=
    Network.step_cases hstep
  · exact (Function.update_of_ne (hij _ hp nofun) next s.procs).trans h
  · exact (Function.update_of_ne (hij _ hp nofun) (next m) s.procs).trans h

/-- If a run leads to where one process has raised, the processes do not
all return. -/
theorem not_completes_of_run {α : ι → Type}
    {procs : (i : ι) → Peer ι μ ε (α i)} {R : ((i : ι) → α i) → Prop}
    {schedule : List ι} {s : Network ι μ ε α}
    (hrun : run Network.step (Network.start procs) schedule = some s)
    {i : ι} {e : ε} (h : s.procs i = .raise e) : ¬ Completes procs R := by
  intro hall
  obtain ⟨v, n, -, hall⟩ := hall
  obtain ⟨-, ⟨rest, hrest⟩, -⟩ := hall schedule s hrun
  have hraised : (Network.returned v : Network ι μ ε α).procs i
      = .raise e :=
    run_invariant (I := fun s : Network ι μ ε α => s.procs i = .raise e)
      (fun _ _ _ hs hstep => Network.step_raised hstep hs) h hrest
  cases hraised

/-- If one process raises at once, the processes do not all return. -/
theorem not_completes_of_raise {α : ι → Type}
    {procs : (i : ι) → Peer ι μ ε (α i)} {R : ((i : ι) → α i) → Prop}
    {i : ι} {e : ε} (h : procs i = .raise e) : ¬ Completes procs R :=
  not_completes_of_run (run_nil (Network.start procs)) h

/-- Processes one of which raises after its part of the script. -/
theorem not_completes_of_reaches {α : ι → Type}
    {script : List (Comm ι μ)} (hne : ∀ c ∈ script, c.src ≠ c.dst)
    {procs : (i : ι) → Peer ι μ ε (α i)}
    {P : (i : ι) → Peer ι μ ε (α i) → Prop}
    (h : ∀ i, Reaches (procs i) (project i script) (P i))
    {R : ((i : ι) → α i) → Prop} {i : ι}
    (hraise : ∀ p, P i p → ∃ e, p = .raise e) : ¬ Completes procs R := by
  obtain ⟨procs', schedule, hP, hrun⟩ := exists_run_of_reaches hne h
  obtain ⟨e, he⟩ := hraise _ (hP i)
  exact not_completes_of_run hrun he

/-- The results do not depend on the schedule. -/
theorem Completes.results_eq {α : ι → Type}
    {procs : (i : ι) → Peer ι μ ε (α i)}
    {R S : ((i : ι) → α i) → Prop} (hR : Completes procs R)
    (hS : Completes procs S) : ∃ v, R v ∧ S v := by
  obtain ⟨v, n, hv, hall⟩ := hR
  obtain ⟨w, n', hw, hall'⟩ := hS
  obtain ⟨-, ⟨rest, hrest⟩, -⟩ := hall [] _ rfl
  obtain ⟨-, -, hstuck⟩ := hall' rest _ hrest
  have heq := congrArg Network.procs (hstuck (Network.step_returned v))
  have hvw : v = w := by
    funext i
    exact Proc.ret.inj (congrFun heq i)
  exact ⟨v, hv, hvw ▸ hw⟩

theorem Completes.mono {α : ι → Type} {procs : (i : ι) → Peer ι μ ε (α i)}
    {R S : ((i : ι) → α i) → Prop} (h : Completes procs R)
    (hRS : ∀ v, R v → S v) : Completes procs S := by
  obtain ⟨v, n, hv, hall⟩ := h
  exact ⟨v, n, hRS v hv, hall⟩

/-- Processes whose results are known. -/
theorem Completes.iff_of_eq {α : ι → Type}
    {procs : (i : ι) → Peer ι μ ε (α i)} {w : (i : ι) → α i}
    (h : Completes procs fun v => ∀ i, v i = w i)
    {R : ((i : ι) → α i) → Prop} : Completes procs R ↔ R w := by
  constructor
  · intro hR
    obtain ⟨v, hv, hRv⟩ := h.results_eq hR
    exact funext hv ▸ hRv
  · intro hR
    exact h.mono fun v hv => funext hv ▸ hR

end Schedules

-- ============================================================== projection

section Projection

variable [DecidableEq ι] {i : ι}

theorem project_append (i : ι) (s t : List (Comm ι μ)) :
    project i (s ++ t) = project i s ++ project i t := by
  induction s with
  | nil => rfl
  | cons c s ih =>
      rw [List.cons_append, project, project, ih]
      split_ifs <;> rfl

/-- The receiver's part of a gathering. -/
theorem project_gatherEach_dst {srcs : List ι} {dst : ι} {tag : τ}
    {ok : ι → μ tag → Prop} (h : dst ∉ srcs) :
    project dst (gatherEach srcs dst tag ok)
      = srcs.map fun src => .recv src tag (ok src) := by
  induction srcs with
  | nil => rfl
  | cons src srcs ih =>
      rw [List.mem_cons, not_or] at h
      show project dst
        (⟨src, dst, tag, ok src⟩ :: gatherEach srcs dst tag ok) = _
      rw [project, if_neg (Ne.symm h.1), if_pos rfl, ih h.2]
      rfl

/-- The part of a party that is not in a gathering. -/
theorem project_gatherEach_of_not_mem {srcs : List ι} {dst : ι} {tag : τ}
    {ok : ι → μ tag → Prop} (hsrc : i ∉ srcs) (hdst : i ≠ dst) :
    project i (gatherEach srcs dst tag ok) = [] := by
  induction srcs with
  | nil => rfl
  | cons src srcs ih =>
      rw [List.mem_cons, not_or] at hsrc
      show project i
        (⟨src, dst, tag, ok src⟩ :: gatherEach srcs dst tag ok) = _
      rw [project, if_neg (Ne.symm hsrc.1), if_neg (Ne.symm hdst),
        ih hsrc.2]

/-- A sender's part of a gathering. -/
theorem project_gatherEach_src {srcs : List ι} (hnodup : srcs.Nodup)
    {dst : ι} {tag : τ} {ok : ι → μ tag → Prop} (hsrc : i ∈ srcs)
    (hdst : i ≠ dst) :
    project i (gatherEach srcs dst tag ok) = [.send dst tag (ok i)] := by
  induction srcs with
  | nil => cases hsrc
  | cons src srcs ih =>
      rw [List.nodup_cons] at hnodup
      show project i
        (⟨src, dst, tag, ok src⟩ :: gatherEach srcs dst tag ok) = _
      rw [List.mem_cons] at hsrc
      obtain rfl | hsrc := hsrc
      · rw [project, if_pos rfl,
          project_gatherEach_of_not_mem hnodup.1 hdst]
      · have hne : src ≠ i := by
          intro heq
          rw [heq] at hnodup
          exact hnodup.1 hsrc
        rw [project, if_neg hne, if_neg (Ne.symm hdst), ih hnodup.2 hsrc]

theorem project_gather_dst {srcs : List ι} {dst : ι} {tag : τ}
    {ok : μ tag → Prop} (h : dst ∉ srcs) :
    project dst (gather srcs dst tag ok)
      = srcs.map fun src => .recv src tag ok :=
  project_gatherEach_dst h

theorem project_gather_of_not_mem {srcs : List ι} {dst : ι} {tag : τ}
    {ok : μ tag → Prop} (hsrc : i ∉ srcs) (hdst : i ≠ dst) :
    project i (gather srcs dst tag ok) = [] :=
  project_gatherEach_of_not_mem hsrc hdst

theorem project_gather_src {srcs : List ι} (hnodup : srcs.Nodup) {dst : ι}
    {tag : τ} {ok : μ tag → Prop} (hsrc : i ∈ srcs) (hdst : i ≠ dst) :
    project i (gather srcs dst tag ok) = [.send dst tag ok] :=
  project_gatherEach_src hnodup hsrc hdst

/-- The sender's part of a scattering. -/
theorem project_scatter_src {src : ι} {dsts : List ι} {tag : τ}
    {ok : μ tag → Prop} :
    project src (scatter src dsts tag ok)
      = dsts.map fun dst => .send dst tag ok := by
  induction dsts with
  | nil => rfl
  | cons dst dsts ih =>
      show project src (⟨src, dst, tag, ok⟩ :: scatter src dsts tag ok) = _
      rw [project, if_pos rfl, ih]
      rfl

/-- The part of a party that is not in a scattering. -/
theorem project_scatter_of_not_mem {src : ι} {dsts : List ι} {tag : τ}
    {ok : μ tag → Prop} (hsrc : i ≠ src) (hdst : i ∉ dsts) :
    project i (scatter src dsts tag ok) = [] := by
  induction dsts with
  | nil => rfl
  | cons dst dsts ih =>
      rw [List.mem_cons, not_or] at hdst
      show project i (⟨src, dst, tag, ok⟩ :: scatter src dsts tag ok) = _
      rw [project, if_neg (Ne.symm hsrc), if_neg (Ne.symm hdst.1),
        ih hdst.2]

/-- A receiver's part of a scattering. -/
theorem project_scatter_dst {src : ι} {dsts : List ι}
    (hnodup : dsts.Nodup) {tag : τ} {ok : μ tag → Prop} (hsrc : i ≠ src)
    (hdst : i ∈ dsts) :
    project i (scatter src dsts tag ok) = [.recv src tag ok] := by
  induction dsts with
  | nil => cases hdst
  | cons dst dsts ih =>
      rw [List.nodup_cons] at hnodup
      show project i (⟨src, dst, tag, ok⟩ :: scatter src dsts tag ok) = _
      rw [List.mem_cons] at hdst
      obtain rfl | hdst := hdst
      · rw [project, if_neg (Ne.symm hsrc), if_pos rfl,
          project_scatter_of_not_mem hsrc hnodup.1]
      · have hne : dst ≠ i := by
          intro heq
          rw [heq] at hnodup
          exact hnodup.1 hdst
        rw [project, if_neg (Ne.symm hsrc), if_neg hne, ih hnodup.2 hdst]

end Projection

-- =================================================================== rules

namespace Follows

/-- Sequencing: the second part follows from everything the first may
return. -/
theorem bind {p : Peer ι μ ε α} {f : α → Peer ι μ ε β}
    {acts acts' : List (Act ι μ)} {Q : α → Prop} {R : β → Prop}
    (h : Follows p acts Q) (hnext : ∀ a, Q a → Follows (f a) acts' R) :
    Follows (p >>= f) (acts ++ acts') R := by
  induction h with
  | ret ha => exact hnext _ ha
  | send hm _ ih => exact .send hm (ih hnext)
  | recv _ ih => exact .recv fun m hm => ih m hm hnext

theorem mono {p : Peer ι μ ε α} {acts : List (Act ι μ)} {Q R : α → Prop}
    (h : Follows p acts Q) (hQR : ∀ a, Q a → R a) : Follows p acts R := by
  induction h with
  | ret ha => exact .ret (hQR _ ha)
  | send hm _ ih => exact .send hm (ih hQR)
  | recv _ ih => exact .recv fun m hm => ih m hm hQR

/-- A send, and what comes after it. -/
theorem put_bind {dst : ι} {tag : τ} {ok : μ tag → Prop} {m : μ tag}
    {f : Unit → Peer ι μ ε β} {acts : List (Act ι μ)} {R : β → Prop}
    (hm : ok m) (hnext : Follows (f ()) acts R) :
    Follows (Proc.put (μ := fun port : ι × τ => μ port.2) (dst, tag) m >>= f)
      (.send dst tag ok :: acts) R :=
  .send hm hnext

/-- A receive, and what comes after it. -/
theorem get_bind {src : ι} {tag : τ} {ok : μ tag → Prop}
    {f : μ tag → Peer ι μ ε β} {acts : List (Act ι μ)} {R : β → Prop}
    (hnext : ∀ m, ok m → Follows (f m) acts R) :
    Follows (Proc.get (μ := fun port : ι × τ => μ port.2) (src, tag) >>= f)
      (.recv src tag ok :: acts) R :=
  .recv hnext

theorem sendAll {tag : τ} {ok : μ tag → Prop} {m : μ tag} (hm : ok m)
    (dsts : List ι) :
    Follows (Peer.sendAll (ε := ε) tag m dsts)
      (dsts.map fun dst => .send dst tag ok) fun _ => True := by
  induction dsts with
  | nil => exact .ret trivial
  | cons dst dsts ih => exact .send hm ih

theorem sendSeparately {tag : τ} {ok : μ tag → Prop}
    (pairs : List (ι × μ tag)) (hm : ∀ pair ∈ pairs, ok pair.2) :
    Follows (Peer.sendSeparately (ε := ε) tag pairs)
      ((pairs.map Prod.fst).map fun dst => .send dst tag ok)
      fun _ => True := by
  induction pairs with
  | nil => exact .ret trivial
  | cons pair pairs ih =>
      exact .send (hm pair List.mem_cons_self)
        (ih fun other hother => hm other (List.mem_cons_of_mem _ hother))

/-- What is received from all is as long as the list of senders. -/
theorem recvAll {tag : τ} {ok : μ tag → Prop} (srcs : List ι) :
    Follows (Peer.recvAll (ε := ε) (μ := μ) tag srcs)
      (srcs.map fun src => .recv src tag ok)
      fun ms => ms.length = srcs.length := by
  induction srcs with
  | nil => exact .ret rfl
  | cons src srcs ih =>
      refine .recv fun m _ => ?_
      have hrest : Follows
          (Peer.recvAll tag srcs >>= fun ms =>
            (pure (m :: ms) : Peer ι μ ε (List (μ tag))))
          ((srcs.map fun src => .recv src tag ok) ++ [])
          fun ms => ms.length = (src :: srcs).length :=
        ih.bind fun ms hms => .ret (by
          rw [List.length_cons, List.length_cons, hms])
      rwa [List.append_nil] at hrest

/-- What is received from all, when the message of each is known. -/
theorem recvEach {tag : τ} (m : ι → μ tag) (srcs : List ι) :
    Follows (Peer.recvAll (ε := ε) (μ := μ) tag srcs)
      (srcs.map fun src => .recv src tag (· = m src))
      (· = srcs.map m) := by
  induction srcs with
  | nil => exact .ret rfl
  | cons src srcs ih =>
      refine .recv fun head hhead => ?_
      have hrest : Follows
          (Peer.recvAll tag srcs >>= fun ms =>
            (pure (head :: ms) : Peer ι μ ε (List (μ tag))))
          ((srcs.map fun src => .recv src tag (· = m src)) ++ [])
          (· = (src :: srcs).map m) :=
        ih.bind fun ms hms => .ret (by
          rw [hhead, hms, List.map_cons])
      rwa [List.append_nil] at hrest

/-- A loop each of whose rounds follows its actions to a known result. -/
theorem forEach {κ : Type} {f : κ → Peer ι μ ε β} {acts : κ → List (Act ι μ)}
    {g : κ → β} (ks : List κ)
    (h : ∀ k ∈ ks, Follows (f k) (acts k) (· = g k)) :
    Follows (Peer.forEach f ks) (ks.flatMap acts) (· = ks.map g) := by
  induction ks with
  | nil => exact .ret rfl
  | cons k ks ih =>
      have hrest := ih fun k hk => h k (List.mem_cons_of_mem _ hk)
      refine (h k List.mem_cons_self).bind fun b hb => ?_
      have hlast : Follows
          (Peer.forEach f ks >>= fun bs =>
            (pure (b :: bs) : Peer ι μ ε (List β)))
          (ks.flatMap acts ++ []) (· = (k :: ks).map g) :=
        hrest.bind fun bs hbs => .ret (by rw [hb, hbs, List.map_cons])
      rwa [List.append_nil] at hlast

end Follows

namespace Reaches

/-- Sequencing, after a part that returns. -/
theorem bind {p : Peer ι μ ε α} {f : α → Peer ι μ ε β}
    {acts acts' : List (Act ι μ)} {Q : α → Prop}
    {P : Peer ι μ ε β → Prop} (h : Follows p acts Q)
    (hnext : ∀ a, Q a → Reaches (f a) acts' P) :
    Reaches (p >>= f) (acts ++ acts') P := by
  induction h with
  | ret ha => exact hnext _ ha
  | send hm _ ih => exact .send hm (ih hnext)
  | recv _ ih => exact .recv fun m hm => ih m hm hnext

/-- The first part, and what is left of the whole. -/
theorem bind_left {p : Peer ι μ ε α} {f : α → Peer ι μ ε β}
    {acts : List (Act ι μ)} {P : Peer ι μ ε α → Prop}
    {P' : Peer ι μ ε β → Prop} (h : Reaches p acts P)
    (hP : ∀ q, P q → P' (q >>= f)) : Reaches (p >>= f) acts P' := by
  induction h with
  | done hp => exact .done (hP _ hp)
  | send hm _ ih => exact .send hm (ih hP)
  | recv _ ih => exact .recv fun m hm => ih m hm hP

/-- To reach a result is to follow the actions. -/
theorem follows {p : Peer ι μ ε α} {acts : List (Act ι μ)} {Q : α → Prop}
    {P : Peer ι μ ε α → Prop} (h : Reaches p acts P)
    (hP : ∀ q, P q → ∃ a, Q a ∧ q = .ret a) : Follows p acts Q := by
  induction h with
  | done hp =>
      obtain ⟨a, ha, rfl⟩ := hP _ hp
      exact .ret ha
  | send hm _ ih => exact .send hm (ih hP)
  | recv _ ih => exact .recv fun m hm => ih m hm hP

theorem mono {p : Peer ι μ ε α} {acts : List (Act ι μ)}
    {P P' : Peer ι μ ε α → Prop} (h : Reaches p acts P)
    (hP : ∀ q, P q → P' q) : Reaches p acts P' := by
  induction h with
  | done hp => exact .done (hP _ hp)
  | send hm _ ih => exact .send hm (ih hP)
  | recv _ ih => exact .recv fun m hm => ih m hm hP

end Reaches

end PrimiHub.Lib
