/-
Two processes that exchange tagged messages, under any schedule.

A process sends, receives, returns or raises. What it sends under a tag
goes into the queue of that tag towards the other process, and a receive
takes the oldest message of its own tag or waits. The two processes of a
`System` run in any order, one action a step.

The steps of different sides commute (`step_diamond`): a send only adds
behind what the other side may take. So it is enough to know one complete
run (`run_completes`), and the one that is easy to describe is the
rendezvous `Sync`, where each send is received at once. `Jointly` is a
logic over it for two processes that compute together what one computation
does, whether that returns or raises, with a rule for each way two
processes are put together; `Jointly.lockStep` turns it into a statement
about all schedules.
-/
import Mathlib.Logic.Function.Basic
import PrimiHub.Lib.Run

namespace PrimiHub.Lib

/-- A process: `μ t` are the messages under the tag `t`. -/
inductive Proc {τ : Type} (μ : τ → Type) (ε α : Type)
  | ret (a : α)
  | raise (e : ε)
  | send (tag : τ) (m : μ tag) (next : Proc μ ε α)
  | recv (tag : τ) (next : μ tag → Proc μ ε α)

variable {τ : Type} {μ : τ → Type} {ε α β γ δ : Type}

namespace Proc

/-- One process after the other; a raised error ends both. -/
protected def bind (p : Proc μ ε α) (f : α → Proc μ ε β) : Proc μ ε β :=
  match p with
  | ret a => f a
  | raise e => raise e
  | send tag m next => send tag m (next.bind f)
  | recv tag next => recv tag fun m => (next m).bind f

instance : Monad (Proc μ ε) where
  pure := ret
  bind := Proc.bind

/-- Send one message. -/
def put (tag : τ) (m : μ tag) : Proc μ ε Unit := send tag m (ret ())

/-- Receive one message. -/
def get (tag : τ) : Proc μ ε (μ tag) := recv tag ret

/-- A local computation that may raise. -/
def lift : Except ε α → Proc μ ε α
  | .ok a => ret a
  | .error e => raise e

@[simp] theorem ret_bind (a : α) (f : α → Proc μ ε β) :
    (ret a >>= f) = f a := rfl

theorem bind_assoc (p : Proc μ ε α) (f : α → Proc μ ε β)
    (g : β → Proc μ ε γ) : p >>= f >>= g = p >>= fun a => f a >>= g := by
  induction p with
  | ret a => rfl
  | raise e => rfl
  | send tag m next ih => exact congrArg (send tag m) ih
  | recv tag next ih => exact congrArg (recv tag) (funext ih)

@[simp] theorem lift_ok (a : α) : (lift (.ok a) : Proc μ ε α) = ret a := rfl

end Proc

/-- The messages in flight towards one side, by tag. -/
abbrev Queues (μ : τ → Type) : Type := (tag : τ) → List (μ tag)

/-- The two processes and what is in flight between them. -/
structure System (μ : τ → Type) (ε α β : Type) where
  left : Proc μ ε α
  right : Proc μ ε β
  toLeft : Queues μ
  toRight : Queues μ

/-- Who moves. -/
inductive Side
  | left
  | right
  deriving DecidableEq, Repr

/-- The end of a process with this outcome. -/
def finish : Except ε α → Proc μ ε α
  | .ok a => .ret a
  | .error e => .raise e

namespace System

/-- Both processes before their first action. -/
def start (p : Proc μ ε α) (q : Proc μ ε β) : System μ ε α β :=
  ⟨p, q, fun _ => [], fun _ => []⟩

/-- Both processes at their end, and nothing in flight. -/
def finished (x : Except ε α) (y : Except ε β) : System μ ε α β :=
  start (finish x) (finish y)

end System

section Schedules

variable [DecidableEq τ]

/-- A message joins the queue of its tag. -/
def Queues.push (q : Queues μ) (tag : τ) (m : μ tag) : Queues μ :=
  Function.update q tag (q tag ++ [m])

/-- The oldest message of a tag leaves. -/
def Queues.pop (q : Queues μ) (tag : τ) : Queues μ :=
  Function.update q tag (q tag).tail

/-- One action of a process: the process after it, its inbox and the
other side's inbox. -/
def Proc.act (p : Proc μ ε α) (inbox outbox : Queues μ) :
    Option (Proc μ ε α × Queues μ × Queues μ) :=
  match p with
  | .ret _ => none
  | .raise _ => none
  | .send tag m next => some (next, inbox, outbox.push tag m)
  | .recv tag next =>
      match (inbox tag).head? with
      | none => none
      | some m => some (next m, inbox.pop tag, outbox)

/-- One step of the system. -/
def System.step (s : System μ ε α β) : Side → Option (System μ ε α β)
  | .left => (s.left.act s.toLeft s.toRight).map fun (p, inbox, outbox) =>
      ⟨p, s.right, inbox, outbox⟩
  | .right => (s.right.act s.toRight s.toLeft).map fun (q, inbox, outbox) =>
      ⟨s.left, q, outbox, inbox⟩

/-- Whatever the schedule, both processes come to their end with the same
outcomes, related by `R`: the run cannot go on for ever, nobody waits for
a message that is not sent, and no message is left over. -/
def LockStep (p : Proc μ ε α) (q : Proc μ ε β)
    (R : Except ε α → Except ε β → Prop) : Prop :=
  ∃ x y n, R x y ∧
    ∀ schedule s, run System.step (System.start p q) schedule = some s →
      schedule.length ≤ n
      ∧ (∃ rest, run System.step s rest = some (System.finished x y))
      ∧ ((∀ side, s.step side = none) → s = System.finished x y)

-- ========================================================= commutation

/-- What an action is. -/
theorem Proc.act_cases {p p' : Proc μ ε α} {inbox outbox inbox' outbox' :
    Queues μ} (h : p.act inbox outbox = some (p', inbox', outbox')) :
    (∃ tag m, p = .send tag m p' ∧ inbox = inbox'
      ∧ outbox' = outbox.push tag m)
    ∨ ∃ tag m next, p = .recv tag next ∧ (inbox tag).head? = some m
      ∧ p' = next m ∧ inbox' = inbox.pop tag ∧ outbox = outbox' := by
  cases p with
  | ret a => cases h
  | raise e => cases h
  | send tag m next =>
      injection h with h
      injection h with hp h
      injection h with hin hout
      exact Or.inl ⟨tag, m, by rw [hp], hin, hout.symm⟩
  | recv tag next =>
      simp only [Proc.act] at h
      split at h
      · cases h
      · next m hm =>
        injection h with h
        injection h with hp h
        injection h with hin hout
        exact Or.inr ⟨tag, m, next, rfl, hm, hp.symm, hin.symm, hout⟩

/-- A message behind does not change what is in front. -/
theorem Queues.head?_push {q : Queues μ} {tag tag' : τ} {m : μ tag}
    {m' : μ tag'} (h : (q tag').head? = some m') :
    ((q.push tag m) tag').head? = some m' := by
  unfold Queues.push
  by_cases htag : tag' = tag
  · subst htag
    rw [Function.update_self, List.head?_append, h]
    rfl
  · rw [Function.update_of_ne htag, h]

/-- Taking in front and adding behind commute. -/
theorem Queues.pop_push {q : Queues μ} {tag tag' : τ} {m : μ tag}
    {m' : μ tag'} (h : (q tag').head? = some m') :
    (q.push tag m).pop tag' = (q.pop tag').push tag m := by
  unfold Queues.push Queues.pop
  by_cases htag : tag' = tag
  · subst htag
    have hne : q tag' ≠ [] := by
      intro hnil
      rw [hnil] at h
      cases h
    rw [Function.update_self, Function.update_self, Function.update_idem,
      Function.update_idem, List.tail_append_of_ne_nil hne]
  · rw [Function.update_of_ne htag, Function.update_of_ne (Ne.symm htag),
      Function.update_comm htag]

/-- An action of one side leaves the other's action as it was, and the
queues come out the same in both orders. -/
theorem act_diamond {p p' : Proc μ ε α} {q q' : Proc μ ε β}
    {toLeft toRight l₁ r₁ l₂ r₂ : Queues μ}
    (hp : p.act toLeft toRight = some (p', l₁, r₁))
    (hq : q.act toRight toLeft = some (q', r₂, l₂)) :
    ∃ l r, q.act r₁ l₁ = some (q', r, l) ∧ p.act l₂ r₂ = some (p', l, r) := by
  obtain ⟨tag, m, rfl, rfl, rfl⟩ | ⟨tag, m, next, rfl, hm, rfl, rfl, rfl⟩ :=
    Proc.act_cases hp <;>
  obtain ⟨tag', m', rfl, rfl, rfl⟩
    | ⟨tag', m', next', rfl, hm', rfl, rfl, rfl⟩ := Proc.act_cases hq
  · exact ⟨_, _, rfl, rfl⟩
  · refine ⟨toLeft, (toRight.pop tag').push tag m, ?_, rfl⟩
    simp only [Proc.act, Queues.head?_push hm', Queues.pop_push hm']
  · refine ⟨(toLeft.pop tag).push tag' m', toRight, rfl, ?_⟩
    simp only [Proc.act, Queues.head?_push hm, Queues.pop_push hm]
  · refine ⟨toLeft.pop tag, toRight.pop tag', ?_, ?_⟩
    · simp only [Proc.act, hm']
    · simp only [Proc.act, hm]

/-- Steps of different sides commute. -/
theorem step_diamond {s s₁ s₂ : System μ ε α β} {a b : Side} (hab : a ≠ b)
    (ha : s.step a = some s₁) (hb : s.step b = some s₂) :
    ∃ s₃, s₁.step b = some s₃ ∧ s₂.step a = some s₃ := by
  -- it is enough to see the left side move first
  have hlr : ∀ {s s₁ s₂ : System μ ε α β}, s.step .left = some s₁ →
      s.step .right = some s₂ →
      ∃ s₃, s₁.step .right = some s₃ ∧ s₂.step .left = some s₃ := by
    intro s s₁ s₂ hl hr
    obtain ⟨⟨p, l₁, r₁⟩, hp, rfl⟩ := Option.map_eq_some_iff.mp hl
    obtain ⟨⟨q, r₂, l₂⟩, hq, rfl⟩ := Option.map_eq_some_iff.mp hr
    obtain ⟨l, r, hq', hp'⟩ := act_diamond hp hq
    refine ⟨⟨p, q, l, r⟩, ?_, ?_⟩
    · simp only [System.step, hq', Option.map_some]
    · simp only [System.step, hp', Option.map_some]
  cases a with
  | left =>
      cases b with
      | left => exact absurd rfl hab
      | right => exact hlr ha hb
  | right =>
      cases b with
      | left =>
          obtain ⟨s₃, h₁, h₂⟩ := hlr hb ha
          exact ⟨s₃, h₂, h₁⟩
      | right => exact absurd rfl hab

end Schedules

-- ===================================================== one run is enough

section Completion

variable {σ κ : Type} [DecidableEq κ] {step : σ → κ → Option σ}

/-- Where different actions commute, an action taken early still leads to
the end, and the run is not longer for it. -/
theorem run_completes_step
    (hdiamond : ∀ {s a b s₁ s₂}, a ≠ b → step s a = some s₁ →
      step s b = some s₂ → ∃ s₃, step s₁ b = some s₃ ∧ step s₂ a = some s₃)
    {s t s₁ : σ} {a : κ} {as : List κ} (h : run step s as = some t)
    (ht : ∀ b, step t b = none) (ha : step s a = some s₁) :
    ∃ bs, bs.length + 1 = as.length ∧ run step s₁ bs = some t := by
  induction as generalizing s s₁ with
  | nil =>
      rw [run_nil, Option.some.injEq] at h
      rw [h, ht a] at ha
      cases ha
  | cons b as ih =>
      obtain ⟨s₂, hb, hrest⟩ := run_cons_inv h
      by_cases hab : a = b
      · subst hab
        rw [ha, Option.some.injEq] at hb
        exact ⟨as, rfl, hb ▸ hrest⟩
      · obtain ⟨s₃, hb', ha'⟩ := hdiamond hab ha hb
        obtain ⟨bs, hlen, hbs⟩ := ih hrest ha'
        refine ⟨b :: bs, ?_, ?_⟩
        · rw [List.length_cons, List.length_cons, hlen]
        · rw [run_cons hb', hbs]

/-- Where different actions commute and one run comes to an end, every
run can be completed to that end, and all complete runs are as long. -/
theorem run_completes
    (hdiamond : ∀ {s a b s₁ s₂}, a ≠ b → step s a = some s₁ →
      step s b = some s₂ → ∃ s₃, step s₁ b = some s₃ ∧ step s₂ a = some s₃)
    {s s' t : σ} {as bs : List κ} (h : run step s as = some t)
    (ht : ∀ b, step t b = none) (h' : run step s bs = some s') :
    ∃ cs, bs.length + cs.length = as.length ∧ run step s' cs = some t := by
  induction bs generalizing s as with
  | nil =>
      rw [run_nil, Option.some.injEq] at h'
      refine ⟨as, ?_, h' ▸ h⟩
      rw [List.length_nil, Nat.zero_add]
  | cons b bs ih =>
      obtain ⟨s₁, hb, hrest⟩ := run_cons_inv h'
      obtain ⟨as', hlen, has'⟩ := run_completes_step hdiamond h ht hb
      obtain ⟨cs, hlen', hcs⟩ := ih has' hrest
      refine ⟨cs, ?_, hcs⟩
      rw [List.length_cons, ← hlen, ← hlen']
      omega

end Completion

-- ============================================================ rendezvous

/-- Both processes run to their end, and each message is received when it
is sent. -/
inductive Sync : Proc μ ε α → Proc μ ε β → Except ε α → Except ε β → Prop
  | finish (x y) : Sync (finish x) (finish y) x y
  | sendRecv {tag m p q x y} (h : Sync p (q m) x y) :
      Sync (.send tag m p) (.recv tag q) x y
  | recvSend {tag m p q x y} (h : Sync (p m) q x y) :
      Sync (.recv tag p) (.send tag m q) x y

theorem Sync.bind {p : Proc μ ε α} {q : Proc μ ε β} {a : α} {b : β}
    {f : α → Proc μ ε γ} {g : β → Proc μ ε δ} {x : Except ε γ}
    {y : Except ε δ} (h : Sync p q (.ok a) (.ok b))
    (hnext : Sync (f a) (g b) x y) : Sync (p >>= f) (q >>= g) x y := by
  generalize hx : Except.ok a = u at h
  generalize hy : Except.ok b = v at h
  induction h with
  | finish u v =>
      subst hx hy
      exact hnext
  | sendRecv _ ih => exact .sendRecv (ih hx hy)
  | recvSend _ ih => exact .recvSend (ih hx hy)

theorem Sync.bind_error {p : Proc μ ε α} {q : Proc μ ε β} {e e' : ε}
    {f : α → Proc μ ε γ} {g : β → Proc μ ε δ}
    (h : Sync p q (.error e) (.error e')) :
    Sync (p >>= f) (q >>= g) (.error e) (.error e') := by
  generalize hx : Except.error e = u at h
  generalize hy : Except.error e' = v at h
  induction h with
  | finish u v =>
      subst hx hy
      exact Sync.finish (.error e) (.error e')
  | sendRecv _ ih => exact .sendRecv (ih hx hy)
  | recvSend _ ih => exact .recvSend (ih hx hy)

-- ===================================================== a joint computation

/-- Both did what one computation does: they returned with `R` to its
result, or raised its error. -/
inductive JointOutcome (R : γ → α → β → Prop) :
    Except ε γ → Except ε α → Except ε β → Prop
  | ok {c a b} (h : R c a b) : JointOutcome R (.ok c) (.ok a) (.ok b)
  | error (e) : JointOutcome R (.error e) (.error e) (.error e)

/-- The processes meet at every message, and do together what the
computation does. -/
def Jointly (p : Proc μ ε α) (q : Proc μ ε β) (r : Except ε γ)
    (R : γ → α → β → Prop) : Prop :=
  ∃ x y, Sync p q x y ∧ JointOutcome R r x y

namespace Jointly

variable {γ' : Type}

theorem ret {R : γ → α → β → Prop} {a : α} {b : β} {c : γ} (h : R c a b) :
    Jointly (.ret a : Proc μ ε α) (.ret b) (.ok c) R :=
  ⟨.ok a, .ok b, .finish (.ok a) (.ok b), .ok h⟩

theorem raise {R : γ → α → β → Prop} (e : ε) :
    Jointly (.raise e : Proc μ ε α) (.raise e) (.error e) R :=
  ⟨.error e, .error e, .finish (.error e) (.error e), .error e⟩

/-- Sequencing: the second parts do the second part of the computation,
from whatever the first left. -/
theorem bind {p : Proc μ ε α} {q : Proc μ ε β} {r : Except ε γ}
    {R : γ → α → β → Prop} {α' β' : Type} {f : α → Proc μ ε α'}
    {g : β → Proc μ ε β'} {k : γ → Except ε γ'} {S : γ' → α' → β' → Prop}
    (h : Jointly p q r R)
    (hnext : ∀ c a b, R c a b → Jointly (f a) (g b) (k c) S) :
    Jointly (p >>= f) (q >>= g) (r >>= k) S := by
  obtain ⟨x, y, hsync, houtcome⟩ := h
  cases houtcome with
  | ok hR =>
      obtain ⟨x', y', hsync', houtcome'⟩ := hnext _ _ _ hR
      exact ⟨x', y', hsync.bind hsync', houtcome'⟩
  | error e => exact ⟨_, _, hsync.bind_error, .error e⟩

/-- Sequencing, where the first parts have come to their end. -/
theorem bind_ok {p : Proc μ ε α} {q : Proc μ ε β} {a : α} {b : β}
    {r : Except ε γ} {α' β' : Type} {f : α → Proc μ ε α'}
    {g : β → Proc μ ε β'} {S : γ → α' → β' → Prop}
    (h : Sync p q (.ok a) (.ok b)) (hnext : Jointly (f a) (g b) r S) :
    Jointly (p >>= f) (q >>= g) r S := by
  obtain ⟨x, y, hsync, houtcome⟩ := hnext
  exact ⟨x, y, h.bind hsync, houtcome⟩

theorem put_get {tag : τ} {m : μ tag} {f : Unit → Proc μ ε α}
    {g : μ tag → Proc μ ε β} {r : Except ε γ} {R : γ → α → β → Prop}
    (h : Jointly (f ()) (g m) r R) :
    Jointly (Proc.put tag m >>= f) (Proc.get tag >>= g) r R := by
  obtain ⟨x, y, hsync, houtcome⟩ := h
  exact ⟨x, y, .sendRecv hsync, houtcome⟩

theorem get_put {tag : τ} {m : μ tag} {f : μ tag → Proc μ ε α}
    {g : Unit → Proc μ ε β} {r : Except ε γ} {R : γ → α → β → Prop}
    (h : Jointly (f m) (g ()) r R) :
    Jointly (Proc.get tag >>= f) (Proc.put tag m >>= g) r R := by
  obtain ⟨x, y, hsync, houtcome⟩ := h
  exact ⟨x, y, .recvSend hsync, houtcome⟩

/-- What they return is beside what the computation returns. -/
theorem result {p : Proc μ ε α} {q : Proc μ ε β} {r : Except ε γ}
    {R : γ → α → β → Prop} (h : Jointly p q r R) :
    Jointly p q r fun c a b => r = .ok c ∧ R c a b := by
  obtain ⟨x, y, hsync, houtcome⟩ := h
  refine ⟨x, y, hsync, ?_⟩
  cases houtcome with
  | ok hR => exact .ok ⟨rfl, hR⟩
  | error e => exact .error e

end Jointly

-- ========================================================== all schedules

section Schedules

variable [DecidableEq τ]

/-- A message that is taken at once leaves the queues as they were. -/
theorem Queues.pop_push_empty (tag : τ) (m : μ tag) :
    Queues.pop (Queues.push (fun _ => []) tag m) tag = fun _ => [] := by
  unfold Queues.push Queues.pop
  rw [Function.update_self, Function.update_idem]
  exact Function.update_eq_self tag _

theorem Queues.head_push_empty (tag : τ) (m : μ tag) :
    (Queues.push (fun _ => []) tag m tag).head? = some m := by
  rw [Queues.push, Function.update_self]
  rfl

/-- The left side sends and the right side receives. -/
theorem run_sendRecv (tag : τ) (m : μ tag) (p : Proc μ ε α)
    (q : μ tag → Proc μ ε β) (schedule : List Side) :
    run System.step (System.start (.send tag m p) (.recv tag q))
        (.left :: .right :: schedule)
      = run System.step (System.start p (q m)) schedule := by
  have hsend : System.step (System.start (.send tag m p) (.recv tag q)) .left
      = some ⟨p, .recv tag q, fun _ => [],
          Queues.push (fun _ => []) tag m⟩ := rfl
  rw [run_cons hsend]
  apply run_cons
  simp only [System.step, Proc.act, Queues.head_push_empty,
    Queues.pop_push_empty, Option.map_some, System.start]

/-- The right side sends and the left side receives. -/
theorem run_recvSend (tag : τ) (m : μ tag) (p : μ tag → Proc μ ε α)
    (q : Proc μ ε β) (schedule : List Side) :
    run System.step (System.start (.recv tag p) (.send tag m q))
        (.right :: .left :: schedule)
      = run System.step (System.start (p m) q) schedule := by
  have hsend : System.step (System.start (.recv tag p) (.send tag m q)) .right
      = some ⟨.recv tag p, q, Queues.push (fun _ => []) tag m,
          fun _ => []⟩ := rfl
  rw [run_cons hsend]
  apply run_cons
  simp only [System.step, Proc.act, Queues.head_push_empty,
    Queues.pop_push_empty, Option.map_some, System.start]

/-- The rendezvous is a run of the system. -/
theorem Sync.exists_run {p : Proc μ ε α} {q : Proc μ ε β} {x : Except ε α}
    {y : Except ε β} (h : Sync p q x y) :
    ∃ schedule, run System.step (System.start p q) schedule
      = some (System.finished x y) := by
  induction h with
  | finish x y => exact ⟨[], rfl⟩
  | sendRecv _ ih =>
      obtain ⟨schedule, hrun⟩ := ih
      exact ⟨_, (run_sendRecv _ _ _ _ schedule).trans hrun⟩
  | recvSend _ ih =>
      obtain ⟨schedule, hrun⟩ := ih
      exact ⟨_, (run_recvSend _ _ _ _ schedule).trans hrun⟩

/-- At the end nobody moves. -/
theorem step_finished (x : Except ε α) (y : Except ε β) (side : Side) :
    (System.finished x y : System μ ε α β).step side = none := by
  cases side with
  | left => cases x <;> rfl
  | right => cases y <;> rfl

/-- Processes that meet to their end are in lock step. -/
theorem Sync.lockStep {p : Proc μ ε α} {q : Proc μ ε β}
    {R : Except ε α → Except ε β → Prop} {x : Except ε α} {y : Except ε β}
    (h : Sync p q x y) (hR : R x y) : LockStep p q R := by
  obtain ⟨whole, hwhole⟩ := h.exists_run
  refine ⟨x, y, whole.length, hR, ?_⟩
  intro schedule s hs
  obtain ⟨rest, hlen, hrest⟩ :=
    run_completes step_diamond hwhole (step_finished x y) hs
  refine ⟨by omega, ⟨rest, hrest⟩, ?_⟩
  intro hstuck
  cases rest with
  | nil =>
      rw [run_nil, Option.some.injEq] at hrest
      exact hrest
  | cons side rest =>
      rw [run_cons_none (hstuck side)] at hrest
      cases hrest

/-- Under every schedule, processes that compute together do what the
computation does. -/
theorem Jointly.lockStep {p : Proc μ ε α} {q : Proc μ ε β} {r : Except ε γ}
    {R : γ → α → β → Prop} (h : Jointly p q r R) :
    LockStep p q (JointOutcome R r) := by
  obtain ⟨x, y, hsync, houtcome⟩ := h
  exact hsync.lockStep houtcome

end Schedules

end PrimiHub.Lib
