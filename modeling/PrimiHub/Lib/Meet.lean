/-
Two processes that meet to their end, or for a while.

`Settles` is the logic of rendezvous that come to an end: both processes
return, or both raise an error of a given kind. `Settles.lockStep` turns it
into a statement about all schedules.

`Meet` are the rendezvous of `Sync` without the end. They are a beginning
of a run, so what holds where they stop, and of every step from there,
holds at the end of every schedule (`not_lockStep_of_meet`): a process that
has raised stays as it is (`not_lockStep_of_raise`), and one that waits for
a tag which the other never sends goes on waiting
(`not_lockStep_of_waits`).
-/
import PrimiHub.Lib.Process

namespace PrimiHub.Lib

variable {τ : Type} {μ : τ → Type} {ε α β γ δ : Type}

-- ======================================================== partial rendezvous

/-- The processes meet at some messages, and these are what is left. -/
inductive Meet : Proc μ ε α → Proc μ ε β → Proc μ ε α → Proc μ ε β → Prop
  | refl (p q) : Meet p q p q
  | sendRecv {tag m p q p' q'} (h : Meet p (q m) p' q') :
      Meet (.send tag m p) (.recv tag q) p' q'
  | recvSend {tag m p q p' q'} (h : Meet (p m) q p' q') :
      Meet (.recv tag p) (.send tag m q) p' q'

namespace Meet

/-- What the first sends, the second takes. -/
theorem put_get {tag : τ} {m : μ tag} {f : Unit → Proc μ ε α}
    {g : μ tag → Proc μ ε β} {p' : Proc μ ε α} {q' : Proc μ ε β}
    (h : Meet (f ()) (g m) p' q') :
    Meet (Proc.put tag m >>= f) (Proc.get tag >>= g) p' q' :=
  .sendRecv h

/-- What the second sends, the first takes. -/
theorem get_put {tag : τ} {m : μ tag} {f : μ tag → Proc μ ε α}
    {g : Unit → Proc μ ε β} {p' : Proc μ ε α} {q' : Proc μ ε β}
    (h : Meet (f m) (g ()) p' q') :
    Meet (Proc.get tag >>= f) (Proc.put tag m >>= g) p' q' :=
  .recvSend h

/-- Processes that go on after two that meet to their end. -/
theorem bind {p : Proc μ ε α} {q : Proc μ ε β} {a : α} {b : β}
    {f : α → Proc μ ε γ} {g : β → Proc μ ε δ} {p' : Proc μ ε γ}
    {q' : Proc μ ε δ} (h : Sync p q (.ok a) (.ok b))
    (hnext : Meet (f a) (g b) p' q') : Meet (p >>= f) (q >>= g) p' q' := by
  generalize hx : Except.ok a = x at h
  generalize hy : Except.ok b = y at h
  induction h with
  | finish x y =>
      subst hx hy
      exact hnext
  | sendRecv _ ih => exact .sendRecv (ih hx hy)
  | recvSend _ ih => exact .recvSend (ih hx hy)

/-- What is left of a process is left with what comes after it. -/
theorem bind_left {p : Proc μ ε α} {q : Proc μ ε β} {p' : Proc μ ε α}
    {q' : Proc μ ε β} (h : Meet p q p' q') (f : α → Proc μ ε γ)
    (g : β → Proc μ ε δ) :
    Meet (p >>= f) (q >>= g) (p' >>= f) (q' >>= g) := by
  induction h with
  | refl p q => exact .refl _ _
  | sendRecv _ ih => exact .sendRecv ih
  | recvSend _ ih => exact .recvSend ih

/-- The other way round. -/
theorem swap {p p' : Proc μ ε α} {q q' : Proc μ ε β}
    (h : Meet p q p' q') : Meet q p q' p' := by
  induction h with
  | refl p q => exact .refl q p
  | sendRecv _ ih => exact .recvSend ih
  | recvSend _ ih => exact .sendRecv ih

end Meet

theorem finish_inj {x y : Except ε α}
    (h : (finish x : Proc μ ε α) = finish y) : x = y := by
  cases x with
  | ok a =>
      cases y with
      | ok b =>
          cases h
          rfl
      | error e => cases h
  | error e =>
      cases y with
      | ok b => cases h
      | error e' =>
          cases h
          rfl

/-- Two processes meet in one way only. -/
theorem Sync.unique {p : Proc μ ε α} {q : Proc μ ε β} {x x' : Except ε α}
    {y y' : Except ε β} (h : Sync p q x y) (h' : Sync p q x' y') :
    x = x' ∧ y = y' := by
  induction h with
  | finish x y =>
      generalize hp : Lib.finish x = p at h'
      generalize hq : Lib.finish y = q at h'
      cases h' with
      | finish x' y' => exact ⟨finish_inj hp, finish_inj hq⟩
      | sendRecv _ => cases x <;> cases hp
      | recvSend _ => cases x <;> cases hp
  | @sendRecv tag m p q x y _ ih =>
      generalize hp : Proc.send tag m p = p₀ at h'
      generalize hq : Proc.recv tag q = q₀ at h'
      cases h' with
      | finish x' y' => cases x' <;> cases hp
      | sendRecv h' =>
          cases hp
          cases hq
          exact ih h'
      | recvSend _ => cases hp
  | @recvSend tag m p q x y _ ih =>
      generalize hp : Proc.recv tag p = p₀ at h'
      generalize hq : Proc.send tag m q = q₀ at h'
      cases h' with
      | finish x' y' => cases x' <;> cases hp
      | sendRecv _ => cases hp
      | recvSend h' =>
          cases hp
          cases hq
          exact ih h'

-- ================================================================ the end

/-- Both returned and `R` holds, or both raised the same error of `E`. -/
inductive EndsIn (E : ε → Prop) (R : α → β → Prop) :
    Except ε α → Except ε β → Prop
  | ok {a b} (h : R a b) : EndsIn E R (.ok a) (.ok b)
  | error {e} (h : E e) : EndsIn E R (.error e) (.error e)

/-- The processes meet at every message, and end so. -/
def Settles (p : Proc μ ε α) (q : Proc μ ε β) (E : ε → Prop)
    (R : α → β → Prop) : Prop :=
  ∃ x y, Sync p q x y ∧ EndsIn E R x y

namespace Settles

variable {E : ε → Prop}

/-- Both return. -/
theorem ret {R : α → β → Prop} {a : α} {b : β} (h : R a b) :
    Settles (.ret a : Proc μ ε α) (.ret b) E R :=
  ⟨.ok a, .ok b, .finish (.ok a) (.ok b), .ok h⟩

/-- Both raise the same error. -/
theorem raise {R : α → β → Prop} {e : ε} (h : E e) :
    Settles (.raise e : Proc μ ε α) (.raise e) E R :=
  ⟨.error e, .error e, .finish (.error e) (.error e), .error h⟩

/-- What comes after two that settle starts with what they returned. -/
theorem bind {p : Proc μ ε α} {q : Proc μ ε β} {R : α → β → Prop}
    {f : α → Proc μ ε γ} {g : β → Proc μ ε δ} {S : γ → δ → Prop}
    (h : Settles p q E R) (hnext : ∀ a b, Sync p q (.ok a) (.ok b) → R a b →
      Settles (f a) (g b) E S) : Settles (p >>= f) (q >>= g) E S := by
  obtain ⟨x, y, hsync, hend⟩ := h
  cases hend with
  | ok hR =>
      obtain ⟨x', y', hsync', hend'⟩ := hnext _ _ hsync hR
      exact ⟨x', y', hsync.bind hsync', hend'⟩
  | error he => exact ⟨_, _, hsync.bind_error, .error he⟩

/-- Sequencing, after parts that return. -/
theorem bind_ok {p : Proc μ ε α} {q : Proc μ ε β} {a : α} {b : β}
    {f : α → Proc μ ε γ} {g : β → Proc μ ε δ} {S : γ → δ → Prop}
    (h : Sync p q (.ok a) (.ok b)) (hnext : Settles (f a) (g b) E S) :
    Settles (p >>= f) (q >>= g) E S := by
  obtain ⟨x, y, hsync, hend⟩ := hnext
  exact ⟨x, y, h.bind hsync, hend⟩

/-- A message from the first to the second. -/
theorem put_get {tag : τ} {m : μ tag} {f : Unit → Proc μ ε α}
    {g : μ tag → Proc μ ε β} {R : α → β → Prop}
    (h : Settles (f ()) (g m) E R) :
    Settles (Proc.put tag m >>= f) (Proc.get tag >>= g) E R := by
  obtain ⟨x, y, hsync, hend⟩ := h
  exact ⟨x, y, .sendRecv hsync, hend⟩

/-- A message from the second to the first. -/
theorem get_put {tag : τ} {m : μ tag} {f : μ tag → Proc μ ε α}
    {g : Unit → Proc μ ε β} {R : α → β → Prop}
    (h : Settles (f m) (g ()) E R) :
    Settles (Proc.get tag >>= f) (Proc.put tag m >>= g) E R := by
  obtain ⟨x, y, hsync, hend⟩ := h
  exact ⟨x, y, .recvSend hsync, hend⟩

/-- Less may be said of the results. -/
theorem mono {p : Proc μ ε α} {q : Proc μ ε β} {R S : α → β → Prop}
    (h : Settles p q E R) (hRS : ∀ a b, R a b → S a b) :
    Settles p q E S := by
  obtain ⟨x, y, hsync, hend⟩ := h
  refine ⟨x, y, hsync, ?_⟩
  cases hend with
  | ok hR => exact .ok (hRS _ _ hR)
  | error he => exact .error he

/-- Where no error is allowed both return. -/
theorem returns {p : Proc μ ε α} {q : Proc μ ε β} {R : α → β → Prop}
    (h : Settles p q E R) (hE : ∀ e, ¬ E e) :
    ∃ a b, Sync p q (.ok a) (.ok b) ∧ R a b := by
  obtain ⟨x, y, hsync, hend⟩ := h
  cases hend with
  | ok hR => exact ⟨_, _, hsync, hR⟩
  | error he => exact (hE _ he).elim

/-- Where no error is allowed, both return. -/
theorem exists_ok {p : Proc μ ε α} {q : Proc μ ε β} {R : α → β → Prop}
    (h : Settles p q (fun _ => False) R) :
    ∃ a b, Sync p q (.ok a) (.ok b) ∧ R a b :=
  h.returns fun _ he => he

end Settles

-- ============================================================ never and ever

/-- The process never sends under this tag, and what it returns is as `Q`
says. -/
inductive Silent (tag : τ) (Q : α → Prop) : Proc μ ε α → Prop
  | ret {a} (h : Q a) : Silent tag Q (.ret a)
  | raise {e} : Silent tag Q (.raise e)
  | send {t m next} (ht : t ≠ tag) (h : Silent tag Q next) :
      Silent tag Q (.send t m next)
  | recv {t next} (h : ∀ m, Silent tag Q (next m)) :
      Silent tag Q (.recv t next)

/-- Both parts are silent on the tag. -/
theorem Silent.bind {tag : τ} {Q : α → Prop} {R : β → Prop}
    {p : Proc μ ε α} {f : α → Proc μ ε β} (h : Silent tag Q p)
    (hnext : ∀ a, Q a → Silent tag R (f a)) : Silent tag R (p >>= f) := by
  induction h with
  | ret ha => exact hnext _ ha
  | raise => exact .raise
  | send ht _ ih => exact .send ht ih
  | recv _ ih => exact .recv ih

/-- What a process returns in a run is as said. -/
theorem Silent.of_sync {tag : τ} {Q : α → Prop} {p : Proc μ ε α}
    {q : Proc μ ε β} {a : α} {y : Except ε β} (h : Silent tag Q p)
    (hsync : Sync p q (.ok a) y) : Q a := by
  generalize hx : Except.ok a = x at hsync
  induction hsync with
  | finish x y =>
      subst hx
      cases h with
      | ret ha => exact ha
  | sendRecv _ ih =>
      cases h with
      | send _ hnext => exact ih hnext hx
  | recvSend _ ih =>
      cases h with
      | recv hnext => exact ih (hnext _) hx

/-- A computation without messages is silent. -/
theorem Silent.lift {tag : τ} {Q : α → Prop} {x : Except ε α}
    (h : ∀ a, x = .ok a → Q a) : Silent tag Q (Proc.lift x : Proc μ ε α) := by
  cases x with
  | ok a => exact .ret (h a rfl)
  | error e => exact .raise

/-- What comes after a message is silent, too. -/
theorem Silent.of_put {tag t : τ} {Q : α → Prop} {m : μ t}
    {f : Unit → Proc μ ε α} (h : Silent tag Q (Proc.put t m >>= f)) :
    Silent tag Q (f ()) := by
  cases h with
  | send _ hnext => exact hnext

/-- What comes after a message that was taken is silent, too. -/
theorem Silent.of_get {tag t : τ} {Q : α → Prop} {f : μ t → Proc μ ε α}
    (h : Silent tag Q (Proc.get t >>= f)) (m : μ t) : Silent tag Q (f m) := by
  cases h with
  | recv hnext => exact hnext m

/-- The process sends some messages and then waits for this tag. -/
inductive Waits (tag : τ) : Proc μ ε α → Prop
  | recv {next} : Waits tag (.recv tag next)
  | send {t m next} (h : Waits tag next) : Waits tag (.send t m next)

/-- A process that waits goes on waiting with what comes after it. -/
theorem Waits.bind {tag : τ} {p : Proc μ ε α} (h : Waits tag p)
    (f : α → Proc μ ε β) : Waits tag (p >>= f) := by
  induction h with
  | recv => exact .recv
  | send _ ih => exact .send ih

-- ================================================================= schedules

section Schedules

variable [DecidableEq τ]

/-- Processes that meet at every message are in lock step. -/
theorem Settles.lockStep {p : Proc μ ε α} {q : Proc μ ε β} {E : ε → Prop}
    {R : α → β → Prop} (h : Settles p q E R) :
    LockStep p q (EndsIn E R) := by
  obtain ⟨x, y, hsync, hend⟩ := h
  exact hsync.lockStep hend

/-- The meetings are a run of the system. -/
theorem Meet.exists_run {p p' : Proc μ ε α} {q q' : Proc μ ε β}
    (h : Meet p q p' q') :
    ∃ schedule, run System.step (System.start p q) schedule
      = some (System.start p' q') := by
  induction h with
  | refl p q => exact ⟨[], rfl⟩
  | sendRecv _ ih =>
      obtain ⟨schedule, hrun⟩ := ih
      exact ⟨_, (run_sendRecv _ _ _ _ schedule).trans hrun⟩
  | recvSend _ ih =>
      obtain ⟨schedule, hrun⟩ := ih
      exact ⟨_, (run_recvSend _ _ _ _ schedule).trans hrun⟩

/-- What holds after some meetings, and of every step from there, holds at
the end. -/
theorem not_lockStep_of_meet {p p' : Proc μ ε α} {q q' : Proc μ ε β}
    {R : Except ε α → Except ε β → Prop} (h : Meet p q p' q')
    (I : System μ ε α β → Prop) (hstart : I (System.start p' q'))
    (hstep : ∀ s side s', I s → s.step side = some s' → I s')
    (hend : ∀ x y, I (System.finished x y) → ¬ R x y) :
    ¬ LockStep p q R := by
  rintro ⟨x, y, n, hR, hall⟩
  obtain ⟨schedule, hrun⟩ := h.exists_run
  obtain ⟨-, ⟨rest, hrest⟩, -⟩ := hall schedule _ hrun
  exact hend x y (run_invariant (fun s side s' hs h => hstep s side s' hs h)
    hstart hrest) hR

/-- The first process has raised. -/
theorem not_lockStep_of_raise {p : Proc μ ε α} {q q' : Proc μ ε β} {e : ε}
    {R : Except ε α → Except ε β → Prop} (h : Meet p q (.raise e) q')
    (hR : ∀ y, ¬ R (.error e) y) : ¬ LockStep p q R := by
  refine not_lockStep_of_meet h (fun s => s.left = .raise e) rfl ?_ ?_
  · intro s side s' hs hstep
    cases side with
    | left =>
        rw [System.step, hs] at hstep
        cases hstep
    | right =>
        obtain ⟨_, -, rfl⟩ := Option.map_eq_some_iff.mp hstep
        exact hs
  · intro x y hx
    cases x with
    | ok a => cases hx
    | error e' =>
        cases hx
        exact hR y

/-- The second process waits for what the first never sends. -/
theorem not_lockStep_of_waits {p p' : Proc μ ε α} {q q' : Proc μ ε β}
    {R : Except ε α → Except ε β → Prop} {tag : τ} {Q : α → Prop}
    (h : Meet p q p' q') (hp : Silent tag Q p') (hq : Waits tag q') :
    ¬ LockStep p q R := by
  refine not_lockStep_of_meet h (fun s => Silent tag Q s.left
    ∧ Waits tag s.right ∧ s.toRight tag = []) ⟨hp, hq, rfl⟩ ?_ ?_
  · rintro ⟨p, q, toLeft, toRight⟩ side s' ⟨hp, hq, hnil⟩ hstep
    cases side with
    | left =>
        obtain ⟨⟨p', inbox, outbox⟩, hact, rfl⟩ :=
          Option.map_eq_some_iff.mp hstep
        obtain ⟨t, m, rfl, -, rfl⟩ | ⟨t, m, next, rfl, -, rfl, -, rfl⟩ :=
          Proc.act_cases hact
        · cases hp with
          | send ht hnext =>
              refine ⟨hnext, hq, ?_⟩
              exact (Function.update_of_ne ht.symm _ _).trans hnil
        · cases hp with
          | recv hnext => exact ⟨hnext m, hq, hnil⟩
    | right =>
        obtain ⟨⟨q', inbox, outbox⟩, hact, rfl⟩ :=
          Option.map_eq_some_iff.mp hstep
        obtain ⟨t, m, rfl, rfl, -⟩ | ⟨t, m, next, rfl, hm, -, -, -⟩ :=
          Proc.act_cases hact
        · cases hq with
          | send hnext => exact ⟨hp, hnext, hnil⟩
        · -- nothing of this tag is in flight
          cases hq with
          | recv =>
              have hhead : (toRight tag).head? = some m := hm
              have hempty : toRight tag = [] := hnil
              rw [hempty] at hhead
              cases hhead
  · rintro x y ⟨-, hq, -⟩
    have hwaits : Waits tag (finish y : Proc μ ε β) := hq
    cases y <;> cases hwaits

-- ================================================================= both ways

/-- The other side. -/
def Side.other : Side → Side
  | .left => .right
  | .right => .left

/-- The system with its sides exchanged. -/
def System.swap (s : System μ ε α β) : System μ ε β α :=
  ⟨s.right, s.left, s.toRight, s.toLeft⟩

/-- A step of the two processes, named the other way round. -/
theorem System.step_swap (s : System μ ε α β) (side : Side) :
    s.swap.step side.other = (s.step side).map System.swap := by
  cases side with
  | left =>
      rw [System.step, Option.map_map]
      rfl
  | right =>
      rw [System.step, Option.map_map]
      rfl

/-- A schedule, named the other way round. -/
theorem run_swap {s t : System μ ε α β} {schedule : List Side}
    (h : run System.step s schedule = some t) :
    run System.step s.swap (schedule.map Side.other) = some t.swap := by
  induction schedule generalizing s with
  | nil =>
      cases h
      rfl
  | cons side schedule ih =>
      obtain ⟨s', hs', hrest⟩ := run_cons_inv h
      have hstep : s.swap.step side.other = some s'.swap := by
        rw [System.step_swap, hs']
        rfl
      rw [List.map_cons, run_cons hstep]
      exact ih hrest

theorem Side.other_other (side : Side) : side.other.other = side := by
  cases side <;> rfl

/-- Lock step does not depend on which process is called the first. -/
theorem LockStep.swap {p : Proc μ ε α} {q : Proc μ ε β}
    {R : Except ε α → Except ε β → Prop} (h : LockStep p q R) :
    LockStep q p fun y x => R x y := by
  obtain ⟨x, y, n, hR, hall⟩ := h
  refine ⟨y, x, n, hR, fun schedule s hs => ?_⟩
  obtain ⟨hlen, ⟨rest, hrest⟩, hstuck⟩ := hall _ _ (run_swap hs)
  refine ⟨?_, ⟨rest.map Side.other, run_swap hrest⟩, fun hnone => ?_⟩
  · rwa [List.length_map] at hlen
  · have hswap := hstuck fun side => by
      rw [← side.other_other, System.step_swap, hnone]
      rfl
    exact congrArg System.swap hswap

/-- The second process has raised. -/
theorem not_lockStep_of_raise_right {p p' : Proc μ ε α} {q : Proc μ ε β}
    {e : ε} {R : Except ε α → Except ε β → Prop}
    (h : Meet p q p' (.raise e)) (hR : ∀ x, ¬ R x (.error e)) :
    ¬ LockStep p q R :=
  fun hlock => not_lockStep_of_raise h.swap hR hlock.swap

/-- The first process waits for what the second never sends. -/
theorem not_lockStep_of_waits_left {p p' : Proc μ ε α} {q q' : Proc μ ε β}
    {R : Except ε α → Except ε β → Prop} {tag : τ} {Q : β → Prop}
    (h : Meet p q p' q') (hp : Waits tag p') (hq : Silent tag Q q') :
    ¬ LockStep p q R :=
  fun hlock => not_lockStep_of_waits h.swap hq hp hlock.swap

end Schedules

end PrimiHub.Lib
