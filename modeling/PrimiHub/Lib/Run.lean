/-
Runs of a partial step function, and the induction every invariant of
this development goes through; loops; threads.

A system here is a function `step : σ → α → Option σ`: an action is
either disabled (`none`) or leads to one next state. A run is a list of
actions, executed left to right and stopping at the first disabled one.
Nothing in this file knows what the states or the actions are: the
registry, the channel and the share machines instantiate it and use its
rules by name, `run_invariant` above all: what one step preserves, a
whole run preserves.

`doWhile` runs a body with fuel: it has no result when the fuel runs out
before the condition fails. `Ends` is the loop itself: it relates a state
to the one the loop leaves, and with enough fuel that is what `doWhile`
returns (`Ends.returns`). `Ends.stop` and `Ends.next` are the rules for a
loop that ends, `not_ends_of_invariant` the one for a loop that does not.

A thread is the list of atomic actions it has still to take; an action
changes the shared state. The threads of a `Pool` take their actions in
any order, one action a step. Whatever the schedule, the pool does all
actions of its threads, each once, in some order (`exists_perm_of_run`).
So what does not depend on the order of the actions is known at the join.
No schedule can keep a pool from being joined (`exists_joined`).
-/
import Mathlib.Data.List.Basic
import Mathlib.Data.List.Flatten
import Mathlib.Data.List.Perm.Basic
import Mathlib.Data.Nat.Init
import Mathlib.Data.Option.Basic

namespace PrimiHub.Lib

section Run

variable {σ α : Type*}

/-- Execute a list of actions, failing on the first disabled one. -/
def run (step : σ → α → Option σ) (s : σ) : List α → Option σ
  | [] => some s
  | a :: rest =>
      match step s a with
      | some s' => run step s' rest
      | none => none

variable {step : σ → α → Option σ}

@[simp] theorem run_nil (s : σ) : run step s [] = some s := rfl

/-- A run that starts with an enabled action continues from its
successor. -/
theorem run_cons {s s' : σ} {a : α} {rest : List α}
    (h : step s a = some s') :
    run step s (a :: rest) = run step s' rest := by
  simp only [run, h]

/-- A run that starts with a disabled action fails. -/
theorem run_cons_none {s : σ} {a : α} {rest : List α}
    (h : step s a = none) : run step s (a :: rest) = none := by
  simp only [run, h]

/-- A successful run splits at its first action. -/
theorem run_cons_inv {s t : σ} {a : α} {rest : List α}
    (h : run step s (a :: rest) = some t) :
    ∃ s', step s a = some s' ∧ run step s' rest = some t := by
  cases hs : step s a with
  | none => rw [run_cons_none hs] at h; cases h
  | some s' => exact ⟨s', rfl, by rwa [run_cons hs] at h⟩

/-- Two runs, one after the other. -/
theorem run_append {s t : σ} {as bs : List α} (h : run step s as = some t) :
    run step s (as ++ bs) = run step t bs := by
  induction as generalizing s with
  | nil =>
      rw [run_nil, Option.some.injEq] at h
      rw [h, List.nil_append]
  | cons a as ih =>
      obtain ⟨s', hsa, hrest⟩ := run_cons_inv h
      rw [List.cons_append, run_cons hsa, ih hrest]

/-- What one step preserves, a whole run preserves. -/
theorem run_invariant {I : σ → Prop}
    (hstep : ∀ s a s', I s → step s a = some s' → I s')
    {s t : σ} {as : List α} (hs : I s) (h : run step s as = some t) :
    I t := by
  induction as generalizing s with
  | nil =>
      rw [run_nil, Option.some.injEq] at h
      exact h ▸ hs
  | cons a as ih =>
      obtain ⟨s', hsa, hrest⟩ := run_cons_inv h
      exact ih (hstep s a s' hs hsa) hrest

/-- A measure that every step lowers bounds the runs. -/
theorem run_length_le {I : σ → Prop} {f : σ → Nat}
    (hinv : ∀ s a s', I s → step s a = some s' → I s')
    (hless : ∀ s a s', I s → step s a = some s' → f s' < f s)
    {s t : σ} {as : List α} (hs : I s) (h : run step s as = some t) :
    as.length + f t ≤ f s := by
  induction as generalizing s with
  | nil =>
      rw [run_nil, Option.some.injEq] at h
      rw [h, List.length_nil]
      exact Nat.le_of_eq (Nat.zero_add _)
  | cons a as ih =>
      obtain ⟨s', hsa, hrest⟩ := run_cons_inv h
      have hlt := hless s a s' hs hsa
      have hle := ih (hinv s a s' hs hsa) hrest
      rw [List.length_cons]
      omega

/-- With such a measure there is a run that cannot be continued. -/
theorem exists_run_stuck {I : σ → Prop} {f : σ → Nat}
    (hinv : ∀ s a s', I s → step s a = some s' → I s')
    (hless : ∀ s a s', I s → step s a = some s' → f s' < f s)
    {s : σ} (hs : I s) :
    ∃ as t, run step s as = some t ∧ ∀ a, step t a = none := by
  induction hn : f s using Nat.strong_induction_on generalizing s with
  | h n ih =>
      by_cases hstuck : ∀ a, step s a = none
      · exact ⟨[], s, run_nil s, hstuck⟩
      · obtain ⟨a, ha⟩ := not_forall.mp hstuck
        obtain ⟨s', hs'⟩ := Option.ne_none_iff_exists'.mp ha
        have hlt : f s' < n := hn ▸ hless s a s' hs hs'
        obtain ⟨as, t, hrun, ht⟩ := ih (f s') hlt (hinv s a s' hs hs') rfl
        exact ⟨a :: as, t, (run_cons hs').trans hrun, ht⟩

/-- Every action of the list meets `P` in the state it is taken in. -/
def Along (step : σ → α → Option σ) (P : σ → α → Prop) (s : σ) :
    List α → Prop
  | [] => True
  | a :: rest => P s a ∧ ∀ s', step s a = some s' → Along step P s' rest

/-- The condition along a list that starts with an enabled action. -/
theorem along_cons_iff {P : σ → α → Prop} {s s' : σ} {a : α} {rest : List α}
    (h : step s a = some s') :
    Along step P s (a :: rest) ↔ P s a ∧ Along step P s' rest := by
  constructor
  · intro hal
    exact ⟨hal.1, hal.2 s' h⟩
  · intro hal
    refine ⟨hal.1, fun s'' h' => ?_⟩
    rw [h, Option.some.injEq] at h'
    exact h' ▸ hal.2

/-- The condition along a list that starts with a disabled action. -/
theorem along_cons_none_iff {P : σ → α → Prop} {s : σ} {a : α}
    {rest : List α} (h : step s a = none) :
    Along step P s (a :: rest) ↔ P s a := by
  refine ⟨fun hal => hal.1, fun ha => ⟨ha, fun s' hs' => ?_⟩⟩
  rw [h] at hs'
  cases hs'

instance decidableAlong {P : σ → α → Prop} [∀ s a, Decidable (P s a)] :
    (s : σ) → (as : List α) → Decidable (Along step P s as)
  | _, [] => isTrue trivial
  | s, a :: rest =>
      match h : step s a with
      | some s' =>
          have := decidableAlong (P := P) s' rest
          decidable_of_iff _ (along_cons_iff h).symm
      | none => decidable_of_iff _ (along_cons_none_iff h).symm

/-- What every step that meets the condition preserves. -/
theorem run_invariant_of_along {I : σ → Prop} {P : σ → α → Prop}
    (hstep : ∀ s a s', I s → P s a → step s a = some s' → I s')
    {s t : σ} {as : List α} (hs : I s) (hal : Along step P s as)
    (h : run step s as = some t) : I t := by
  induction as generalizing s with
  | nil =>
      rw [run_nil, Option.some.injEq] at h
      exact h ▸ hs
  | cons a as ih =>
      obtain ⟨s', hsa, hrest⟩ := run_cons_inv h
      exact ih (hstep s a s' hs hal.1 hsa) (hal.2 s' hsa) hrest

/-- A count that goes up by one at the actions of one kind has counted
them. -/
theorem run_count_of_along {I : σ → Prop} {P : σ → α → Prop} {f : σ → Nat}
    {p : α → Bool}
    (hinv : ∀ s a s', I s → P s a → step s a = some s' → I s')
    (hcount : ∀ s a s', I s → P s a → step s a = some s' →
      f s' = f s + if p a then 1 else 0)
    {s t : σ} {as : List α} (hs : I s) (hal : Along step P s as)
    (h : run step s as = some t) : f t = f s + as.countP p := by
  induction as generalizing s with
  | nil =>
      rw [run_nil, Option.some.injEq] at h
      rw [h, List.countP_nil, Nat.add_zero]
  | cons a as ih =>
      obtain ⟨s', hsa, hrest⟩ := run_cons_inv h
      rw [ih (hinv s a s' hs hal.1 hsa) (hal.2 s' hsa) hrest,
        hcount s a s' hs hal.1 hsa, List.countP_cons]
      omega

/-- What exactly the steps outside `P` destroy, and nothing brings back,
is there at the end of a run whose steps all met `P`; the steps are taken
in states that meet an invariant `J`. -/
theorem run_iff_along_of_invariant {J I : σ → Prop} {P : σ → α → Prop}
    (hinv : ∀ s a s', J s → step s a = some s' → J s')
    (hstep : ∀ s a s', J s → step s a = some s' → (I s' ↔ I s ∧ P s a))
    {s t : σ} {as : List α} (hs : J s) (h : run step s as = some t) :
    I t ↔ I s ∧ Along step P s as := by
  induction as generalizing s with
  | nil =>
      rw [run_nil, Option.some.injEq] at h
      simp only [h, Along, and_true]
  | cons a as ih =>
      obtain ⟨s', hsa, hrest⟩ := run_cons_inv h
      rw [ih (hinv s a s' hs hsa) hrest, hstep s a s' hs hsa,
        along_cons_iff hsa, and_assoc]

/-- The same where no invariant is needed. -/
theorem run_iff_along {I : σ → Prop} {P : σ → α → Prop}
    (hstep : ∀ s a s', step s a = some s' → (I s' ↔ I s ∧ P s a))
    {s t : σ} {as : List α} (h : run step s as = some t) :
    I t ↔ I s ∧ Along step P s as :=
  run_iff_along_of_invariant (J := fun _ => True) (fun _ _ _ _ _ => trivial)
    (fun s a s' _ => hstep s a s') trivial h

/-- What an invariant and the condition on a step give holds along every
list whose steps meet the condition. -/
theorem along_of_invariant {I : σ → Prop} {P Q : σ → α → Prop}
    (hstep : ∀ s a s', I s → P s a → step s a = some s' → I s')
    (hQ : ∀ s a, I s → P s a → Q s a)
    {s : σ} {as : List α} (hs : I s) (h : Along step P s as) :
    Along step Q s as := by
  induction as generalizing s with
  | nil => trivial
  | cons a as ih =>
      refine ⟨hQ s a hs h.1, ?_⟩
      intro s' hsa
      exact ih (hstep s a s' hs h.1 hsa) (h.2 s' hsa)

/-- Two conditions that agree where an invariant holds hold along the same
lists. -/
theorem along_congr_of_invariant {I : σ → Prop} {P Q : σ → α → Prop}
    (hstep : ∀ s a s', I s → step s a = some s' → I s')
    (hPQ : ∀ s a, I s → (P s a ↔ Q s a)) {s : σ} {as : List α} (hs : I s) :
    Along step P s as ↔ Along step Q s as :=
  ⟨along_of_invariant (fun s a s' h _ => hstep s a s' h)
      (fun s a h => (hPQ s a h).mp) hs,
    along_of_invariant (fun s a s' h _ => hstep s a s' h)
      (fun s a h => (hPQ s a h).mpr) hs⟩

end Run

-- ========================================================= do-while loops

section DoWhile

variable {σ : Type*}

/-- `do body while (again)`, for at most `fuel` rounds. -/
def doWhile (body : σ → σ) (again : σ → Bool) : Nat → σ → Option σ
  | 0, _ => none
  | fuel + 1, s =>
      if again (body s) then doWhile body again fuel (body s)
      else some (body s)

/-- Started in `s`, the loop ends and leaves `t`. -/
def Ends (body : σ → σ) (again : σ → Bool) (s t : σ) : Prop :=
  ∃ fuel, doWhile body again fuel s = some t

/-- With fuel from some point on, the result is `x`. -/
def Returns {α : Type*} (f : Nat → Option α) (x : α) : Prop :=
  ∃ enough, ∀ fuel, enough ≤ fuel → f fuel = some x

/-- What is done with the result needs no fuel. -/
theorem Returns.map {α β : Type*} {f : Nat → Option α} {x : α}
    (h : Returns f x) (g : α → β) :
    Returns (fun fuel => (f fuel).map g) (g x) := by
  obtain ⟨enough, hx⟩ := h
  exact ⟨enough, fun fuel hle => congrArg (Option.map g) (hx fuel hle)⟩

variable {body : σ → σ} {again : σ → Bool} {s t : σ}

/-- The last round. -/
theorem Ends.stop (h : again (body s) = false) :
    Ends body again s (body s) :=
  ⟨1, by rw [doWhile, h, if_neg Bool.false_ne_true]⟩

/-- A round that is not the last. -/
theorem Ends.next (h : again (body s) = true)
    (hrest : Ends body again (body s) t) : Ends body again s t := by
  obtain ⟨fuel, hrun⟩ := hrest
  exact ⟨fuel + 1, by rw [doWhile, if_pos h, hrun]⟩

/-- More fuel changes nothing. -/
theorem doWhile_mono {fuel more : Nat} (hle : fuel ≤ more)
    (h : doWhile body again fuel s = some t) :
    doWhile body again more s = some t := by
  induction fuel generalizing s more with
  | zero => cases h
  | succ fuel ih =>
      obtain ⟨more, rfl⟩ : ∃ more', more = more' + 1 :=
        ⟨more - 1, by omega⟩
      rw [doWhile] at h ⊢
      by_cases hagain : again (body s) = true
      · rw [if_pos hagain] at h ⊢
        exact ih (Nat.le_of_succ_le_succ hle) h
      · rw [if_neg hagain] at h ⊢
        exact h

/-- A loop that ends has its result with all fuel from some point on. -/
theorem Ends.returns (h : Ends body again s t) :
    Returns (fun fuel => doWhile body again fuel s) t := by
  obtain ⟨enough, hrun⟩ := h
  exact ⟨enough, fun fuel hle => doWhile_mono hle hrun⟩

/-- An invariant under which every round asks for another. -/
theorem not_ends_of_invariant {inv : σ → Prop}
    (hbody : ∀ s, inv s → inv (body s) ∧ again (body s) = true)
    (hs : inv s) : ¬Ends body again s t := by
  rintro ⟨fuel, hrun⟩
  induction fuel generalizing s with
  | zero => cases hrun
  | succ fuel ih =>
      obtain ⟨hinv, hagain⟩ := hbody s hs
      rw [doWhile, if_pos hagain] at hrun
      exact ih hinv hrun

end DoWhile

-- ================================================================ threads

section Threads

variable {σ α : Type*}

/-- The shared state, and the actions each thread has still to take. -/
structure Pool (σ α : Type*) where
  shared : σ
  threads : List (List α)

namespace Pool

/-- Thread `i` takes its next action. -/
def step (effect : σ → α → σ) (p : Pool σ α) (i : Nat) :
    Option (Pool σ α) :=
  match p.threads[i]? with
  | some (a :: rest) => some ⟨effect p.shared a, p.threads.set i rest⟩
  | _ => none

/-- All threads have ended. -/
def Joined (p : Pool σ α) : Prop := p.threads.flatten = []

variable {effect : σ → α → σ} {p q : Pool σ α} {i : Nat}

theorem step_eq_some_iff :
    step effect p i = some q
      ↔ ∃ a rest, p.threads[i]? = some (a :: rest)
        ∧ q = ⟨effect p.shared a, p.threads.set i rest⟩ := by
  unfold step
  split
  case h_1 a rest hi =>
    rw [Option.some.injEq, eq_comm]
    constructor
    · intro h
      exact ⟨a, rest, hi, h⟩
    · intro h
      obtain ⟨a', rest', hi', h⟩ := h
      rw [hi] at hi'
      cases hi'
      exact h
  case h_2 hne =>
    constructor
    · intro h
      cases h
    · intro h
      obtain ⟨a, rest, hi, -⟩ := h
      exact absurd hi (hne a rest)

/-- A step takes one action off the pool. -/
theorem flatten_set {threads : List (List α)} {a : α} {rest : List α}
    (h : threads[i]? = some (a :: rest)) :
    (a :: (threads.set i rest).flatten).Perm threads.flatten := by
  obtain ⟨hlt, heq⟩ := List.getElem?_eq_some_iff.mp h
  have hsplit := List.take_append_drop i threads
  rw [List.drop_eq_getElem_cons hlt, heq] at hsplit
  rw [List.set_eq_take_append_cons_drop, if_pos hlt]
  conv => rhs; rw [← hsplit]
  simp only [List.flatten_append, List.flatten_cons, List.cons_append]
  exact List.perm_middle.symm

/-- A run has done some actions, each once, and has the others left. -/
theorem exists_perm_of_run {schedule : List Nat}
    (h : run (step effect) p schedule = some q) :
    ∃ done : List α, q.shared = done.foldl effect p.shared
      ∧ done.length = schedule.length
      ∧ (done ++ q.threads.flatten).Perm p.threads.flatten := by
  induction schedule generalizing p with
  | nil =>
      rw [run_nil, Option.some.injEq] at h
      subst h
      exact ⟨[], rfl, rfl, List.Perm.refl _⟩
  | cons i schedule ih =>
      obtain ⟨p', hstep, hrun⟩ := run_cons_inv h
      obtain ⟨a, rest, hi, rfl⟩ := step_eq_some_iff.mp hstep
      obtain ⟨done, hshared, hlength, hperm⟩ := ih hrun
      refine ⟨a :: done, hshared, congrArg (· + 1) hlength, ?_⟩
      exact (hperm.cons a).trans (flatten_set hi)

/-- At the join all actions have been done. -/
theorem exists_perm_of_joined {schedule : List Nat}
    (h : run (step effect) p schedule = some q) (hq : q.Joined) :
    ∃ done : List α, q.shared = done.foldl effect p.shared
      ∧ done.Perm p.threads.flatten := by
  obtain ⟨done, hshared, -, hperm⟩ := exists_perm_of_run h
  rw [hq, List.append_nil] at hperm
  exact ⟨done, hshared, hperm⟩

/-- A pool that is not joined has a thread that can go on. -/
theorem exists_step (effect : σ → α → σ) (h : ¬p.Joined) :
    ∃ i q, step effect p i = some q := by
  obtain ⟨thread, hmem, hne⟩ : ∃ t ∈ p.threads, t ≠ [] := by
    by_contra hnone
    refine h (List.flatten_eq_nil_iff.mpr fun t ht => ?_)
    by_contra hne
    exact hnone ⟨t, ht, hne⟩
  obtain ⟨i, hi⟩ := List.mem_iff_getElem?.mp hmem
  obtain ⟨a, rest, rfl⟩ := List.exists_cons_of_ne_nil hne
  exact ⟨i, _, step_eq_some_iff.mpr ⟨a, rest, hi, rfl⟩⟩

/-- Any pool can be run to its join. -/
theorem exists_joined (effect : σ → α → σ) (p : Pool σ α) :
    ∃ schedule q, run (step effect) p schedule = some q ∧ q.Joined := by
  induction hn : p.threads.flatten.length using Nat.strongRecOn
    generalizing p with
  | ind n ih =>
      by_cases hp : p.Joined
      · exact ⟨[], p, rfl, hp⟩
      · obtain ⟨i, p', hstep⟩ := exists_step effect hp
        obtain ⟨a, rest, hi, rfl⟩ := step_eq_some_iff.mp hstep
        have hless := (flatten_set hi).length_eq
        rw [List.length_cons, hn] at hless
        obtain ⟨schedule, q, hrun, hq⟩ :=
          ih (p.threads.set i rest).flatten.length (by omega)
            ⟨effect p.shared a, p.threads.set i rest⟩ rfl
        refine ⟨i :: schedule, q, ?_, hq⟩
        rw [run_cons hstep]
        exact hrun

end Pool

end Threads

end PrimiHub.Lib
