/-
Stack machines for postfix programs, and simulations between them.

A program is a list of tokens. An operand token pushes one value; an
operator token pops two and pushes their combination; both may fail, and
so does an operator that finds fewer than two values. What the values
are, how an operand is read and how two values are combined is a
`StackMachine`; which tokens are operators is fixed for all machines that
run the same programs.

- `run_append`: the machine is compositional in the program.
- `run_agree`: if two machines agree on operands and on combinations of
  related values, they agree on every program: both fail, or both end
  with stacks of related values.
- `run_length`: a successful run leaves one value more per operand and
  one value less per operator.
- `run_singleton`: the one value a program with an operator leaves is a
  combination.
-/
import Mathlib.Data.List.Basic
import Mathlib.Data.List.Forall2

namespace PrimiHub.Lib

universe u v

variable {τ ε δ : Type*} {V : Type u} {W : Type v}

-- ============================================= outcomes in agreement

/-- Both computations fail, or both succeed with related results. -/
def Agree (R : V → W → Prop) : Except ε V → Except δ W → Prop
  | .ok v, .ok w => R v w
  | .error _, .error _ => True
  | _, _ => False

/-- Agreement of a sequence: the first parts agree, and so does whatever
follows related results. -/
theorem Agree.bind {V' : Type u} {W' : Type v} {R : V → W → Prop}
    {S : V' → W' → Prop}
    {x : Except ε V} {y : Except δ W} {f : V → Except ε V'}
    {g : W → Except δ W'} (h : Agree R x y)
    (hfg : ∀ v w, R v w → Agree S (f v) (g w)) :
    Agree S (x >>= f) (y >>= g) := by
  cases x with
  | error e =>
      cases y with
      | error e' => exact trivial
      | ok w => exact h.elim
  | ok v =>
      cases y with
      | error e' => exact h.elim
      | ok w => exact hfg v w h

/-- Agreement on a relation is agreement on every weaker one. -/
theorem Agree.imp {R S : V → W → Prop} {x : Except ε V} {y : Except δ W}
    (h : Agree R x y) (hRS : ∀ v w, R v w → S v w) : Agree S x y := by
  cases x with
  | error e =>
      cases y with
      | error e' => exact trivial
      | ok w => exact h.elim
  | ok v =>
      cases y with
      | error e' => exact h.elim
      | ok w => exact hRS v w h

/-- If the left computation succeeds, so does the right one. -/
theorem Agree.of_ok {R : V → W → Prop} {y : Except δ W} {v : V}
    (h : Agree R (.ok v : Except ε V) y) : ∃ w, y = .ok w ∧ R v w := by
  cases y with
  | error e => exact h.elim
  | ok w => exact ⟨w, rfl, h⟩

/-- Every computation agrees with itself. -/
theorem Agree.refl (x : Except ε V) : Agree Eq x x := by
  cases x with
  | error e => exact trivial
  | ok v => exact rfl

/-- One of two computations that agree has the results of the other. -/
theorem Agree.ok_iff {x : Except ε V} {y : Except δ V} (h : Agree Eq x y)
    (v : V) : x = .ok v ↔ y = .ok v := by
  cases x with
  | error e =>
      cases y with
      | error e' => exact iff_of_false nofun nofun
      | ok w => exact h.elim
  | ok w =>
      obtain ⟨w', rfl, rfl⟩ := h.of_ok
      rw [Except.ok.injEq, Except.ok.injEq]

/-- Computations that agree on their results have the same ones. -/
theorem Agree.toOption_eq {x : Except ε V} {y : Except δ V}
    (h : Agree Eq x y) : x.toOption = y.toOption := by
  cases x with
  | error e =>
      cases y with
      | error e' => rfl
      | ok w => exact h.elim
  | ok v =>
      obtain ⟨w, rfl, rfl⟩ := h.of_ok
      rfl

-- ======================================================== the machine

/-- How one machine reads operands and combines two values; `isOp` tells
the operator tokens apart, and `underflow` is how it fails on a stack
that is too short. -/
structure StackMachine (isOp : τ → Bool) (ε V : Type*) where
  push : τ → Except ε V
  combine : τ → V → V → Except ε V
  underflow : ε

variable {isOp : τ → Bool}

/-- One token. The value on top is the right operand. -/
def StackMachine.step (m : StackMachine isOp ε V) (stk : List V) (t : τ) :
    Except ε (List V) :=
  if isOp t then
    match stk with
    | v₂ :: v₁ :: rest => do
        let v ← m.combine t v₁ v₂
        .ok (v :: rest)
    | _ => .error m.underflow
  else do
    let v ← m.push t
    .ok (v :: stk)

/-- A whole program, left to right, stopping at the first failure. -/
def StackMachine.run (m : StackMachine isOp ε V) (stk : List V)
    (tokens : List τ) : Except ε (List V) :=
  tokens.foldlM m.step stk

namespace StackMachine

variable (m : StackMachine isOp ε V) (m' : StackMachine isOp δ W)

@[simp] theorem run_nil (stk : List V) : m.run stk [] = .ok stk := rfl

@[simp] theorem run_cons (stk : List V) (t : τ) (rest : List τ) :
    m.run stk (t :: rest) = m.step stk t >>= (m.run · rest) := by
  unfold run
  rw [List.foldlM_cons]

/-- Running a concatenation is running the parts in turn. -/
theorem run_append (stk : List V) (front rest : List τ) :
    m.run stk (front ++ rest) = m.run stk front >>= (m.run · rest) := by
  unfold run
  rw [List.foldlM_append]

theorem step_operand {t : τ} (ht : isOp t = false) (stk : List V) :
    m.step stk t = m.push t >>= fun v => .ok (v :: stk) := by
  simp [step, ht]

theorem step_operator {t : τ} (ht : isOp t = true) (v₁ v₂ : V)
    (stk : List V) :
    m.step (v₂ :: v₁ :: stk) t
      = m.combine t v₁ v₂ >>= fun v => .ok (v :: stk) := by
  simp [step, ht]

-- ========================================================= simulation

variable {m m'} {R : V → W → Prop}

/-- One token keeps two stacks related, or stops both machines. -/
theorem step_agree {t : τ}
    (hpush : isOp t = false → Agree R (m.push t) (m'.push t))
    (hcombine : isOp t = true → ∀ v₁ v₂ w₁ w₂, R v₁ w₁ → R v₂ w₂ →
      Agree R (m.combine t v₁ v₂) (m'.combine t w₁ w₂))
    {stk : List V} {stk' : List W} (h : List.Forall₂ R stk stk') :
    Agree (List.Forall₂ R) (m.step stk t) (m'.step stk' t) := by
  cases ht : isOp t with
  | false =>
      rw [step_operand m ht, step_operand m' ht]
      exact (hpush ht).bind fun v w hvw => .cons hvw h
  | true =>
      cases h with
      | nil =>
          simp only [step, ht, if_true]
          exact trivial
      | cons h₂ hrest =>
          cases hrest with
          | nil =>
              simp only [step, ht, if_true]
              exact trivial
          | cons h₁ hrest =>
              rw [step_operator m ht, step_operator m' ht]
              exact (hcombine ht _ _ _ _ h₁ h₂).bind
                fun v w hvw => .cons hvw hrest

/-- Two machines that agree on the operands of a program and on its
combinations of related values agree on the program. -/
theorem run_agree {tokens : List τ}
    (hpush : ∀ t ∈ tokens, isOp t = false → Agree R (m.push t) (m'.push t))
    (hcombine : ∀ t ∈ tokens, isOp t = true → ∀ v₁ v₂ w₁ w₂, R v₁ w₁ →
      R v₂ w₂ → Agree R (m.combine t v₁ v₂) (m'.combine t w₁ w₂))
    {stk : List V} {stk' : List W} (h : List.Forall₂ R stk stk') :
    Agree (List.Forall₂ R) (m.run stk tokens) (m'.run stk' tokens) := by
  induction tokens generalizing stk stk' with
  | nil => exact h
  | cons t rest ih =>
      rw [run_cons, run_cons]
      have hstep := step_agree (hpush t (List.mem_cons_self ..))
        (hcombine t (List.mem_cons_self ..)) h
      refine hstep.bind fun _ _ hnext => ih ?_ ?_ hnext
      · exact fun t' ht' => hpush t' (List.mem_cons_of_mem _ ht')
      · exact fun t' ht' => hcombine t' (List.mem_cons_of_mem _ ht')

-- =================================================== what a step can do

/-- Everything a successful token can have done. -/
theorem step_cases {stk stk' : List V} {t : τ}
    (h : m.step stk t = .ok stk') :
    (isOp t = false ∧ ∃ v, m.push t = .ok v ∧ stk' = v :: stk)
      ∨ (isOp t = true ∧ ∃ v₁ v₂ rest v, stk = v₂ :: v₁ :: rest
        ∧ m.combine t v₁ v₂ = .ok v ∧ stk' = v :: rest) := by
  cases ht : isOp t with
  | false =>
      rw [step_operand m ht] at h
      cases hv : m.push t with
      | error e => rw [hv] at h; cases h
      | ok v =>
          rw [hv] at h
          cases h
          exact Or.inl ⟨rfl, v, rfl, rfl⟩
  | true =>
      rcases stk with _ | ⟨v₂, _ | ⟨v₁, rest⟩⟩
      · simp [step, ht] at h
      · simp [step, ht] at h
      · rw [step_operator m ht] at h
        cases hv : m.combine t v₁ v₂ with
        | error e => rw [hv] at h; cases h
        | ok v =>
            rw [hv] at h
            cases h
            exact Or.inr ⟨rfl, v₁, v₂, rest, v, rfl, hv, rfl⟩

/-- A successful run splits at its first token. -/
theorem run_cons_inv {stk stk' : List V} {t : τ} {rest : List τ}
    (h : m.run stk (t :: rest) = .ok stk') :
    ∃ next, m.step stk t = .ok next ∧ m.run next rest = .ok stk' := by
  rw [run_cons] at h
  cases hs : m.step stk t with
  | error e => rw [hs] at h; cases h
  | ok next =>
      rw [hs] at h
      exact ⟨next, rfl, h⟩

/-- A successful run leaves one value more per operand and one value
less per operator. -/
theorem run_length {stk stk' : List V} {tokens : List τ}
    (h : m.run stk tokens = .ok stk') :
    stk'.length + 2 * tokens.countP isOp = stk.length + tokens.length := by
  induction tokens generalizing stk with
  | nil =>
      cases h
      simp
  | cons t rest ih =>
      obtain ⟨next, hstep, hrest⟩ := run_cons_inv h
      have hlength := ih hrest
      rcases step_cases hstep with
        ⟨ht, v, -, rfl⟩ | ⟨ht, v₁, v₂, stk₀, v, rfl, -, rfl⟩
      · rw [List.countP_cons_of_neg (by simp [ht])]
        simp only [List.length_cons] at hlength ⊢
        omega
      · rw [List.countP_cons_of_pos ht]
        simp only [List.length_cons] at hlength ⊢
        omega

/-- A successful run splits at its last token. -/
theorem run_concat_inv {stk stk' : List V} {t : τ} {front : List τ}
    (h : m.run stk (front ++ [t]) = .ok stk') :
    ∃ prev, m.run stk front = .ok prev ∧ m.step prev t = .ok stk' := by
  rw [run_append] at h
  cases hs : m.run stk front with
  | error e => rw [hs] at h; cases h
  | ok prev =>
      rw [hs] at h
      obtain ⟨next, hstep, hnil⟩ := run_cons_inv h
      cases hnil
      exact ⟨prev, rfl, hstep⟩

/-- The value of a program with an operator in it is a combination: its
last token is an operator, since before a last operand the stack would
have to be empty. -/
theorem run_singleton {P : V → Prop}
    (hcombine : ∀ t v₁ v₂ v, m.combine t v₁ v₂ = .ok v → P v)
    {tokens : List τ} {v : V} (hop : ∃ t ∈ tokens, isOp t = true)
    (h : m.run [] tokens = .ok [v]) : P v := by
  rcases List.eq_nil_or_concat tokens with rfl | ⟨front, t, rfl⟩
  · obtain ⟨t, ht, -⟩ := hop
    cases ht
  · rw [List.concat_eq_append] at h hop
    obtain ⟨prev, hfront, hstep⟩ := run_concat_inv h
    rcases step_cases hstep with
      ⟨ht, w, -, hprev⟩ | ⟨ht, v₁, v₂, rest, w, -, hw, hv⟩
    · cases hprev
      rcases List.eq_nil_or_concat front with rfl | ⟨front', t', rfl⟩
      · obtain ⟨t', ht', hop'⟩ := hop
        rw [List.mem_singleton.1 ht', ht] at hop'
        cases hop'
      · rw [List.concat_eq_append] at hfront
        obtain ⟨prev', -, hstep'⟩ := run_concat_inv hfront
        rcases step_cases hstep' with
          ⟨-, w', -, hw'⟩ | ⟨-, v₁, v₂, rest, w', -, -, hw'⟩
        · cases hw'
        · cases hw'
    · cases hv
      exact hcombine t v₁ v₂ v hw

end StackMachine

end PrimiHub.Lib
