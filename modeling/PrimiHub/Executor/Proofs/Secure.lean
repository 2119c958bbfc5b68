/-
The secure and the local evaluator of one task.

Both are stack machines over the same compiled expression, and a third
one, `kindMachine`, only keeps track of which values are columns and
which are numbers: it decides whether the expression can be evaluated at
all. The local machine agrees with it on every program. The secure
machine agrees with the local one as long as the parties' matrices have
the rows of the columns (`mirrors_run`); otherwise it fails at the first
operator (`run_of_bad_count`), since an operator that has no number on
both sides shares a column.

What remains is the result. `revealMPCResult` takes it for a share,
which it is only if an operator has made it. `secure_plain_iff` puts
these together.
-/
import Mathlib.Tactic.FinCases
import PrimiHub.Executor.Proofs.Meaning
import PrimiHub.Executor.Proofs.Setup

namespace PrimiHub.Executor

open Lib

variable {D : Type} {n : Nat} {lib : ShareLib}

-- ============================================================== kinds

/-- What a value on the stack is, whatever party looks at it. -/
inductive Kind
  | column
  | number
deriving DecidableEq

/-- The kinds of the values: an operand is a column of the task or a
number that fits, and an operator makes a column of two operands that
are not both numbers. -/
def kindMachine (names : List Str) (typeMap : Map TokenType) :
    StackMachine isOperatorToken Unit Kind where
  push token :=
    match tokenType typeMap token with
    | .column => if token ∈ names then .ok .column else .error ()
    | .value =>
        match atol token with
        | .ok _ => .ok .number
        | .error _ => .error ()
  combine token k₁ k₂ :=
    if token = ['/'] ∨ (k₁ = .number ∧ k₂ = .number) then .error ()
    else .ok .column
  underflow := ()

/-- A compiled expression that can be evaluated in integer mode: every
operand is a column of the task or a number that fits, every operator
finds two operands that are not both numbers and is not `/`, and the
result is a column. -/
def Computable (names : List Str) (typeMap : Map TokenType)
    (suffixStk : List Str) : Prop :=
  (kindMachine names typeMap).run [] suffixStk = .ok [.column]

/-- A local value of a kind; columns have `n` rows. -/
inductive HasKind (n : Nat) : Kind → TokenValue → Prop
  | column (vec : List I64) (h : vec.length = n) :
      HasKind n .column (.i64Vec vec)
  | number (k : I64) : HasKind n .number (.i64Val k)

/-- The operator tokens are the four operators. -/
theorem operator_of_token {token : Str} (h : isOperatorToken token = true) :
    ∃ op : BinOp, token = [op.char] := by
  simp only [isOperatorToken, Bool.or_eq_true, beq_iff_eq] at h
  rcases h with ((rfl | rfl) | rfl) | rfl
  · exact ⟨.add, rfl⟩
  · exact ⟨.sub, rfl⟩
  · exact ⟨.mul, rfl⟩
  · exact ⟨.div, rfl⟩

theorem kind_push_agree {pool : Pool n} {typeMap : Map TokenType}
    {env : LocalEnv D} (henv : LocalSpec pool typeMap env) (token : Str) :
    Agree (HasKind n)
      ((kindMachine (pool.columns.map Column.name) typeMap).push token)
      (env.createTokenValue token) := by
  unfold LocalEnv.createTokenValue
  rw [henv.typeMap]
  show Agree _ (match tokenType typeMap token with
    | .column => _
    | .value => _) _
  cases tokenType typeMap token with
  | column =>
      by_cases hname : token ∈ pool.columns.map Column.name
      · obtain ⟨c, hc, rfl⟩ := List.mem_map.1 hname
        rw [if_pos hname, henv.values c hc]
        exact HasKind.column c.values (pool.length c hc)
      · obtain ⟨fault, hfault⟩ := henv.unknown hname
        rw [if_neg hname, hfault]
        exact trivial
  | value =>
      cases atol token with
      | error fault => exact trivial
      | ok k => exact HasKind.number k

theorem kind_combine_agree {names : List Str} {typeMap : Map TokenType}
    {token : Str} (htoken : isOperatorToken token = true) {k₁ k₂ : Kind}
    {v₁ v₂ : TokenValue} (h₁ : HasKind n k₁ v₁) (h₂ : HasKind n k₂ v₂) :
    Agree (HasKind n) ((kindMachine names typeMap).combine token k₁ k₂)
      (localOperator token v₁ v₂) := by
  obtain ⟨op, rfl⟩ := operator_of_token htoken
  show Agree _ (if [op.char] = ['/'] ∨ _ then _ else _) _
  by_cases hdiv : op = .div
  · subst hdiv
    rw [if_pos (Or.inl (show [BinOp.div.char] = ['/'] from rfl))]
    exact trivial
  · have hchar : [op.char] ≠ ['/'] := by
      cases op with
      | add => decide
      | sub => decide
      | mul => decide
      | div => exact (hdiv rfl).elim
    rw [localOperator_eq hdiv]
    cases h₁ with
    | column vec₁ hvec₁ =>
        cases h₂ with
        | column vec₂ hvec₂ =>
            rw [if_neg (by simp [hchar]), localCalculate,
              if_pos (by rw [hvec₁, hvec₂])]
            exact HasKind.column _ (by simp [hvec₁, hvec₂])
        | number k =>
            rw [if_neg (by simp [hchar])]
            exact HasKind.column _ (by simp [hvec₁])
    | number k =>
        cases h₂ with
        | column vec₂ hvec₂ =>
            rw [if_neg (by simp [hchar])]
            exact HasKind.column _ (by simp [hvec₂])
        | number k' =>
            rw [if_pos (by simp)]
            exact trivial

/-- The local evaluator computes whatever can be computed, and nothing
else. -/
theorem kind_run_agree {pool : Pool n} {typeMap : Map TokenType}
    {env : LocalEnv D} (henv : LocalSpec pool typeMap env)
    (tokens : List Str) :
    Agree (List.Forall₂ (HasKind n))
      ((kindMachine (pool.columns.map Column.name) typeMap).run [] tokens)
      ((localMachine env).run [] tokens) := by
  apply StackMachine.run_agree
  · intro token _ _
    exact kind_push_agree henv token
  · intro token _ htoken k₁ k₂ v₁ v₂ h₁ h₂
    exact kind_combine_agree htoken h₁ h₂
  · exact .nil

-- ====================================================== secure values

/-- The parties' values of a token beside the local one: a column that
its owner holds, a number that all hold, or a share that all hold. -/
inductive Mirrors (n : Nat) : JointValue → TokenValue → Prop
  | column (owner : Party) (vec : List I64) (h : vec.length = n) :
      Mirrors n (fun p => if p = owner then .i64Vec vec else .remote)
        (.i64Vec vec)
  | number (k : I64) : Mirrors n (fun _ => .i64Val k) (.i64Val k)
  | share (m : List I64) (h : m.length = n) :
      Mirrors n (fun _ => .shI64 m) (.i64Vec m)

/-- A value that is not a share yet. -/
def Unshared (n : Nat) (val : JointValue) : Prop :=
  (∃ owner vec, vec.length = n
      ∧ val = fun p => if p = owner then .i64Vec vec else .remote)
    ∨ ∃ k, val = fun _ => .i64Val k

/-- The value stack of the three parties. -/
abbrev jointMachine (lib : ShareLib) (env : Party → PartyEnv D) :
    StackMachine isOperatorToken Fault JointValue :=
  loopMachine (createJoint env)
    (mpcOperator lib fun p => (env p).feedDict.getColumnValuesCount)

/-- Three values are the three values of a function. -/
theorem vec3_eq (f : JointValue) : ![f 0, f 1, f 2] = f := by
  funext p
  fin_cases p <;> rfl

/-- If every party makes `f p` of a token, the parties make `f` of
it. -/
theorem createJoint_ok {env : Party → PartyEnv D} {token : Str}
    {f : JointValue} (h : ∀ p, (env p).createTokenValue token = .ok (f p)) :
    createJoint env token = .ok f := by
  unfold createJoint
  rw [h 0, h 1, h 2]
  show Except.ok _ = _
  rw [vec3_eq]

/-- What the parties make of an operand token: the mirror of what the
local executor makes of it, and not a share. -/
theorem createJoint_agree {pool : Pool n} {typeMap : Map TokenType}
    {env : Party → PartyEnv D} {lenv : LocalEnv D}
    (henv : ∀ p, PartySpec pool typeMap p (env p))
    (hlenv : LocalSpec pool typeMap lenv) (token : Str) :
    Agree (fun val v => Mirrors n val v ∧ Unshared n val)
      (createJoint env token) (lenv.createTokenValue token) := by
  unfold LocalEnv.createTokenValue
  rw [hlenv.typeMap]
  cases htype : tokenType typeMap token with
  | column =>
      by_cases hname : token ∈ pool.columns.map Column.name
      · obtain ⟨c, hc, rfl⟩ := List.mem_map.1 hname
        have hcreate : createJoint env c.name
            = .ok fun p => if p = c.owner then .i64Vec c.values else .remote := by
          apply createJoint_ok
          intro p
          by_cases howner : p = c.owner
          · subst howner
            simp [PartyEnv.createTokenValue, (henv c.owner).typeMap, htype,
              (henv c.owner).locality c hc, (henv c.owner).values c hc rfl,
              bind, Except.bind]
          · simp [PartyEnv.createTokenValue, (henv p).typeMap, htype,
              (henv p).locality c hc, howner, Ne.symm howner, bind,
              Except.bind]
        rw [hcreate, hlenv.values c hc]
        exact ⟨.column c.owner c.values (pool.length c hc),
          Or.inl ⟨c.owner, c.values, pool.length c hc, rfl⟩⟩
      · obtain ⟨fault, hfault⟩ := (henv 0).unknown hname
        obtain ⟨fault', hfault'⟩ := hlenv.unknown hname
        rw [createJoint, PartyEnv.createTokenValue, (henv 0).typeMap, htype,
          hfault, hfault']
        exact trivial
  | value =>
      cases hatol : atol token with
      | error fault =>
          rw [createJoint, PartyEnv.createTokenValue, (henv 0).typeMap, htype,
            hatol]
          exact trivial
      | ok k =>
          have hcreate : createJoint env token = .ok fun _ => .i64Val k := by
            apply createJoint_ok
            intro p
            rw [PartyEnv.createTokenValue, (henv p).typeMap, htype, hatol]
            rfl
          rw [hcreate]
          exact ⟨.number k, Or.inr ⟨k, rfl⟩⟩

-- ================================================== secure operators

/-- What an operand is once it is prepared, beside the local value. -/
inductive Prepared (n : Nat) : Operand → TokenValue → Prop
  | shared (m : List I64) (h : m.length = n) :
      Prepared n (.shared m) (.i64Vec m)
  | constInt (k : I64) : Prepared n (.constInt k) (.i64Val k)

/-- Whoever owns it, a column goes to `createI64Shares`. -/
theorem prepare_column (lib : ShareLib) (valCount : Party → Nat) (owner : Party)
    (vec : List I64) :
    prepare lib valCount (fun p => if p = owner then .i64Vec vec else .remote)
      = createI64Shares lib valCount vec := by
  fin_cases owner <;> rfl

/-- With matrices of the right shape every operand can be prepared. -/
theorem prepare_mirrors {valCount : Party → Nat}
    (hcount : ∀ p, valCount p = n) {val : JointValue} {v : TokenValue}
    (h : Mirrors n val v) :
    ∃ op, prepare lib valCount val = .ok op ∧ Prepared n op v := by
  cases h with
  | column owner vec hvec =>
      refine ⟨.shared vec, ?_, .shared vec hvec⟩
      rw [prepare_column, createI64Shares,
        lib.share_fit fun p => (hcount p).trans hvec.symm]
      rfl
  | number k => exact ⟨.constInt k, by simp [prepare], .constInt k⟩
  | share m hm => exact ⟨.shared m, by simp [prepare], .shared m hm⟩

/-- The secure operators with a meaning `f` give what the local one with
that meaning gives. -/
theorem runMPCI64_agree {f : I64 → I64 → I64}
    {both : List I64 → List I64 → Except Fault (List I64)}
    {constLeft constRight : I64 → List I64 → List I64}
    (hboth : both = sharedBinary f)
    (hleft : ∀ k m, constLeft k m = m.map (f k))
    (hright : ∀ k m, constRight k m = m.map fun x => f x k)
    {valCount : Party → Nat} (hcount : ∀ p, valCount p = n)
    {val₁ val₂ : JointValue} {v₁ v₂ : TokenValue} (h₁ : Mirrors n val₁ v₁)
    (h₂ : Mirrors n val₂ v₂) :
    Agree (Mirrors n)
      (runMPCI64 lib both constLeft constRight valCount val₁ val₂)
      (localCalculate f f f v₁ v₂) := by
  obtain ⟨op₁, hop₁, hp₁⟩ := prepare_mirrors hcount h₁
  obtain ⟨op₂, hop₂, hp₂⟩ := prepare_mirrors hcount h₂
  unfold runMPCI64
  rw [hop₁, hop₂]
  cases hp₁ with
  | shared m₁ hm₁ =>
      cases hp₂ with
      | shared m₂ hm₂ =>
          have hsame : m₁.length = m₂.length := hm₁.trans hm₂.symm
          simp only [bind, Except.bind, hboth, sharedBinary, localCalculate,
            hsame, if_true, Nat.le_refl]
          exact .share _ (by simp [hm₁, hm₂])
      | constInt k =>
          simp only [bind, Except.bind, hright, localCalculate]
          exact .share _ (by simp [hm₁])
  | constInt k =>
      cases hp₂ with
      | shared m₂ hm₂ =>
          simp only [bind, Except.bind, hleft, localCalculate]
          exact .share _ (by simp [hm₂])
      | constInt k' => exact trivial

/-- With matrices of the right shape an operator gives the mirror of the
local result. -/
theorem mpcOperator_agree {valCount : Party → Nat}
    (hcount : ∀ p, valCount p = n) {token : Str}
    (htoken : isOperatorToken token = true) {val₁ val₂ : JointValue}
    {v₁ v₂ : TokenValue} (h₁ : Mirrors n val₁ v₁) (h₂ : Mirrors n val₂ v₂) :
    Agree (Mirrors n) (mpcOperator lib valCount token val₁ val₂)
      (localOperator token v₁ v₂) := by
  obtain ⟨op, rfl⟩ := operator_of_token htoken
  have hcomm : ∀ (k : I64) (m : List I64),
      mpcAddConst k m = m.map fun x => k + x := by
    intro k m
    exact congrArg (List.map · m) (funext fun x => BitVec.add_comm x k)
  have hmul : ∀ (k : I64) (m : List I64),
      mpcMulConst k m = m.map fun x => x * k := by
    intro k m
    exact congrArg (List.map · m) (funext fun x => BitVec.mul_comm k x)
  cases op with
  | add =>
      rw [localOperator_eq (by simp)]
      exact runMPCI64_agree rfl hcomm (fun _ _ => rfl) hcount h₁ h₂
  | sub =>
      rw [localOperator_eq (by simp)]
      refine runMPCI64_agree rfl ?_ ?_ hcount h₁ h₂
      · intro k m
        simp [mpcSubConst]
      · intro k m
        simp [mpcSubConst]
  | mul =>
      rw [localOperator_eq (by simp)]
      exact runMPCI64_agree rfl (fun _ _ => rfl) hmul hcount h₁ h₂
  | div => exact trivial

/-- With a matrix of the wrong shape an operator on values that are not
shares fails: one of the operands is a column to be shared, or both are
numbers. -/
theorem mpcOperator_of_bad_count {valCount : Party → Nat}
    (hcount : ¬∀ p, valCount p = n) (token : Str) {val₁ val₂ : JointValue}
    (h₁ : Unshared n val₁) (h₂ : Unshared n val₂) :
    ∃ fault, mpcOperator lib valCount token val₁ val₂ = .error fault := by
  have hprepare : ∀ {val : JointValue}, Unshared n val →
      (∃ fault, prepare lib valCount val = .error fault)
        ∨ ∃ k, prepare lib valCount val = .ok (.constInt k) := by
    intro val hval
    rcases hval with ⟨owner, vec, hvec, rfl⟩ | ⟨k, rfl⟩
    · have hmisfit : ¬∀ p, valCount p = vec.length := by
        rw [hvec]
        exact hcount
      obtain ⟨fault, hfault⟩ := lib.share_misfit hmisfit
      refine Or.inl ⟨fault, ?_⟩
      rw [prepare_column, createI64Shares, hfault]
      rfl
    · exact Or.inr ⟨k, by simp [prepare]⟩
  have hrun : ∀ both constLeft constRight, ∃ fault,
      runMPCI64 lib both constLeft constRight valCount val₁ val₂
        = .error fault := by
    intro both constLeft constRight
    unfold runMPCI64
    rcases hprepare h₁ with ⟨fault, h₁⟩ | ⟨k₁, h₁⟩
    · rw [h₁]
      exact ⟨fault, rfl⟩
    · rcases hprepare h₂ with ⟨fault, h₂⟩ | ⟨k₂, h₂⟩
      · rw [h₁, h₂]
        exact ⟨fault, rfl⟩
      · rw [h₁, h₂]
        exact ⟨.undefined, rfl⟩
  unfold mpcOperator
  split
  · exact hrun _ _ _
  · split
    · exact hrun _ _ _
    · split
      · exact hrun _ _ _
      · exact ⟨.undefined, rfl⟩

/-- The result of an operator is a share. -/
theorem mpcOperator_share {valCount : Party → Nat} {token : Str}
    {val₁ val₂ val : JointValue}
    (h : mpcOperator lib valCount token val₁ val₂ = .ok val) :
    ∃ m, val = fun _ => .shI64 m := by
  have hrun : ∀ {both constLeft constRight},
      runMPCI64 lib both constLeft constRight valCount val₁ val₂ = .ok val →
      ∃ m, val = fun _ => .shI64 m := by
    intro both constLeft constRight hrun
    unfold runMPCI64 at hrun
    cases hop₁ : prepare lib valCount val₁ with
    | error fault => rw [hop₁] at hrun; cases hrun
    | ok op₁ =>
        cases hop₂ : prepare lib valCount val₂ with
        | error fault => rw [hop₁, hop₂] at hrun; cases hrun
        | ok op₂ =>
            rw [hop₁, hop₂] at hrun
            cases op₁ with
            | shared m₁ =>
                cases op₂ with
                | shared m₂ =>
                    cases hres : both m₁ m₂ with
                    | error fault =>
                        simp [bind, Except.bind, hres] at hrun
                    | ok m =>
                        simp only [bind, Except.bind, hres] at hrun
                        cases hrun
                        exact ⟨m, rfl⟩
                | constInt k => cases hrun; exact ⟨_, rfl⟩
            | constInt k =>
                cases op₂ with
                | shared m₂ => cases hrun; exact ⟨_, rfl⟩
                | constInt k' => cases hrun
  unfold mpcOperator at h
  split at h
  · exact hrun h
  · split at h
    · exact hrun h
    · split at h
      · exact hrun h
      · cases h

-- ============================================================== runs

/-- Two machines side by side: with matrices of the right shape, the
parties' values mirror the local ones. -/
theorem mirrors_run (lib : ShareLib) {pool : Pool n} {typeMap : Map TokenType}
    {env : Party → PartyEnv D} {lenv : LocalEnv D}
    (henv : ∀ p, PartySpec pool typeMap p (env p))
    (hlenv : LocalSpec pool typeMap lenv)
    (hcount : ∀ p, pool.valCount p = n) (tokens : List Str) :
    Agree (List.Forall₂ (Mirrors n)) ((jointMachine lib env).run [] tokens)
      ((localMachine lenv).run [] tokens) := by
  have hcounts : (fun p => (env p).feedDict.getColumnValuesCount)
      = pool.valCount := funext fun p => (henv p).count
  apply StackMachine.run_agree
  · intro token _ _
    exact (createJoint_agree henv hlenv token).imp fun val v h => h.1
  · intro token _ htoken val₁ val₂ v₁ v₂ h₁ h₂
    show Agree _ (mpcOperator lib _ token val₁ val₂) _
    rw [hcounts]
    exact mpcOperator_agree hcount htoken h₁ h₂
  · exact .nil

/-- With a matrix of the wrong shape no program with an operator in it
runs to its end. -/
theorem run_of_bad_count (lib : ShareLib) {pool : Pool n}
    {typeMap : Map TokenType}
    {env : Party → PartyEnv D} {lenv : LocalEnv D}
    (henv : ∀ p, PartySpec pool typeMap p (env p))
    (hlenv : LocalSpec pool typeMap lenv)
    (hcount : ¬∀ p, pool.valCount p = n) {tokens : List Str}
    (hop : ∃ t ∈ tokens, isOperatorToken t = true) (stk : List JointValue)
    (hstk : ∀ val ∈ stk, Unshared n val) :
    ∃ fault, (jointMachine lib env).run stk tokens = .error fault := by
  have hcounts : (fun p => (env p).feedDict.getColumnValuesCount)
      = pool.valCount := funext fun p => (henv p).count
  induction tokens generalizing stk with
  | nil =>
      obtain ⟨t, ht, -⟩ := hop
      cases ht
  | cons token rest ih =>
      rw [StackMachine.run_cons]
      cases htoken : isOperatorToken token with
      | true =>
          rcases stk with _ | ⟨val₂, _ | ⟨val₁, stk⟩⟩
          · exact ⟨.undefined, by simp [StackMachine.step, htoken,
              loopMachine, bind, Except.bind]⟩
          · exact ⟨.undefined, by simp [StackMachine.step, htoken,
              loopMachine, bind, Except.bind]⟩
          -- no operator has run before, so both values are still to be shared
          · obtain ⟨fault, hfault⟩ := mpcOperator_of_bad_count hcount token
              (hstk val₁ (by simp)) (hstk val₂ (by simp))
            refine ⟨fault, ?_⟩
            rw [StackMachine.step_operator _ htoken]
            show (mpcOperator lib _ token val₁ val₂ >>= _) >>= _ = _
            rw [hcounts, hfault]
            rfl
      | false =>
          rw [StackMachine.step_operand _ htoken]
          show ∃ fault, (createJoint env token >>= _) >>= _ = _
          cases hj : createJoint env token with
          | error fault => exact ⟨fault, rfl⟩
          | ok val =>
              have hagree := createJoint_agree henv hlenv token
              rw [hj] at hagree
              obtain ⟨v, -, -, hunshared⟩ := hagree.of_ok
              apply ih
              · obtain ⟨t, ht, hopt⟩ := hop
                rcases List.mem_cons.1 ht with rfl | ht
                · rw [htoken] at hopt
                  cases hopt
                · exact ⟨t, ht, hopt⟩
              · intro val' hval'
                rcases List.mem_cons.1 hval' with rfl | hval'
                · exact hunshared
                · exact hstk val' hval'

-- ============================================================ results

/-- A program that `checkExpress` accepts leaves one value if it runs to
its end: had `num_op` wrapped, there would be too few operands. -/
theorem accepted_singleton {ε V : Type} {m : StackMachine isOperatorToken ε V}
    {tokens : List Str} (hcheck : checkExpress tokens = true) {stk : List V}
    (h : m.run [] tokens = .ok stk) : ∃ v, stk = [v] := by
  have hlength := StackMachine.run_length h
  simp only [checkExpress, Bool.and_eq_true, beq_iff_eq] at hcheck
  have hcount := hcheck.1.2
  rw [List.length_nil, Nat.zero_add] at hlength
  have hone : stk.length = 1 := by omega
  exact List.length_eq_one_iff.1 hone

/-- An accepted expression without operators is one operand. -/
theorem accepted_operand {tokens : List Str}
    (hcheck : checkExpress tokens = true)
    (hop : ¬∃ t ∈ tokens, isOperatorToken t = true) :
    ∃ token, tokens = [token] ∧ isOperatorToken token = false := by
  simp only [checkExpress, Bool.and_eq_true, beq_iff_eq] at hcheck
  have hnone : tokens.countP isOperatorToken = 0 := by
    rw [List.countP_eq_zero]
    exact fun t ht hopt => hop ⟨t, ht, hopt⟩
  have hcount := hcheck.1.2
  rw [hnone] at hcount
  obtain ⟨token, htoken⟩ := List.length_eq_one_iff.1 (by omega)
  subst htoken
  refine ⟨token, rfl, ?_⟩
  rw [Bool.eq_false_iff]
  exact fun hopt => hop ⟨token, List.mem_cons_self .., hopt⟩

/-- The local evaluator on an accepted expression: a vector of `n` rows
if the expression can be computed, and a failure if not. -/
theorem runLocalLoop_cases {pool : Pool n} {typeMap : Map TokenType}
    {env : LocalEnv D} (henv : LocalSpec pool typeMap env)
    {tokens : List Str} (hcheck : checkExpress tokens = true) :
    (Computable (pool.columns.map Column.name) typeMap tokens
        ∧ ∃ vec, vec.length = n
          ∧ (localMachine env).run [] tokens = .ok [.i64Vec vec]
          ∧ runLocalLoop env tokens = .ok vec)
      ∨ (¬Computable (pool.columns.map Column.name) typeMap tokens
        ∧ (∀ vec, (localMachine env).run [] tokens ≠ .ok [.i64Vec vec])
        ∧ ∃ fault, runLocalLoop env tokens = .error fault) := by
  have hagree := kind_run_agree henv tokens
  unfold Computable
  cases hrun : (localMachine env).run [] tokens with
  | error fault =>
      obtain ⟨fault', hfault'⟩ := evaluate_of_error hrun
      rw [hrun] at hagree
      refine Or.inr ⟨?_, by simp, fault', by rw [runLocalLoop, hfault']; rfl⟩
      intro hkind
      rw [hkind] at hagree
      exact hagree.elim
  | ok stk =>
      obtain ⟨v, rfl⟩ := accepted_singleton hcheck hrun
      rw [hrun] at hagree
      cases hkind : (kindMachine (pool.columns.map Column.name) typeMap).run
          [] tokens with
      | error e => rw [hkind] at hagree; exact hagree.elim
      | ok kinds =>
          rw [hkind] at hagree
          have hall : List.Forall₂ (HasKind n) kinds [v] := hagree
          cases hall with
          | cons hv hnil =>
              cases hnil
              cases hv with
              | column vec hvec =>
                  refine Or.inl ⟨rfl, vec, hvec, rfl, ?_⟩
                  rw [runLocalLoop, evaluate_of_run hrun]
                  rfl
              | number k =>
                  refine Or.inr ⟨by simp, by simp, .undefined, ?_⟩
                  rw [runLocalLoop, evaluate_of_run hrun]
                  rfl

/-- A result goes to a party as often as the party is listed. -/
theorem flatMap_listed (parties : List Party) (me : Party) (m : List I64) :
    (parties.flatMap fun party => if me = party then m else [])
      = (List.replicate (parties.count me) m).flatten := by
  induction parties with
  | nil => rfl
  | cons party rest ih =>
      rw [List.flatMap_cons, ih]
      by_cases hme : me = party
      · subst hme
        rw [if_pos rfl, List.count_cons_self, List.replicate_succ,
          List.flatten_cons]
      · rw [if_neg hme, List.count_cons_of_ne (Ne.symm hme), List.nil_append]

/-- Copies of a vector make up the vector if it is empty or there is just
one. -/
theorem flatten_replicate_eq_iff {m : List I64} {k : Nat} (hk : 0 < k) :
    (List.replicate k m).flatten = m ↔ m.length = 0 ∨ k = 1 := by
  constructor
  · intro heq
    have hlength := congrArg List.length heq
    simp only [List.length_flatten, List.map_replicate,
      List.sum_replicate_nat] at hlength
    rcases Nat.eq_zero_or_pos m.length with hzero | hpos
    · exact Or.inl hzero
    · exact Or.inr (Nat.eq_of_mul_eq_mul_right hpos (by omega))
  · intro h
    obtain hzero | rfl := h
    · rw [List.length_eq_zero_iff.1 hzero, List.flatten_replicate_nil]
    · simp

/-- The mirror of a share is the vector it stands for. -/
theorem mirrors_share {m : List I64} {v : TokenValue}
    (h : Mirrors n (fun _ => .shI64 m) v) : v = .i64Vec m := by
  generalize hval : (fun _ => TokenValue.shI64 m : JointValue) = val at h
  cases h with
  | column owner vec hvec =>
      have howner := congrFun hval owner
      simp at howner
  | number k =>
      have hzero := congrFun hval 0
      simp at hzero
  | share m' hm' =>
      have hzero := congrFun hval 0
      simp only [TokenValue.shI64.injEq] at hzero
      rw [hzero]

/-- A result that is not a share cannot be revealed. -/
theorem reveal_unshared {val : JointValue} (h : Unshared n val)
    (parties : List Party) (me : Party) :
    revealMPCResult parties me val = .error .undefined := by
  rcases h with ⟨owner, vec, -, rfl⟩ | ⟨k, rfl⟩
  · fin_cases owner <;> rfl
  · rfl

/-- A run that fails reveals nothing. -/
theorem secure_of_error (lib : ShareLib) {env : Party → PartyEnv D}
    {tokens : List Str} {fault : Fault}
    (hrun : (jointMachine lib env).run [] tokens = .error fault)
    (parties : List Party) (me : Party) :
    ∃ fault', (runMPCEvaluate lib env tokens >>= revealMPCResult parties me)
      = .error fault' := by
  obtain ⟨fault', hfault'⟩ := evaluate_of_error hrun
  refine ⟨fault', ?_⟩
  rw [runMPCEvaluate, hfault']
  rfl

/-- Without an operator there is a single operand, which is no share. -/
theorem secure_of_operand (lib : ShareLib) {pool : Pool n}
    {typeMap : Map TokenType} {env : Party → PartyEnv D} {lenv : LocalEnv D}
    (henv : ∀ p, PartySpec pool typeMap p (env p))
    (hlenv : LocalSpec pool typeMap lenv) {tokens : List Str}
    (hcheck : checkExpress tokens = true)
    (hop : ¬∃ t ∈ tokens, isOperatorToken t = true) (parties : List Party)
    (me : Party) :
    ∃ fault, (runMPCEvaluate lib env tokens >>= revealMPCResult parties me)
      = .error fault := by
  obtain ⟨token, rfl, htoken⟩ := accepted_operand hcheck hop
  have hrun : (jointMachine lib env).run [] [token]
      = createJoint env token >>= fun val => .ok [val] := by
    rw [StackMachine.run_cons, StackMachine.step_operand _ htoken]
    show (createJoint env token >>= _) >>= _ = _
    cases createJoint env token <;> rfl
  cases hj : createJoint env token with
  | error fault =>
      rw [hj] at hrun
      exact secure_of_error lib hrun parties me
  | ok val =>
      rw [hj] at hrun
      have hagree := createJoint_agree henv hlenv token
      rw [hj] at hagree
      obtain ⟨v, -, -, hunshared⟩ := hagree.of_ok
      refine ⟨.undefined, ?_⟩
      rw [runMPCEvaluate, evaluate_of_run hrun]
      exact reveal_unshared hunshared parties me

/-- The secure evaluator on an accepted expression: the local result, as
often as the party is listed, if there is one, an operator has made it
and every party's matrices have its rows; otherwise a failure. -/
theorem secure_cases (lib : ShareLib) {pool : Pool n} {typeMap : Map TokenType}
    {env : Party → PartyEnv D} {lenv : LocalEnv D}
    (henv : ∀ p, PartySpec pool typeMap p (env p))
    (hlenv : LocalSpec pool typeMap lenv) {tokens : List Str}
    (hcheck : checkExpress tokens = true) (parties : List Party)
    (me : Party) :
    (∃ vec, (localMachine lenv).run [] tokens = .ok [.i64Vec vec]
        ∧ (∃ t ∈ tokens, isOperatorToken t = true)
        ∧ (∀ p, pool.valCount p = n)
        ∧ (runMPCEvaluate lib env tokens >>= revealMPCResult parties me)
          = .ok (List.replicate (parties.count me) vec).flatten)
      ∨ (¬((∃ vec, (localMachine lenv).run [] tokens = .ok [.i64Vec vec])
          ∧ (∃ t ∈ tokens, isOperatorToken t = true)
          ∧ ∀ p, pool.valCount p = n)
        ∧ ∃ fault, (runMPCEvaluate lib env tokens >>= revealMPCResult parties me)
          = .error fault) := by
  by_cases hop : ∃ t ∈ tokens, isOperatorToken t = true
  · by_cases hcount : ∀ p, pool.valCount p = n
    · have hagree := mirrors_run lib henv hlenv hcount tokens
      cases hrun : (jointMachine lib env).run [] tokens with
      | error fault =>
          refine Or.inr ⟨?_, secure_of_error lib hrun parties me⟩
          intro hgood
          obtain ⟨⟨vec, hvec⟩, -⟩ := hgood
          rw [hrun, hvec] at hagree
          exact hagree.elim
      | ok stk =>
          obtain ⟨val, rfl⟩ := accepted_singleton hcheck hrun
          obtain ⟨m, rfl⟩ := StackMachine.run_singleton
            (fun t v₁ v₂ v hv => mpcOperator_share hv) hop hrun
          rw [hrun] at hagree
          obtain ⟨stk', hstk', hmirrors⟩ := hagree.of_ok
          refine Or.inl ⟨m, ?_, hop, hcount, ?_⟩
          · cases hmirrors with
            | cons hv hnil =>
                cases hnil
                rw [hstk', mirrors_share hv]
          · rw [runMPCEvaluate, evaluate_of_run hrun]
            show revealMPCResult parties me (fun _ => .shI64 m) = _
            simp [revealMPCResult, flatMap_listed]
    · obtain ⟨fault, hfault⟩ := run_of_bad_count lib henv hlenv hcount hop
        [] (by simp)
      exact Or.inr ⟨fun hgood => hcount hgood.2.2,
        secure_of_error lib hfault parties me⟩
  · exact Or.inr ⟨fun hgood => hop hgood.2.1,
      secure_of_operand lib henv hlenv hcheck hop parties me⟩

-- ====================================================== the whole task

/-- What the secure run reveals to a party is what the local run
computes, failures included, exactly if the expression cannot be
computed at all, or if it has an operator, every party's row count is
the length of the columns, and the party is listed once. -/
theorem secure_plain_iff (lib : ShareLib) (cast : I64 → D) (pool : Pool n)
    (typeMap : Map TokenType) {expr : Str} {ex : Compiler}
    (himport : importExpress expr .fresh = .ok (0, ex))
    {parties : List Party} {me : Party} (hme : me ∈ parties) (p : Party) :
    (secureRun lib cast typeMap pool.columns ex.suffixStk parties me).toOption
        = (plainRun cast typeMap pool.columns ex.expr p).toOption
      ↔ ¬Computable (pool.columns.map Column.name) typeMap ex.suffixStk
        ∨ ((∃ t ∈ ex.suffixStk, isOperatorToken t = true)
          ∧ (∀ p, pool.valCount p = n)
          ∧ (n = 0 ∨ parties.count me = 1)) := by
  obtain ⟨tokens, hparse, hcheck, rfl⟩ := importExpress_ok_iff.1 himport
  obtain ⟨env0, henv0, hspec0⟩ := partyEnv_spec cast pool typeMap 0
  obtain ⟨env1, henv1, hspec1⟩ := partyEnv_spec cast pool typeMap 1
  obtain ⟨env2, henv2, hspec2⟩ := partyEnv_spec cast pool typeMap 2
  obtain ⟨lenv, hlenv, hlspec⟩ := localEnv_spec cast pool typeMap p
  have hspec : ∀ q, PartySpec pool typeMap q (![env0, env1, env2] q) := by
    intro q
    fin_cases q
    · exact hspec0
    · exact hspec1
    · exact hspec2
  have hsecure : secureRun lib cast typeMap pool.columns tokens parties me
      = runMPCEvaluate lib ![env0, env1, env2] tokens
        >>= revealMPCResult parties me := by
    rw [secureRun, henv0, henv1, henv2]
    rfl
  have hplain : plainRun cast typeMap pool.columns expr p
      = runLocalLoop lenv tokens := by
    rw [plainRun, hlenv]
    show (parseExpress expr [] >>= fun stk => runLocalLoop lenv stk) = _
    rw [show parseExpress expr [] = .ok tokens from hparse]
    rfl
  show (secureRun lib cast typeMap pool.columns tokens parties me).toOption
    = (plainRun cast typeMap pool.columns expr p).toOption ↔ _
  rw [hsecure, hplain]
  -- the local run computes the rows or fails, and in both cases the secure run
  -- may fail
  rcases runLocalLoop_cases hlspec hcheck with
    ⟨hcomp, vec, hvec, hrun, hlocal⟩ | ⟨hcomp, hrun, fault, hlocal⟩
  · rcases secure_cases lib hspec hlspec hcheck parties me with
      ⟨vec', hrun', hop, hcount, hreveal⟩ | ⟨hbad, fault, hreveal⟩
    · rw [hreveal, hlocal]
      rw [hrun] at hrun'
      cases hrun'
      -- a party listed more than once is given the rows that often
      have hcopies := flatten_replicate_eq_iff (m := vec)
        (List.count_pos_iff.2 hme)
      rw [hvec] at hcopies
      simp [Except.toOption, hcomp, hop, hcount, hcopies]
    · rw [hreveal, hlocal]
      constructor
      · intro heq
        cases heq
      · intro hgood
        rcases hgood with hgood | ⟨hop, hcount, -⟩
        · exact (hgood hcomp).elim
        · exact (hbad ⟨⟨vec, hrun⟩, hop, hcount⟩).elim
  · rcases secure_cases lib hspec hlspec hcheck parties me with
      ⟨vec', hrun', -, -, -⟩ | ⟨-, fault', hreveal⟩
    · exact (hrun vec' hrun').elim
    · rw [hreveal, hlocal]
      exact ⟨fun _ => Or.inl hcomp, fun _ => rfl⟩

/-- A library that refuses misfits with an exception. -/
def strictLib : ShareLib where
  share rows vec :=
    if ∀ p, rows p = vec.length then .ok vec else .error .shape
  share_fit h := if_pos h
  share_misfit h := ⟨.shape, if_neg h⟩

/-- One column at each party, of one row. -/
def samplePool : Pool 1 :=
  ⟨[⟨text "A", 0, [3]⟩, ⟨text "B", 1, [5]⟩, ⟨text "C", 2, [7]⟩], by decide,
    by decide⟩

/-- Two columns, and a party without any. -/
def samplePair : Pool 1 :=
  ⟨[⟨text "A", 0, [3]⟩, ⟨text "B", 1, [5]⟩], by decide, by decide⟩

/-- `A*B-C` of three parties' columns is revealed as it is computed in
one place. -/
theorem secure_plain_sample :
    importExpress (text "A*B-C") .fresh
        = .ok (0, ⟨[text "A", text "B", text "*", text "C", text "-"],
            text "A*B-C"⟩)
      ∧ (0 : Party) ∈ ([1, 0] : List Party)
      ∧ (secureRun strictLib (fun _ => ()) [] samplePool.columns
            [text "A", text "B", text "*", text "C", text "-"] [1, 0]
            0).toOption
          = (plainRun (fun _ => ()) [] samplePool.columns (text "A*B-C")
              0).toOption := by
  refine ⟨rfl, by decide, ?_⟩
  have hiff := secure_plain_iff strictLib (fun _ => ()) samplePool []
    (show importExpress (text "A*B-C") .fresh
      = .ok (0, ⟨[text "A", text "B", text "*", text "C", text "-"],
        text "A*B-C"⟩) from rfl)
    (show (0 : Party) ∈ ([1, 0] : List Party) by decide) 0
  refine hiff.2 (Or.inr ⟨⟨text "*", by decide, rfl⟩, ?_, Or.inr rfl⟩)
  intro p
  fin_cases p <;> decide

/-- A column on its own cannot be revealed, and a sum cannot be shared
with a party that has no column; in one place both can be computed. -/
theorem secure_fails_where_plain_succeeds :
    (importExpress (text "A") .fresh = .ok (0, ⟨[text "A"], text "A"⟩)
      ∧ secureRun strictLib (fun _ => ()) [] samplePool.columns [text "A"] [0] 0
        = .error .undefined
      ∧ plainRun (fun _ => ()) [] samplePool.columns (text "A") 0 = .ok [3])
    ∧ (importExpress (text "A+B") .fresh
        = .ok (0, ⟨[text "A", text "B", text "+"], text "A+B"⟩)
      ∧ secureRun strictLib (fun _ => ()) [] samplePair.columns
          [text "A", text "B", text "+"] [0] 0 = .error .shape
      ∧ plainRun (fun _ => ()) [] samplePair.columns (text "A+B") 0
        = .ok [8]) := by
  refine ⟨⟨rfl, rfl, rfl⟩, rfl, rfl, rfl⟩

end PrimiHub.Executor
