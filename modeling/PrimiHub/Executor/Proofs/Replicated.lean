/-
The run on replicated shares computes what the run on ideal shares does.

The relation is `Stands`: the three parties' views are a replicated
sharing of the vector the ideal share is. Sharing a column makes it hold
(`share_agree`), each operator keeps it (`mpcOperator_agree`), the loop
carries it from token to token (`loop_agree`), and revealing reads the
vector back (`reveal_agree`). So the two runs of a task end alike, for
every expression and whatever the library draws (`refines_ideal`).

A party whose table has its columns ends `loadDataset` at a table without
rows, fails where a token is no column, and otherwise holds what the
evaluator needs (`loadDataset_no_rows`, `loadDataset_rows`,
`loadDataset_typed`). From there the conditions of the ideal run are those
of the task (`arithmeticTask_iff`).
-/
import Mathlib.Tactic.LinearCombination
import PrimiHub.Aby3.Proofs.Homomorphism
import PrimiHub.Algorithm.Proofs.LoadDataset
import PrimiHub.Executor.Proofs.RunMode
import PrimiHub.Executor.Proofs.Secure
import PrimiHub.Executor.Replicated
import PrimiHub.Lib.Traverse

namespace PrimiHub.Executor.OnShares

open Lib
open PrimiHub.Aby3 (Si64Matrix I64Matrix Sh3Lib Replicated constMatrix)
open PrimiHub.Algorithm (cmpColumns findComma isCmp substr toSize)
open PrimiHub.Algorithm.ArithmeticExecutor

variable {D : Type} {Ω : Type} {lib : RingLib Ω} {ideal : ShareLib}

-- ======================================================= shared columns

/-- A sharing is as long as the vector. -/
theorem SharedColumn.Shares.length {m : SharedColumn} {vec : List I64}
    (h : m.Shares vec) : vec.length = m.rows := by
  obtain ⟨x, -, rfl⟩ := h
  exact List.length_ofFn

/-- What every party does to its own view. -/
theorem SharedColumn.Shares.map {m : SharedColumn} {vec : List I64}
    (h : m.Shares vec) {view : Party → Si64Matrix m.rows 1} {g : I64 → I64}
    (hview : ∀ {x}, Replicated m.view x →
      Replicated view (Matrix.of fun i j => g (x i j))) :
    SharedColumn.Shares ⟨m.rows, view⟩ (vec.map g) := by
  obtain ⟨x, hx, rfl⟩ := h
  exact ⟨_, hview hx, List.map_ofFn.symm⟩

/-- What the parties do to two views of one shape; both libraries refuse
two shapes. -/
theorem onRows_agree {g : I64 → I64 → I64}
    {f : ∀ {r : Nat}, (Party → Si64Matrix r 1) →
      (Party → Si64Matrix r 1) → Party → Si64Matrix r 1}
    (hf : ∀ {r : Nat} {v w : Party → Si64Matrix r 1} {x y : I64Matrix r 1},
      Replicated v x → Replicated w y →
      Replicated (f v w) (Matrix.of fun i j => g (x i j) (y i j)))
    {m₁ m₂ : SharedColumn} {vec₁ vec₂ : List I64} (h₁ : m₁.Shares vec₁)
    (h₂ : m₂.Shares vec₂) :
    Agree SharedColumn.Shares (onRows f m₁ m₂)
      (sharedBinary g vec₁ vec₂) := by
  have hlength : m₁.rows = m₂.rows ↔ vec₁.length = vec₂.length := by
    rw [h₁.length, h₂.length]
  unfold onRows sharedBinary
  by_cases hrows : m₁.rows = m₂.rows
  · rw [dif_pos hrows, if_pos (hlength.1 hrows)]
    obtain ⟨rows, view₁⟩ := m₁
    obtain ⟨rows', view₂⟩ := m₂
    obtain rfl : rows = rows' := hrows
    obtain ⟨x, hx, rfl⟩ := h₁
    obtain ⟨y, hy, rfl⟩ := h₂
    exact ⟨_, hf hx hy, (zipWith_ofFn g _ _).symm⟩
  · rw [dif_neg hrows, if_neg (mt hlength.2 hrows)]
    exact trivial

-- ============================================================= operands

/-- A value of the three parties beside the ideal one: an operand is the
same, a share is a sharing of the vector. -/
inductive Stands : Held → JointValue → Prop
  | operand (val : JointValue) (h : ∀ p m, val p ≠ .shI64 m) :
      Stands (.operand val) val
  | share (m : SharedColumn) (vec : List I64) (h : m.Shares vec) :
      Stands (.share m) fun _ => .shI64 vec

/-- A prepared operand beside the ideal one. -/
inductive PreparedAs : Operand → Executor.Operand → Prop
  | constInt (k : I64) : PreparedAs (.constInt k) (.constInt k)
  | shared (m : SharedColumn) (vec : List I64) (h : m.Shares vec) :
      PreparedAs (.shared m) (.shared vec)

/-- Both libraries share a column or refuse it. -/
theorem createI64Shares_agree (ω : Ω) (valCount : Party → Nat)
    (vec : List I64) :
    Agree PreparedAs (createI64Shares lib ω valCount vec)
      (Executor.createI64Shares ideal valCount vec) := by
  unfold createI64Shares Executor.createI64Shares
  by_cases hfit : ∀ p, valCount p = vec.length
  · obtain ⟨m, hm, hshares⟩ := lib.share_fit (ω := ω) hfit
    rw [hm, ideal.share_fit hfit]
    exact .shared m vec hshares
  · obtain ⟨fault, hfault⟩ := lib.share_misfit (ω := ω) hfit
    obtain ⟨fault', hfault'⟩ := ideal.share_misfit hfit
    rw [hfault, hfault']
    exact trivial

/-- Both runs prepare an operand alike. -/
theorem prepare_agree (ω : Ω) (valCount : Party → Nat) {held : Held}
    {val : JointValue} (h : Stands held val) :
    Agree PreparedAs (prepare lib ω valCount held)
      (Executor.prepare ideal valCount val) := by
  cases h with
  | share m vec h =>
      show Agree _ _ (if vec = vec ∧ vec = vec then _ else _)
      rw [if_pos ⟨rfl, rfl⟩]
      exact .shared m vec h
  | operand val h =>
      have h₀ := h 0
      unfold prepare Executor.prepare
      dsimp only
      generalize val 0 = v₀ at h₀ ⊢
      generalize val 1 = v₁
      generalize val 2 = v₂
      cases v₀ with
      | shI64 m => exact (h₀ m rfl).elim
      | i64Vec vec =>
          cases v₁ with
          | remote =>
              cases v₂ with
              | remote => exact createI64Shares_agree ω valCount vec
              | _ => exact trivial
          | _ => exact trivial
      | i64Val k =>
          cases v₁ with
          | i64Val k' =>
              cases v₂ with
              | i64Val k'' =>
                  show Agree _ (if _ then _ else _) (if _ then _ else _)
                  split
                  · exact .constInt k
                  · exact trivial
              | _ => exact trivial
          | _ => exact trivial
      | remote =>
          cases v₁ with
          | i64Vec vec =>
              cases v₂ with
              | remote => exact createI64Shares_agree ω valCount vec
              | _ => exact trivial
          | remote =>
              cases v₂ with
              | i64Vec vec => exact createI64Shares_agree ω valCount vec
              | _ => exact trivial
          | _ => exact trivial

/-- No party makes a share of a token. -/
theorem createTokenValue_ne_share {env : PartyEnv D} {token : Str}
    {v : TokenValue} (hv : env.createTokenValue token = .ok v)
    (m : List I64) : v ≠ .shI64 m := by
  rintro rfl
  unfold PartyEnv.createTokenValue at hv
  cases htype : tokenType env.typeMap token with
  | value =>
      rw [htype] at hv
      obtain ⟨k, -, hk⟩ := bind_eq_ok_iff.mp hv
      cases hk
  | column =>
      rw [htype] at hv
      obtain ⟨isLocal, -, hlocal⟩ := bind_eq_ok_iff.mp hv
      cases isLocal with
      | false => cases hlocal
      | true =>
          obtain ⟨vec, -, hvec⟩ := bind_eq_ok_iff.mp hlocal
          cases hvec

/-- What the parties make of a token is what each makes of it. -/
theorem createJoint_parts {env : Party → PartyEnv D} {token : Str}
    {val : JointValue} (h : createJoint env token = .ok val) (p : Party) :
    (env p).createTokenValue token = .ok (val p) := by
  obtain ⟨v0, h0, h⟩ := bind_eq_ok_iff.mp h
  obtain ⟨v1, h1, h⟩ := bind_eq_ok_iff.mp h
  obtain ⟨v2, h2, h⟩ := bind_eq_ok_iff.mp h
  obtain rfl := Except.ok.inj h
  fin_cases p
  · exact h0
  · exact h1
  · exact h2

/-- No operand token is a share. -/
theorem createHeld_agree (env : Party → PartyEnv D) (token : Str) :
    Agree Stands (createHeld env token) (createJoint env token) := by
  unfold createHeld
  cases hjoint : createJoint env token with
  | error fault => exact trivial
  | ok val =>
      exact .operand val fun p =>
        createTokenValue_ne_share (createJoint_parts hjoint p)

-- =========================================================== operators

/-- An operator whose three cases agree with those of the ideal one. -/
theorem runMPCI64_agree
    {both : SharedColumn → SharedColumn → Except Fault SharedColumn}
    {both' : List I64 → List I64 → Except Fault (List I64)}
    {constLeft constRight : I64 → SharedColumn → SharedColumn}
    {constLeft' constRight' : I64 → List I64 → List I64}
    (hboth : ∀ {m₁ m₂ vec₁ vec₂}, m₁.Shares vec₁ → m₂.Shares vec₂ →
      Agree SharedColumn.Shares (both m₁ m₂) (both' vec₁ vec₂))
    (hleft : ∀ k {m vec}, m.Shares vec →
      (constLeft k m).Shares (constLeft' k vec))
    (hright : ∀ k {m vec}, m.Shares vec →
      (constRight k m).Shares (constRight' k vec))
    (draws : Draws Ω) (valCount : Party → Nat) {held₁ held₂ : Held}
    {val₁ val₂ : JointValue} (h₁ : Stands held₁ val₁)
    (h₂ : Stands held₂ val₂) :
    Agree Stands
      (runMPCI64 lib both constLeft constRight draws valCount held₁ held₂)
      (Executor.runMPCI64 ideal both' constLeft' constRight' valCount
        val₁ val₂) := by
  refine (prepare_agree draws.left valCount h₁).bind fun op₁ op₁' hop₁ => ?_
  refine (prepare_agree draws.right valCount h₂).bind fun op₂ op₂' hop₂ => ?_
  cases hop₁ with
  | constInt k =>
      cases hop₂ with
      | constInt k' => exact trivial
      | shared m vec h => exact .share _ _ (hleft k h)
  | shared m₁ vec₁ hm₁ =>
      cases hop₂ with
      | constInt k => exact .share _ _ (hright k hm₁)
      | shared m₂ vec₂ hm₂ =>
          exact (hboth hm₁ hm₂).bind fun m vec h => .share m vec h

/-- The sum of two sharings. -/
theorem mpcAdd_agree {m₁ m₂ : SharedColumn} {vec₁ vec₂ : List I64}
    (h₁ : m₁.Shares vec₁) (h₂ : m₂.Shares vec₂) :
    Agree SharedColumn.Shares (mpcAdd lib m₁ m₂)
      (Executor.mpcAdd vec₁ vec₂) :=
  onRows_agree (fun hv hw => Aby3.replicated_add lib.toSh3Lib hv hw) h₁ h₂

/-- The difference of two sharings. -/
theorem mpcSub_agree {m₁ m₂ : SharedColumn} {vec₁ vec₂ : List I64}
    (h₁ : m₁.Shares vec₁) (h₂ : m₂.Shares vec₂) :
    Agree SharedColumn.Shares (mpcSub lib m₁ m₂)
      (Executor.mpcSub vec₁ vec₂) :=
  onRows_agree (fun hv hw => Aby3.replicated_sub lib.toSh3Lib hv hw) h₁ h₂

/-- The product of two sharings, by the library's protocol. -/
theorem mpcDotMul_agree (ω : Ω) {m₁ m₂ : SharedColumn}
    {vec₁ vec₂ : List I64} (h₁ : m₁.Shares vec₁) (h₂ : m₂.Shares vec₂) :
    Agree SharedColumn.Shares (mpcDotMul lib ω m₁ m₂)
      (Executor.mpcDotMul vec₁ vec₂) :=
  onRows_agree (fun hv hw => lib.asyncDotMul_replicated hv hw) h₁ h₂

/-- A constant is added by the party that has to. -/
theorem mpcAddConst_shares (k : I64) {m : SharedColumn} {vec : List I64}
    (h : m.Shares vec) :
    (mpcAddConst k m).Shares (Executor.mpcAddConst k vec) :=
  h.map fun hx => Aby3.replicated_addConst k hx

/-- A constant is taken away, or taken away from. -/
theorem mpcSubConst_shares (mode : Bool) (k : I64) {m : SharedColumn}
    {vec : List I64} (h : m.Shares vec) :
    (mpcSubConst k m mode).Shares (Executor.mpcSubConst k vec mode) := by
  refine h.map fun hx => ?_
  have hsub := Aby3.replicated_subConst k mode hx
  cases mode with
  | true => exact hsub
  | false => exact hsub

/-- A multiple of a sharing, share by share. -/
theorem mpcMulConst_shares (k : I64) {m : SharedColumn} {vec : List I64}
    (h : m.Shares vec) :
    (mpcMulConst lib k m).Shares (Executor.mpcMulConst k vec) :=
  h.map fun hx => Aby3.replicated_mulConst lib.toSh3Lib k hx

/-- Every operator token leaves a sharing of what the ideal one leaves,
or both fail. -/
theorem mpcOperator_agree (draws : Draws Ω) (valCount : Party → Nat)
    (token : Str) {held₁ held₂ : Held} {val₁ val₂ : JointValue}
    (h₁ : Stands held₁ val₁) (h₂ : Stands held₂ val₂) :
    Agree Stands (mpcOperator lib draws valCount token held₁ held₂)
      (Executor.mpcOperator ideal valCount token val₁ val₂) := by
  unfold mpcOperator Executor.mpcOperator
  by_cases hadd : token = ['+']
  · rw [if_pos hadd, if_pos hadd]
    exact runMPCI64_agree mpcAdd_agree mpcAddConst_shares mpcAddConst_shares
      draws valCount h₁ h₂
  rw [if_neg hadd, if_neg hadd]
  by_cases hsub : token = ['-']
  · rw [if_pos hsub, if_pos hsub]
    exact runMPCI64_agree mpcSub_agree (mpcSubConst_shares false)
      (mpcSubConst_shares true) draws valCount h₁ h₂
  rw [if_neg hsub, if_neg hsub]
  by_cases hmul : token = ['*']
  · rw [if_pos hmul, if_pos hmul]
    exact runMPCI64_agree (mpcDotMul_agree draws.operator)
      mpcMulConst_shares mpcMulConst_shares draws valCount h₁ h₂
  rw [if_neg hmul, if_neg hmul]
  exact trivial

-- ============================================================ the loop

section Loop

variable {V W : Type} {R : V → W → Prop}

/-- Two loops with the same names and related values. -/
structure LoopRelated (R : V → W → Prop) (s : Loop V) (s' : Loop W) :
    Prop where
  names : s.stk1 = s'.stk1
  values : List.Forall₂ R s.valStk s'.valStk
  map : List.Forall₂ (fun a b => a.1 = b.1 ∧ R a.2 b.2) s.valMap s'.valMap

/-- Both runs push their result under the same name. -/
theorem LoopRelated.push {s : Loop V} {s' : Loop W} {v : V} {w : W}
    {names : List Str} {vals : List V} {vals' : List W} (name : Str)
    (hvals : List.Forall₂ R vals vals') (h : LoopRelated R s s')
    (hvw : R v w) :
    LoopRelated R ⟨name :: names, v :: vals, (name, v) :: s.valMap⟩
      ⟨name :: names, w :: vals', (name, w) :: s'.valMap⟩ :=
  ⟨rfl, .cons hvw hvals, .cons ⟨rfl, hvw⟩ h.map⟩

/-- One token keeps two loops related, or stops both. -/
theorem LoopRelated.step {create : Str → Except Fault V}
    {create' : Str → Except Fault W}
    {calculate : Str → V → V → Except Fault V}
    {calculate' : Str → W → W → Except Fault W} {s : Loop V} {s' : Loop W}
    (h : LoopRelated R s s') {token : Str}
    (hcreate : Agree R (create token) (create' token))
    (hcalculate : ∀ {v₁ v₂ w₁ w₂}, R v₁ w₁ → R v₂ w₂ →
      Agree R (calculate token v₁ v₂) (calculate' token w₁ w₂)) :
    Agree (LoopRelated R) (s.step create calculate token)
      (s'.step create' calculate' token) := by
  obtain ⟨stk1, valStk, valMap⟩ := s
  obtain ⟨stk1', valStk', valMap'⟩ := s'
  obtain rfl : stk1 = stk1' := h.names
  have hvalues : List.Forall₂ R valStk valStk' := h.values
  unfold Loop.step
  cases hop : isOperatorToken token with
  | false => exact hcreate.bind fun v w hvw => h.push token hvalues hvw
  | true =>
      rcases stk1 with _ | ⟨b, _ | ⟨a, stk1⟩⟩
      · exact trivial
      · exact trivial
      · cases hvalues with
        | nil => exact trivial
        | cons h₂ hrest =>
            cases hrest with
            | nil => exact trivial
            | cons h₁ hrest =>
                exact (hcalculate h₁ h₂).bind fun v w hvw =>
                  h.push _ hrest hvw

/-- Related maps have related entries. -/
theorem lookup_related {map : Map V} {map' : Map W}
    (h : List.Forall₂ (fun a b => a.1 = b.1 ∧ R a.2 b.2) map map')
    (name : Str) :
    (map.lookup name = none ∧ map'.lookup name = none)
      ∨ ∃ v w, map.lookup name = some v ∧ map'.lookup name = some w
        ∧ R v w := by
  induction h with
  | nil => exact Or.inl ⟨rfl, rfl⟩
  | @cons a b rest rest' hab hrest ih =>
      obtain ⟨key, v⟩ := a
      obtain ⟨key', w⟩ := b
      obtain ⟨rfl, hvw⟩ : key = key' ∧ R v w := hab
      rw [List.lookup_cons, List.lookup_cons]
      by_cases hname : name = key
      · subst hname
        rw [beq_self_eq_true]
        exact Or.inr ⟨v, w, rfl, rfl, hvw⟩
      · rw [beq_false_of_ne hname]
        exact ih

/-- Related loops have related results. -/
theorem LoopRelated.final {s : Loop V} {s' : Loop W}
    (h : LoopRelated R s s') : Agree R s.final s'.final := by
  unfold Loop.final
  rw [← h.names]
  cases s.stk1.getLast? with
  | none => exact trivial
  | some name =>
      obtain ⟨hv, hw⟩ | ⟨v, w, hv, hw, hvw⟩ := lookup_related h.map name
      · simp only [hv, hw]
        exact trivial
      · simp only [hv, hw]
        exact hvw

end Loop

/-- The loops of the two runs, from any token number on. -/
theorem loop_agree (env : Party → PartyEnv D) (tape : Nat → Draws Ω)
    (suffixStk : List Str) {s : Loop Held} {s' : Loop JointValue}
    (h : LoopRelated Stands s s') (first : Nat) :
    Agree (LoopRelated Stands)
      ((suffixStk.zipIdx first).foldlM (fun s t =>
        Loop.step (createHeld env) (mpcOperator lib (tape t.2)
          fun p => (env p).feedDict.getColumnValuesCount) s t.1) s)
      (suffixStk.foldlM (Loop.step (createJoint env)
        (Executor.mpcOperator ideal
          fun p => (env p).feedDict.getColumnValuesCount)) s') := by
  induction suffixStk generalizing s s' first with
  | nil => exact h
  | cons token rest ih =>
      rw [List.zipIdx_cons, List.foldlM_cons, List.foldlM_cons]
      refine (h.step (createHeld_agree env token)
        (mpcOperator_agree (tape first) _ token)).bind
        fun s s' hnext => ih hnext (first + 1)

/-- The two evaluators end alike. -/
theorem runMPCEvaluate_agree (env : Party → PartyEnv D)
    (tape : Nat → Draws Ω) (suffixStk : List Str) :
    Agree Stands (runMPCEvaluate lib env tape suffixStk)
      (Executor.runMPCEvaluate ideal env suffixStk) :=
  (loop_agree env tape suffixStk ⟨rfl, .nil, .nil⟩ 0).bind
    fun _ _ h => h.final

/-- Revealing a sharing gives the vector it stands for. -/
theorem reveal_agree (parties : List Party) (me : Party) {held : Held}
    {val : JointValue} (h : Stands held val) :
    Agree Eq (revealMPCResult lib parties me held)
      (Executor.revealMPCResult parties me val) := by
  cases h with
  | operand val h =>
      unfold Executor.revealMPCResult
      split
      · exact (h 0 _ (by assumption)).elim
      · exact trivial
  | share m vec h =>
      show Agree _ _ (if vec = vec ∧ vec = vec then _ else _)
      rw [if_pos ⟨rfl, rfl⟩]
      obtain ⟨x, hx, rfl⟩ := h
      unfold revealMPCResult
      dsimp only
      rw [lib.reveal_replicated hx]
      exact rfl

-- ============================================================= the task

/-- The two runs of a task. -/
theorem secureRun_agree (lib : RingLib Ω) (ideal : ShareLib) (cast : I64 → D)
    (typeMap : Map TokenType) (columns : List Column)
    (tape : Nat → Draws Ω) (suffixStk : List Str) (parties : List Party)
    (me : Party) :
    Agree Eq (secureRun lib cast typeMap columns tape suffixStk parties me)
      (Executor.secureRun ideal cast typeMap columns suffixStk parties
        me) := by
  refine (Agree.refl (partyEnv cast typeMap columns 0)).bind ?_
  rintro env0 - rfl
  refine (Agree.refl (partyEnv cast typeMap columns 1)).bind ?_
  rintro env1 - rfl
  refine (Agree.refl (partyEnv cast typeMap columns 2)).bind ?_
  rintro env2 - rfl
  exact (runMPCEvaluate_agree ![env0, env1, env2] tape suffixStk).bind
    fun _ _ h => reveal_agree parties me h

/-- A task on replicated shares ends as it does on ideal ones, failures
included: for every expression, all columns and whatever the library
draws. -/
theorem refines_ideal (lib : RingLib Ω) (ideal : ShareLib) (cast : I64 → D)
    (typeMap : Map TokenType) (columns : List Column)
    (tape : Nat → Draws Ω) (suffixStk : List Str) (parties : List Party)
    (me : Party) :
    (secureRun lib cast typeMap columns tape suffixStk parties me).toOption
      = (Executor.secureRun ideal cast typeMap columns suffixStk parties
          me).toOption :=
  (secureRun_agree lib ideal cast typeMap columns tape suffixStk parties
    me).toOption_eq

-- ===================================================== what is revealed

/-- A result goes to a party that is listed once, or is empty. -/
theorem listed_eq_iff (parties : List Party) (me : Party) (m : List I64) :
    (parties.flatMap fun party => if me = party then m else []) = m
      ↔ m.length = 0 ∨ parties.count me = 1 := by
  rw [flatMap_listed]
  rcases Nat.eq_zero_or_pos (parties.count me) with hzero | hpos
  · rw [hzero, List.replicate_zero, List.flatten_nil, List.length_eq_zero_iff]
    exact ⟨fun h => Or.inl h.symm, fun h => (h.resolve_right (by simp)).symm⟩
  · exact flatten_replicate_eq_iff hpos

/-- What the ideal run reveals is what one place computes exactly if an
operator has made it, every party's row count is the columns' length and
the party is listed once. -/
theorem ideal_reveals_iff (ideal : ShareLib) {n : Nat} {pool : Pool n}
    {typeMap : Map TokenType} {env : Party → PartyEnv D} {lenv : LocalEnv D}
    (henv : ∀ p, PartySpec pool typeMap p (env p))
    (hlenv : LocalSpec pool typeMap lenv) {tokens : List Str}
    (hop : ∃ t ∈ tokens, isOperatorToken t = true) {vec : List I64}
    (hvec : vec.length = n)
    (hrun : (localMachine lenv).run [] tokens = .ok [.i64Vec vec])
    (parties : List Party) (me : Party) :
    (Executor.runMPCEvaluate ideal env tokens
        >>= Executor.revealMPCResult parties me) = .ok vec
      ↔ (∀ p, pool.valCount p = n) ∧ (n = 0 ∨ parties.count me = 1) := by
  by_cases hcount : ∀ p, pool.valCount p = n
  · have hagree := mirrors_run ideal henv hlenv hcount tokens
    rw [hrun] at hagree
    cases hjoint : (jointMachine ideal env).run [] tokens with
    | error fault => rw [hjoint] at hagree; exact hagree.elim
    | ok stk =>
        rw [hjoint] at hagree
        have hall : List.Forall₂ (Mirrors n) stk [.i64Vec vec] := hagree
        cases hall with
        | cons hmirrors hnil =>
            cases hnil
            obtain ⟨m, rfl⟩ := StackMachine.run_singleton
              (fun t v₁ v₂ v hv => mpcOperator_share hv) hop hjoint
            cases mirrors_share hmirrors
            rw [Executor.runMPCEvaluate, evaluate_of_run hjoint]
            show Executor.revealMPCResult parties me (fun _ => .shI64 vec)
              = .ok vec ↔ _
            have hlisted := listed_eq_iff parties me vec
            rw [hvec] at hlisted
            simp only [Executor.revealMPCResult, and_self, if_true,
              Except.ok.injEq, hlisted, hcount, implies_true, true_and]
  · obtain ⟨fault, hfault⟩ := run_of_bad_count ideal henv hlenv hcount hop
      [] (by simp)
    obtain ⟨fault', hfault'⟩ := secure_of_error ideal hfault parties me
    rw [hfault']
    exact iff_of_false (by simp) fun h => hcount h.1

-- ==================================================== loading the task

open Executor.Expr

/-- What `loadDataset` reads the types from is the same at every party. -/
theorem resolveToken_ownConfig (columns : List Column) (p q : Party) :
    resolveToken (ownConfig columns p) = resolveToken (ownConfig columns q) :=
  rfl

/-- The configuration knows the columns of the task. -/
theorem hasColumn_ownConfig {columns : List Column}
    (hnodup : (columns.map Column.name).Nodup) (p : Party) (name : Str) :
    (ownConfig columns p).HasColumn name ↔ name ∈ columns.map Column.name := by
  show ((entries (fun _ => ColDtype.int64) columns).lookup name).isSome ↔ _
  by_cases hname : name ∈ columns.map Column.name
  · obtain ⟨c, hc, rfl⟩ := List.mem_map.1 hname
    rw [lookup_entries hnodup hc]
    exact iff_of_true rfl hname
  · rw [lookup_entries_none hname]
    exact iff_of_false (by simp) hname

/-- The imported columns and `resolveRunMode` on them: the types of the
fold, and floating point mode for a division only. -/
theorem resolveRunMode_eq {columns : List Column}
    (hnodup : (columns.map Column.name).Nodup) (p : Party) :
    ∃ cfg, importOwners columns (.init p.val) = .ok cfg
      ∧ ∀ suffixStk, resolveRunMode (importDtypes columns cfg) [] suffixStk
        = suffixStk.foldlM (resolveToken (ownConfig columns 0)) ([], false)
          >>= fun r => .ok (ownConfig columns p, r.1, r.2) := by
  have hown := partyConfig_eq hnodup p
  have hfloat : (ownConfig columns p).hasFP64Column = false := by
    unfold ColumnConfig.hasFP64Column ownConfig entries
    simp
  unfold partyConfig at hown
  cases howners : importOwners columns (.init p.val) with
  | error fault =>
      rw [howners] at hown
      cases hown
  | ok cfg =>
      rw [howners] at hown
      refine ⟨cfg, rfl, fun suffixStk => ?_⟩
      unfold resolveRunMode
      rw [show (importDtypes columns cfg).resolveLocalColumn
        = .ok (ownConfig columns p) from hown]
      show (suffixStk.foldlM (resolveToken (ownConfig columns p)) ([], false)
        >>= _) = _
      rw [resolveToken_ownConfig columns p 0]
      simp only [hfloat, Bool.or_false]

/-- The columns a pool's task names, all of them of integer type. -/
theorem lookup_integer (columns : List Column) (name : Str) :
    (columns.map fun c => (c.name, false)).lookup name
      = if name ∈ columns.map Column.name then some false else none := by
  induction columns with
  | nil => rfl
  | cons c rest ih =>
      rw [List.map_cons, List.map_cons, List.lookup_cons, ih]
      by_cases hname : name = c.name
      · rw [hname, beq_self_eq_true, if_pos List.mem_cons_self]
      · rw [beq_eq_false_iff_ne.mpr hname]
        simp only [List.mem_cons, hname, false_or]

/-- A name is inserted once. -/
theorem insertNew_nodup {V : Type} {map : Map V} {name : Str} {v : V}
    (h : (map.map Prod.fst).Nodup) :
    ((insertNew map name v).map Prod.fst).Nodup := by
  unfold insertNew
  split
  · exact h
  · rename_i hnew
    rw [List.map_append, List.nodup_append]
    refine ⟨h, List.nodup_singleton _, ?_⟩
    intro key hkey key' hkey'
    obtain rfl := List.mem_singleton.1 hkey'
    obtain ⟨entry, hentry, rfl⟩ := List.mem_map.1 hkey
    have hnone := Option.not_isSome_iff_eq_none.1 hnew
    exact bne_iff_ne.1 (List.lookup_eq_none_iff.1 hnone entry hentry) ∘ Eq.symm

section Loading

variable {n : Nat} {pool : Pool n} {expr : Str} (hcmp : isCmp expr = false)
  (partyName : Party → Str) {p : Party} {table : List (TableColumn D)}

/-- A column of the party's table can be read. -/
theorem Brings.loadColumn_ok (hbrings : Brings pool p table) (cast : I64 → D)
    {col : TableColumn D} (hcol : col ∈ table) (acc : ColAndVal D) :
    ∃ acc', loadColumn cast (atParty (exprTask pool expr hcmp) partyName p)
      table n acc col = .ok acc' := by
  have hdtype : (atParty (exprTask pool expr hcmp) partyName
      p).colAndDtype.lookup col.name
        = if col.name ∈ pool.columns.map Column.name then some false
          else none := lookup_integer pool.columns col.name
  have hcount : table.countP (fun c => c.name == col.name) = 1 := by
    have hone := List.count_eq_one_of_mem hbrings.nodup
      (List.mem_map_of_mem hcol)
    rwa [List.count, List.countP_map] at hone
  unfold loadColumn
  rw [hdtype]
  by_cases hname : col.name ∈ pool.columns.map Column.name
  · obtain ⟨vec, hvec⟩ := hbrings.integers col hcol hname
    have hlength := hbrings.rows col hcol
    obtain ⟨name, chunks⟩ := col
    cases chunks with
    | int64 chunks =>
        dsimp only at hlength hcount hname ⊢
        rw [if_pos hname]
        simp only [hcount, hlength, ne_eq, not_true_eq_false, if_false, if_true]
        exact ⟨_, rfl⟩
    | double chunks => cases hvec
    | other lengths => cases hvec
  · rw [if_neg hname]
    exact ⟨acc, rfl⟩

/-- What the party reads of its table. -/
theorem Brings.loadDatasetFromCSV_ok (hbrings : Brings pool p table)
    (cast : I64 → D) :
    ∃ vals, loadDatasetFromCSV cast
        (atParty (exprTask pool expr hcmp) partyName p) (some table)
          = .ok ((BitVec.ofNat 32 n).toInt, vals)
      ∧ Loaded cast (atParty (exprTask pool expr hcmp) partyName p) table n
        vals
      ∧ (vals.int.map Prod.fst).Nodup ∧ vals.double = [] := by
  obtain ⟨vals, hfold, hnodup⟩ := foldlM_total
    (f := loadColumn cast (atParty (exprTask pool expr hcmp) partyName p)
      table n)
    (I := fun _ vals => (vals.int.map Prod.fst).Nodup) table ⟨[], []⟩ (by
      intro done col rest acc htable hacc
      obtain ⟨acc', hcol⟩ := hbrings.loadColumn_ok hcmp partyName cast
        (htable ▸ List.mem_append_right _ List.mem_cons_self) acc
      refine ⟨acc', hcol, ?_⟩
      obtain ⟨-, rfl⟩ | ⟨-, -, ⟨-, vec, -, rfl⟩ | ⟨-, vec, -, rfl⟩⟩ :=
        loadColumn_cases hcol
      · exact hacc
      · exact insertNew_nodup hacc
      · exact hacc) List.nodup_nil
  have hloaded := loadColumns_spec hfold
  refine ⟨vals, ?_, hloaded, hnodup, ?_⟩
  · have hlast := List.getLast?_eq_some_getLast hbrings.ne_nil
    have hrows := hbrings.rows _ (List.getLast_mem hbrings.ne_nil)
    unfold loadDatasetFromCSV
    dsimp only
    rw [hlast]
    dsimp only
    rw [hrows, hfold]
    rfl
  · -- no column is demanded as a double
    rw [List.eq_nil_iff_forall_not_mem]
    intro c hc
    obtain ⟨col, -, -, hselect⟩ := hloaded.double.sound c hc
    have hdouble := double_of_selectDouble hselect
    have hdtype := lookup_integer pool.columns col.name
    rw [show (pool.columns.map fun c => (c.name, false)).lookup col.name
      = some true from hdouble] at hdtype
    split at hdtype
    · cases hdtype
    · cases hdtype

/-- The columns of other parties in the table are not imported. -/
theorem importValuesOf_own (cast : I64 → D) {map : Map (List I64)}
    (hnames : ∀ c ∈ map, c.1 ∈ pool.columns.map Column.name)
    (feed : FeedDict D) :
    importValuesOf
        (FeedDict.importColumnValuesI64 cast (ownConfig pool.columns p)) map
        feed
      = importValues cast (ownConfig pool.columns p)
          ((map.filter fun c => (ownConfig pool.columns p).localCol.lookup c.1
            == some true).map fun c => ⟨c.1, p, c.2⟩) feed := by
  induction map generalizing feed with
  | nil => rfl
  | cons c rest ih =>
      have hrest := ih fun d hd => hnames d (List.mem_cons_of_mem _ hd)
      obtain ⟨column, hcolumn, hname⟩ :=
        List.mem_map.1 (hnames c List.mem_cons_self)
      have hlocal := lookup_entries (f := fun c => c.owner.val == p.val)
        pool.nodup hcolumn
      rw [hname] at hlocal
      rw [importValuesOf, List.foldlM_cons, List.filter_cons]
      show _ = importValues cast _ (List.map _ (if (List.lookup c.1
        (entries _ pool.columns) == some true) = true then _ else _)) feed
      rw [hlocal]
      cases hown : column.owner.val == p.val with
      | true =>
          rw [if_pos (show (some true == some true) = true from rfl),
            List.map_cons, importValues, List.foldlM_cons]
          cases FeedDict.importColumnValuesI64 cast
            (ownConfig pool.columns p) c.1 c.2 feed with
          | error fault => rfl
          | ok r => exact hrest r.2
      | false =>
          have hskip : FeedDict.importColumnValuesI64 cast
              (ownConfig pool.columns p) c.1 c.2 feed = .ok (-1, feed) := by
            have hlocality : (ownConfig pool.columns p).getColumnLocality c.1
                = .ok false := by
              rw [← hname, getColumnLocality_entries rfl pool.nodup hcolumn,
                hown]
            rw [FeedDict.importColumnValuesI64, hlocality]
            rfl
          rw [hskip, if_neg (by decide)]
          exact hrest feed

/-- The integers read are those of the pool's columns. -/
theorem selectInt_iff {col : TableColumn D} {vec : List I64} :
    (atParty (exprTask pool expr hcmp) partyName p).selectInt col = some vec
      ↔ col.name ∈ pool.columns.map Column.name
        ∧ col.chunks.ints = some vec := by
  have hdtype : (atParty (exprTask pool expr hcmp) partyName
      p).colAndDtype.lookup col.name
        = if col.name ∈ pool.columns.map Column.name then some false
          else none := lookup_integer pool.columns col.name
  rw [ExprTask.selectInt, hdtype]
  by_cases hname : col.name ∈ pool.columns.map Column.name
  · rw [if_pos hname, if_pos rfl, and_iff_right hname]
  · rw [if_neg hname, if_neg (by decide)]
    exact iff_of_false (by rintro ⟨⟩) fun h => hname h.1

/-- The party's own columns among those it has read. -/
theorem mem_own (hbrings : Brings pool p table) {vals : ColAndVal D}
    {cast : I64 → D}
    (hloaded : Loaded cast (atParty (exprTask pool expr hcmp) partyName p)
      table n vals) (c : Column) :
    c ∈ (vals.int.filter fun c => (ownConfig pool.columns p).localCol.lookup
        c.1 == some true).map (fun c => (⟨c.1, p, c.2⟩ : Column))
      ↔ c ∈ pool.columns ∧ c.owner = p := by
  have hlocal : ∀ d ∈ pool.columns,
      (ownConfig pool.columns p).localCol.lookup d.name
        = some (d.owner.val == p.val) := fun d hd =>
    lookup_entries pool.nodup hd
  constructor
  · intro hown
    obtain ⟨⟨name, vec⟩, hentry, rfl⟩ := List.mem_map.1 hown
    obtain ⟨hmem, hmarked⟩ := List.mem_filter.1 hentry
    obtain ⟨col, hcol, hname, hselect⟩ := hloaded.int.sound _ hmem
    obtain ⟨hnamed, hvec⟩ := (selectInt_iff hcmp partyName).1 hselect
    obtain ⟨d, hd, hdname⟩ := List.mem_map.1 hnamed
    have howner : d.owner = p := by
      have hmark := beq_iff_eq.1 hmarked
      rw [← hname, ← hdname, hlocal d hd, Option.some.injEq,
        beq_iff_eq] at hmark
      exact Fin.ext hmark
    -- one column of the table has the name, so its values are the pool's
    obtain ⟨col', hcol', hname', hvec'⟩ := hbrings.own d hd howner
    obtain rfl := List.inj_on_of_nodup_map hbrings.nodup hcol' hcol
      (hname'.trans hdname)
    rw [hvec, Option.some.injEq] at hvec'
    obtain ⟨dname, downer, dvalues⟩ := d
    dsimp only at hname hdname howner hvec'
    rw [← hname, ← hdname, hvec', ← howner]
    exact ⟨hd, rfl⟩
  · rintro ⟨hc, rfl⟩
    obtain ⟨col, hcol, hname, hvec⟩ := hbrings.own c hc rfl
    have hmem := hloaded.int.mem col hcol c.values
      ((selectInt_iff hcmp partyName).2
        ⟨hname ▸ List.mem_map_of_mem hc, hvec⟩)
    rw [hname] at hmem
    refine List.mem_map.2 ⟨_, List.mem_filter.2 ⟨hmem, ?_⟩, rfl⟩
    rw [hlocal c hc, beq_self_eq_true]
    rfl

/-- A table without rows ends `loadDataset`. -/
theorem loadDataset_no_rows (cast : I64 → D) (hbrings : Brings pool p table)
    (hrows : ¬0 < (BitVec.ofNat 32 n).toInt) :
    loadDataset cast (atParty (exprTask pool expr hcmp) partyName p)
      (some table) = .error (.returned (-1)) := by
  obtain ⟨vals, hcsv, -⟩ := hbrings.loadDatasetFromCSV_ok hcmp partyName cast
  unfold loadDataset
  rw [hcsv]
  exact if_pos (not_lt.1 hrows)

/-- From the rows on, `loadDataset` resolves the types and imports the
values. -/
theorem loadDataset_rows (cast : I64 → D) (hbrings : Brings pool p table)
    (hrows : 0 < (BitVec.ofNat 32 n).toInt) {code : Int} {ex : Compiler}
    (himport : importExpress expr .fresh = .ok (code, ex)) :
    ∃ vals, Loaded cast (atParty (exprTask pool expr hcmp) partyName p) table
        n vals
      ∧ (vals.int.map Prod.fst).Nodup ∧ vals.double = []
      ∧ loadDataset cast (atParty (exprTask pool expr hcmp) partyName p)
          (some table)
        = ex.suffixStk.foldlM (resolveToken (ownConfig pool.columns 0))
            ([], false)
          >>= fun r => importColAndVal cast (ownConfig pool.columns p) vals
            (.init r.2)
          >>= fun feed => .ok ⟨ownConfig pool.columns p, ex, r.1, feed⟩ := by
  obtain ⟨vals, hcsv, hloaded, hnodup, hdouble⟩ :=
    hbrings.loadDatasetFromCSV_ok hcmp partyName cast
  refine ⟨vals, hloaded, hnodup, hdouble, ?_⟩
  obtain ⟨cfg, howners, hresolve⟩ := resolveRunMode_eq pool.nodup p
  have howners' : importOwnersOf (atParty (exprTask pool expr hcmp) partyName
      p) = .ok cfg := by
    rw [← howners]
    exact List.foldlM_map ..
  have hdtypes : importDtypesOf (atParty (exprTask pool expr hcmp) partyName
      p) cfg = importDtypes pool.columns cfg := List.foldl_map ..
  unfold loadDataset
  rw [hcsv]
  refine (if_neg (not_le.2 hrows)).trans ?_
  rw [howners']
  show (importExpress expr .fresh >>= _) = _
  rw [himport]
  show (resolveRunMode (importDtypesOf _ cfg) [] ex.suffixStk >>= _) = _
  rw [hdtypes, hresolve, bind_assoc]
  rfl

/-- Loading a task whose tokens have their types. -/
theorem loadDataset_typed (cast : I64 → D) (hbrings : Brings pool p table)
    (hrows : 0 < (BitVec.ofNat 32 n).toInt) {code : Int} {ex : Compiler}
    (himport : importExpress expr .fresh = .ok (code, ex))
    {typeMap : Map TokenType}
    (hfold : ex.suffixStk.foldlM (resolveToken (ownConfig pool.columns 0))
      ([], false) = .ok (typeMap, false)) :
    ∃ exec, loadDataset cast (atParty (exprTask pool expr hcmp) partyName p)
        (some table) = .ok exec
      ∧ exec.compiler = ex ∧ exec.feedDict.floatRun = false
      ∧ PartySpec pool typeMap p (envOf exec) := by
  obtain ⟨vals, hloaded, hnodup, hdouble, hload⟩ :=
    loadDataset_rows hcmp partyName cast hbrings hrows himport
  have hnames : ∀ c ∈ vals.int, c.1 ∈ pool.columns.map Column.name := by
    intro c hc
    obtain ⟨col, -, hname, hselect⟩ := hloaded.int.sound c hc
    exact hname ▸ ((selectInt_iff hcmp partyName).1 hselect).1
  obtain ⟨feed, hfeed, hmode, hspec⟩ := importValues_own cast pool typeMap p
    (mem_own hcmp partyName hbrings hloaded) (by
      rw [List.map_map]
      exact hnodup.sublist (List.filter_sublist.map _))
  refine ⟨⟨ownConfig pool.columns p, ex, typeMap, feed⟩, ?_, rfl, hmode, hspec⟩
  rw [hload, hfold]
  show (importColAndVal cast _ vals (.init false) >>= _) = _
  rw [importColAndVal, if_neg (not_not.2 hdouble),
    importValuesOf_own cast hnames, hfeed]
  rfl

end Loading

/-- The operands of a postfix form are the columns and the numbers of the
tree. -/
theorem mem_operandTokens_postfixForm {e : Expr} {token : Str} :
    token ∈ operandTokens e.postfixForm
      ↔ (∃ c ∈ e.columns, token = c.text) ∨ token ∈ e.numbers := by
  have happend : ∀ code code' : List Str,
      token ∈ operandTokens (code ++ code')
        ↔ token ∈ operandTokens code ∨ token ∈ operandTokens code' := by
    intro code code'
    rw [operandTokens, List.filter_append, List.mem_append]
    rfl
  have hoperator : ∀ op : BinOp, token ∉ operandTokens [[op.char]] := by
    intro op
    simp [operandTokens]
  have hnumber : ∀ number : Str, isOperatorToken number = false →
      (token ∈ operandTokens [number] ↔ token = number) := by
    intro number h
    simp [operandTokens, h]
  have hneg : ∀ e : Expr,
      (token ∈ operandTokens e.postfixForm
        ↔ (∃ c ∈ e.columns, token = c.text) ∨ token ∈ e.numbers) →
      (token ∈ operandTokens (['0'] :: e.postfixForm ++ [['-']])
        ↔ (∃ c ∈ e.columns, token = c.text)
          ∨ token ∈ ['0'] :: e.numbers) := by
    intro e ih
    have hminus : token ∉ operandTokens [['-']] := hoperator .sub
    have hzero := happend [['0']] e.postfixForm
    rw [List.singleton_append] at hzero
    rw [happend, or_iff_left hminus, hzero, hnumber _ (by decide), ih,
      List.mem_cons, or_left_comm]
  induction e with
  | col c =>
      rw [postfixForm, hnumber _ (isOperatorToken_of_ordinary c.plain)]
      simp [columns, numbers]
  | lit l =>
      rw [postfixForm, hnumber _ (isOperatorToken_of_ordinary l.ordinary)]
      simp [columns, numbers]
  | neg e ih =>
      cases e with
      | lit l =>
          rw [postfixForm, hnumber _ (isOperatorToken_negative l)]
          simp [columns, numbers]
      | col c => exact hneg _ ih
      | neg e => exact hneg _ ih
      | paren e => exact hneg _ ih
      | bin op l r => exact hneg _ ih
  | paren e ih => exact ih
  | bin op l r ihl ihr =>
      simp only [postfixForm, columns, numbers, happend, hoperator op,
        or_false, ihl, ihr, List.mem_append, or_and_right, exists_or]
      exact or_or_or_comm

/-- A tree without division has no such token. -/
theorem not_mem_slash {e : Expr} (hint : e.IntegerOnly) :
    ['/'] ∉ e.postfixForm := by
  have hoperand : ∀ {token : Str}, isOperatorToken token = false →
      ['/'] ∉ [token] := by
    intro token htoken hmem
    rw [← List.mem_singleton.1 hmem] at htoken
    cases htoken
  have hoperator : ∀ {op : BinOp}, op ≠ .div → ['/'] ∉ [[op.char]] := by
    intro op hop
    cases op with
    | div => exact (hop rfl).elim
    | _ => decide
  have hneg : ∀ e : Expr, ['/'] ∉ e.postfixForm →
      ['/'] ∉ ['0'] :: e.postfixForm ++ [['-']] := by
    intro e ih
    rw [List.mem_append, List.mem_cons, not_or, not_or]
    have hsub : BinOp.sub ≠ .div := nofun
    exact ⟨⟨by decide, ih⟩, hoperator hsub⟩
  induction e with
  | col c => exact hoperand (isOperatorToken_of_ordinary c.plain)
  | lit l => exact hoperand (isOperatorToken_of_ordinary l.ordinary)
  | neg e ih =>
      cases e with
      | lit l => exact hoperand (isOperatorToken_negative l)
      | col c => exact hneg _ (ih hint)
      | neg e => exact hneg _ (ih hint)
      | paren e => exact hneg _ (ih hint)
      | bin op l r => exact hneg _ (ih hint)
  | paren e ih => exact ih hint
  | bin op l r ihl ihr =>
      obtain ⟨hop, hl, hr⟩ := hint
      rw [postfixForm, List.mem_append, List.mem_append, not_or, not_or]
      exact ⟨⟨ihl hl, ihr hr⟩, hoperator hop⟩

/-- Without a number, a tree of integer mode can be evaluated and is no
number itself. -/
theorem evaluable_of_no_numbers {e : Expr} (hnumbers : e.numbers = []) :
    e.Evaluable ∧ e.isConstant = false := by
  induction e with
  | col c => exact ⟨trivial, rfl⟩
  | lit l => cases hnumbers
  | neg e ih =>
      cases e with
      | col c => exact ⟨⟨rfl, trivial⟩, rfl⟩
      | lit l => cases hnumbers
      | neg e => cases hnumbers
      | paren e => cases hnumbers
      | bin op l r => cases hnumbers
  | paren e ih => exact ih hnumbers
  | bin op l r ihl ihr =>
      obtain ⟨hl, hr⟩ := List.append_eq_nil_iff.1 hnumbers
      refine ⟨⟨?_, (ihl hl).1, (ihr hr).1⟩, rfl⟩
      rw [(ihl hl).2, Bool.false_and]

-- ======================================================= the whole task

/-- The operators among the tokens of a tree with well placed signs. -/
theorem exists_operator_iff {e : Expr} (hsigns : e.SignsPlaced) :
    (∃ t ∈ e.postfixForm, isOperatorToken t = true) ↔ 0 < e.operators := by
  rw [← (postfixForm_count_left (signsPlaced_iff.1 hsigns).1).1,
    List.countP_pos_iff]

/-- An expression with well placed signs leaves its postfix form on
`suffix_stk_`, whatever `importExpress` returns. -/
theorem importExpress_tokens {e : Expr} (hwf : e.WellFormed true)
    (hsigns : e.SignsPlaced) :
    ∃ code ex, importExpress e.render .fresh = .ok (code, ex)
      ∧ ex.suffixStk = e.postfixForm := by
  have hparse : parseExpress e.render Compiler.fresh.suffixStk
      = .ok e.postfixForm := (parseExpress_iff hwf).2 hsigns
  unfold importExpress
  rw [hparse]
  cases hcheck : checkExpress e.postfixForm with
  | true => exact ⟨0, ⟨e.postfixForm, e.render⟩, by simp [hcheck, bind,
      Except.bind], rfl⟩
  | false => exact ⟨-1, ⟨e.postfixForm, []⟩, by simp [hcheck, bind,
      Except.bind, Compiler.fresh], rfl⟩

/-- The local run of an expression without numbers, whose columns have
their types. -/
theorem localRun_eq {n : Nat} {pool : Pool n} {typeMap : Map TokenType}
    {lenv : LocalEnv D} (hlspec : LocalSpec pool typeMap lenv)
    {table : Str → Fin n → I64} {e : Expr} (hint : e.IntegerOnly)
    (hnumbers : e.numbers = [])
    (hcolumns : ∀ c ∈ e.columns, ∃ col ∈ pool.columns,
      col.name = c.text ∧ col.values = List.ofFn (table c.text))
    (htypes : ∀ c ∈ e.columns, tokenType typeMap c.text = .column) :
    (localMachine lenv).run [] e.postfixForm
      = .ok [.i64Vec (e.rows table)] := by
  have hsup : Supplies lenv table e := by
    refine ⟨fun c hc => ?_, fun number hnumber => ?_⟩
    · obtain ⟨col, hcol, hname, hvalues⟩ := hcolumns c hc
      have hread := hlspec.values col hcol
      rw [hname, hvalues] at hread
      exact ⟨hlspec.typeMap ▸ htypes c hc, hread⟩
    · rw [hnumbers] at hnumber
      cases hnumber
  obtain ⟨hevaluable, hconstant⟩ := evaluable_of_no_numbers hnumbers
  obtain ⟨-, hrun⟩ | ⟨hbad, -⟩ := run_postfixForm hint hsup
  · rw [hrun [], stackValue, hconstant]
    rfl
  · exact (hbad hevaluable).elim

/-- What the parties make of an expression without numbers, whose columns
have their types. -/
theorem evaluate_iff (lib : RingLib Ω) (cast : I64 → D) {n : Nat}
    {pool : Pool n}
    {typeMap : Map TokenType} {env : Party → PartyEnv D}
    (hspec : ∀ p, PartySpec pool typeMap p (env p))
    {table : Str → Fin n → I64} {e : Expr} (hsigns : e.SignsPlaced)
    (hint : e.IntegerOnly) (hnumbers : e.numbers = [])
    (hcolumns : ∀ c ∈ e.columns, ∃ col ∈ pool.columns,
      col.name = c.text ∧ col.values = List.ofFn (table c.text))
    (htypes : ∀ c ∈ e.columns, tokenType typeMap c.text = .column)
    (tape : Nat → Draws Ω) (parties : List Party) (me : Party) :
    (runMPCEvaluate lib env tape e.postfixForm
        >>= revealMPCResult lib parties me) = .ok (e.rows table)
      ↔ 0 < e.operators ∧ (∀ p, pool.valCount p = n)
        ∧ (n = 0 ∨ parties.count me = 1) := by
  obtain ⟨lenv, -, hlspec⟩ := localEnv_spec cast pool typeMap 0
  have heval : Agree Stands (runMPCEvaluate lib env tape e.postfixForm)
      (Executor.runMPCEvaluate strictLib env e.postfixForm) :=
    runMPCEvaluate_agree env tape e.postfixForm
  have hagree : Agree Eq
      (runMPCEvaluate lib env tape e.postfixForm
        >>= revealMPCResult lib parties me)
      (Executor.runMPCEvaluate strictLib env e.postfixForm
        >>= Executor.revealMPCResult parties me) :=
    heval.bind fun _ _ h => reveal_agree parties me h
  have hrun := localRun_eq hlspec hint hnumbers hcolumns htypes
  rw [hagree.ok_iff]
  by_cases hop : ∃ t ∈ e.postfixForm, isOperatorToken t = true
  · have hlength : (e.rows table).length = n := List.length_ofFn
    rw [ideal_reveals_iff strictLib hspec hlspec hop hlength hrun]
    exact (and_iff_right ((exists_operator_iff hsigns).1 hop)).symm
  · have hzero : ¬0 < e.operators := mt (exists_operator_iff hsigns).2 hop
    have hcheck : checkExpress e.postfixForm = true :=
      (checkExpress_iff (signsPlaced_iff.1 hsigns).1).2 (by omega)
    obtain ⟨fault, hfault⟩ := secure_of_operand strictLib hspec hlspec hcheck
      hop parties me
    rw [hfault]
    exact iff_of_false (by simp) fun h => hzero h.1

/-- Without a number all tokens are resolved, the columns as columns and
the run mode as integer mode. -/
theorem resolve_columns {columns : List Column}
    (hnodup : (columns.map Column.name).Nodup) {e : Expr}
    (hint : e.IntegerOnly) (hnumbers : e.numbers = [])
    (hcolumns : ∀ c ∈ e.columns, c.text ∈ columns.map Column.name) :
    ∃ typeMap, e.postfixForm.foldlM (resolveToken (ownConfig columns 0))
        ([], false) = .ok (typeMap, false)
      ∧ ∀ c ∈ e.columns, tokenType typeMap c.text = .column := by
  have hall : ∀ token ∈ operandTokens e.postfixForm,
      (ownConfig columns 0).HasColumn token := by
    intro token htoken
    rw [hasColumn_ownConfig hnodup]
    rcases mem_operandTokens_postfixForm.1 htoken with ⟨c, hc, rfl⟩ | hmem
    · exact hcolumns c hc
    · rw [hnumbers] at hmem
      cases hmem
  obtain ⟨⟨typeMap, fp64⟩, hfold⟩ := (resolveTokens_ok_iff
    (ownConfig columns 0) e.postfixForm ([], false)).2 hall
  have hspec := resolveTokens_spec hfold (by simp)
  have hmode : fp64 = false := by
    rw [show fp64 = _ from hspec.1]
    simpa using not_mem_slash hint
  rw [hmode] at hfold
  refine ⟨typeMap, hfold, fun c hc => ?_⟩
  have hlookup := hspec.2.2 c.text
    (mem_operandTokens_postfixForm.2 (Or.inl ⟨c, hc, rfl⟩))
  rw [tokenType, show typeMap.lookup c.text = _ from hlookup]
  rfl

/-- A number is looked up as a column, and is none. -/
theorem resolve_number {columns : List Column}
    (hnodup : (columns.map Column.name).Nodup) {e : Expr} {number : Str}
    (hnumber : number ∈ e.numbers)
    (hname : number ∉ columns.map Column.name) :
    ∃ fault, e.postfixForm.foldlM (resolveToken (ownConfig columns 0))
      ([], false) = .error fault := by
  cases hfold : e.postfixForm.foldlM (resolveToken (ownConfig columns 0))
      ([], false) with
  | error fault => exact ⟨fault, rfl⟩
  | ok r =>
      have hall := (resolveTokens_ok_iff (ownConfig columns 0)
        e.postfixForm ([], false)).1 ⟨r, hfold⟩
      have hcolumn := hall number
        (mem_operandTokens_postfixForm.2 (Or.inr hnumber))
      exact absurd ((hasColumn_ownConfig hnodup 0 number).1 hcolumn) hname

/-- `loadParams` needs the four characters a comparison begins with. -/
theorem loadParams_iff (expr : Str) :
    loadParams expr = .ok () ↔ 4 ≤ expr.length := by
  have hcomma : toSize (findComma expr + 1) ≤ expr.length := by
    unfold toSize findComma
    cases hfind : expr.findIdx? (· = ',') with
    | none => exact Nat.zero_le _
    | some i =>
        have hlt := (List.findIdx?_eq_some_iff_getElem.1 hfind).1
        dsimp only
        omega
  unfold loadParams cmpColumns
  dsimp only
  by_cases hlength : expr.length < 4
  · rw [show substr expr 4 _ = none from if_pos hlength]
    exact iff_of_false (by rintro ⟨⟩) (not_le.2 hlength)
  · rw [show substr expr 4 _ = some _ from if_neg hlength,
      show substr expr (toSize (findComma expr + 1)) _ = some _ from
        if_neg (not_lt.2 hcomma)]
    exact iff_of_true rfl (not_lt.1 hlength)

/-- Rows to load that every party counts as the columns have them. -/
theorem rows_iff {n : Nat} (pool : Pool n) :
    0 < (BitVec.ofNat 32 n).toInt ∧ (∀ p, pool.valCount p = n)
      ↔ (0 < n ∧ n < 2 ^ 31) ∧ ∀ p, ∃ c ∈ pool.columns, c.owner = p := by
  rw [BitVec.toInt_eq_toNat_cond, BitVec.toNat_ofNat]
  constructor
  · rintro ⟨hrows, hcount⟩
    have hlt : n % 2 ^ 32 < 2 ^ 31 := by
      split at hrows <;> omega
    have howns : ∀ p, ∃ c ∈ pool.columns, c.owner = p := by
      intro p
      by_contra hnone
      have hp := hcount p
      rw [Pool.valCount, if_neg hnone] at hp
      omega
    have hzero := hcount 0
    rw [Pool.valCount, if_pos (howns 0)] at hzero
    refine ⟨⟨?_, by omega⟩, howns⟩
    split at hrows <;> omega
  · rintro ⟨⟨hpos, hlt⟩, howns⟩
    have hmod : n % 2 ^ 32 = n := Nat.mod_eq_of_lt (by omega)
    rw [hmod, if_pos (by omega)]
    refine ⟨by omega, fun p => ?_⟩
    rw [Pool.valCount, if_pos (howns p), hmod]

/-- `execute` of a run in integer mode. -/
theorem execute_iff {execs : Party → MpcExec D} {me : Party}
    (hmode : (execs me).feedDict.floatRun = false) (tape : Nat → Draws Ω)
    (parties : List Party) {vec : List I64} :
    execute lib execs tape parties me = .ok (some vec)
      ↔ (runMPCEvaluate lib (fun p => envOf (execs p)) tape
            (execs me).compiler.suffixStk
          >>= revealMPCResult lib parties me) = .ok vec := by
  rw [execute, hmode, if_neg Bool.false_ne_true, ← bind_assoc]
  cases runMPCEvaluate lib (fun p => envOf (execs p)) tape
      (execs me).compiler.suffixStk >>= revealMPCResult lib parties me with
  | error fault => exact iff_of_false (by rintro ⟨⟩) (by rintro ⟨⟩)
  | ok vec' =>
      show Except.ok (some vec') = .ok (some vec) ↔ _
      rw [Except.ok.injEq, Except.ok.injEq, Option.some.injEq]

/-- Masks of the three parties that sum to zero. -/
structure Masks where
  m0 : I64
  m1 : I64

/-- The summand of a mask at a party. -/
def Masks.at (ω : Masks) : Party → I64 := ![ω.m0, ω.m1, -ω.m0 - ω.m1]

/-- A sharing by masks: party 0's summand carries the column. -/
def maskedColumn (ω : Masks) (vec : List I64) : SharedColumn :=
  let summand : Party → I64Matrix vec.length 1 := fun p =>
    Matrix.of fun i _ => (if p = 0 then vec.get i else 0) + ω.at p
  ⟨vec.length, fun p => ⟨summand p, summand (p - 1)⟩⟩

/-- A party's summand of a product, from its two shares of each factor. -/
def productSummand {r : Nat} (ω : Masks) (v w : Party → Si64Matrix r 1)
    (p : Party) : I64Matrix r 1 :=
  Matrix.of fun i j =>
    (v p).share0 i j * (w p).share0 i j + (v p).share0 i j * (w p).share1 i j
      + (v p).share1 i j * (w p).share0 i j + ω.at p

/-- The masks cancel each other. -/
theorem Masks.sum (ω : Masks) : ω.at 0 + ω.at 1 + ω.at 2 = 0 := by
  show ω.m0 + ω.m1 + (-ω.m0 - ω.m1) = 0
  abel

/-- A column under the masks is a sharing of it. -/
theorem maskedColumn_shares (ω : Masks) (vec : List I64) :
    (maskedColumn ω vec).Shares vec := by
  refine ⟨_, ⟨fun p => ((maskedColumn ω vec).view p).share0, fun _ => rfl,
    rfl⟩, ?_⟩
  refine (congrArg List.ofFn ?_).trans (List.ofFn_get vec)
  funext i
  show (vec.get i + ω.at 0) + (0 + ω.at 1) + (0 + ω.at 2) = vec.get i
  linear_combination ω.sum

/-- A library of the kind. -/
def maskedLib : RingLib Masks where
  toSh3Lib := Aby3.sharewise
  share ω rows vec :=
    if ∀ p, rows p = vec.length then .ok (maskedColumn ω vec)
    else .error .shape
  asyncDotMul ω v w p := ⟨productSummand ω v w p, productSummand ω v w (p - 1)⟩
  reveal p v := (v p).share0 + (v p).share1 + (v (p - 1)).share1
  share_fit h := ⟨_, if_pos h, maskedColumn_shares _ _⟩
  share_misfit h := ⟨.shape, if_neg h⟩
  asyncDotMul_replicated := by
    rintro r ω v w x y ⟨s, hs, rfl⟩ ⟨t, ht, rfl⟩
    refine ⟨productSummand ω v w, fun _ => rfl, ?_⟩
    refine Matrix.ext fun i j => ?_
    have hsummand : ∀ p, productSummand ω v w p i j
        = s p i j * t p i j + s p i j * t (p - 1) i j
          + s (p - 1) i j * t p i j + ω.at p := by
      intro p
      unfold productSummand
      rw [Matrix.of_apply, hs p, ht p]
    show productSummand ω v w 0 i j + productSummand ω v w 1 i j
        + productSummand ω v w 2 i j
      = (s 0 i j + s 1 i j + s 2 i j) * (t 0 i j + t 1 i j + t 2 i j)
    rw [hsummand, hsummand, hsummand, show (0 : Party) - 1 = 2 from rfl,
      show (1 : Party) - 1 = 0 from rfl, show (2 : Party) - 1 = 1 from rfl]
    linear_combination ω.sum
  reveal_replicated := by
    rintro r p v x ⟨s, hs, rfl⟩
    rw [hs p, hs (p - 1)]
    fin_cases p
    · show s 0 + s 2 + s 1 = s 0 + s 1 + s 2
      abel
    · show s 1 + s 0 + s 2 = s 0 + s 1 + s 2
      abel
    · show s 2 + s 1 + s 0 = s 0 + s 1 + s 2
      abel

/-- `A*(B-A)` of three parties' columns. -/
def sampleProduct : Expr :=
  .bin .mul (.col columnA) (.paren (.bin .sub (.col columnB) (.col columnA)))

/-- Three columns of two rows. -/
def sampleRows : Pool 2 :=
  ⟨[⟨text "A", 0, [3, 4]⟩, ⟨text "B", 1, [5, 9]⟩, ⟨text "C", 2, [7, 8]⟩],
    by decide, by decide⟩

/-- The parties' tables: a column in two chunks, a column of doubles the
task does not name, and a column by the name of another party's. -/
def sampleTables : Party → List (TableColumn Unit) :=
  ![[⟨text "A", .int64 [[3], [4]]⟩],
    [⟨text "B", .int64 [[5, 9]]⟩, ⟨text "W", .double [[(), ()]]⟩],
    [⟨text "A", .int64 [[1, 1]]⟩, ⟨text "C", .int64 [[7, 8]]⟩]]

/-- The tables of the sample. -/
theorem brings_sample (p : Party) :
    Brings sampleRows p (sampleTables p) := by
  have hinteger : ∀ p, ∀ col ∈ sampleTables p,
      col.name ∈ sampleRows.columns.map Column.name →
        col.chunks.ints.isSome = true := by decide
  have hrows : ∀ p, ∀ col ∈ sampleTables p, col.chunks.length = 2 := by
    decide
  have hown : ∀ p, ∀ c ∈ sampleRows.columns, c.owner = p →
      ∃ col ∈ sampleTables p,
        col.name = c.name ∧ col.chunks.ints = some c.values := by decide
  have hnodup : ∀ p, ((sampleTables p).map TableColumn.name).Nodup := by
    decide
  refine ⟨?_, hnodup p, hrows p, hown p, fun col hcol hname =>
    Option.isSome_iff_exists.1 (hinteger p col hcol hname)⟩
  fin_cases p <;> exact List.cons_ne_nil _ _

/-- The values of the columns in `sampleRows`. -/
def sampleTable : Str → Fin 2 → I64 := fun name =>
  if name = text "A" then ![3, 4] else ![5, 9]

/-- What one token draws. -/
def sampleDraws (i : Nat) : Draws Masks :=
  ⟨⟨BitVec.ofNat 64 i, 1⟩, ⟨9, BitVec.ofNat 64 (i + 5)⟩, ⟨4, 2⟩⟩

end PrimiHub.Executor.OnShares
