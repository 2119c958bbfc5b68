/-
The local evaluator computes the meaning of an expression.

The evaluation loop keeps names and a map of values beside its value
stack. None of that feeds back into the values, and the entry the result
is read from is the one written last, so the loop is a stack machine
over the value stack alone (`evaluate_of_run`, `evaluate_of_error`).

On that machine the postfix form of a tree runs to the value of the
tree, by induction on the tree, provided that every number fits in
`int64_t` and that no operator has two numbers for operands; otherwise
it fails (`run_postfixForm`). Together with the compiler's side this
says exactly which expressions the compiler and the local evaluator get
right, `meaning_preserved_iff`.
-/
import Mathlib.Data.List.OfFn
import Mathlib.Data.List.TakeWhile
import Mathlib.Data.Nat.Digits.Lemmas
import PrimiHub.Lib.StackMachine
import PrimiHub.Executor.Evaluate
import PrimiHub.Executor.Proofs.Compile

namespace PrimiHub.Executor

open Lib PrimiHub.Executor.Expr

-- ======================================= the loop is a stack machine

section Loop

variable {V : Type} (create : Str → Except Fault V)
  (calculate : Str → V → V → Except Fault V)

/-- The value stack of the loop on its own. -/
def loopMachine : StackMachine isOperatorToken Fault V :=
  ⟨create, calculate, .undefined⟩

/-- The names and the values of the loop belong together: as many of the
one as of the other, and the topmost name has the topmost value. -/
structure Tidy (s : Loop V) : Prop where
  length : s.stk1.length = s.valStk.length
  top : ∀ {name names val vals}, s.stk1 = name :: names →
    s.valStk = val :: vals → s.valMap.lookup name = some val

/-- Writing a new top keeps the loop tidy. -/
theorem tidy_push {names : List Str} {vals : List V} (name : Str) (val : V)
    (map : Map V) (hlength : names.length = vals.length) :
    Tidy ⟨name :: names, val :: vals, (name, val) :: map⟩ := by
  refine ⟨by simp [hlength], ?_⟩
  intro name' names' val' vals' hname hval
  cases hname
  cases hval
  exact List.lookup_cons_self

/-- One token does to the value stack what the machine does. -/
theorem loop_step_agree {s : Loop V} (hs : Tidy s) (token : Str) :
    Agree (fun s' stk => s'.valStk = stk ∧ Tidy s')
      (s.step create calculate token)
      ((loopMachine create calculate).step s.valStk token) := by
  unfold Loop.step StackMachine.step
  cases hop : isOperatorToken token with
  | false =>
      cases hval : create token with
      | error fault => simp [loopMachine, hval, bind, Except.bind, Agree]
      | ok val =>
          simp only [loopMachine, hval, bind, Except.bind]
          exact ⟨rfl, tidy_push token val s.valMap hs.length⟩
  | true =>
      have hlength := hs.length
      rcases hvals : s.valStk with _ | ⟨val2, _ | ⟨val1, vals⟩⟩
      · rw [hvals] at hlength
        rw [List.length_eq_zero_iff.1 hlength]
        exact trivial
      · rw [hvals] at hlength
        obtain ⟨b, hb⟩ := List.length_eq_one_iff.1 hlength
        rw [hb]
        exact trivial
      · rcases hnames : s.stk1 with _ | ⟨b, _ | ⟨a, names⟩⟩
        · simp [hvals, hnames] at hlength
        · simp [hvals, hnames] at hlength
        · cases hres : calculate token val1 val2 with
          | error fault =>
              simp [loopMachine, hres, bind, Except.bind, Agree]
          | ok res =>
              simp only [loopMachine, hres, bind, Except.bind]
              refine ⟨rfl, tidy_push _ res s.valMap ?_⟩
              simpa [hvals, hnames] using hlength

/-- A whole program does to the value stack what the machine does. -/
theorem loop_run_agree {s : Loop V} (hs : Tidy s) (tokens : List Str) :
    Agree (fun s' stk => s'.valStk = stk ∧ Tidy s')
      (tokens.foldlM (Loop.step create calculate) s)
      ((loopMachine create calculate).run s.valStk tokens) := by
  induction tokens generalizing s with
  | nil => exact ⟨rfl, hs⟩
  | cons token rest ih =>
      rw [List.foldlM_cons, StackMachine.run_cons]
      refine (loop_step_agree create calculate hs token).bind ?_
      intro s' stk hnext
      rw [← hnext.1]
      exact ih hnext.2

variable {create calculate}

theorem tidy_empty : Tidy (⟨[], [], []⟩ : Loop V) := by
  refine ⟨rfl, ?_⟩
  intro name names val vals hname
  cases hname

/-- The result of the loop is the one value the machine leaves. -/
theorem evaluate_of_run {tokens : List Str} {val : V}
    (h : (loopMachine create calculate).run [] tokens = .ok [val]) :
    evaluate create calculate tokens = .ok val := by
  have hagree := loop_run_agree create calculate tidy_empty tokens
  rw [h] at hagree
  unfold evaluate
  cases hloop : tokens.foldlM (Loop.step create calculate) ⟨[], [], []⟩ with
  | error fault => rw [hloop] at hagree; exact hagree.elim
  | ok s =>
      rw [hloop] at hagree
      obtain ⟨hvals, hs⟩ := hagree
      have hlength := hs.length
      rw [hvals] at hlength
      obtain ⟨name, hname⟩ := List.length_eq_one_iff.1 hlength
      have htop := hs.top hname hvals
      simp [bind, Except.bind, Loop.final, hname, htop]

/-- Where the machine fails, so does the loop. -/
theorem evaluate_of_error {tokens : List Str} {fault : Fault}
    (h : (loopMachine create calculate).run [] tokens = .error fault) :
    ∃ fault', evaluate create calculate tokens = .error fault' := by
  have hagree := loop_run_agree create calculate tidy_empty tokens
  rw [h] at hagree
  unfold evaluate
  cases hloop : tokens.foldlM (Loop.step create calculate) ⟨[], [], []⟩ with
  | error fault' => exact ⟨fault', rfl⟩
  | ok s => rw [hloop] at hagree; exact hagree.elim

end Loop

-- ============================================================ numbers

theorem digitChar_value (d : Fin 10) :
    (Nat.digitChar d.val).toNat - '0'.toNat = d.val := by
  revert d
  decide

theorem digitChar_not_space (d : Fin 10) :
    isSpace (Nat.digitChar d.val) = false := by
  revert d
  decide

/-- Reading digits left to right gives the number they are written
for. -/
theorem digitsValue_digitChars (digits : List (Fin 10)) :
    digitsValue (digitChars digits)
      = Nat.ofDigits 10 (digits.reverse.map fun d : Fin 10 => d.val) := by
  have hfold : ∀ acc : Nat,
      (digitChars digits).foldl
          (fun acc c => 10 * acc + (c.toNat - '0'.toNat)) acc
        = Nat.ofDigits 10 (digits.reverse.map fun d : Fin 10 => d.val)
          + 10 ^ digits.length * acc := by
    induction digits with
    | nil => simp [digitChars]
    | cons d rest ih =>
        intro acc
        have hrest := ih (10 * acc + d.val)
        simp only [digitChars, List.map_cons, List.foldl_cons,
          digitChar_value, List.reverse_cons, List.map_append, List.map_nil,
          Nat.ofDigits_append, Nat.ofDigits_singleton, List.length_map,
          List.length_reverse, List.length_cons] at hrest ⊢
        rw [hrest, Nat.pow_succ]
        ring
  have hzero := hfold 0
  rw [Nat.mul_zero, Nat.add_zero] at hzero
  exact hzero

/-- What `atol` makes of digits behind a sign it has recognised. -/
theorem takeWhile_digitChars (digits : List (Fin 10)) :
    (digitChars digits).takeWhile Char.isDigit = digitChars digits := by
  apply List.takeWhile_eq_self_iff.2
  intro c hc
  obtain ⟨d, -, rfl⟩ := List.mem_map.1 hc
  exact digitChar_isDigit d

/-- A number without a point is its digits. -/
theorem Literal.text_of_int {l : Literal} (hint : l.frac = []) :
    l.text = digitChars l.whole := by
  simp [Literal.text, hint]

/-- The digits of a number begin with a digit, so neither with white
space nor with a sign. -/
theorem digitChars_head {digits : List (Fin 10)} (hne : digits ≠ []) :
    (digitChars digits).dropWhile isSpace = digitChars digits
      ∧ (digitChars digits).head? ≠ some '-'
      ∧ (digitChars digits).head? ≠ some '+' := by
  obtain ⟨d, rest, rfl⟩ := List.exists_cons_of_ne_nil hne
  have hsign : ∀ d : Fin 10, some (Nat.digitChar d.val) ≠ some '-'
      ∧ some (Nat.digitChar d.val) ≠ some '+' := by decide
  refine ⟨?_, hsign d⟩
  exact List.dropWhile_cons_of_neg (by simp [digitChar_not_space d])

/-- `atol` of a number without a point. -/
theorem atol_literal {l : Literal} (hint : l.frac = []) :
    atol l.text = if l.value < 2 ^ 63 then .ok (BitVec.ofNat 64 l.value)
      else .error .undefined := by
  obtain ⟨hspace, hminus, hplus⟩ := digitChars_head l.whole_ne_nil
  have hval : digitsValue ((digitChars l.whole).takeWhile Char.isDigit)
      = l.value := by
    rw [takeWhile_digitChars, digitsValue_digitChars]
    rfl
  have hrange : (-2 ^ 63 ≤ (l.value : Int) ∧ (l.value : Int) < 2 ^ 63)
      ↔ l.value < 2 ^ 63 := by omega
  simp only [atol, Literal.text_of_int hint, hspace, hminus, hplus, hval,
    beq_eq_false_iff_ne.2 hminus, or_self, if_false, Bool.false_eq_true,
    hrange, BitVec.ofInt_natCast]

/-- `atol` of a negated number without a point. -/
theorem atol_negative {l : Literal} (hint : l.frac = []) :
    atol ('-' :: l.text) = if l.value ≤ 2 ^ 63 then
        .ok (-BitVec.ofNat 64 l.value)
      else .error .undefined := by
  have hspace : ('-' :: digitChars l.whole).dropWhile isSpace
      = '-' :: digitChars l.whole :=
    List.dropWhile_cons_of_neg (by decide)
  have hval : digitsValue ((digitChars l.whole).takeWhile Char.isDigit)
      = l.value := by
    rw [takeWhile_digitChars, digitsValue_digitChars]
    rfl
  have hrange : (-2 ^ 63 ≤ -(l.value : Int) ∧ -(l.value : Int) < 2 ^ 63)
      ↔ l.value ≤ 2 ^ 63 := by omega
  simp only [atol, Literal.text_of_int hint, hspace, List.head?_cons,
    List.tail_cons, true_or, if_true, beq_self_eq_true, hval, hrange,
    BitVec.ofInt_neg, BitVec.ofInt_natCast]

-- ================================================== values of trees

namespace Expr

/-- A number, as an operand: with its sign, in brackets. -/
def isConstant : Expr → Bool
  | .lit _ => true
  | .neg (.lit _) => true
  | .paren e => e.isConstant
  | _ => false

/-- Every number fits in `int64_t`, and no operator has two numbers for
operands. -/
def Evaluable : Expr → Prop
  | .col _ => True
  | .lit l => l.value < 2 ^ 63
  | .neg (.lit l) => l.value ≤ 2 ^ 63
  | .neg e => e.isConstant = false ∧ e.Evaluable
  | .paren e => e.Evaluable
  | .bin _ l r =>
      (l.isConstant && r.isConstant) = false ∧ l.Evaluable ∧ r.Evaluable

/-- The rows of a tree over equally long columns. -/
def rows {n : Nat} (table : Str → Fin n → I64) (e : Expr) : List I64 :=
  List.ofFn fun i => e.denote fun c => table c i

/-- The value of a tree on the value stack. -/
def stackValue {n : Nat} (table : Str → Fin n → I64) (e : Expr) :
    TokenValue :=
  if e.isConstant then .i64Val (e.denote fun _ => 0) else .i64Vec (e.rows table)

/-- A number has the same value in every row. -/
theorem denote_constant {e : Expr} (h : e.isConstant = true)
    (row row' : Str → I64) : e.denote row = e.denote row' := by
  induction e with
  | col c => cases h
  | lit l => rfl
  | neg e =>
      cases e with
      | lit l => rfl
      | col c => cases h
      | neg e => cases h
      | paren e => cases h
      | bin op l r => cases h
  | paren e ih => exact ih h
  | bin op l r => cases h

end Expr

/-- The meaning of an operator. -/
def BinOp.apply : BinOp → I64 → I64 → I64
  | .add => fun x y => x + y
  | .sub => fun x y => x - y
  | .mul => fun x y => x * y
  | .div => BitVec.sdiv

theorem denote_bin (row : Str → I64) (op : BinOp) (l r : Expr) :
    (Expr.bin op l r).denote row = op.apply (l.denote row) (r.denote row) := by
  cases op <;> rfl

/-- The three integer operators are one function of their meaning. -/
theorem localOperator_eq {op : BinOp} (hop : op ≠ .div)
    (val1 val2 : TokenValue) :
    localOperator [op.char] val1 val2
      = localCalculate op.apply op.apply op.apply val1 val2 := by
  cases op with
  | add =>
      show localCalculate _ _ (fun x k => k + x) val1 val2 = _
      rw [show (fun x k : I64 => k + x) = fun x k => x + k from
        funext fun x => funext fun k => BitVec.add_comm k x]
      rfl
  | sub => rfl
  | mul => rfl
  | div => exact (hop rfl).elim

theorem zipWith_ofFn {n : Nat} (f : I64 → I64 → I64) (x y : Fin n → I64) :
    List.zipWith f (List.ofFn x) (List.ofFn y)
      = List.ofFn fun i => f (x i) (y i) := by
  apply List.ext_getElem
  · simp
  · intro i hi hi'
    simp

/-- An operator on the values of two trees: the value of the tree they
make, unless both are numbers. -/
theorem localOperator_stackValue {n : Nat} (table : Str → Fin n → I64)
    {op : BinOp} (hop : op ≠ .div) (l r : Expr) :
    localOperator [op.char] (l.stackValue table) (r.stackValue table)
      = if l.isConstant && r.isConstant then .error .undefined
        else .ok ((Expr.bin op l r).stackValue table) := by
  rw [localOperator_eq hop]
  have hvec : (Expr.bin op l r).stackValue table
      = .i64Vec ((Expr.bin op l r).rows table) := rfl
  rw [hvec]
  cases hl : l.isConstant with
  | true =>
      cases hr : r.isConstant with
      | true => simp [stackValue, hl, hr, localCalculate]
      | false =>
          simp only [stackValue, hl, hr, localCalculate, rows, List.map_ofFn,
            denote_bin, if_true, Bool.false_eq_true, if_false, Bool.and_false,
            Except.ok.injEq, TokenValue.i64Vec.injEq]
          congr 1
          funext i
          exact congrArg (op.apply · _) (denote_constant hl _ _)
  | false =>
      cases hr : r.isConstant with
      | true =>
          simp only [stackValue, hl, hr, localCalculate, rows, List.map_ofFn,
            denote_bin, if_true, Bool.false_eq_true, if_false, Bool.and_true,
            Except.ok.injEq, TokenValue.i64Vec.injEq]
          congr 1
          funext i
          exact congrArg (op.apply _) (denote_constant hr _ _)
      | false =>
          simp only [stackValue, hl, hr, localCalculate, rows, zipWith_ofFn,
            denote_bin, Bool.false_eq_true, if_false, Bool.and_false,
            List.length_ofFn, Nat.le_refl, if_true]

-- ============================================== the local evaluator

variable {D : Type}

/-- What the local evaluator must find for a tree: the columns of the
table under their names, and its numbers marked as such. -/
structure Supplies {n : Nat} (env : LocalEnv D) (table : Str → Fin n → I64)
    (e : Expr) : Prop where
  column : ∀ c ∈ e.columns, tokenType env.typeMap c.text = .column
    ∧ env.newFeed.getColumnValuesI64 env.newColCfg c.text
      = .ok (List.ofFn (table c.text))
  number : ∀ token ∈ e.numbers, tokenType env.typeMap token = .value

/-- The value stack of the local evaluator. -/
abbrev localMachine (env : LocalEnv D) :
    StackMachine isOperatorToken Fault TokenValue :=
  loopMachine env.createTokenValue localOperator

/-- A piece of postfix code pushes a value if `good` holds and fails if
it does not. -/
def Pushes (env : LocalEnv D) (good : Prop) (code : List Str)
    (val : TokenValue) : Prop :=
  (good ∧ ∀ stk, (localMachine env).run stk code = .ok (val :: stk))
    ∨ (¬good ∧ ∀ stk, ∃ fault, (localMachine env).run stk code = .error fault)

/-- An operand token pushes what `createTokenValue` makes of it. -/
theorem pushes_operand {env : LocalEnv D} {token : Str} {good : Prop}
    {val : TokenValue} (htoken : isOperatorToken token = false)
    (h : (good ∧ env.createTokenValue token = .ok val)
      ∨ (¬good ∧ ∃ fault, env.createTokenValue token = .error fault)) :
    Pushes env good [token] val := by
  have hrun : ∀ stk, (localMachine env).run stk [token]
      = env.createTokenValue token >>= fun val => .ok (val :: stk) := by
    intro stk
    rw [StackMachine.run_cons, StackMachine.step_operand _ htoken]
    show (env.createTokenValue token >>= _) >>= _ = _
    cases env.createTokenValue token <;> rfl
  rcases h with ⟨hgood, hcreate⟩ | ⟨hgood, fault, hcreate⟩
  · refine Or.inl ⟨hgood, fun stk => ?_⟩
    rw [hrun, hcreate]
    rfl
  · refine Or.inr ⟨hgood, fun stk => ⟨fault, ?_⟩⟩
    rw [hrun, hcreate]
    rfl

/-- A number pushes its value if it fits. -/
theorem pushes_number {env : LocalEnv D} {token : Str} {good : Prop}
    [Decidable good] {val : I64} (htoken : isOperatorToken token = false)
    (htype : tokenType env.typeMap token = .value)
    (hatol : atol token = if good then .ok val else .error .undefined) :
    Pushes env good [token] (.i64Val val) := by
  apply pushes_operand htoken
  unfold LocalEnv.createTokenValue
  rw [htype, hatol]
  by_cases hgood : good
  · rw [if_pos hgood]
    exact Or.inl ⟨hgood, rfl⟩
  · rw [if_neg hgood]
    exact Or.inr ⟨hgood, .undefined, rfl⟩

/-- The code of two operands and an operator. -/
theorem pushes_binary {n : Nat} {env : LocalEnv D}
    {table : Str → Fin n → I64} (op : BinOp) (hop : op ≠ .div) {l r : Expr}
    (hl : Pushes env l.Evaluable l.postfixForm (l.stackValue table))
    (hr : Pushes env r.Evaluable r.postfixForm (r.stackValue table)) :
    Pushes env
      ((l.isConstant && r.isConstant) = false ∧ l.Evaluable ∧ r.Evaluable)
      (l.postfixForm ++ r.postfixForm ++ [[op.char]])
      ((Expr.bin op l r).stackValue table) := by
  have hrun : ∀ stk, (localMachine env).run stk
      (l.postfixForm ++ r.postfixForm ++ [[op.char]])
      = ((localMachine env).run stk l.postfixForm
          >>= ((localMachine env).run · r.postfixForm))
          >>= ((localMachine env).run · [[op.char]]) := by
    intro stk
    rw [StackMachine.run_append, StackMachine.run_append]
  -- the left operand first, for its failure ends the run
  rcases hl with ⟨hgl, hl⟩ | ⟨hgl, hl⟩
  · rcases hr with ⟨hgr, hr⟩ | ⟨hgr, hr⟩
    · have hop' : ∀ stk, (localMachine env).run stk
          (l.postfixForm ++ r.postfixForm ++ [[op.char]])
          = (if l.isConstant && r.isConstant then .error .undefined
              else .ok ((Expr.bin op l r).stackValue table))
            >>= fun val => .ok (val :: stk) := by
        intro stk
        rw [hrun, hl]
        show (localMachine env).run _ r.postfixForm
          >>= ((localMachine env).run · [[op.char]]) = _
        rw [hr]
        show (localMachine env).run _ [[op.char]] = _
        rw [StackMachine.run_cons,
          StackMachine.step_operator _ (isOperatorToken_char op)]
        show (localOperator [op.char] _ _ >>= _) >>= _ = _
        rw [localOperator_stackValue table hop]
        cases l.isConstant && r.isConstant <;> rfl
      -- no branch of the operators takes two constants
      cases hconst : l.isConstant && r.isConstant with
      | true =>
          refine Or.inr ⟨fun h => Bool.false_ne_true h.1.symm, ?_⟩
          intro stk
          rw [hop', hconst]
          exact ⟨.undefined, rfl⟩
      | false =>
          refine Or.inl ⟨⟨rfl, hgl, hgr⟩, ?_⟩
          intro stk
          rw [hop', hconst]
          rfl
    · refine Or.inr ⟨fun h => hgr h.2.2, ?_⟩
      intro stk
      obtain ⟨fault, hfault⟩ := hr (l.stackValue table :: stk)
      refine ⟨fault, ?_⟩
      rw [hrun, hl]
      show (localMachine env).run _ r.postfixForm >>= _ = _
      rw [hfault]
      rfl
  · refine Or.inr ⟨fun h => hgl h.2.1, ?_⟩
    intro stk
    obtain ⟨fault, hfault⟩ := hl stk
    refine ⟨fault, ?_⟩
    rw [hrun, hfault]
    rfl

/-- The number 0. -/
def zeroLiteral : Literal := ⟨[0], [], List.cons_ne_nil _ _⟩

/-- What the definitions say of a negation other than of a number. -/
theorem neg_forms {e : Expr} (hlit : ∀ l, e ≠ .lit l) :
    (Expr.neg e).postfixForm = ['0'] :: e.postfixForm ++ [['-']]
      ∧ (Expr.neg e).isConstant = false
      ∧ ((Expr.neg e).Evaluable ↔ e.isConstant = false ∧ e.Evaluable) := by
  cases e with
  | lit l => exact (hlit l rfl).elim
  | col c => exact ⟨rfl, rfl, Iff.rfl⟩
  | neg e => exact ⟨rfl, rfl, Iff.rfl⟩
  | paren e => exact ⟨rfl, rfl, Iff.rfl⟩
  | bin op l r => exact ⟨rfl, rfl, Iff.rfl⟩

/-- A negation other than of a number is the subtraction from 0 that its
postfix form says. -/
theorem pushes_negation {n : Nat} {env : LocalEnv D}
    {table : Str → Fin n → I64} {e : Expr} (hlit : ∀ l, e ≠ .lit l)
    (hzero : tokenType env.typeMap ['0'] = .value)
    (he : Pushes env e.Evaluable e.postfixForm (e.stackValue table)) :
    Pushes env (Expr.neg e).Evaluable (Expr.neg e).postfixForm
      ((Expr.neg e).stackValue table) := by
  obtain ⟨hform, hconst, hevaluable⟩ := neg_forms hlit
  have hleft : Pushes env (zeroLiteral.value < 2 ^ 63)
      (Expr.lit zeroLiteral).postfixForm
      ((Expr.lit zeroLiteral).stackValue table) :=
    pushes_number (isOperatorToken_of_ordinary zeroLiteral.ordinary) hzero
      (atol_literal rfl)
  have hsub := pushes_binary (l := .lit zeroLiteral) .sub (by simp) hleft he
  have hval : (Expr.bin .sub (.lit zeroLiteral) e).stackValue table
      = (Expr.neg e).stackValue table := by
    rw [stackValue, stackValue, hconst]
    have hrow : ∀ row, (Expr.bin .sub (.lit zeroLiteral) e).denote row
        = (Expr.neg e).denote row := fun row => BitVec.zero_sub _
    show TokenValue.i64Vec (List.ofFn _) = TokenValue.i64Vec (List.ofFn _)
    simp only [hrow]
  have hgood : ((true && e.isConstant) = false
      ∧ (Expr.lit zeroLiteral).Evaluable ∧ e.Evaluable)
      ↔ (Expr.neg e).Evaluable := by
    have hfits : (Expr.lit zeroLiteral).Evaluable := by
      show zeroLiteral.value < 2 ^ 63
      decide
    rw [hevaluable, Bool.true_and]
    exact and_congr_right fun _ => and_iff_right hfits
  rw [← hval, ← propext hgood, hform]
  exact hsub

/-- The postfix form of a tree pushes its value, if every number fits
and no operator has two numbers for operands. -/
theorem run_postfixForm {n : Nat} {env : LocalEnv D}
    {table : Str → Fin n → I64} {e : Expr} (hint : e.IntegerOnly)
    (hsup : Supplies env table e) :
    Pushes env e.Evaluable e.postfixForm (e.stackValue table) := by
  induction e with
  | col c =>
      obtain ⟨htype, hvalues⟩ := hsup.column c (List.mem_cons_self ..)
      apply pushes_operand (isOperatorToken_of_ordinary c.plain)
      refine Or.inl ⟨trivial, ?_⟩
      unfold LocalEnv.createTokenValue
      rw [htype, hvalues]
      rfl
  | lit l =>
      have htype := hsup.number l.text (List.mem_cons_self ..)
      show Pushes env (l.value < 2 ^ 63) _ _
      exact pushes_number (isOperatorToken_of_ordinary l.ordinary) htype
        (atol_literal hint)
  | neg e ih =>
      by_cases hlit : ∃ l, e = .lit l
      · obtain ⟨l, rfl⟩ := hlit
        have htype := hsup.number ('-' :: l.text) (List.mem_cons_self ..)
        show Pushes env (l.value ≤ 2 ^ 63) _ _
        exact pushes_number (isOperatorToken_negative l) htype
          (atol_negative hint)
      · have hnumbers : (Expr.neg e).numbers = ['0'] :: e.numbers := by
          cases e with
          | lit l => exact (hlit ⟨l, rfl⟩).elim
          | col c => rfl
          | neg e => rfl
          | paren e => rfl
          | bin op l r => rfl
        have hnumber := hsup.number
        rw [hnumbers] at hnumber
        apply pushes_negation (not_exists.1 hlit)
        · exact hnumber _ (List.mem_cons_self ..)
        · exact ih hint ⟨hsup.column, fun token htoken =>
            hnumber token (List.mem_cons_of_mem _ htoken)⟩
  | paren e ih => exact ih hint ⟨hsup.column, hsup.number⟩
  | bin op l r ihl ihr =>
      obtain ⟨hop, hintl, hintr⟩ := hint
      apply pushes_binary op hop
      · exact ihl hintl ⟨fun c hc => hsup.column c (List.mem_append_left _ hc),
          fun t ht => hsup.number t (List.mem_append_left _ ht)⟩
      · exact ihr hintr ⟨fun c hc => hsup.column c (List.mem_append_right _ hc),
          fun t ht => hsup.number t (List.mem_append_right _ ht)⟩

/-- The loop of the local evaluator gives the rows of a tree exactly if
the tree is no number, every number fits and no operator has two numbers
for operands. -/
theorem runLocalLoop_iff {n : Nat} {env : LocalEnv D}
    {table : Str → Fin n → I64} {e : Expr} (hint : e.IntegerOnly)
    (hsup : Supplies env table e) :
    runLocalLoop env e.postfixForm = .ok (e.rows table)
      ↔ e.Evaluable ∧ e.isConstant = false := by
  unfold runLocalLoop
  rcases run_postfixForm hint hsup with ⟨hgood, hrun⟩ | ⟨hgood, hrun⟩
  · rw [evaluate_of_run (hrun [])]
    cases hconst : e.isConstant with
    | true => simp [bind, Except.bind, stackValue, hconst]
    | false => simp [bind, Except.bind, stackValue, hconst, hgood]
  · obtain ⟨fault, hfault⟩ := hrun []
    obtain ⟨fault', hfault'⟩ := evaluate_of_error hfault
    rw [hfault']
    simp [bind, Except.bind, hgood]

-- ==================================================== the whole path

/-- What the compiler and the local evaluator are to do with a tree:
`importExpress` returns 0 and leaves the postfix form, and where the
tree is one of integer mode, the evaluator gives its rows for all
equally long columns. -/
def MeaningPreserved (D : Type) (e : Expr) : Prop :=
  importExpress e.render .fresh = .ok (0, ⟨e.postfixForm, e.render⟩)
    ∧ (e.IntegerOnly → ∀ (n : Nat) (table : Str → Fin n → I64)
        (env : LocalEnv D), Supplies env table e →
        runLocalLoop env e.postfixForm = .ok (e.rows table))

/-- A map built from its keys. -/
theorem lookup_graph {V : Type} (f : Str → V) (keys : List Str) (key : Str) :
    (keys.map fun k => (k, f k)).lookup key
      = if key ∈ keys then some (f key) else none := by
  induction keys with
  | nil => rfl
  | cons k rest ih =>
      rw [List.map_cons, List.lookup_cons, ih]
      by_cases hk : key = k
      · subst hk
        simp
      · rw [beq_false_of_ne hk]
        simp [hk]

/-- The numbers of a tree are numbers, some with a sign. -/
theorem mem_numbers {e : Expr} {token : Str} (hmem : token ∈ e.numbers) :
    ∃ l : Literal, token = l.text ∨ token = '-' :: l.text := by
  have hneg : ∀ e : Expr,
      (token ∈ e.numbers → ∃ l : Literal, token = l.text
        ∨ token = '-' :: l.text) →
      token ∈ ['0'] :: e.numbers →
      ∃ l : Literal, token = l.text ∨ token = '-' :: l.text := by
    intro e ih hmem
    rcases List.mem_cons.1 hmem with hmem | hmem
    · exact ⟨zeroLiteral, Or.inl hmem⟩
    · exact ih hmem
  induction e with
  | col c => cases hmem
  | lit l => exact ⟨l, Or.inl (List.mem_singleton.1 hmem)⟩
  | neg e ih =>
      cases e with
      | lit l => exact ⟨l, Or.inr (List.mem_singleton.1 hmem)⟩
      | col c => exact hneg _ ih hmem
      | neg e => exact hneg _ ih hmem
      | paren e => exact hneg _ ih hmem
      | bin op l r => exact hneg _ ih hmem
  | paren e ih => exact ih hmem
  | bin op l r ihl ihr =>
      rcases List.mem_append.1 hmem with hmem | hmem
      · exact ihl hmem
      · exact ihr hmem

/-- The name of a column is not the text of a number. -/
theorem columnName_not_number (c : ColumnName) (e : Expr) :
    c.text ∉ e.numbers := by
  intro hmem
  obtain ⟨l, hl | hl⟩ := mem_numbers hmem
  · obtain ⟨x, hx, hnon⟩ := c.named
    exact l.numeric x (hl ▸ hx) hnon
  · have hminus : Ordinary '-' :=
      c.plain '-' (hl ▸ List.mem_cons_self ..)
    exact hminus.ne_minus rfl

/-- For every tree there is an environment that supplies its columns. -/
theorem supplies_exists (D : Type) {n : Nat} (table : Str → Fin n → I64)
    (e : Expr) : ∃ env : LocalEnv D, Supplies env table e := by
  let names := e.columns.map ColumnName.text
  let cfg : ColumnConfig := ⟨0, [], [], names.map fun name => (name, true)⟩
  let feed : FeedDict D :=
    ⟨false, n, [], names.map fun name => (name, List.ofFn (table name))⟩
  refine ⟨⟨e.numbers.map fun token => (token, .value), cfg, feed⟩, ?_, ?_⟩
  · intro c hc
    have hname : c.text ∈ names := List.mem_map_of_mem hc
    constructor
    · simp [tokenType, lookup_graph, columnName_not_number]
    · simp [FeedDict.getColumnValuesI64, ColumnConfig.getColumnLocality, cfg,
        feed, lookup_graph, hname, bind, Except.bind]
  · intro token htoken
    simp [tokenType, lookup_graph, htoken]

/-- The compiler and the local evaluator do right by a well formed
expression exactly if its signs are placed well, it has at most 65535
operators and, in integer mode, it is no number, its numbers fit in
`int64_t` and no operator has two numbers for operands. -/
theorem meaning_preserved_iff (D : Type) {e : Expr}
    (hwf : e.WellFormed true) :
    MeaningPreserved D e ↔
      e.SignsPlaced ∧ e.operators < 2 ^ 16
        ∧ (e.IntegerOnly → e.Evaluable ∧ e.isConstant = false) := by
  unfold MeaningPreserved
  rw [importExpress_iff hwf, and_assoc]
  refine and_congr_right fun _ => and_congr_right fun _ =>
    forall_congr' fun hint => ?_
  constructor
  · intro hall
    obtain ⟨env, henv⟩ := supplies_exists D (fun _ => Fin.elim0) e
    exact (runLocalLoop_iff hint henv).1 (hall 0 _ env henv)
  · intro hgood n table env hsup
    exact (runLocalLoop_iff hint hsup).2 hgood

/-- The columns of the samples below. -/
def columnA : ColumnName :=
  ⟨['A'], List.forall_mem_singleton.2 (by decide), 'A', by decide⟩

@[inherit_doc columnA]
def columnB : ColumnName :=
  ⟨['B'], List.forall_mem_singleton.2 (by decide), 'B', by decide⟩

/-- `-7*A-B`. -/
def sampleLeading : Expr :=
  .bin .sub (.bin .mul (.neg (.lit ⟨[7], [], by decide⟩)) (.col columnA))
    (.col columnB)

theorem sampleLeading_wellFormed : sampleLeading.WellFormed true :=
  ⟨by decide, by decide,
    ⟨by decide, by decide, ⟨rfl, rfl, trivial⟩, trivial⟩, trivial⟩

/-- The sample is compiled and evaluated as it should be. -/
theorem sampleLeading_preserved :
    sampleLeading.WellFormed true ∧ MeaningPreserved Unit sampleLeading := by
  refine ⟨sampleLeading_wellFormed, ?_⟩
  rw [meaning_preserved_iff Unit sampleLeading_wellFormed]
  refine ⟨⟨⟨trivial, trivial⟩, trivial⟩, by decide, fun _ => ⟨?_, rfl⟩⟩
  refine ⟨rfl, ⟨rfl, ?_, trivial⟩, trivial⟩
  show (7 : Nat) ≤ 2 ^ 63
  decide

/-- `(-5+A)*B`. -/
def sampleMerged : Expr :=
  .bin .mul
    (.paren (.bin .add (.neg (.lit ⟨[5], [], by decide⟩)) (.col columnA)))
    (.col columnB)

/-- `2+3`. -/
def sampleConstants : Expr :=
  .bin .add (.lit ⟨[2], [], by decide⟩) (.lit ⟨[3], [], by decide⟩)

/-- `(-5+A)*B` is accepted with `-5+A` for one operand, and of `2+3`,
which is compiled as it should be, the evaluator reads a number as a
column. -/
theorem sign_and_constants_lose_meaning :
    (sampleMerged.WellFormed true
      ∧ importExpress (text "(-5+A)*B") .fresh
        = .ok (0, ⟨[text "-5+A", text "B", text "*"], text "(-5+A)*B"⟩)
      ∧ ¬MeaningPreserved Unit sampleMerged)
    ∧ (sampleConstants.WellFormed true
      ∧ importExpress (text "2+3") .fresh
        = .ok (0, ⟨[text "2", text "3", text "+"], text "2+3"⟩)
      ∧ ¬MeaningPreserved Unit sampleConstants) := by
  have hmerged : sampleMerged.WellFormed true :=
    ⟨by decide, by decide, ⟨by decide, by decide, ⟨rfl, rfl, trivial⟩,
      trivial⟩, trivial⟩
  have hconstants : sampleConstants.WellFormed true :=
    ⟨by decide, by decide, trivial, trivial⟩
  refine ⟨⟨hmerged, rfl, fun h => ?_⟩, ⟨hconstants, rfl, fun h => ?_⟩⟩
  · have hsigns := ((importExpress_iff hmerged).1 h.1).1
    exact hsigns.1.1
  · obtain ⟨env, henv⟩ :=
      supplies_exists Unit (fun _ (_ : Fin 1) => 0) sampleConstants
    have hint : sampleConstants.IntegerOnly := ⟨by decide, rfl, rfl⟩
    have hgood := (runLocalLoop_iff hint henv).1 (h.2 hint 1 _ env henv)
    exact Bool.false_ne_true hgood.1.1.symm

end PrimiHub.Executor
