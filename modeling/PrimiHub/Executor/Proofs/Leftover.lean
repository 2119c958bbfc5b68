/-
What a rejected expression leaves for the next one.

The next scan starts with the tokens left on the stack. It reads the same
parts as a scan on a new executor does, and keeps a stack that is the new
executor's with the rest of the leftovers below. Two things follow.
Leftover `(` go one by one with the closing brackets that close nothing
(`Over`). Any other leftover is never dropped, and the output stays
heavier by it to the end (`Heavier`): such tokens are moved, and an
operand they cut in two only weighs more.
-/
import PrimiHub.Executor.Proofs.Cursor
import PrimiHub.Executor.Proofs.Grammar

namespace PrimiHub.Executor

-- ================================================================= stacks

/-- An operator is on top after its turn. -/
theorem pushOperator_top (op : Char) (stk out : List Str) :
    ∃ below, (pushOperator op stk out).1 = [op] :: below := by
  induction stk generalizing out with
  | nil => exact ⟨[], rfl⟩
  | cons top rest ih =>
      rw [pushOperator]
      split
      · exact ⟨top :: rest, rfl⟩
      split
      · exact ⟨top :: rest, rfl⟩
      · exact ih _

/-- An operator leaves what is below alone, or takes from it. -/
theorem pushOperator_append (op : Char) (stk below out out' : List Str) :
    ∃ below', (pushOperator op (stk ++ below) out').1
      = (pushOperator op stk out).1 ++ below' := by
  induction stk generalizing out out' with
  | nil => exact pushOperator_top op below out'
  | cons top rest ih =>
      rw [List.cons_append, pushOperator, pushOperator]
      split
      · exact ⟨below, rfl⟩
      split
      · exact ⟨below, rfl⟩
      · exact ih _ _

/-- So does a closing bracket. -/
theorem closeBracket_append (stk below : List Str) (temp temp' : Str)
    (out out' : List Str) :
    ∃ below', (closeBracket (stk ++ below) temp' out').1
      = (closeBracket stk temp out).1 ++ below' := by
  induction stk generalizing temp temp' out out' with
  | nil => exact ⟨(closeBracket below temp' out').1, rfl⟩
  | cons top rest ih =>
      rw [List.cons_append, closeBracket, closeBracket]
      split
      · exact ⟨below, rfl⟩
      · exact ih _ _ _ _

/-- Without an operand a closing bracket leaves none. -/
theorem closeBracket_operand (stk out : List Str) :
    (closeBracket stk [] out).2.1 = [] := by
  induction stk generalizing out with
  | nil => rfl
  | cons top rest ih =>
      rw [closeBracket]
      split
      · rfl
      · exact ih _

/-- Where a closing bracket leaves no operand, it leaves none with more
below. -/
theorem closeBracket_operand_append {stk : List Str} (below : List Str)
    {temp temp' : Str} {out : List Str} (out' : List Str)
    (htemp : temp = [] → temp' = [])
    (h : (closeBracket stk temp out).2.1 = []) :
    (closeBracket (stk ++ below) temp' out').2.1 = [] := by
  cases stk with
  | nil =>
      rw [htemp h]
      exact closeBracket_operand _ _
  | cons top rest =>
      rw [closeBracket] at h
      rw [List.cons_append, closeBracket]
      split at h
      · rename_i hopen
        rw [if_pos hopen]
        exact htemp h
      · rename_i hopen
        rw [if_neg hopen]
        exact closeBracket_operand _ _

-- ================================================================= weights

/-- The tokens that no closing bracket drops. -/
def weight (tokens : List Str) : Nat :=
  tokens.countP fun t => firstChar t != '('

/-- An operand that is being read counts, too. -/
def Scan.weight (s : Scan) : Nat :=
  Executor.weight s.suffixStk + Executor.weight s.stk2
    + if s.temp = [] then 0 else 1

/-- The weight of two lists of tokens. -/
theorem weight_append (a b : List Str) :
    weight (a ++ b) = weight a + weight b :=
  List.countP_append

theorem weight_cons_solid {t : Str} (h : firstChar t ≠ '(')
    (tokens : List Str) : weight (t :: tokens) = weight tokens + 1 :=
  List.countP_cons_of_pos (bne_iff_ne.mpr h)

theorem weight_cons_open {t : Str} (h : firstChar t = '(')
    (tokens : List Str) : weight (t :: tokens) = weight tokens :=
  List.countP_cons_of_neg (by rw [h]; decide)

theorem weight_single {t : Str} (h : firstChar t ≠ '(') : weight [t] = 1 :=
  weight_cons_solid h []

/-- An operand moves to the output and is counted there. -/
theorem weight_flush {temp : Str} (h : firstChar temp ≠ '(')
    (out : List Str) :
    weight (flush temp out) = weight out + if temp = [] then 0 else 1 := by
  unfold flush
  split
  · rfl
  · rw [weight_append, weight_single h]

/-- Operators move between stack and output; the new one is one more. -/
theorem weight_pushOperator {op : Char} (hop : isOperator op = true)
    (stk out : List Str) :
    weight (pushOperator op stk out).1 + weight (pushOperator op stk out).2
      = weight stk + weight out + 1 := by
  have hsolid := firstChar_operator hop
  induction stk generalizing out with
  | nil =>
      have hempty : weight [] = 0 := rfl
      rw [pushOperator]
      dsimp only
      rw [weight_single hsolid, hempty]
      omega
  | cons top rest ih =>
      rw [pushOperator]
      split
      · dsimp only
        rw [weight_cons_solid hsolid]
        omega
      split
      · dsimp only
        rw [weight_cons_solid hsolid]
        omega
      · rename_i hopen _
        rw [ih, weight_append, weight_single hopen, weight_cons_solid hopen]
        omega

/-- A closing bracket moves operators and the operand and drops only
brackets. -/
theorem weight_closeBracket (stk : List Str) {temp : Str}
    (h : firstChar temp ≠ '(') (out : List Str) :
    weight (closeBracket stk temp out).1
        + weight (closeBracket stk temp out).2.2
        + (if (closeBracket stk temp out).2.1 = [] then 0 else 1)
      = weight stk + weight out + if temp = [] then 0 else 1 := by
  induction stk generalizing temp out with
  | nil => rfl
  | cons top rest ih =>
      rw [closeBracket]
      split
      · rename_i hopen
        rw [weight_cons_open hopen]
      · rename_i hopen
        rw [ih (by decide), weight_append, weight_flush h,
          weight_single hopen, weight_cons_solid hopen, if_pos rfl]
        omega

-- =========================================================== what is read

/-- The operand that is read has no bracket in front, and an inner loop
has begun one. -/
structure Scan.Solid (s : Scan) : Prop where
  operand : firstChar s.temp ≠ '('
  begun : s.mode ≠ .outer → s.temp ≠ []

/-- What follows does not change the first character. -/
theorem firstChar_append {temp : Str} (h : temp ≠ []) (c : Char) :
    firstChar (temp ++ [c]) = firstChar temp := by
  obtain ⟨d, rest, rfl⟩ := List.exists_cons_of_ne_nil h
  rfl

/-- Only an inner loop takes a bracket for a character of an operand, and
only characters leave an inner loop running. -/
theorem classifyOuter_char {prev : Option Char} {c : Char} :
    (∀ d, (classifyOuter prev c).1 = .char d → d ≠ '(')
      ∧ ((classifyOuter prev c).2 ≠ .outer →
        ∃ d, (classifyOuter prev c).1 = .char d) := by
  unfold classifyOuter
  split
  · rename_i hminus
    refine ⟨fun d h => ?_, fun _ => ⟨c, rfl⟩⟩
    cases h
    rw [hminus.1]
    decide
  split
  · rename_i hminus
    refine ⟨fun d h => ?_, fun _ => ⟨c, rfl⟩⟩
    cases h
    rw [hminus.1]
    decide
  split
  · exact ⟨fun d h => (by cases h), fun h => absurd rfl h⟩
  split
  · exact ⟨fun d h => (by cases h), fun h => absurd rfl h⟩
  split
  · exact ⟨fun d h => (by cases h), fun h => absurd rfl h⟩
  · rename_i hopen _
    refine ⟨fun d h => ?_, fun h => absurd rfl h⟩
    cases h
    exact hopen

/-- A character of an operand is no opening bracket in the outer loop, and
what begins an inner loop or keeps it is such a character. -/
theorem classify_char {prev : Option Char} {mode : Mode} {c : Char} :
    (∀ d, (classify prev mode c).1 = .char d → mode = .outer → d ≠ '(')
      ∧ ((classify prev mode c).2 ≠ .outer →
        ∃ d, (classify prev mode c).1 = .char d) := by
  obtain ⟨hchar, hmode⟩ := @classifyOuter_char prev c
  cases mode with
  | outer => exact ⟨fun d h _ => hchar d h, hmode⟩
  | untilOperator =>
      refine ⟨fun d _ h => (by cases h), ?_⟩
      by_cases hop : isOperator c = true
      · rw [classify, if_pos hop]
        exact hmode
      · rw [classify, if_neg hop]
        exact fun _ => ⟨c, rfl⟩
  | untilClose =>
      refine ⟨fun d _ h => (by cases h), ?_⟩
      by_cases hc : c = ')'
      · rw [classify, if_pos hc]
        exact hmode
      · rw [classify, if_neg hc]
        exact fun _ => ⟨c, rfl⟩

/-- The operand is put out or stays as it was. -/
theorem closeBracket_operand_or (stk : List Str) (temp : Str)
    (out : List Str) : (closeBracket stk temp out).2.1 = []
      ∨ (closeBracket stk temp out).2.1 = temp := by
  cases stk with
  | nil => exact Or.inr rfl
  | cons top rest =>
      rw [closeBracket]
      split
      · exact Or.inr rfl
      · exact Or.inl (closeBracket_operand _ _)

/-- Every character keeps the operand without a bracket in front. -/
theorem Scan.Solid.step {s : Scan} (h : s.Solid) (c : Char) :
    (s.step c).Solid := by
  obtain ⟨hchar, hmode⟩ := @classify_char s.prev s.mode c
  rw [step_eq]
  cases hpart : (classify s.prev s.mode c).1 with
  | char d =>
      refine ⟨?_, fun _ => List.append_ne_nil_of_right_ne_nil _
        (List.cons_ne_nil d [])⟩
      by_cases htemp : s.temp = []
      · have houter : s.mode = .outer := by
          by_contra hne
          exact h.begun hne htemp
        show firstChar (s.temp ++ [d]) ≠ '('
        rw [htemp]
        exact hchar d hpart houter
      · show firstChar (s.temp ++ [d]) ≠ '('
        rw [firstChar_append htemp]
        exact h.operand
  | op d =>
      have hempty : firstChar [] ≠ '(' := by decide
      refine ⟨hempty, fun hne => ?_⟩
      obtain ⟨d', hd'⟩ := hmode hne
      rw [hpart] at hd'
      cases hd'
  | opening =>
      refine ⟨h.operand, fun hne => ?_⟩
      obtain ⟨d', hd'⟩ := hmode hne
      rw [hpart] at hd'
      cases hd'
  | closing =>
      refine ⟨?_, fun hne => ?_⟩
      · obtain hnil | hsame := closeBracket_operand_or s.suffixStk s.temp s.stk2
        · show firstChar (closeBracket s.suffixStk s.temp s.stk2).2.1 ≠ '('
          rw [hnil]
          decide
        · show firstChar (closeBracket s.suffixStk s.temp s.stk2).2.1 ≠ '('
          rw [hsame]
          exact h.operand
      · obtain ⟨d', hd'⟩ := hmode hne
        rw [hpart] at hd'
        cases hd'

/-- What a part adds to the weight: an operator, or an operand that it
begins. -/
def Part.adds (temp : Str) : Part → Nat
  | .char _ => if temp = [] then 1 else 0
  | .op _ => 1
  | .opening => 0
  | .closing => 0

/-- The weight after one part. -/
theorem weight_take {s : Scan} (h : s.Solid) {p : Part}
    (hop : ∀ c, p = .op c → isOperator c = true) :
    (s.take p).weight = s.weight + p.adds s.temp := by
  cases p with
  | char c =>
      have hne : s.temp ++ [c] ≠ [] :=
        List.append_ne_nil_of_right_ne_nil _ (List.cons_ne_nil c [])
      show weight s.suffixStk + weight s.stk2
        + (if s.temp ++ [c] = [] then 0 else 1) = _
      rw [if_neg hne, Scan.weight, Part.adds]
      split <;> rfl
  | op c =>
      have hpush := weight_pushOperator (hop c rfl) s.suffixStk
        (flush s.temp s.stk2)
      rw [weight_flush h.operand] at hpush
      simp only [Scan.take, Scan.weight, Part.adds, if_pos]
      omega
  | opening =>
      simp only [Scan.take, Scan.weight]
      rw [weight_cons_open rfl]
      rfl
  | closing => exact weight_closeBracket s.suffixStk h.operand s.stk2

-- ========================================================= other leftovers

/-- The scan on the right has the stack of the other with something below,
and more weight. -/
structure Heavier (s t : Scan) : Prop where
  prev : t.prev = s.prev
  mode : t.mode = s.mode
  stack : ∃ below, t.suffixStk = s.suffixStk ++ below
  operand : s.temp = [] → t.temp = []
  weight : s.weight < t.weight
  solid : s.Solid
  solid' : t.Solid

/-- A part is taken in the same way above what lies below, and the weights
stay apart. -/
theorem Heavier.take {s t : Scan} (h : Heavier s t) {p : Part}
    (hop : ∀ c, p = .op c → isOperator c = true) :
    (∃ below, (t.take p).suffixStk = (s.take p).suffixStk ++ below)
      ∧ ((s.take p).temp = [] → (t.take p).temp = [])
      ∧ (s.take p).weight < (t.take p).weight := by
  obtain ⟨below, hstack⟩ := h.stack
  have hweight := h.weight
  rw [weight_take h.solid hop, weight_take h.solid' hop]
  cases p with
  | char c =>
      refine ⟨⟨below, hstack⟩, fun htemp => ?_, ?_⟩
      · exact absurd htemp
          (List.append_ne_nil_of_right_ne_nil _ (List.cons_ne_nil c []))
      · dsimp only [Part.adds]
        by_cases htemp : s.temp = []
        · rw [if_pos htemp, if_pos (h.operand htemp)]
          omega
        · rw [if_neg htemp]
          omega
  | op c =>
      refine ⟨?_, fun _ => rfl, Nat.add_lt_add_right hweight 1⟩
      show ∃ below', (pushOperator c t.suffixStk _).1 = _
      rw [hstack]
      exact pushOperator_append c s.suffixStk below _ _
  | opening =>
      exact ⟨⟨below, congrArg (['('] :: ·) hstack⟩, h.operand, hweight⟩
  | closing =>
      refine ⟨?_, fun htemp => ?_, hweight⟩
      · show ∃ below', (closeBracket t.suffixStk _ _).1 = _
        rw [hstack]
        exact closeBracket_append s.suffixStk below _ _ _ _
      · show (closeBracket t.suffixStk _ _).2.1 = []
        rw [hstack]
        exact closeBracket_operand_append below _ h.operand htemp

/-- One character, on both sides. -/
theorem Heavier.step {s t : Scan} (h : Heavier s t) (c : Char) :
    Heavier (s.step c) (t.step c) := by
  have hop : ∀ c', (classify s.prev s.mode c).1 = .op c' →
      isOperator c' = true := fun _ => classify_op
  obtain ⟨hstack, hoperand, hweight⟩ := h.take hop
  have hsolid := h.solid.step c
  have hsolid' := h.solid'.step c
  rw [step_eq] at hsolid hsolid' ⊢
  rw [step_eq, h.prev, h.mode]
  rw [h.prev, h.mode] at hsolid'
  exact ⟨rfl, rfl, hstack, hoperand, hweight, hsolid, hsolid'⟩

/-- A text, on both sides. -/
theorem Heavier.scan {s t : Scan} (h : Heavier s t) (text : Str) :
    Heavier (scan s text) (scan t text) := by
  induction text generalizing s t with
  | nil => exact h
  | cons c rest ih => exact ih (h.step c)

/-- The heavier scan does not end with the same tokens. -/
theorem Heavier.tokens_ne {s t : Scan} (h : Heavier s t) :
    flush t.temp t.stk2 ++ t.suffixStk ≠ flush s.temp s.stk2 ++ s.suffixStk := by
  intro heq
  have hsame := congrArg Executor.weight heq
  rw [weight_append, weight_append, weight_flush h.solid.operand,
    weight_flush h.solid'.operand] at hsame
  have hweight := h.weight
  unfold Scan.weight at hweight
  omega

-- ============================================================ open brackets

/-- The scan on the right has some opening brackets more at the bottom of
its stack. -/
structure Over (n : Nat) (s t : Scan) : Prop where
  prev : t.prev = s.prev
  mode : t.mode = s.mode
  temp : t.temp = s.temp
  stk2 : t.stk2 = s.stk2
  stack : t.suffixStk = s.suffixStk ++ List.replicate n ['(']

/-- An operator stops at a bracket that lies below. -/
theorem pushOperator_over (op : Char) (stk : List Str) (n : Nat)
    (out : List Str) :
    pushOperator op (stk ++ List.replicate n ['(']) out
      = ((pushOperator op stk out).1 ++ List.replicate n ['('],
        (pushOperator op stk out).2) := by
  induction stk generalizing out with
  | nil =>
      cases n with
      | zero => rfl
      | succ n => rfl
  | cons top rest ih =>
      rw [List.cons_append, pushOperator, pushOperator]
      split
      · rfl
      split
      · rfl
      · exact ih _

/-- A closing bracket takes an opening one from the bottom where the stack
has no other. -/
theorem closeBracket_over {stk : List Str} (hstk : StackOk stk) (n : Nat)
    (temp : Str) (out : List Str) :
    closeBracket (stk ++ List.replicate n ['(']) temp out
      = ((closeBracket stk temp out).1
          ++ List.replicate (if stk.count ['('] = 0 then n - 1 else n) ['('],
        (closeBracket stk temp out).2) := by
  induction stk generalizing temp out with
  | nil =>
      cases n with
      | zero => rfl
      | succ n => rfl
  | cons top rest ih =>
      have hrest : StackOk rest :=
        fun t ht => hstk t (List.mem_cons_of_mem _ ht)
      rw [List.cons_append, closeBracket, closeBracket]
      obtain rfl | ⟨c, rfl, hop⟩ := hstk top List.mem_cons_self
      · have hopen : firstChar ['('] = '(' := rfl
        rw [if_pos hopen, if_pos hopen, List.count_cons_self,
          if_neg (Nat.succ_ne_zero _)]
      · rw [if_neg (firstChar_operator hop), if_neg (firstChar_operator hop),
          List.count_cons_of_ne (operator_ne_open hop)]
        exact ih hrest _ _

/-- One character; a closing bracket that closes nothing takes one of the
brackets away. -/
theorem Over.step {n : Nat} {s t : Scan} {before : List Part}
    {done : List Str} (h : Over (n - surplus before) s t)
    (hcounted : Counted s before done) (c : Char) :
    Over (n - surplus ((classify s.prev s.mode c).1 :: before))
      (s.step c) (t.step c) := by
  rw [step_eq, step_eq, h.prev, h.mode]
  cases (classify s.prev s.mode c).1 with
  | char d =>
      exact ⟨rfl, rfl, congrArg (· ++ [d]) h.temp, h.stk2, h.stack⟩
  | op d =>
      have hpush := pushOperator_over d s.suffixStk (n - surplus before)
        (flush s.temp s.stk2)
      rw [← h.stack] at hpush
      refine ⟨rfl, rfl, rfl, ?_, ?_⟩
      · show (pushOperator d t.suffixStk (flush t.temp t.stk2)).2 = _
        rw [h.temp, h.stk2, hpush]
        rfl
      · show (pushOperator d t.suffixStk (flush t.temp t.stk2)).1 = _
        rw [h.temp, h.stk2, hpush]
        rfl
  | opening =>
      exact ⟨rfl, rfl, h.temp, h.stk2, congrArg (['('] :: ·) h.stack⟩
  | closing =>
      have hclose := closeBracket_over hcounted.stack (n - surplus before)
        s.temp s.stk2
      rw [← h.stack, hcounted.opens] at hclose
      have hn : (if unclosed before = 0 then n - surplus before - 1
          else n - surplus before) = n - surplus (.closing :: before) := by
        rw [surplus]
        split <;> omega
      rw [hn] at hclose
      refine ⟨rfl, rfl, ?_, ?_, ?_⟩
      · show (closeBracket t.suffixStk t.temp t.stk2).2.1 = _
        rw [h.temp, h.stk2, hclose]
        rfl
      · show (closeBracket t.suffixStk t.temp t.stk2).2.2 = _
        rw [h.temp, h.stk2, hclose]
        rfl
      · show (closeBracket t.suffixStk t.temp t.stk2).1 = _
        rw [h.temp, h.stk2, hclose]
        rfl

/-- A text; what it closes too much is taken from the brackets below. -/
theorem Over.scan {n : Nat} {s t : Scan} {before : List Part}
    {done : List Str} (h : Over (n - surplus before) s t)
    (hcounted : Counted s before done) (text : Str) :
    Over (n - surplus ((parts s.prev s.mode text).reverse ++ before))
      (scan s text) (scan t text) := by
  induction text generalizing s t before done with
  | nil => exact h
  | cons c rest ih =>
      have hscan := ih (h.step hcounted c) (hcounted.step c)
      have hmode : (s.step c).mode = (classify s.prev s.mode c).2 := by
        rw [step_eq]
      rw [hmode] at hscan
      rw [parts, List.reverse_cons, List.append_assoc]
      exact hscan

-- ============================================================== what is left

theorem Scan.Solid.start (suffixStk : List Str) :
    (Scan.start suffixStk).Solid := by
  have hempty : firstChar [] ≠ '(' := by decide
  exact ⟨hempty, fun h => absurd rfl h⟩

theorem Scan.Solid.scan {s : Scan} (h : s.Solid) (text : Str) :
    (scan s text).Solid := by
  induction text generalizing s with
  | nil => exact h
  | cons c rest ih => exact ih (h.step c)

/-- The weight after a character is that after the part it is read as. -/
theorem weight_step {s : Scan} (c : Char) :
    (s.step c).weight = (s.take (classify s.prev s.mode c).1).weight := by
  rw [step_eq]
  rfl

/-- Weight does not go away. -/
theorem weight_le_scan {s : Scan} (h : s.Solid) (text : Str) :
    s.weight ≤ (scan s text).weight := by
  induction text generalizing s with
  | nil => exact Nat.le_refl _
  | cons c rest ih =>
      have hrest := ih (h.step c)
      rw [weight_step, weight_take h fun _ => classify_op] at hrest
      exact Nat.le_trans (Nat.le_add_right _ _) hrest

/-- Only brackets are read as brackets. -/
theorem classify_solid {prev : Option Char} {mode : Mode} {c : Char}
    (hc : ¬ (c = '(' ∨ c = ')')) :
    (∃ d, (classify prev mode c).1 = .char d)
      ∨ ∃ d, (classify prev mode c).1 = .op d := by
  rw [not_or] at hc
  have houter : (∃ d, (classifyOuter prev c).1 = .char d)
      ∨ ∃ d, (classifyOuter prev c).1 = .op d := by
    unfold classifyOuter
    rw [if_neg hc.1, if_neg hc.2]
    split
    · exact Or.inl ⟨c, rfl⟩
    split
    · exact Or.inl ⟨c, rfl⟩
    split
    · exact Or.inr ⟨c, rfl⟩
    · exact Or.inl ⟨c, rfl⟩
  cases mode with
  | outer => exact houter
  | untilOperator =>
      rw [classify]
      split
      · exact houter
      · exact Or.inl ⟨c, rfl⟩
  | untilClose =>
      rw [classify, if_neg hc.2]
      exact Or.inl ⟨c, rfl⟩

/-- What is no bracket has weight. -/
theorem weight_pos_of_step {s : Scan} (h : s.Solid) {c : Char}
    (hc : ¬ (c = '(' ∨ c = ')')) : 0 < (s.step c).weight := by
  rw [weight_step, weight_take h fun _ => classify_op]
  obtain ⟨d, hd⟩ | ⟨d, hd⟩ :=
    @classify_solid s.prev s.mode c hc
  · rw [hd, Part.adds, Scan.weight]
    by_cases htemp : s.temp = []
    · rw [if_pos htemp, if_pos htemp]
      omega
    · rw [if_neg htemp, if_neg htemp]
      omega
  · rw [hd]
    exact Nat.succ_pos _

/-- A text with more than brackets leaves something. -/
theorem weight_pos_of_scan {s : Scan} (h : s.Solid) {text : Str}
    (htext : ¬ OnlyBrackets text) : 0 < (scan s text).weight := by
  induction text generalizing s with
  | nil => exact absurd (fun c hc => absurd hc List.not_mem_nil) htext
  | cons c rest ih =>
      by_cases hc : c = '(' ∨ c = ')'
      · refine ih (h.step c) fun hrest => htext ?_
        exact List.forall_mem_cons.mpr ⟨hc, hrest⟩
      · exact Nat.lt_of_lt_of_le (weight_pos_of_step h hc)
          (weight_le_scan (h.step c) rest)

/-- The tokens that are left of a string which is not only brackets. -/
theorem weight_leftover {expr : Str} {tokens : List Str}
    (h : parseExpress expr [] = .ok tokens) (hexpr : ¬ OnlyBrackets expr) :
    0 < weight tokens := by
  obtain ⟨-, rfl⟩ := parseExpress_ok_iff.mp h
  have hsolid := (Scan.Solid.start []).scan expr
  have hpos := weight_pos_of_scan (Scan.Solid.start []) hexpr
  rw [weight_append, weight_flush hsolid.operand]
  unfold Scan.weight at hpos
  omega

/-- The parts of a string of brackets are brackets. -/
theorem parts_brackets {expr : Str} (h : OnlyBrackets expr)
    (prev : Option Char) :
    operatorTokens (parts prev .outer expr) = []
      ∧ ∀ before, operands before [] (parts prev .outer expr) = [] := by
  induction expr generalizing prev with
  | nil => exact ⟨rfl, fun _ => rfl⟩
  | cons c rest ih =>
      obtain ⟨hc, hrest⟩ := List.forall_mem_cons.mp h
      obtain ⟨hops, hoperands⟩ := ih hrest (some c)
      obtain rfl | rfl := hc
      · refine ⟨hops, fun before => ?_⟩
        have hread : classify prev .outer '(' = (.opening, .outer) :=
          classify_open prev
        rw [parts, hread, operands]
        exact hoperands _
      · refine ⟨hops, fun before => ?_⟩
        have hread : classify prev .outer ')' = (.closing, .outer) :=
          classify_close (by decide)
        have hflush : flush [] [] = [] := rfl
        have hnext : nextOperand before [] .closing = [] := by
          unfold nextOperand
          dsimp only
          split <;> rfl
        rw [parts, hread, operands, hflush, ite_self, hnext, hoperands]
        rfl

/-- The tokens that are left of a string of brackets. -/
theorem leftover_brackets {expr : Str} {tokens : List Str}
    (h : parseExpress expr [] = .ok tokens) (hexpr : OnlyBrackets expr) :
    tokens = List.replicate (unclosed (readParts expr).reverse) ['('] := by
  obtain ⟨hops, hoperands⟩ := parts_brackets hexpr none
  have hperm := parseExpress_perm h
  unfold readParts at hperm
  rw [hops, hoperands] at hperm
  exact List.perm_replicate.mp hperm

-- ============================================================== main result

/-- A call is the outcome of its scan. -/
theorem importExpress_shown (expr : Str) (ex : Compiler) :
    (importExpress expr ex).map shown
      = (parseExpress expr ex.suffixStk).map fun tokens =>
        (if checkExpress tokens then 0 else -1, tokens) := by
  unfold importExpress
  cases parseExpress expr ex.suffixStk with
  | error fault => rfl
  | ok tokens =>
      show Except.map shown (if checkExpress tokens then _ else _)
        = Except.ok (_, tokens)
      split <;> rfl

/-- The outcomes are the same where the scans are. -/
theorem unaffected_iff_parse (ex : Compiler) (expr : Str) :
    Unaffected ex expr
      ↔ parseExpress expr ex.suffixStk = parseExpress expr [] := by
  have hfresh : Compiler.fresh.suffixStk = [] := rfl
  rw [Unaffected, importExpress_shown, importExpress_shown, hfresh]
  refine ⟨fun h => ?_, fun h => by rw [h]⟩
  cases hleft : parseExpress expr ex.suffixStk with
  | error fault =>
      cases hright : parseExpress expr [] with
      | error fault' =>
          rw [hleft, hright] at h
          cases h
          rfl
      | ok tokens' =>
          rw [hleft, hright] at h
          cases h
  | ok tokens =>
      cases hright : parseExpress expr [] with
      | error fault' =>
          rw [hleft, hright] at h
          cases h
      | ok tokens' =>
          rw [hleft, hright] at h
          exact congrArg Except.ok (congrArg Prod.snd (Except.ok.inj h))

/-- The outcome of a scan that ends outside the inner loops. -/
theorem parseExpress_of_mode {expr : Str} {stk : List Str}
    (h : (scan (.start stk) expr).mode = .outer) :
    parseExpress expr stk
      = .ok (flush (scan (.start stk) expr).temp (scan (.start stk) expr).stk2
        ++ (scan (.start stk) expr).suffixStk) :=
  parseExpress_ok_iff.mpr ⟨h, rfl⟩

/-- Leftover brackets are gone at the end where enough closing brackets
close nothing. -/
theorem parse_brackets_iff (n : Nat) {expr : Str} (h : SignsEnd expr) :
    parseExpress expr (List.replicate n ['(']) = parseExpress expr []
      ↔ n ≤ surplus (readParts expr).reverse := by
  have hover : Over (n - surplus []) (.start []) (.start
      (List.replicate n ['('])) := ⟨rfl, rfl, rfl, rfl, rfl⟩
  have hend := hover.scan .start expr
  have hparts : parts (Scan.start []).prev (Scan.start []).mode expr
      = readParts expr := rfl
  rw [hparts, List.append_nil] at hend
  have hmode : (scan (.start []) expr).mode = .outer :=
    (scan_mode _ expr).trans h
  rw [parseExpress_of_mode hmode, parseExpress_of_mode (hend.mode.trans hmode),
    hend.temp, hend.stk2, hend.stack, Except.ok.injEq, ← List.append_assoc]
  rw [List.append_right_eq_self, List.replicate_eq_nil_iff]
  omega

/-- With other leftovers the next scan ends with other tokens. -/
theorem parse_heavier {stk : List Str} (hstk : 0 < weight stk) {expr : Str}
    (h : SignsEnd expr) : parseExpress expr stk ≠ parseExpress expr [] := by
  have hstart : Heavier (.start []) (.start stk) :=
    ⟨rfl, rfl, ⟨stk, rfl⟩, fun _ => rfl, hstk, .start [], .start stk⟩
  have hend := hstart.scan expr
  have hmode : (scan (.start []) expr).mode = .outer :=
    (scan_mode _ expr).trans h
  rw [parseExpress_of_mode hmode, parseExpress_of_mode (hend.mode.trans hmode)]
  exact fun heq => hend.tokens_ne (Except.ok.inj heq)

/-- A scan that does not end does so with any stack. -/
theorem parse_undefined {expr : Str} (h : ¬ SignsEnd expr)
    (stk : List Str) : parseExpress expr stk = .error .undefined := by
  have hmode : (scan (.start stk) expr).mode ≠ .outer := by
    rw [scan_mode]
    exact h
  unfold parseExpress
  dsimp only
  split
  · rename_i houter
    exact absurd houter hmode
  · rfl
  · rfl

/-- After a rejected expression the next one comes out as on a new executor
exactly where the scan of the next one leaves the string anyway, or the
rejected one was nothing but brackets and the next one closes as many as
it left open. -/
theorem unaffected_iff {rejected expr : Str} {ex : Compiler}
    (h : importExpress rejected .fresh = .ok (-1, ex)) :
    Unaffected ex expr ↔ ¬ SignsClose expr
      ∨ OnlyBrackets rejected
        ∧ unclosed (readParts rejected).reverse
          ≤ surplus (readParts expr).reverse := by
  have hshown := importExpress_shown rejected .fresh
  rw [h] at hshown
  have hparse : parseExpress rejected [] = .ok ex.suffixStk := by
    cases hleft : parseExpress rejected Compiler.fresh.suffixStk with
    | error fault =>
        rw [hleft] at hshown
        cases hshown
    | ok tokens =>
        rw [hleft] at hshown
        have hsame := congrArg Prod.snd (Except.ok.inj hshown)
        exact hleft.trans (congrArg Except.ok hsame.symm)
  rw [unaffected_iff_parse, ← signsEnd_iff]
  by_cases hsigns : SignsEnd expr
  · rw [iff_false_intro (not_not.mpr hsigns), false_or]
    by_cases hbrackets : OnlyBrackets rejected
    · rw [leftover_brackets hparse hbrackets, parse_brackets_iff _ hsigns]
      exact (and_iff_right hbrackets).symm
    · refine ⟨fun heq => ?_, fun hboth => absurd hboth.1 hbrackets⟩
      exact absurd heq (parse_heavier (weight_leftover hparse hbrackets) hsigns)
  · rw [parse_undefined hsigns, parse_undefined hsigns]
    exact iff_of_true rfl (Or.inl hsigns)

/-- An opening bracket alone is rejected, and the next closing one takes it
away. -/
theorem unaffected_open :
    Unaffected ⟨[['(']], []⟩ ['a', ')'] := by
  have hrejected : importExpress ['('] .fresh = .ok (-1, ⟨[['(']], []⟩) := rfl
  refine (unaffected_iff hrejected).mpr (Or.inr ⟨?_, ?_⟩)
  · exact fun c hc => Or.inl (List.mem_singleton.mp hc)
  · decide

/-- After a lone operator a column is rejected, which a new executor
accepts. -/
theorem affected_operator :
    ¬ ∀ (rejected expr : Str) (ex : Compiler),
      importExpress rejected .fresh = .ok (-1, ex) → Unaffected ex expr := by
  intro h
  have hsame := h ['+'] ['a'] ⟨[['+']], []⟩ rfl
  have hcode : (-1 : Int) = 0 := congrArg Prod.fst (Except.ok.inj hsame)
  exact absurd hcode (by decide)

end PrimiHub.Executor
