/-
What `importExpress` returns, without its stacks.

`Counted` ties the state of the scan to the parts read so far: what has
been put out and what waits on the stack are, in some order, the operands
that have ended, the operators and the open brackets, and the stack tells
for each open bracket whether an operator waits in it. One part keeps it
(`Counted.take`), so it holds at the end, and `checkExpress` does not
depend on the order of the tokens.
-/
import Mathlib.Data.List.Perm.Basic
import PrimiHub.Executor.Grammar
import PrimiHub.Executor.Proofs.Parse

namespace PrimiHub.Executor

-- ================================================================== parts

/-- The scan after one part. -/
def Scan.take (s : Scan) : Part → Scan
  | .char c => { s with temp := s.temp ++ [c] }
  | .op c =>
      let r := pushOperator c s.suffixStk (flush s.temp s.stk2)
      { s with temp := [], stk2 := r.2, suffixStk := r.1 }
  | .opening => { s with suffixStk := ['('] :: s.suffixStk }
  | .closing =>
      let r := closeBracket s.suffixStk s.temp s.stk2
      { s with temp := r.2.1, stk2 := r.2.2, suffixStk := r.1 }

/-- The outer loop, as a part. -/
theorem body_eq (s : Scan) (c : Char) (hmode : s.mode = .outer) :
    s.body c = { s.take (classifyOuter s.prev c).1 with
      mode := (classifyOuter s.prev c).2 } := by
  unfold Scan.body classifyOuter
  by_cases hstart : c = '-' ∧ s.prev = none
  · simp only [if_pos hstart, Scan.take]
  by_cases hopen : c = '-' ∧ s.prev = some '('
  · simp only [if_neg hstart, if_pos hopen, Scan.take]
  simp only [if_neg hstart, if_neg hopen, Scan.token]
  by_cases hop : isOperator c = true
  · simp only [if_pos hop, Scan.take, hmode]
  by_cases ho : c = '('
  · subst ho
    simp only [if_neg hop, if_pos, Scan.take, hmode]
  by_cases hc : c = ')'
  · simp only [if_neg hop, if_neg ho, if_pos hc, Scan.take, hmode]
  · simp only [if_neg hop, if_neg ho, if_neg hc, Scan.take, hmode]

/-- One character, as a part. -/
theorem step_eq (s : Scan) (c : Char) :
    s.step c = { s.take (classify s.prev s.mode c).1 with
      prev := some c, mode := (classify s.prev s.mode c).2 } := by
  unfold Scan.step Scan.read
  cases hmode : s.mode with
  | outer =>
      rw [body_eq s c hmode]
      rfl
  | untilOperator =>
      unfold classify
      by_cases hop : isOperator c = true
      · simp only [if_pos hop]
        rw [body_eq { s with mode := .outer } c rfl]
        cases (classifyOuter s.prev c).1 <;> rfl
      · simp only [if_neg hop, Scan.append, Scan.take, hmode]
  | untilClose =>
      unfold classify
      by_cases hc : c = ')'
      · simp only [if_pos hc]
        rw [body_eq { s with mode := .outer } c rfl]
        cases (classifyOuter s.prev c).1 <;> rfl
      · simp only [if_neg hc, Scan.append, Scan.take, hmode]

-- ================================================================= stacks

/-- The stack holds opening brackets and operators. -/
def StackOk (stk : List Str) : Prop :=
  ∀ t ∈ stk, t = ['('] ∨ ∃ c, t = [c] ∧ isOperator c = true

/-- Whether an operator waits in the bracket `depth` levels out. -/
def waitsAt : Nat → List Str → Bool
  | _, [] => false
  | 0, t :: _ => t != ['(']
  | depth + 1, t :: rest =>
      if t = ['('] then waitsAt depth rest else waitsAt (depth + 1) rest

/-- An operator on the stack does not pass for a bracket. -/
theorem firstChar_operator {c : Char} (h : isOperator c = true) :
    firstChar [c] ≠ '(' := by
  intro hc
  have hc' : c = '(' := hc
  rw [hc'] at h
  cases h

theorem operator_ne_open {c : Char} (h : isOperator c = true) :
    ([c] : Str) ≠ ['('] := by
  intro hc
  exact firstChar_operator h (congrArg firstChar hc)

/-- What an operator does to stack and output. -/
structure Pushed (op : Char) (stk stk2 : List Str)
    (r : List Str × List Str) : Prop where
  stack : StackOk r.1
  opens : r.1.count ['('] = stk.count ['(']
  waits : waitsAt 0 r.1 = true
  outer : ∀ depth, waitsAt (depth + 1) r.1 = waitsAt (depth + 1) stk
  output : (r.2 ++ r.1).Perm ([op] :: (stk2 ++ stk))

/-- The operator is pushed on the stack as it is. -/
theorem Pushed.here {op : Char} (hop : isOperator op = true) {stk : List Str}
    (hstk : StackOk stk) (stk2 : List Str) :
    Pushed op stk stk2 ([op] :: stk, stk2) where
  stack := by
    intro t ht
    obtain _ | ⟨_, ht⟩ := ht
    · exact Or.inr ⟨op, rfl, hop⟩
    · exact hstk t ht
  opens := List.count_cons_of_ne (operator_ne_open hop)
  waits := bne_iff_ne.mpr (operator_ne_open hop)
  outer := by
    intro depth
    show waitsAt (depth + 1) ([op] :: stk) = waitsAt (depth + 1) stk
    rw [waitsAt, if_neg (operator_ne_open hop)]
  output := List.perm_middle

/-- The top of the stack has moved to the output before. -/
theorem Pushed.after {op : Char} {top : Str} {rest stk2 : List Str}
    {r : List Str × List Str} (htop : top ≠ ['('])
    (h : Pushed op rest (stk2 ++ [top]) r) :
    Pushed op (top :: rest) stk2 r where
  stack := h.stack
  opens := h.opens.trans (List.count_cons_of_ne htop).symm
  waits := h.waits
  outer := by
    intro depth
    rw [h.outer, waitsAt, if_neg htop]
  output := by
    have houtput := h.output
    rwa [List.append_assoc, List.singleton_append] at houtput

/-- What the turn of an operator does to the stack and the output. -/
theorem pushOperator_spec {op : Char} (hop : isOperator op = true)
    {stk : List Str} (hstk : StackOk stk) (stk2 : List Str) :
    Pushed op stk stk2 (pushOperator op stk stk2) := by
  induction stk generalizing stk2 with
  | nil => exact Pushed.here hop hstk stk2
  | cons top rest ih =>
      by_cases hopen : firstChar top = '('
      · rw [pushOperator, if_pos hopen]
        exact Pushed.here hop hstk stk2
      by_cases hprio : priority op > priority (firstChar top)
      · rw [pushOperator, if_neg hopen, if_pos hprio]
        exact Pushed.here hop hstk stk2
      · rw [pushOperator, if_neg hopen, if_neg hprio]
        apply Pushed.after
        · intro h
          exact hopen (h ▸ rfl)
        · exact ih (fun t ht => hstk t (List.mem_cons_of_mem _ ht)) _

/-- What a closing bracket does: it ends the operand if an operator waits
in its bracket, moves the operators of the bracket to the output and
drops the opening one. -/
structure Closed (stk : List Str) (temp : Str) (stk2 : List Str)
    (r : List Str × Str × List Str) : Prop where
  stack : StackOk r.1
  operand : r.2.1 = if waitsAt 0 stk then [] else temp
  opens : r.1.count ['('] = stk.count ['('] - 1
  outer : ∀ depth, waitsAt depth r.1 = waitsAt (depth + 1) stk
  output : (r.2.2 ++ r.1
      ++ List.replicate (min 1 (stk.count ['('])) ['(']).Perm
    (stk2 ++ (if waitsAt 0 stk then flush temp [] else []) ++ stk)

/-- What is put out comes behind what was put out before. -/
theorem flush_eq (temp : Str) (stk2 : List Str) :
    flush temp stk2 = stk2 ++ flush temp [] := by
  unfold flush
  split <;> simp

/-- What a closing bracket does to the stack and the output. -/
theorem closeBracket_spec {stk : List Str} (hstk : StackOk stk) (temp : Str)
    (stk2 : List Str) :
    Closed stk temp stk2 (closeBracket stk temp stk2) := by
  induction stk generalizing temp stk2 with
  | nil =>
      refine ⟨hstk, rfl, rfl, fun _ => rfl, ?_⟩
      simp [closeBracket, waitsAt]
  | cons top rest ih =>
      have hrest : StackOk rest :=
        fun t ht => hstk t (List.mem_cons_of_mem _ ht)
      obtain htop | ⟨c, hc, hop⟩ := hstk top (List.mem_cons_self ..)
      · subst htop
        rw [closeBracket, if_pos (show firstChar ['('] = '(' from rfl)]
        refine ⟨hrest, rfl, ?_, ?_, ?_⟩
        · rw [List.count_cons_self]
          rfl
        · intro depth
          rw [waitsAt, if_pos rfl]
        · rw [List.count_cons_self, Nat.min_eq_left (Nat.le_add_left 1 _)]
          show (stk2 ++ rest ++ [['(']]).Perm (stk2 ++ [] ++ ['('] :: rest)
          rw [List.append_nil, List.append_assoc]
          exact (List.perm_append_singleton _ _).append_left stk2
      · subst hc
        have hne := operator_ne_open hop
        have hwaits : waitsAt 0 ([c] :: rest) = true := bne_iff_ne.mpr hne
        have h := ih hrest [] (flush temp stk2 ++ [[c]])
        rw [closeBracket, if_neg (firstChar_operator hop)]
        refine ⟨h.stack, ?_, ?_, ?_, ?_⟩
        · rw [h.operand, hwaits]
          split <;> rfl
        · rw [h.opens, List.count_cons_of_ne hne]
        · intro depth
          rw [h.outer, waitsAt, if_neg hne]
        · have houtput := h.output
          rw [hwaits, List.count_cons_of_ne hne]
          refine houtput.trans ?_
          rw [flush_eq]
          simp

-- ================================================================== parts

/-- State of the scan and parts so far: `done` are the operands that have
ended. -/
structure Counted (s : Scan) (before : List Part) (done : List Str) :
    Prop where
  stack : StackOk s.suffixStk
  opens : s.suffixStk.count ['('] = unclosed before
  waits : ∀ depth, waitsAt depth s.suffixStk = operatorAt depth before
  output : (s.stk2 ++ s.suffixStk).Perm (done ++ operatorTokens before
    ++ List.replicate (unclosed before) ['('])

/-- Nothing has been read. -/
theorem Counted.start : Counted (.start []) [] [] where
  stack := fun t ht => absurd ht List.not_mem_nil
  opens := rfl
  waits := by
    intro depth
    cases depth <;> rfl
  output := .refl _

/-- Only operators are read as operators. -/
theorem classify_op {prev : Option Char} {mode : Mode} {c c' : Char}
    (h : (classify prev mode c).1 = .op c') : isOperator c' = true := by
  have houter : (classifyOuter prev c).1 = .op c' → isOperator c' = true := by
    intro h
    unfold classifyOuter at h
    split at h
    · cases h
    split at h
    · cases h
    split at h
    · next hop =>
      cases h
      exact hop
    split at h
    · cases h
    split at h <;> cases h
  cases mode with
  | outer => exact houter h
  | untilOperator =>
      by_cases hop : isOperator c = true
      · rw [classify, if_pos hop] at h
        exact houter h
      · rw [classify, if_neg hop] at h
        cases h
  | untilClose =>
      by_cases hc : c = ')'
      · rw [classify, if_pos hc] at h
        exact houter h
      · rw [classify, if_neg hc] at h
        cases h

/-- The operand in `temp` after a part. -/
theorem take_temp {s : Scan} {before : List Part} {done : List Str}
    (h : Counted s before done) (p : Part) :
    (s.take p).temp = nextOperand before s.temp p := by
  cases p with
  | char c => rfl
  | op c => rfl
  | opening => rfl
  | closing =>
      show (closeBracket s.suffixStk s.temp s.stk2).2.1 = _
      rw [(closeBracket_spec h.stack s.temp s.stk2).operand, h.waits]
      rfl

/-- One part. -/
theorem Counted.take {s : Scan} {before : List Part} {done : List Str}
    (h : Counted s before done) {p : Part}
    (hp : ∀ c, p = .op c → isOperator c = true) :
    Counted (s.take p) (p :: before)
      (done ++ if endsOperand before p then flush s.temp [] else []) := by
  cases p with
  | char c =>
      refine ⟨h.stack, h.opens, ?_, ?_⟩
      · intro depth
        show waitsAt depth s.suffixStk = _
        rw [h.waits]
        cases depth <;> rfl
      · show (s.stk2 ++ s.suffixStk).Perm (done ++ [] ++ operatorTokens before
          ++ List.replicate (unclosed before) ['('])
        rw [List.append_nil]
        exact h.output
  | op c =>
      -- the operator waits now, and those that bind as tightly are put out
      have hpush := pushOperator_spec (hp c rfl) h.stack (flush s.temp s.stk2)
      refine ⟨hpush.stack, hpush.opens.trans h.opens, ?_, ?_⟩
      · intro depth
        cases depth with
        | zero => exact hpush.waits
        | succ depth => exact (hpush.outer depth).trans (h.waits _)
      · have hout := h.output
        have hout' := hpush.output
        show ((pushOperator c s.suffixStk (flush s.temp s.stk2)).2
            ++ (pushOperator c s.suffixStk (flush s.temp s.stk2)).1).Perm
          (done ++ flush s.temp [] ++ ([c] :: operatorTokens before)
            ++ List.replicate (unclosed before) ['('])
        rw [flush_eq] at hout' ⊢
        rw [List.perm_iff_count] at hout hout' ⊢
        intro t
        have ht := hout t
        have ht' := hout' t
        simp only [List.count_append, List.count_cons] at ht ht' ⊢
        omega
  | opening =>
      refine ⟨?_, ?_, ?_, ?_⟩
      · intro t ht
        obtain _ | ⟨_, ht⟩ := ht
        · exact Or.inl rfl
        · exact h.stack t ht
      · show (['('] :: s.suffixStk).count ['('] = unclosed before + 1
        rw [List.count_cons_self, h.opens]
      · intro depth
        cases depth with
        | zero => rfl
        | succ depth => exact h.waits depth
      · have hout := h.output
        show (s.stk2 ++ ['('] :: s.suffixStk).Perm
          (done ++ [] ++ operatorTokens before
            ++ ['('] :: List.replicate (unclosed before) ['('])
        rw [List.perm_iff_count] at hout ⊢
        intro t
        have ht := hout t
        simp only [List.count_append, List.count_cons, List.count_nil] at ht ⊢
        omega
  | closing =>
      -- the operand is put out with the last bracket only if an operator waits
      -- for it
      have hclose := closeBracket_spec h.stack s.temp s.stk2
      refine ⟨hclose.stack, ?_, ?_, ?_⟩
      · exact hclose.opens.trans (by rw [h.opens]; rfl)
      · intro depth
        refine (hclose.outer depth).trans ((h.waits _).trans ?_)
        cases depth <;> rfl
      · have hout := h.output
        have hout' := hclose.output
        rw [h.waits, h.opens] at hout'
        show ((closeBracket s.suffixStk s.temp s.stk2).2.2
            ++ (closeBracket s.suffixStk s.temp s.stk2).1).Perm
          (done ++ (if operatorAt 0 before then flush s.temp [] else [])
            ++ operatorTokens before
            ++ List.replicate (unclosed before - 1) ['('])
        rw [List.perm_iff_count] at hout hout' ⊢
        intro t
        have ht := hout t
        have ht' := hout' t
        simp only [List.count_append, List.count_replicate] at ht ht' ⊢
        cases hw : operatorAt 0 before <;>
          by_cases hopen : (['('] : Str) == t <;>
          simp only [hw, hopen, if_true, Bool.false_eq_true, if_false,
            List.count_nil] at ht ht' ⊢ <;>
          omega

-- =================================================================== scan

/-- One character. -/
theorem Counted.step {s : Scan} {before : List Part} {done : List Str}
    (h : Counted s before done) (c : Char) :
    Counted (s.step c) ((classify s.prev s.mode c).1 :: before)
      (done ++ if endsOperand before (classify s.prev s.mode c).1 then
        flush s.temp [] else []) := by
  have hp : ∀ c', (classify s.prev s.mode c).1 = .op c' →
      isOperator c' = true := fun _ => classify_op
  have htake := h.take hp
  rw [step_eq]
  exact ⟨htake.stack, htake.opens, htake.waits, htake.output⟩

/-- The scan of a text: it is counted as its parts are, and the operand
in `temp` is the last one. -/
theorem scan_counted {s : Scan} {before : List Part} {done : List Str}
    (h : Counted s before done) (text : Str) :
    (scan s text).mode = modeAfter s.prev s.mode text
      ∧ ∃ done', Counted (scan s text)
          ((parts s.prev s.mode text).reverse ++ before) done'
        ∧ done' ++ flush (scan s text).temp []
          = done ++ operands before s.temp (parts s.prev s.mode text) := by
  induction text generalizing s before done with
  | nil => exact ⟨rfl, done, h, rfl⟩
  | cons c rest ih =>
      have hstep := h.step c
      have htemp : (s.step c).temp
          = nextOperand before s.temp (classify s.prev s.mode c).1 := by
        rw [step_eq]
        exact take_temp h _
      have hprev : (s.step c).prev = some c := rfl
      have hmode : (s.step c).mode = (classify s.prev s.mode c).2 := by
        rw [step_eq]
      obtain ⟨hend, done', hcounted, hdone⟩ := ih hstep
      rw [hprev, hmode] at hend hcounted hdone
      refine ⟨hend, done', ?_, ?_⟩
      · rw [parts, List.reverse_cons, List.append_assoc]
        exact hcounted
      · rw [scan_cons, hdone, htemp, List.append_assoc]
        rfl

/-- The operators of two pieces. -/
theorem operatorTokens_append (ps qs : List Part) :
    operatorTokens (ps ++ qs) = operatorTokens ps ++ operatorTokens qs := by
  induction ps with
  | nil => rfl
  | cons p ps ih => cases p <;> simp [operatorTokens, ih]

/-- The order of the parts does not matter for how many operators there are.
-/
theorem operatorTokens_reverse (ps : List Part) :
    (operatorTokens ps.reverse).Perm (operatorTokens ps) := by
  induction ps with
  | nil => exact .refl _
  | cons p ps ih =>
      rw [List.reverse_cons, operatorTokens_append]
      refine (ih.append_right _).trans (List.perm_append_comm.trans ?_)
      cases p <;> exact .refl _

/-- The tokens of a string whose signs find their end, in some order. -/
theorem parseExpress_perm {expr : Str} {tokens : List Str}
    (h : parseExpress expr [] = .ok tokens) :
    tokens.Perm (operands [] [] (readParts expr)
      ++ operatorTokens (readParts expr)
      ++ List.replicate (unclosed (readParts expr).reverse) ['(']) := by
  obtain ⟨-, rfl⟩ := parseExpress_ok_iff.mp h
  obtain ⟨-, done, hcounted, hdone⟩ := scan_counted .start expr
  have hparts : parts (Scan.start []).prev (Scan.start []).mode expr
      = readParts expr := rfl
  rw [hparts, List.append_nil] at hcounted
  rw [hparts] at hdone
  have hdone' : done ++ flush (scan (.start []) expr).temp []
      = operands [] [] (readParts expr) := hdone
  have hops := operatorTokens_reverse (readParts expr)
  have hout := hcounted.output
  rw [← hdone', flush_eq]
  rw [List.perm_iff_count] at hout hops ⊢
  intro t
  have ht := hout t
  have ht' := hops t
  simp only [List.count_append] at ht ⊢
  omega

-- ================================================================== check

/-- The check counts tokens, whatever their order. -/
theorem checkExpress_perm {a b : List Str} (h : a.Perm b) :
    checkExpress a = checkExpress b := by
  unfold checkExpress
  rw [h.countP_eq, h.length_eq, h.any_eq, h.any_eq]

/-- The operators of the parts are operator tokens, and have no bracket
in them. -/
theorem operatorTokens_spec {ps : List Part}
    (h : ∀ c, Part.op c ∈ ps → isOperator c = true) :
    ∀ t ∈ operatorTokens ps, ∃ c, t = [c] ∧ isOperator c = true := by
  induction ps with
  | nil => exact fun t ht => absurd ht List.not_mem_nil
  | cons p ps ih =>
      have hps := ih fun c hc => h c (List.mem_cons_of_mem _ hc)
      cases p with
      | op c =>
          intro t ht
          obtain _ | ⟨_, ht⟩ := ht
          · exact ⟨c, rfl, h c List.mem_cons_self⟩
          · exact hps t ht
      | char c => exact hps
      | opening => exact hps
      | closing => exact hps

theorem isOperatorToken_single {c : Char} (h : isOperator c = true) :
    isOperatorToken [c] = true := by
  simpa [isOperator, isOperatorToken] using h

/-- The parts of a text read only operators as operators. -/
theorem parts_op {prev : Option Char} {mode : Mode} {text : Str} {c : Char}
    (h : Part.op c ∈ parts prev mode text) : isOperator c = true := by
  induction text generalizing prev mode with
  | nil => cases h
  | cons x rest ih =>
      rw [parts] at h
      obtain h | h := List.mem_cons.mp h
      · exact classify_op h.symm
      · exact ih h

/-- The characters that are read as operands. -/
def chars : List Part → Str
  | [] => []
  | .char c :: rest => c :: chars rest
  | _ :: rest => chars rest

theorem mem_chars {ps : List Part} {c : Char} :
    c ∈ chars ps ↔ Part.char c ∈ ps := by
  induction ps with
  | nil => simp [chars]
  | cons p ps ih => cases p <;> simp [chars, ih]

/-- What is put out is the operand as it was read. -/
theorem flatten_flush (operand : Str) :
    (flush operand []).flatten = operand := by
  unfold flush
  split
  · next h => rw [h]; rfl
  · simp

/-- No character of an operand is lost. -/
theorem flatten_operands (before : List Part) (operand : Str)
    (ps : List Part) :
    (operands before operand ps).flatten = operand ++ chars ps := by
  induction ps generalizing before operand with
  | nil => rw [operands, flatten_flush, chars, List.append_nil]
  | cons p ps ih =>
      rw [operands, List.flatten_append, ih]
      cases hends : endsOperand before p with
      | true =>
          rw [if_pos rfl, flatten_flush]
          cases p with
          | char c => cases hends
          | op c => simp [nextOperand, hends, chars]
          | opening => cases hends
          | closing => simp [nextOperand, hends, chars]
      | false =>
          cases p with
          | char c => simp [nextOperand, chars]
          | op c => cases hends
          | opening => simp [nextOperand, hends, chars]
          | closing => simp [nextOperand, hends, chars]

/-- No operand has a bracket in it if no part has taken one. -/
theorem noBracketTaken_iff (ps : List Part) :
    NoBracketTaken ps ↔ ∀ t ∈ operands [] [] ps, '(' ∉ t ∧ ')' ∉ t := by
  have hflat : (operands [] [] ps).flatten = chars ps :=
    flatten_operands [] [] ps
  have hmem : ∀ c, Part.char c ∈ ps ↔ ∃ t ∈ operands [] [] ps, c ∈ t := by
    intro c
    rw [← mem_chars, ← hflat, List.mem_flatten]
  constructor
  · intro h t ht
    constructor
    · intro hc
      exact (h _ ((hmem _).mpr ⟨t, ht, hc⟩)).1 rfl
    · intro hc
      exact (h _ ((hmem _).mpr ⟨t, ht, hc⟩)).2 rfl
  · intro h c hc
    obtain ⟨t, ht, hct⟩ := (hmem c).mp hc
    constructor
    · rintro rfl
      exact (h t ht).1 hct
    · rintro rfl
      exact (h t ht).2 hct

/-- No bracket is an operator. -/
theorem not_mem_operator {c : Char} (h : isOperator c = true) :
    '(' ∉ [c] ∧ ')' ∉ [c] := by
  constructor
  · intro hc
    rw [← List.mem_singleton.mp hc] at h
    cases h
  · intro hc
    rw [← List.mem_singleton.mp hc] at h
    cases h

/-- What `checkExpress` accepts. -/
theorem checkExpress_tokens_iff {os ops : List Str} {n : Nat}
    (hops : ∀ t ∈ ops, ∃ c, t = [c] ∧ isOperator c = true) :
    checkExpress (os ++ ops ++ List.replicate n ['(']) = true
      ↔ n = 0 ∧ (∀ t ∈ os, '(' ∉ t ∧ ')' ∉ t)
        ∧ Balance (os.countP fun t => !isOperatorToken t)
          (os.countP isOperatorToken + ops.length) := by
  cases n with
  | succ n =>
      constructor
      · intro h
        exfalso
        simp [checkExpress, List.replicate_succ] at h
      · intro h
        cases h.1
  | zero =>
      have hcount : ops.countP isOperatorToken = ops.length := by
        rw [List.countP_eq_length]
        intro t ht
        obtain ⟨c, rfl, hc⟩ := hops t ht
        exact isOperatorToken_single hc
      have hlen : os.length = os.countP isOperatorToken
          + os.countP fun t => !isOperatorToken t := by
        rw [List.length_eq_countP_add_countP (p := isOperatorToken)]
        simp
      have hbalance : (os.length + ops.length
            - (os.countP isOperatorToken + ops.length) % 2 ^ 16
          = (os.countP isOperatorToken + ops.length) % 2 ^ 16 + 1)
          ↔ Balance (os.countP fun t => !isOperatorToken t)
            (os.countP isOperatorToken + ops.length) := by
        unfold Balance
        rw [hlen]
        omega
      -- the operators have no bracket in them, and a bracket is no operand
      have hclean : (∀ t ∈ os ++ ops, '(' ∉ t ∧ ')' ∉ t)
          ↔ ∀ t ∈ os, '(' ∉ t ∧ ')' ∉ t := by
        constructor
        · intro h t ht
          exact h t (List.mem_append_left _ ht)
        · intro h t ht
          obtain ht | ht := List.mem_append.mp ht
          · exact h t ht
          · obtain ⟨c, rfl, hc⟩ := hops t ht
            exact not_mem_operator hc
      have hbracket : (∀ t ∈ os ++ ops, '(' ∉ t ∧ ')' ∉ t) →
          ∀ t ∈ os ++ ops, t ≠ ['('] ∧ t ≠ [')'] := by
        intro h t ht
        constructor
        · rintro rfl
          exact (h _ ht).1 List.mem_cons_self
        · rintro rfl
          exact (h _ ht).2 List.mem_cons_self
      rw [List.replicate_zero, List.append_nil, ← hbalance, ← hclean]
      unfold checkExpress
      simp only [List.countP_append, hcount, List.length_append,
        Bool.and_eq_true, Bool.not_eq_true', List.any_eq_false,
        Bool.or_eq_true, beq_iff_eq, not_or, List.contains_iff_mem]
      constructor
      · intro hboth
        obtain ⟨⟨-, hbal⟩, hno⟩ := hboth
        exact ⟨trivial, hno, hbal⟩
      · intro hboth
        obtain ⟨-, hno, hbal⟩ := hboth
        exact ⟨⟨hbracket hno, hbal⟩, hno⟩

-- ================================================================= import

/-- What `parseExpress` needs. -/
theorem parseExpress_isOk (expr : Str) :
    (∃ tokens, parseExpress expr [] = .ok tokens) ↔ SignsEnd expr := by
  have hmode : (scan (.start []) expr).mode = modeAfter none .outer expr :=
    (scan_counted .start expr).1
  unfold SignsEnd
  rw [← hmode]
  constructor
  · intro hc
    obtain ⟨tokens, h⟩ := hc
    exact (parseExpress_ok_iff.mp h).1
  · intro h
    exact ⟨_, parseExpress_ok_iff.mpr ⟨h, rfl⟩⟩

/-- The check of the tokens of a string. -/
theorem check_iff {expr : Str} {tokens : List Str}
    (h : parseExpress expr [] = .ok tokens) :
    checkExpress tokens = true ↔ Balanced expr := by
  have hops := operatorTokens_spec fun c (hc : Part.op c ∈ readParts expr) =>
    parts_op hc
  rw [checkExpress_perm (parseExpress_perm h), checkExpress_tokens_iff hops,
    ← noBracketTaken_iff]
  constructor
  · intro hboth
    obtain ⟨hclosed, huntaken, hbalance⟩ := hboth
    exact ⟨hclosed, huntaken, hbalance⟩
  · intro hbal
    exact ⟨hbal.closed, hbal.untaken, hbal.balance⟩

/-- What `importExpress` does: it returns 0 or -1, by the balance of the
string, if every sign finds its end. -/
theorem importExpress_of_parse {expr : Str} {tokens : List Str}
    (h : parseExpress expr [] = .ok tokens) :
    importExpress expr .fresh
      = if checkExpress tokens then .ok (0, ⟨tokens, expr⟩)
        else .ok (-1, { Compiler.fresh with suffixStk := tokens }) := by
  have h' : parseExpress expr Compiler.fresh.suffixStk = .ok tokens := h
  unfold importExpress
  rw [h']
  rfl

/-- What is accepted: the signs end and the count comes out. -/
theorem import_zero_iff (expr : Str) :
    (∃ ex, importExpress expr .fresh = .ok (0, ex))
      ↔ SignsEnd expr ∧ Balanced expr := by
  rw [← parseExpress_isOk]
  constructor
  · intro hc
    obtain ⟨ex, h⟩ := hc
    obtain ⟨tokens, hparse, hcheck, -⟩ := importExpress_ok_iff.mp h
    exact ⟨⟨tokens, hparse⟩, (check_iff hparse).mp hcheck⟩
  · intro hc
    obtain ⟨⟨tokens, hparse⟩, hbal⟩ := hc
    rw [importExpress_of_parse hparse, (check_iff hparse).mpr hbal]
    exact ⟨_, rfl⟩

/-- What is rejected: the signs end and the count does not come out. -/
theorem import_minus_iff (expr : Str) :
    (∃ ex, importExpress expr .fresh = .ok (-1, ex))
      ↔ SignsEnd expr ∧ ¬ Balanced expr := by
  rw [← parseExpress_isOk]
  cases hparse : parseExpress expr [] with
  | error fault =>
      have h' : parseExpress expr Compiler.fresh.suffixStk = .error fault :=
        hparse
      constructor
      · intro hc
        obtain ⟨ex, h⟩ := hc
        rw [importExpress, h'] at h
        cases h
      · intro hc
        obtain ⟨⟨tokens, h⟩, -⟩ := hc
        cases h
  | ok tokens =>
      rw [importExpress_of_parse hparse, ← check_iff hparse]
      cases checkExpress tokens with
      | true =>
          constructor
          · intro hc
            obtain ⟨ex, h⟩ := hc
            cases h
          · intro hc
            obtain ⟨-, h⟩ := hc
            exact absurd rfl h
      | false =>
          constructor
          · intro _
            exact ⟨⟨tokens, rfl⟩, Bool.false_ne_true⟩
          · intro _
            exact ⟨_, rfl⟩

end PrimiHub.Executor
