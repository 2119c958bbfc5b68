/-
What the scanner of `parseExpress` makes of the text of a well formed
expression.

The scan of a subexpression appends its postfix form to what has been
put out, except that a last operand may still be in `temp` and that the
operators still waiting on the stack are those whose right end is the
right end of the subexpression. `Scanned` says this; it composes over
the syntax tree because each operator finds on the stack exactly the
operators of its left operand, which bind at least as tightly, above
one that binds less tightly.

A minus sign that the scanner swallows together with anything but a
number leaves a token that is no operand of any postfix form (`Spoiled`).
Nothing that follows removes such a token (`Bad.scan`), so where the
signs of an expression are not placed as `PlainSigns` and `LeftSigns`
ask, the compiled form is wrong, or the scan has run past the end.
-/
import PrimiHub.Executor.Syntax

namespace PrimiHub.Executor

/-- The scan of a piece of text. -/
def scan (s : Scan) (text : Str) : Scan := text.foldl Scan.step s

@[simp] theorem scan_nil (s : Scan) : scan s [] = s := rfl

@[simp] theorem scan_cons (s : Scan) (c : Char) (text : Str) :
    scan s (c :: text) = scan (s.step c) text := rfl

/-- The scan of a text in two pieces. -/
theorem scan_append (s : Scan) (front rest : Str) :
    scan s (front ++ rest) = scan (scan s front) rest := by
  unfold scan
  rw [List.foldl_append]

/-- `parseExpress` succeeds if the outer loop is running at the end. -/
theorem parseExpress_ok_iff {expr : Str} {stk tokens : List Str} :
    parseExpress expr stk = .ok tokens ↔
      (scan (.start stk) expr).mode = .outer
        ∧ flush (scan (.start stk) expr).temp (scan (.start stk) expr).stk2
          ++ (scan (.start stk) expr).suffixStk = tokens := by
  unfold parseExpress scan
  cases hmode : (List.foldl Scan.step (Scan.start stk) expr).mode <;>
    simp [hmode]

/-- What it takes for `importExpress` to return 0. -/
theorem importExpress_ok_iff {expr : Str} {ex ex' : Compiler} :
    importExpress expr ex = .ok (0, ex') ↔
      ∃ tokens, parseExpress expr ex.suffixStk = .ok tokens
        ∧ checkExpress tokens = true ∧ ex' = ⟨tokens, expr⟩ := by
  unfold importExpress
  cases parseExpress expr ex.suffixStk with
  | error fault => simp [bind, Except.bind]
  | ok tokens =>
      by_cases hcheck : checkExpress tokens = true
      · simp only [bind, Except.bind, hcheck, if_true, Except.ok.injEq,
          Prod.mk.injEq, true_and, exists_eq_left']
        exact eq_comm
      · simp [bind, Except.bind, hcheck]

@[simp] theorem flush_nil (stk2 : List Str) : flush [] stk2 = stk2 := rfl

/-- A token that has begun is put out. -/
theorem flush_of_ne_nil {temp : Str} (h : temp ≠ []) (stk2 : List Str) :
    flush temp stk2 = stk2 ++ [temp] := by
  simp [flush, h]

-- ========================================================= characters

/-- A character that is part of a name or a number. -/
def Ordinary (c : Char) : Prop := isOperator c = false ∧ c ≠ '(' ∧ c ≠ ')'

/-- A character that no number has. -/
def NonNumeric (c : Char) : Prop := c.isDigit = false ∧ c ≠ '.'

/-- A sign is no ordinary character. -/
theorem Ordinary.ne_minus {c : Char} (h : Ordinary c) : c ≠ '-' := by
  intro hc
  subst hc
  simp [Ordinary, isOperator] at h

/-- The character of a digit is a digit for the scanner as well. -/
theorem digitChar_isDigit (d : Fin 10) : (Nat.digitChar d).isDigit = true := by
  revert d
  decide

theorem digitChar_ordinary (d : Fin 10) : Ordinary (Nat.digitChar d) := by
  revert d
  unfold Ordinary
  decide

/-- A literal is made of digits and points. -/
theorem Literal.mem_text {l : Literal} {c : Char} (hc : c ∈ l.text) :
    (∃ d : Fin 10, c = Nat.digitChar d) ∨ c = '.' := by
  unfold Literal.text digitChars at hc
  rcases List.mem_append.1 hc with hc | hc
  · obtain ⟨d, -, rfl⟩ := List.mem_map.1 hc
    exact Or.inl ⟨d, rfl⟩
  · split at hc
    · cases hc
    · rcases List.mem_cons.1 hc with hc | hc
      · exact Or.inr hc
      · obtain ⟨d, -, rfl⟩ := List.mem_map.1 hc
        exact Or.inl ⟨d, rfl⟩

/-- A number runs through the outer loop character by character. -/
theorem Literal.ordinary (l : Literal) : ∀ c ∈ l.text, Ordinary c := by
  intro c hc
  rcases Literal.mem_text hc with ⟨d, rfl⟩ | rfl
  · exact digitChar_ordinary d
  · unfold Ordinary
    decide

/-- No character of a number spoils a signed token. -/
theorem Literal.numeric (l : Literal) : ∀ c ∈ l.text, ¬NonNumeric c := by
  intro c hc hnon
  rcases Literal.mem_text hc with ⟨d, rfl⟩ | rfl
  · have hdigit := digitChar_isDigit d
    rw [hnon.1] at hdigit
    cases hdigit
  · exact hnon.2 rfl

theorem Literal.text_ne_nil (l : Literal) : l.text ≠ [] := by
  unfold Literal.text digitChars
  intro h
  have hwhole := (List.append_eq_nil_iff.1 h).1
  exact l.whole_ne_nil (List.map_eq_nil_iff.1 hwhole)

theorem ColumnName.text_ne_nil (c : ColumnName) : c.text ≠ [] := by
  obtain ⟨x, hx, -⟩ := c.named
  exact List.ne_nil_of_mem hx

@[simp] theorem isOperator_char (op : BinOp) : isOperator op.char = true := by
  cases op <;> decide

@[simp] theorem priority_char (op : BinOp) : priority op.char = op.prec := by
  cases op <;> decide

theorem char_ne_open (op : BinOp) : op.char ≠ '(' := by
  cases op <;> decide

theorem char_ne_close (op : BinOp) : op.char ≠ ')' := by
  cases op <;> decide

/-- An operator after a sign is no part of a number. -/
theorem char_nonNumeric (op : BinOp) : NonNumeric op.char := by
  unfold NonNumeric
  cases op <;> decide

-- ========================================================== the stacks

/-- The top of the stack does not yield to an operator of level `p`. -/
def Below (p : Nat) : List Str → Prop
  | [] => True
  | top :: _ => firstChar top = '(' ∨ priority (firstChar top) < p

/-- What does not yield to an operator does not yield to one that binds more
tightly. -/
theorem Below.mono {p q : Nat} (hpq : p ≤ q) {stk : List Str}
    (h : Below p stk) : Below q stk := by
  cases stk with
  | nil => exact trivial
  | cons top rest =>
      rcases h with h | h
      · exact Or.inl h
      · exact Or.inr (Nat.lt_of_lt_of_le h hpq)

/-- The operators of a list, all binding at least at level `p`. -/
def Pending (p : Nat) (pend : List Str) : Prop :=
  ∀ t ∈ pend, ∃ op : BinOp, t = [op.char] ∧ p ≤ op.prec

/-- An operator moves the operators pending above it to the output. -/
theorem pushOperator_pending {op : BinOp} {pend stk : List Str}
    (hpend : Pending op.prec pend) (hstk : Below op.prec stk)
    (stk2 : List Str) :
    pushOperator op.char (pend ++ stk) stk2
      = ([op.char] :: stk, stk2 ++ pend) := by
  induction pend generalizing stk2 with
  | nil =>
      rw [List.nil_append, List.append_nil]
      cases stk with
      | nil => rfl
      | cons top rest =>
          unfold pushOperator
          rcases hstk with htop | htop
          · rw [if_pos htop]
          · split
            · rfl
            · rw [if_pos (by rw [priority_char]; exact htop)]
  | cons t pend ih =>
      obtain ⟨op', rfl, hprec⟩ := hpend t (List.mem_cons_self ..)
      have hopen : firstChar [op'.char] ≠ '(' := char_ne_open op'
      have hweak : ¬priority op.char > priority (firstChar [op'.char]) := by
        show ¬priority op.char > priority op'.char
        rw [priority_char, priority_char]
        exact Nat.not_lt.2 hprec
      rw [List.cons_append, pushOperator, if_neg hopen, if_neg hweak,
        ih fun t ht => hpend t (List.mem_cons_of_mem _ ht), List.append_assoc,
        List.singleton_append]

/-- A closing bracket moves the operators pending above its opening one
to the output, the operand in `temp` before them. -/
theorem closeBracket_pending {p : Nat} {pend : List Str}
    (hpend : Pending p pend) (stk : List Str) (temp : Str)
    (stk2 : List Str) :
    ∃ temp' stk2', closeBracket (pend ++ ['('] :: stk) temp stk2
        = (stk, temp', stk2')
      ∧ flush temp' stk2' = flush temp stk2 ++ pend := by
  induction pend generalizing temp stk2 with
  | nil =>
      refine ⟨temp, stk2, ?_, by rw [List.append_nil]⟩
      have hopen : firstChar ['('] = '(' := rfl
      rw [List.nil_append, closeBracket, if_pos hopen]
  | cons t pend ih =>
      obtain ⟨op, rfl, -⟩ := hpend t (List.mem_cons_self ..)
      have hopen : firstChar [op.char] ≠ '(' := char_ne_open op
      obtain ⟨temp', stk2', hclose, hflush⟩ :=
        ih (fun t ht => hpend t (List.mem_cons_of_mem _ ht)) []
          (flush temp stk2 ++ [[op.char]])
      refine ⟨temp', stk2', ?_, ?_⟩
      · rw [List.cons_append, closeBracket, if_neg hopen, hclose]
      · rw [hflush, flush_nil, List.append_assoc, List.singleton_append]

-- ======================================================== single steps

/-- An ordinary character joins the token that has begun. -/
theorem step_ordinary {s : Scan} {c : Char} (hmode : s.mode = .outer)
    (hc : Ordinary c) :
    s.step c = { s with temp := s.temp ++ [c], prev := some c } := by
  have hminus := hc.ne_minus
  obtain ⟨hop, hopen, hclose⟩ := hc
  simp [Scan.step, Scan.read, hmode, Scan.body, hminus, Scan.token, hop,
    hopen, hclose]

/-- An opening bracket goes on the stack. -/
theorem step_open {s : Scan} (hmode : s.mode = .outer) :
    s.step '(' = { s with suffixStk := ['('] :: s.suffixStk,
                          prev := some '(' } := by
  simp [Scan.step, Scan.read, hmode, Scan.body, Scan.token, isOperator]

/-- A closing bracket takes the operators off the stack, down to its opening
bracket. -/
theorem step_close {s : Scan} (hmode : s.mode ≠ .untilOperator) :
    s.step ')' =
      { prev := some ')', mode := .outer,
        temp := (closeBracket s.suffixStk s.temp s.stk2).2.1,
        stk2 := (closeBracket s.suffixStk s.temp s.stk2).2.2,
        suffixStk := (closeBracket s.suffixStk s.temp s.stk2).1 } := by
  cases hm : s.mode with
  | untilOperator => exact (hmode hm).elim
  | outer =>
      simp [Scan.step, Scan.read, hm, Scan.body, Scan.token, isOperator]
  | untilClose =>
      simp [Scan.step, Scan.read, hm, Scan.body, Scan.token, isOperator]

/-- An operator after an operand. A minus is not taken for a sign there,
since the character before it belongs to the operand. -/
theorem step_operator {s : Scan} (op : BinOp) (hmode : s.mode ≠ .untilClose)
    (hprev : ∃ c, s.prev = some c ∧ c ≠ '(') :
    s.step op.char =
      { prev := some op.char, mode := .outer, temp := [],
        stk2 := (pushOperator op.char s.suffixStk (flush s.temp s.stk2)).2,
        suffixStk :=
          (pushOperator op.char s.suffixStk (flush s.temp s.stk2)).1 } := by
  obtain ⟨c, hprev, hc⟩ := hprev
  cases hm : s.mode with
  | untilClose => exact (hmode hm).elim
  | outer =>
      simp [Scan.step, Scan.read, hm, Scan.body, Scan.token, hprev, hc]
  | untilOperator =>
      simp [Scan.step, Scan.read, hm, Scan.body, Scan.token, hprev, hc]

/-- Text of which every character is appended collects in `temp`. -/
theorem scan_collect {s : Scan} {text : Str}
    (hstep : ∀ c ∈ text, ∀ t : Scan, t.mode = s.mode →
      t.step c = { t with temp := t.temp ++ [c], prev := some c })
    (hne : text ≠ []) :
    scan s text = { s with temp := s.temp ++ text, prev := text.getLast? } := by
  induction text generalizing s with
  | nil => exact (hne rfl).elim
  | cons c rest ih =>
      rw [scan_cons, hstep c (List.mem_cons_self ..) s rfl]
      cases rest with
      | nil => simp
      | cons d rest =>
          rw [ih (s := { s with temp := s.temp ++ [c], prev := some c })
            (fun x hx => hstep x (List.mem_cons_of_mem _ hx))
            (List.cons_ne_nil _ _)]
          simp

/-- The outer loop collects names and numbers. -/
theorem scan_ordinary {s : Scan} {text : Str} (hmode : s.mode = .outer)
    (htext : ∀ c ∈ text, Ordinary c) (hne : text ≠ []) :
    scan s text = { s with temp := s.temp ++ text, prev := text.getLast? } := by
  apply scan_collect _ hne
  intro c hc t ht
  exact step_ordinary (ht.trans hmode) (htext c hc)

/-- The loop after a leading minus collects everything but operators. -/
theorem scan_untilOperator {s : Scan} {text : Str}
    (hmode : s.mode = .untilOperator)
    (htext : ∀ c ∈ text, isOperator c = false) (hne : text ≠ []) :
    scan s text = { s with temp := s.temp ++ text, prev := text.getLast? } := by
  apply scan_collect _ hne
  intro c hc t ht
  simp [Scan.step, Scan.read, ht, hmode, htext c hc, Scan.append]

/-- The loop after a minus behind `(` collects everything but `)`. -/
theorem scan_untilClose {s : Scan} {text : Str}
    (hmode : s.mode = .untilClose) (htext : ∀ c ∈ text, c ≠ ')')
    (hne : text ≠ []) :
    scan s text = { s with temp := s.temp ++ text, prev := text.getLast? } := by
  apply scan_collect _ hne
  intro c hc t ht
  simp [Scan.step, Scan.read, ht, hmode, htext c hc, Scan.append]

-- ===================================================== spoiled tokens

/-- A minus sign together with something that is no number. -/
def Spoiled (token : Str) : Prop :=
  ∃ rest, token = '-' :: rest ∧ ∃ c ∈ rest, NonNumeric c

/-- Some token of the scan is spoiled, finished or not. -/
def Bad (s : Scan) : Prop :=
  ∃ token, Spoiled token
    ∧ (token ∈ s.stk2 ∨ token ∈ s.suffixStk ∨ token = s.temp)

/-- What follows does not mend a spoiled token. -/
theorem Spoiled.append {token : Str} (h : Spoiled token) (more : Str) :
    Spoiled (token ++ more) := by
  obtain ⟨rest, rfl, c, hc, hnon⟩ := h
  exact ⟨rest ++ more, rfl, c, List.mem_append_left _ hc, hnon⟩

theorem Spoiled.ne_nil {token : Str} (h : Spoiled token) : token ≠ [] := by
  obtain ⟨rest, rfl, -⟩ := h
  exact List.cons_ne_nil _ _

/-- A spoiled token on the stack does not pass for a bracket. -/
theorem Spoiled.firstChar_ne {token : Str} (h : Spoiled token) :
    firstChar token ≠ '(' := by
  obtain ⟨rest, rfl, -⟩ := h
  show '-' ≠ '('
  decide

/-- Flushing keeps a spoiled token, be it put out already or in
`temp`. -/
theorem mem_flush {token temp : Str} {stk2 : List Str} (h : Spoiled token)
    (hmem : token ∈ stk2 ∨ token = temp) : token ∈ flush temp stk2 := by
  unfold flush
  split
  · next htemp =>
    rcases hmem with hmem | rfl
    · exact hmem
    · exact (h.ne_nil htemp).elim
  · rcases hmem with hmem | rfl
    · exact List.mem_append_left _ hmem
    · exact List.mem_append_right _ (List.mem_cons_self ..)

/-- An operator moves tokens from the stack to the output and drops
none. -/
theorem mem_pushOperator {token : Str} (c : Char) {stk stk2 : List Str}
    (hmem : token ∈ stk2 ∨ token ∈ stk) :
    token ∈ (pushOperator c stk stk2).2
      ∨ token ∈ (pushOperator c stk stk2).1 := by
  induction stk generalizing stk2 with
  | nil =>
      rcases hmem with hmem | hmem
      · exact Or.inl hmem
      · cases hmem
  | cons top rest ih =>
      unfold pushOperator
      split
      · exact hmem.imp_right (List.mem_cons_of_mem _)
      · split
        · exact hmem.imp_right (List.mem_cons_of_mem _)
        · apply ih
          rcases hmem with hmem | hmem
          · exact Or.inl (List.mem_append_left _ hmem)
          · rcases List.mem_cons.1 hmem with rfl | hmem
            · exact Or.inl (List.mem_append_right _ (List.mem_cons_self ..))
            · exact Or.inr hmem

/-- A closing bracket drops nothing but opening ones. -/
theorem mem_closeBracket {token temp : Str} {stk stk2 : List Str}
    (h : Spoiled token)
    (hmem : token ∈ stk2 ∨ token ∈ stk ∨ token = temp) :
    token ∈ (closeBracket stk temp stk2).2.2
      ∨ token ∈ (closeBracket stk temp stk2).1
      ∨ token = (closeBracket stk temp stk2).2.1 := by
  induction stk generalizing temp stk2 with
  | nil => exact hmem
  | cons top rest ih =>
      unfold closeBracket
      split
      · next hopen =>
        rcases hmem with hmem | hmem | hmem
        · exact Or.inl hmem
        · rcases List.mem_cons.1 hmem with rfl | hmem
          · exact (h.firstChar_ne hopen).elim
          · exact Or.inr (Or.inl hmem)
        · exact Or.inr (Or.inr hmem)
      · apply ih
        rcases hmem with hmem | hmem | hmem
        · exact Or.inl (List.mem_append_left _ (mem_flush h (Or.inl hmem)))
        · rcases List.mem_cons.1 hmem with rfl | hmem
          · exact Or.inl (List.mem_append_right _ (List.mem_cons_self ..))
          · exact Or.inr (Or.inl hmem)
        · exact Or.inl (List.mem_append_left _ (mem_flush h (Or.inr hmem)))

/-- Badness does not depend on the mode and survives an append. -/
theorem Bad.append {s : Scan} (h : Bad s) (c : Char) (prev : Option Char)
    (mode : Mode) :
    Bad { s with temp := s.temp ++ [c], prev := prev, mode := mode } := by
  obtain ⟨token, hspoiled, hmem | hmem | rfl⟩ := h
  · exact ⟨token, hspoiled, Or.inl hmem⟩
  · exact ⟨token, hspoiled, Or.inr (Or.inl hmem)⟩
  · exact ⟨_, hspoiled.append [c], Or.inr (Or.inr rfl)⟩

/-- The branches of the outer loop keep a spoiled token. -/
theorem Bad.token {s : Scan} (h : Bad s) (c : Char) (prev : Option Char) :
    Bad { s.token c with prev := prev } := by
  unfold Scan.token
  split
  · obtain ⟨token, hspoiled, hmem⟩ := h
    refine ⟨token, hspoiled, ?_⟩
    have hout : token ∈ flush s.temp s.stk2 ∨ token ∈ s.suffixStk := by
      rcases hmem with hmem | hmem | hmem
      · exact Or.inl (mem_flush hspoiled (Or.inl hmem))
      · exact Or.inr hmem
      · exact Or.inl (mem_flush hspoiled (Or.inr hmem))
    exact (mem_pushOperator c hout).imp_right Or.inl
  · split
    · obtain ⟨token, hspoiled, hmem⟩ := h
      exact ⟨token, hspoiled,
        hmem.imp_right (Or.imp_left (List.mem_cons_of_mem _))⟩
    · split
      · obtain ⟨token, hspoiled, hmem⟩ := h
        exact ⟨token, hspoiled, mem_closeBracket hspoiled hmem⟩
      · exact h.append c prev s.mode

/-- So does the outer loop as a whole. -/
theorem Bad.body {s : Scan} (h : Bad s) (c : Char) (prev : Option Char) :
    Bad { s.body c with prev := prev } := by
  unfold Scan.body
  split
  · exact h.append c prev _
  · split
    · exact h.append c prev _
    · exact h.token c prev

/-- No character removes a spoiled token. -/
theorem Bad.step {s : Scan} (h : Bad s) (c : Char) : Bad (s.step c) := by
  have houter : Bad { s with mode := .outer } := h
  unfold Scan.step Scan.read
  split
  · exact h.body c _
  · split
    · exact houter.body c _
    · exact h.append c _ _
  · split
    · exact houter.body c _
    · exact h.append c _ _

/-- A spoiled token stays to the end of the scan. -/
theorem Bad.scan {s : Scan} (h : Bad s) (text : Str) :
    Bad (scan s text) := by
  induction text generalizing s with
  | nil => exact h
  | cons c rest ih =>
      rw [scan_cons]
      exact ih (h.step c)

end PrimiHub.Executor
