/-
The compiler on well formed expressions: where the scan of a tree ends,
and exactly which trees `importExpress` compiles to their postfix form.

The induction is on the tree, for a subexpression at any place (`start`
of the stack arbitrary), in two rounds. `scan_plain` is for a place
where no sign can stand. `scan_left` is for the left end of the whole
expression, where a leading minus puts the scanner into an inner loop
that only an operator ends. A bracket is a place where the sign can
stand, but its inner loop runs to the `)`, so there the only good
content that begins with a sign is a negated number; `scan_bracket`
settles it.

Each round has two outcomes: the signs are well placed and the scan is
as `Scanned` says, or they are not and the scan is `Bad`.
-/
import PrimiHub.Executor.Proofs.Parse

namespace PrimiHub.Executor

theorem BinOp.prec_lt_three (op : BinOp) : op.prec < 3 := by
  cases op <;> decide

namespace Expr

-- ==================================================== placement of signs

/-- A tree that begins with a minus sign. -/
def Signed : Expr → Prop
  | .neg _ => True
  | .bin _ l _ => l.Signed
  | _ => False

/-- Every minus sign is the whole content of a bracket together with the
number it stands before. -/
def PlainSigns : Expr → Prop
  | .col _ => True
  | .lit _ => True
  | .neg _ => False
  | .paren (.neg (.lit _)) => True
  | .paren e => e.PlainSigns
  | .bin _ l r => l.PlainSigns ∧ r.PlainSigns

/-- As `PlainSigns`, except that the tree may begin with a negated
number. -/
def LeftSigns : Expr → Prop
  | .neg (.lit _) => True
  | .bin _ l r => l.LeftSigns ∧ r.PlainSigns
  | e => e.PlainSigns

/-- The signs of a whole expression: one in a bracket has the bracket to
itself and its number, and a leading one stands before a number that a
binary operator follows. -/
def SignsPlaced : Expr → Prop
  | .neg _ => False
  | e => e.LeftSigns

/-- A bracket's content is good if it is a negated number or has no sign
at its start. -/
theorem plainSigns_paren {e : Expr} (h : ∀ l, e ≠ .neg (.lit l)) :
    (Expr.paren e).PlainSigns ↔ e.PlainSigns := by
  cases e with
  | neg e =>
      cases e with
      | lit l => exact (h l rfl).elim
      | col c => exact Iff.rfl
      | neg e => exact Iff.rfl
      | paren e => exact Iff.rfl
      | bin op l r => exact Iff.rfl
  | col c => exact Iff.rfl
  | lit l => exact Iff.rfl
  | paren e => exact Iff.rfl
  | bin op l r => exact Iff.rfl

/-- A tree that begins with a sign is not plain. -/
theorem not_plainSigns_of_signed {e : Expr} (h : e.Signed) :
    ¬e.PlainSigns := by
  induction e with
  | col c => exact h.elim
  | lit l => exact h.elim
  | neg e => exact fun hplain => hplain
  | paren e => exact h.elim
  | bin op l r ihl ihr => exact fun hplain => ihl h hplain.1

/-- Away from a sign, it makes no difference that a tree stands at a
start. -/
theorem wellFormed_of_not_signed {e : Expr} (h : ¬e.Signed)
    (hwf : e.WellFormed true) : e.WellFormed false := by
  induction e with
  | col c => exact trivial
  | lit l => exact trivial
  | neg e => exact (h trivial).elim
  | paren e => exact hwf
  | bin op l r ihl ihr =>
      obtain ⟨hl, hr, hwl, hwr⟩ := hwf
      exact ⟨hl, hr, ihl h hwl, hwr⟩

/-- What stands behind a sign that does not stand before a number alone
spoils its token before any `)` is reached. -/
theorem signed_render {e : Expr} (hwf : e.WellFormed true) (h : e.Signed) :
    (∃ l, e = .neg (.lit l)) ∨
      ∃ front rest, e.render = '-' :: front ++ rest
        ∧ (∀ c ∈ front, c ≠ ')') ∧ ∃ c ∈ front, NonNumeric c := by
  induction e with
  | col c => exact h.elim
  | lit l => exact h.elim
  | paren e => exact h.elim
  | neg e =>
      cases e with
      | lit l => exact Or.inl ⟨l, rfl⟩
      | col c =>
          refine Or.inr ⟨c.text, [], by simp [render], ?_, c.named⟩
          intro x hx
          exact (c.plain x hx).2.2
      | neg e => exact (Bool.false_ne_true hwf.2.2.1).elim
      | paren e =>
          refine Or.inr ⟨['('], e.render ++ [')'], by simp [render],
            by simp, ?_⟩
          refine ⟨'(', List.mem_cons_self .., ?_⟩
          unfold NonNumeric
          decide
      | bin op l r => exact (Nat.ne_of_lt op.prec_lt_three hwf.2.1).elim
  | bin op l r ihl ihr =>
      right
      rcases ihl hwf.2.2.1 h with ⟨k, rfl⟩ | ⟨front, rest, hl, hclose, hbad⟩
      · refine ⟨k.text ++ [op.char], r.render, by simp [render], ?_, ?_⟩
        · intro x hx
          rcases List.mem_append.1 hx with hx | hx
          · exact (k.ordinary x hx).2.2
          · rw [List.mem_singleton.1 hx]
            exact char_ne_close op
        · exact ⟨op.char, List.mem_append_right _ (List.mem_cons_self ..),
            char_nonNumeric op⟩
      · exact ⟨front, rest ++ op.char :: r.render, by simp [render, hl],
          hclose, hbad⟩

end Expr

open PrimiHub.Executor.Expr

-- ======================================================== the scan of a tree

/-- What the scan of `e` from `s` to `s'` has done: the output, the
operand in `temp` and the operators `pend` that wait on the stack make
up the postfix form of `e`. -/
structure Scanned (e : Expr) (s s' : Scan) (pend : List Str) : Prop where
  prev : ∃ c, s'.prev = some c ∧ c ≠ '('
  stack : s'.suffixStk = pend ++ s.suffixStk
  output : flush s'.temp s'.stk2 ++ pend = s.stk2 ++ e.postfixForm
  pending : Pending e.prec pend

/-- A scan about to read an operand of level `p`. -/
structure Ready (p : Nat) (s : Scan) : Prop where
  mode : s.mode = .outer
  temp : s.temp = []
  below : Below p s.suffixStk

/-- The signs are placed well and the tree is scanned, or they are not
and a token is spoiled. -/
def Outcome (signs : Prop) (e : Expr) (s s' : Scan) : Prop :=
  (signs ∧ s'.mode = .outer ∧ ∃ pend, Scanned e s s' pend)
    ∨ (¬signs ∧ Bad s')

/-- A token collected in `temp` is a scanned operand. -/
theorem scanned_token {e : Expr} {token : Str} (mode : Mode) (s : Scan)
    (hform : e.postfixForm = [token]) (hne : token ≠ [])
    (hopen : ∀ c ∈ token, c ≠ '(') :
    Scanned e s { s with temp := token, prev := token.getLast?,
                         mode := mode } [] := by
  obtain ⟨c, hc⟩ := Option.ne_none_iff_exists'.1
    (mt List.getLast?_eq_none_iff.1 hne)
  refine ⟨⟨c, hc, hopen c (List.mem_of_getLast? hc)⟩, rfl, ?_, ?_⟩
  · rw [hform, List.append_nil]
    exact flush_of_ne_nil hne s.stk2
  · intro t ht
    cases ht

/-- A number collected behind its sign. -/
theorem scanned_number (mode : Mode) (s : Scan) (l : Literal) :
    Scanned (.neg (.lit l)) s
      { s with temp := ['-'] ++ l.text, prev := l.text.getLast?,
               mode := mode } [] := by
  have hopen : ∀ c ∈ '-' :: l.text, c ≠ '(' := by
    intro c hc
    rcases List.mem_cons.1 hc with rfl | hc
    · decide
    · exact (l.ordinary c hc).2.1
  have htoken := scanned_token (e := .neg (.lit l)) mode s rfl
    (List.cons_ne_nil '-' l.text) hopen
  rwa [List.getLast?_cons_of_ne_nil l.text_ne_nil] at htoken

/-- The scan behind a `(`. -/
def Scan.opened (s : Scan) : Scan :=
  { s with suffixStk := ['('] :: s.suffixStk, prev := some '(' }

/-- A name or a number. -/
theorem scan_operand {e : Expr} {token : Str} {s : Scan} {p : Nat}
    (hs : Ready p s) (hform : e.postfixForm = [token]) (hne : token ≠ [])
    (htoken : ∀ c ∈ token, Ordinary c) :
    (scan s token).mode = .outer ∧ ∃ pend, Scanned e s (scan s token) pend := by
  rw [scan_ordinary hs.mode htoken hne, hs.temp, List.nil_append]
  exact ⟨hs.mode, [],
    scanned_token _ s hform hne fun c hc => (htoken c hc).2.1⟩

/-- After a bracket's content, its `)` leaves the scan of the whole
bracket. -/
theorem scanned_close {e : Expr} {s t : Scan} {pend : List Str}
    (h : Scanned e s.opened t pend) (hmode : t.mode ≠ .untilOperator) :
    (t.step ')').mode = .outer
      ∧ ∃ pend', Scanned (.paren e) s (t.step ')') pend' := by
  obtain ⟨temp', stk2', hclose, hflush⟩ :=
    closeBracket_pending h.pending s.suffixStk t.temp t.stk2
  have hstack : t.suffixStk = pend ++ ['('] :: s.suffixStk := h.stack
  rw [step_close hmode, hstack, hclose]
  refine ⟨rfl, [], ⟨')', rfl, by decide⟩, rfl, ?_, ?_⟩
  · show flush temp' stk2' ++ [] = _
    rw [List.append_nil, hflush, h.output]
    rfl
  · intro x hx
    cases hx

/-- A bracket, given the scan of its content where that does not begin
with a sign. -/
theorem scan_bracket {e : Expr} (hwf : e.WellFormed true) {s : Scan}
    (hs : Ready 3 s)
    (ih : e.WellFormed false → ∀ {t : Scan}, Ready e.prec t →
      Outcome e.PlainSigns e t (scan t e.render)) :
    Outcome (Expr.paren e).PlainSigns (.paren e) s
      (scan s (Expr.paren e).render) := by
  have hrender : scan s (Expr.paren e).render
      = (scan s.opened e.render).step ')' := by
    rw [render, List.cons_append, scan_cons, step_open hs.mode, scan_append,
      scan_cons, scan_nil]
    rfl
  rw [hrender]
  have hmode : s.opened.mode = .outer := hs.mode
  have htemp : s.opened.temp = [] := hs.temp
  -- a sign right behind the bracket opens the inner loop
  have hminus : s.opened.step '-'
      = { s.opened with
          temp := ['-'], prev := some '-', mode := .untilClose } := by
    have hprev : s.opened.prev = some '(' := rfl
    simp [Scan.step, Scan.read, hmode, Scan.body, hprev, htemp]
  by_cases hsigned : e.Signed
  · rcases signed_render hwf hsigned with
      ⟨l, rfl⟩ | ⟨front, rest, hfront, hclose, c, hc, hbad⟩
    · -- a negated number: the inner loop stops at the bracket's own `)`
      refine Or.inl ⟨trivial, ?_⟩
      rw [render, render, scan_cons, hminus,
        scan_untilClose rfl (fun c hc => (l.ordinary c hc).2.2) l.text_ne_nil]
      exact scanned_close (scanned_number .untilClose s.opened l) (by simp)
    · -- anything else behind the sign ends up in one token with it
      have hne : ∀ l, e ≠ .neg (.lit l) := by
        intro l hl
        subst hl
        rw [render, render] at hfront
        have htext : l.text = front ++ rest := (List.cons.inj hfront).2
        exact l.numeric c (htext ▸ List.mem_append_left _ hc) hbad
      refine Or.inr ⟨?_, ?_⟩
      · rw [plainSigns_paren hne]
        exact not_plainSigns_of_signed hsigned
      · rw [hfront, List.cons_append, scan_cons, hminus, scan_append,
          scan_untilClose rfl hclose (List.ne_nil_of_mem hc)]
        apply Bad.step
        apply Bad.scan
        exact ⟨'-' :: front, ⟨front, rfl, c, hc, hbad⟩, Or.inr (Or.inr rfl)⟩
  · have hready : Ready e.prec s.opened := ⟨hmode, htemp, Or.inl rfl⟩
    have hne : ∀ l, e ≠ .neg (.lit l) := by
      intro l hl
      exact hsigned (hl ▸ trivial)
    rcases ih (wellFormed_of_not_signed hsigned hwf) hready with
      ⟨hplain, hmode', pend, hscan⟩ | ⟨hplain, hbad⟩
    · refine Or.inl ⟨(plainSigns_paren hne).2 hplain, ?_⟩
      exact scanned_close hscan (by rw [hmode']; simp)
    · exact Or.inr ⟨fun h => hplain ((plainSigns_paren hne).1 h),
        hbad.step ')'⟩

/-- After the left operand, an operator finds its own level and is ready
for the right operand. -/
theorem scanned_operator {op : BinOp} {l : Expr} {s t : Scan}
    {pend : List Str} (h : Scanned l s t pend)
    (hmode : t.mode ≠ .untilClose) (hprec : op.prec ≤ l.prec)
    (hbelow : Below op.prec s.suffixStk) :
    t.step op.char = { prev := some op.char, mode := .outer, temp := [],
                       stk2 := s.stk2 ++ l.postfixForm,
                       suffixStk := [op.char] :: s.suffixStk } := by
  have hpend : Pending op.prec pend := by
    intro x hx
    obtain ⟨op', rfl, hop'⟩ := h.pending x hx
    exact ⟨op', rfl, Nat.le_trans hprec hop'⟩
  rw [step_operator op hmode h.prev, h.stack,
    pushOperator_pending hpend hbelow, h.output]

/-- A binary operator: whatever the left operand came to, the right one
is in a plain place. -/
theorem scan_binary {signs : Prop} {op : BinOp} {l r : Expr} {s : Scan}
    (hprec : op.prec ≤ l.prec ∧ op.prec < r.prec)
    (hbelow : Below op.prec s.suffixStk)
    (hl : (signs ∧ (scan s l.render).mode ≠ .untilClose
        ∧ ∃ pend, Scanned l s (scan s l.render) pend)
      ∨ (¬signs ∧ Bad (scan s l.render)))
    (hr : ∀ {t : Scan}, Ready r.prec t →
      Outcome r.PlainSigns r t (scan t r.render)) :
    Outcome (signs ∧ r.PlainSigns) (.bin op l r) s
      (scan s (Expr.bin op l r).render) := by
  rw [render, scan_append, scan_cons]
  rcases hl with ⟨hsigns, hmode, pend, hscan⟩ | ⟨hsigns, hbad⟩
  · rw [scanned_operator hscan hmode hprec.1 hbelow]
    have hready : Ready r.prec
        { prev := some op.char, mode := .outer, temp := [],
          stk2 := s.stk2 ++ l.postfixForm,
          suffixStk := [op.char] :: s.suffixStk } := by
      refine ⟨rfl, rfl, Or.inr ?_⟩
      show priority op.char < r.prec
      rw [priority_char]
      exact hprec.2
    rcases hr hready with ⟨hplain, hmode', pend', hscan'⟩ | ⟨hplain, hbad⟩
    · refine Or.inl ⟨⟨hsigns, hplain⟩, hmode', pend' ++ [[op.char]],
        hscan'.prev, ?_, ?_, ?_⟩
      · rw [hscan'.stack, List.append_assoc, List.singleton_append]
      · rw [← List.append_assoc, hscan'.output, postfixForm]
        simp
      · intro x hx
        rcases List.mem_append.1 hx with hx | hx
        · obtain ⟨op', rfl, hop'⟩ := hscan'.pending x hx
          exact ⟨op', rfl, Nat.le_trans (Nat.le_of_lt hprec.2) hop'⟩
        · exact ⟨op, List.mem_singleton.1 hx, Nat.le_refl _⟩
    · exact Or.inr ⟨fun h => hplain h.2, hbad⟩
  · exact Or.inr ⟨fun h => hsigns h.1, (hbad.step op.char).scan r.render⟩

/-- The scan of a tree where no sign can stand. -/
theorem scan_plain {e : Expr} (hwf : e.WellFormed false) {s : Scan}
    (hs : Ready e.prec s) :
    Outcome e.PlainSigns e s (scan s e.render) := by
  induction e generalizing s with
  | col c =>
      exact Or.inl ⟨trivial,
        scan_operand hs rfl c.text_ne_nil c.plain⟩
  | lit l =>
      exact Or.inl ⟨trivial,
        scan_operand hs rfl l.text_ne_nil l.ordinary⟩
  | neg e => exact (Bool.false_ne_true hwf.1).elim
  | paren e ih => exact scan_bracket hwf hs fun hplain _ ht => ih hplain ht
  | bin op l r ihl ihr =>
      obtain ⟨hpl, hpr, hwl, hwr⟩ := hwf
      have hl := ihl hwl ⟨hs.mode, hs.temp, hs.below.mono hpl⟩
      apply scan_binary ⟨hpl, hpr⟩ hs.below _ fun ht => ihr hwr ht
      rcases hl with ⟨hplain, hmode, hscan⟩ | hbad
      · exact Or.inl ⟨hplain, by rw [hmode]; simp, hscan⟩
      · exact Or.inr hbad

-- ==================================================== the left end

/-- The loop that is running when the scan of the left end is over. -/
def endMode : Expr → Mode
  | .neg _ => .untilOperator
  | _ => .outer

/-- A leading minus and what follows it up to the first operator. -/
theorem scan_leading {s : Scan} (hmode : s.mode = .outer)
    (htemp : s.temp = []) (hprev : s.prev = none) {front : Str}
    (hfront : ∀ c ∈ front, isOperator c = false) (hne : front ≠ []) :
    scan s ('-' :: front)
      = { s with temp := ['-'] ++ front, prev := front.getLast?,
                 mode := .untilOperator } := by
  have hminus : s.step '-'
      = { s with temp := ['-'], prev := some '-',
                 mode := .untilOperator } := by
    simp [Scan.step, Scan.read, hmode, Scan.body, hprev, htemp]
  rw [scan_cons, hminus, scan_untilOperator rfl hfront hne]

/-- The scan of a tree at the start of the expression. -/
theorem scan_left {e : Expr} (hwf : e.WellFormed true) {s : Scan}
    (hs : Ready e.prec s) (hprev : s.prev = none) :
    (e.LeftSigns ∧ (scan s e.render).mode = endMode e
        ∧ ∃ pend, Scanned e s (scan s e.render) pend)
      ∨ (¬e.LeftSigns ∧ Bad (scan s e.render)) := by
  induction e with
  | col c => exact scan_plain (e := .col c) trivial hs
  | lit l => exact scan_plain (e := .lit l) trivial hs
  | paren e => exact scan_plain (e := .paren e) hwf hs
  | neg e =>
      -- the sign swallows its operand, a bracket as far as its `(`
      have hspoiled : ∀ {front : Str}, (∀ c ∈ front, isOperator c = false) →
          (∃ c ∈ front, NonNumeric c) → Bad (scan s ('-' :: front)) := by
        intro front hfront hbad
        obtain ⟨c, hc, hnon⟩ := hbad
        rw [scan_leading hs.mode hs.temp hprev hfront (List.ne_nil_of_mem hc)]
        exact ⟨'-' :: front, ⟨front, rfl, c, hc, hnon⟩, Or.inr (Or.inr rfl)⟩
      cases e with
      | lit l =>
          refine Or.inl ⟨trivial, ?_⟩
          rw [render, render, scan_leading hs.mode hs.temp hprev
            (fun c hc => (l.ordinary c hc).1) l.text_ne_nil]
          exact ⟨rfl, [], scanned_number .untilOperator s l⟩
      | col c =>
          refine Or.inr ⟨fun h => h, ?_⟩
          exact hspoiled (fun x hx => (c.plain x hx).1) c.named
      | neg e => exact (Bool.false_ne_true hwf.2.2.1).elim
      | bin op l r => exact (Nat.ne_of_lt op.prec_lt_three hwf.2.1).elim
      | paren e =>
          refine Or.inr ⟨fun h => h, ?_⟩
          have hopen := @hspoiled ['(']
            (List.forall_mem_singleton.2 (by decide))
            ⟨'(', List.mem_cons_self .., by unfold NonNumeric; decide⟩
          exact hopen.scan (e.render ++ [')'])
  | bin op l r ihl ihr =>
      obtain ⟨hpl, hpr, hwl, hwr⟩ := hwf
      have hl := ihl hwl ⟨hs.mode, hs.temp, hs.below.mono hpl⟩
      apply scan_binary ⟨hpl, hpr⟩ hs.below _ fun ht => scan_plain hwr ht
      rcases hl with ⟨hleft, hmode, hscan⟩ | hbad
      · refine Or.inl ⟨hleft, ?_, hscan⟩
        rw [hmode]
        cases l <;> simp [endMode]
      · exact Or.inr hbad

-- ================================================== the postfix form

/-- The tokens of a postfix form: names, numbers, negated numbers and
operators. -/
def PostfixToken (token : Str) : Prop :=
  (∃ c : ColumnName, token = c.text) ∨ (∃ l : Literal, token = l.text)
    ∨ (∃ l : Literal, token = '-' :: l.text)
    ∨ ∃ op : BinOp, token = [op.char]

theorem mem_postfixForm {e : Expr} {token : Str}
    (hmem : token ∈ e.postfixForm) : PostfixToken token := by
  have hneg : ∀ e : Expr, (token ∈ e.postfixForm → PostfixToken token) →
      token ∈ ['0'] :: e.postfixForm ++ [['-']] → PostfixToken token := by
    intro e ih hmem
    rcases List.mem_append.1 hmem with hmem | hmem
    · rcases List.mem_cons.1 hmem with rfl | hmem
      · exact Or.inr (Or.inl ⟨⟨[0], [], List.cons_ne_nil _ _⟩, rfl⟩)
      · exact ih hmem
    · exact Or.inr (Or.inr (Or.inr ⟨.sub, List.mem_singleton.1 hmem⟩))
  induction e with
  | col c => exact Or.inl ⟨c, List.mem_singleton.1 hmem⟩
  | lit l => exact Or.inr (Or.inl ⟨l, List.mem_singleton.1 hmem⟩)
  | neg e ih =>
      cases e with
      | lit l =>
          exact Or.inr (Or.inr (Or.inl ⟨l, List.mem_singleton.1 hmem⟩))
      | col c => exact hneg _ ih hmem
      | neg e => exact hneg _ ih hmem
      | paren e => exact hneg _ ih hmem
      | bin op l r => exact hneg _ ih hmem
  | paren e ih => exact ih hmem
  | bin op l r ihl ihr =>
      rcases List.mem_append.1 hmem with hmem | hmem
      · rcases List.mem_append.1 hmem with hmem | hmem
        · exact ihl hmem
        · exact ihr hmem
      · exact Or.inr (Or.inr (Or.inr ⟨op, List.mem_singleton.1 hmem⟩))

/-- A token of ordinary characters has no sign. -/
theorem not_spoiled_of_ordinary {token : Str}
    (h : ∀ c ∈ token, Ordinary c) : ¬Spoiled token := by
  intro hspoiled
  obtain ⟨rest, rfl, -⟩ := hspoiled
  exact (h '-' (List.mem_cons_self ..)).ne_minus rfl

/-- No token of a postfix form is spoiled. -/
theorem postfixForm_not_spoiled {e : Expr} {token : Str}
    (hmem : token ∈ e.postfixForm) : ¬Spoiled token := by
  rcases mem_postfixForm hmem with ⟨c, rfl⟩ | ⟨l, rfl⟩ | ⟨l, rfl⟩ | ⟨op, rfl⟩
  · exact not_spoiled_of_ordinary c.plain
  · exact not_spoiled_of_ordinary l.ordinary
  · intro hspoiled
    obtain ⟨rest, hrest, c, hc, hnon⟩ := hspoiled
    rw [← (List.cons.inj hrest).2] at hc
    exact l.numeric c hc hnon
  · intro hspoiled
    obtain ⟨rest, hrest, c, hc, -⟩ := hspoiled
    rw [← (List.cons.inj hrest).2] at hc
    cases hc

/-- No token of a postfix form has a bracket. -/
theorem postfixForm_bracketless {e : Expr} {token : Str}
    (hmem : token ∈ e.postfixForm) : ∀ c ∈ token, c ≠ '(' ∧ c ≠ ')' := by
  intro x hx
  rcases mem_postfixForm hmem with ⟨c, rfl⟩ | ⟨l, rfl⟩ | ⟨l, rfl⟩ | ⟨op, rfl⟩
  · exact (c.plain x hx).2
  · exact (l.ordinary x hx).2
  · rcases List.mem_cons.1 hx with rfl | hx
    · decide
    · exact (l.ordinary x hx).2
  · rw [List.mem_singleton.1 hx]
    exact ⟨char_ne_open op, char_ne_close op⟩

/-- A token of ordinary characters is no operator. -/
theorem isOperatorToken_of_ordinary {token : Str}
    (h : ∀ c ∈ token, Ordinary c) : isOperatorToken token = false := by
  have hne : ∀ c, isOperator c = true → token ≠ [c] := by
    intro c hc htoken
    have hordinary := (h c (htoken ▸ List.mem_cons_self ..)).1
    rw [hc] at hordinary
    cases hordinary
  simp [isOperatorToken, hne '+' rfl, hne '-' rfl, hne '*' rfl, hne '/' rfl]

/-- A negated number is no operator. -/
theorem isOperatorToken_negative (l : Literal) :
    isOperatorToken ('-' :: l.text) = false := by
  simp [isOperatorToken, l.text_ne_nil]

@[simp] theorem isOperatorToken_char (op : BinOp) :
    isOperatorToken [op.char] = true := by
  cases op <;> decide

/-- The number of tokens of a postfix form, and how many of them are
operators, where every sign has become part of a number. -/
theorem postfixForm_count {e : Expr} (h : e.PlainSigns) :
    e.postfixForm.countP isOperatorToken = e.operators
      ∧ e.postfixForm.length = 2 * e.operators + 1 := by
  induction e with
  | col c =>
      simp [postfixForm, operators, isOperatorToken_of_ordinary c.plain]
  | lit l =>
      simp [postfixForm, operators, isOperatorToken_of_ordinary l.ordinary]
  | neg e => exact h.elim
  | paren e ih =>
      by_cases hlit : ∃ l, e = .neg (.lit l)
      · obtain ⟨l, rfl⟩ := hlit
        simp [postfixForm, operators, isOperatorToken_negative]
      · exact ih ((plainSigns_paren (not_exists.1 hlit)).1 h)
  | bin op l r ihl ihr =>
      obtain ⟨hcl, hll⟩ := ihl h.1
      obtain ⟨hcr, hlr⟩ := ihr h.2
      simp [postfixForm, operators, hcl, hll, hcr, hlr]
      omega

/-- The same where a sign may lead. -/
theorem postfixForm_count_left {e : Expr} (h : e.LeftSigns) :
    e.postfixForm.countP isOperatorToken = e.operators
      ∧ e.postfixForm.length = 2 * e.operators + 1 := by
  induction e with
  | col c => exact postfixForm_count (e := .col c) h
  | lit l => exact postfixForm_count (e := .lit l) h
  | paren e => exact postfixForm_count (e := .paren e) h
  | neg e =>
      cases e with
      | lit l => simp [postfixForm, operators, isOperatorToken_negative]
      | col c => exact h.elim
      | neg e => exact h.elim
      | paren e => exact h.elim
      | bin op l r => exact h.elim
  | bin op l r ihl ihr =>
      obtain ⟨hcl, hll⟩ := ihl h.1
      obtain ⟨hcr, hlr⟩ := postfixForm_count h.2
      simp [postfixForm, operators, hcl, hll, hcr, hlr]
      omega

-- ====================================================== the compiler

/-- A whole expression has its signs placed well if they are so at its
left end and the scan does not end there. -/
theorem signsPlaced_iff {e : Expr} :
    e.SignsPlaced ↔ e.LeftSigns ∧ endMode e = .outer := by
  cases e with
  | neg e => simp [SignsPlaced, endMode]
  | col c => simp [SignsPlaced, endMode]
  | lit l => simp [SignsPlaced, endMode]
  | paren e => simp [SignsPlaced, endMode]
  | bin op l r => simp [SignsPlaced, endMode]

/-- A tree with its signs placed well is compiled to its postfix form,
and no other tree is. -/
theorem parseExpress_iff {e : Expr} (hwf : e.WellFormed true) :
    parseExpress e.render [] = .ok e.postfixForm ↔ e.SignsPlaced := by
  have hready : Ready e.prec (Scan.start []) := ⟨rfl, rfl, trivial⟩
  have hleft := scan_left hwf hready rfl
  rw [parseExpress_ok_iff]
  rcases hleft with ⟨hsigns, hmode, pend, hscan⟩
    | ⟨hsigns, token, hspoiled, hmem⟩
  · have hout : flush (scan (Scan.start []) e.render).temp
          (scan (Scan.start []) e.render).stk2
        ++ (scan (Scan.start []) e.render).suffixStk = e.postfixForm := by
      rw [hscan.stack, ← List.append_assoc, hscan.output]
      simp [Scan.start]
    rw [hmode, signsPlaced_iff]
    exact ⟨fun h => ⟨hsigns, h.1⟩, fun h => ⟨h.2, hout⟩⟩
  · constructor
    · intro hout
      have htoken : token ∈ e.postfixForm := by
        rw [← hout.2]
        rcases hmem with hmem | hmem | hmem
        · exact List.mem_append_left _ (mem_flush hspoiled (Or.inl hmem))
        · exact List.mem_append_right _ hmem
        · exact List.mem_append_left _ (mem_flush hspoiled (Or.inr hmem))
      exact (postfixForm_not_spoiled htoken hspoiled).elim
    · intro hplaced
      exact (hsigns (signsPlaced_iff.1 hplaced).1).elim

/-- Where every sign has become part of a number, the check accepts up
to 65535 operators: from there on `num_op` has wrapped. -/
theorem checkExpress_iff {e : Expr} (h : e.LeftSigns) :
    checkExpress e.postfixForm = true ↔ e.operators < 2 ^ 16 := by
  obtain ⟨hcount, hlength⟩ := postfixForm_count_left h
  have hbracket : e.postfixForm.any
      (fun str => str == ['('] || str == [')']) = false := by
    rw [List.any_eq_false]
    intro token htoken
    have hclean := postfixForm_bracketless htoken
    intro hbad
    rcases Bool.or_eq_true_iff.1 hbad with hbad | hbad
    · rw [beq_iff_eq.1 hbad] at hclean
      exact (hclean '(' (List.mem_cons_self ..)).1 rfl
    · rw [beq_iff_eq.1 hbad] at hclean
      exact (hclean ')' (List.mem_cons_self ..)).2 rfl
  have hcontains : e.postfixForm.any
      (fun str => str.contains '(' || str.contains ')') = false := by
    rw [List.any_eq_false]
    intro token htoken
    have hclean := postfixForm_bracketless htoken
    intro hbad
    rcases Bool.or_eq_true_iff.1 hbad with hbad | hbad
    · exact (hclean '(' (List.contains_iff_mem.1 hbad)).1 rfl
    · exact (hclean ')' (List.contains_iff_mem.1 hbad)).2 rfl
  unfold checkExpress
  rw [hbracket, hcontains, hcount, hlength]
  simp only [Bool.not_false, Bool.true_and, Bool.and_true, beq_iff_eq]
  omega

/-- `importExpress` accepts a well formed expression and leaves its
postfix form exactly if its signs are placed well and it has at most
65535 operators. -/
theorem importExpress_iff {e : Expr} (hwf : e.WellFormed true) :
    importExpress e.render .fresh = .ok (0, ⟨e.postfixForm, e.render⟩)
      ↔ e.SignsPlaced ∧ e.operators < 2 ^ 16 := by
  rw [importExpress_ok_iff]
  constructor
  · intro himport
    obtain ⟨tokens, hparse, hcheck, htokens⟩ := himport
    have hform : e.postfixForm = tokens := congrArg Compiler.suffixStk htokens
    subst hform
    have hsigns := (parseExpress_iff hwf).1 hparse
    exact ⟨hsigns,
      (checkExpress_iff (signsPlaced_iff.1 hsigns).1).1 hcheck⟩
  · intro hgood
    obtain ⟨hsigns, hoperators⟩ := hgood
    exact ⟨e.postfixForm, (parseExpress_iff hwf).2 hsigns,
      (checkExpress_iff (signsPlaced_iff.1 hsigns).1).2 hoperators, rfl⟩

end PrimiHub.Executor
