/-
Which strings the compiler treats as the grammar says.

On a string of the grammar the scanner and the grammar agree unless a
sign takes a bracket into its operand: a leading minus takes all up to
the next operator, so its operand has no bracket only if it is an operand
of the grammar; a minus behind a `(` takes all up to the next `)`, and
where there is no bracket before that, it is the `)` of its own bracket
and the whole content becomes one operand. So the parts have the `Shape`
of the grammar without signs, and there operands and operators balance.
-/
import PrimiHub.Executor.Proofs.Accept

namespace PrimiHub.Executor

-- ================================================================== shape

/-- The grammar without signs, over parts. -/
inductive Shape : Phrase → List Part → Prop
  | operand {t : Str} (hne : t ≠ []) (hop : isOperatorToken t = false) :
      Shape .atom (t.map .char)
  | bracket {ps : List Part} (h : Shape .chain ps) :
      Shape .atom (.opening :: (ps ++ [.closing]))
  | single {ps : List Part} (h : Shape .atom ps) : Shape .chain ps
  | binary {ps qs : List Part} (c : Char) (h : Shape .chain ps)
      (h' : Shape .atom qs) : Shape .chain (ps ++ .op c :: qs)

/-- A sign and the text it takes are one operand. -/
theorem Shape.signed {t : Str} (hne : t ≠ []) :
    Shape .atom (('-' :: t).map .char) := by
  have hop : isOperatorToken ('-' :: t) = false := by
    cases t with
    | nil => exact absurd rfl hne
    | cons c t => simp [isOperatorToken]
  exact .operand (List.cons_ne_nil '-' t) hop

/-- A shape closes what it opens. -/
theorem Shape.unclosed {k : Phrase} {ps : List Part} (h : Shape k ps)
    (before : List Part) :
    Executor.unclosed (ps.reverse ++ before) = Executor.unclosed before := by
  induction h generalizing before with
  | @operand t hne hop =>
      clear hne hop
      induction t generalizing before with
      | nil => rfl
      | cons c t ih =>
          rw [List.map_cons, List.reverse_cons, List.append_assoc, ih]
          rfl
  | bracket h ih =>
      rw [List.reverse_cons, List.reverse_append, List.append_assoc,
        List.append_assoc]
      show Executor.unclosed (_ ++ ([Part.opening] ++ before)) - 1 = _
      rw [ih]
      rfl
  | single h ih => exact ih before
  | binary c h h' ih ih' =>
      rw [List.reverse_append, List.reverse_cons, List.append_assoc,
        List.append_assoc, ih']
      exact ih before

theorem operands_chars (before : List Part) (operand t : Str)
    (rest : List Part) :
    operands before operand (t.map .char ++ rest)
      = operands ((t.map Part.char).reverse ++ before) (operand ++ t)
        rest := by
  induction t generalizing before operand with
  | nil => simp
  | cons c t ih =>
      show operands (.char c :: before) (operand ++ [c]) (t.map .char ++ rest)
        = _
      rw [ih]
      simp

theorem operands_closing (before : List Part) (operand : Str)
    (rest : List Part) :
    operands before operand (.closing :: rest)
      = (if operatorAt 0 before then flush operand [] else [])
        ++ operands (.closing :: before)
          (if operatorAt 0 before then [] else operand) rest := rfl

/-- A shape has one operand more than operators, and no operand of it
looks like an operator. -/
theorem Shape.operands {k : Phrase} {ps : List Part} (h : Shape k ps)
    (before rest : List Part) :
    ∃ done operand,
      Executor.operands before [] (ps ++ rest)
        = done ++ Executor.operands (ps.reverse ++ before) operand rest
      ∧ (done ++ flush operand []).length = (operatorTokens ps).length + 1
      ∧ ∀ t ∈ done ++ flush operand [], isOperatorToken t = false := by
  induction h generalizing before rest with
  | @operand t hne hop =>
      refine ⟨[], t, operands_chars before [] t rest, ?_, ?_⟩
      · have hnone : operatorTokens (t.map .char) = [] := by
          clear hne hop
          induction t with
          | nil => rfl
          | cons c t ih => exact ih
        rw [hnone, flush_of_ne_nil hne]
        rfl
      · rw [flush_of_ne_nil hne]
        intro x hx
        rw [List.mem_singleton.mp hx]
        exact hop
  | @bracket ps h ih =>
      obtain ⟨done, operand, heq, hlen, hop⟩ :=
        ih (.opening :: before) (.closing :: rest)
      have hops : operatorTokens (.opening :: (ps ++ [.closing]))
          = operatorTokens ps := by
        show operatorTokens (ps ++ [.closing]) = _
        rw [operatorTokens_append]
        exact List.append_nil _
      have hopen : Executor.operands before []
          (.opening :: (ps ++ [.closing]) ++ rest)
          = Executor.operands (.opening :: before) []
            (ps ++ .closing :: rest) := by
        rw [List.cons_append, List.append_assoc]
        rfl
      have hrev : (Part.opening :: (ps ++ [.closing])).reverse ++ before
          = .closing :: (ps.reverse ++ .opening :: before) := by
        simp
      rw [hopen, heq, hops, hrev]
      -- the closing bracket ends the operand, or passes it on
      cases hends : operatorAt 0 (ps.reverse ++ .opening :: before) with
      | true =>
          refine ⟨done ++ flush operand [], [], ?_, ?_, ?_⟩
          · rw [operands_closing, hends, if_pos rfl, if_pos rfl,
              List.append_assoc]
          · rw [flush_nil, List.append_nil, hlen]
          · rw [flush_nil, List.append_nil]
            exact hop
      | false =>
          refine ⟨done, operand, ?_, hlen, hop⟩
          rw [operands_closing, hends, if_neg Bool.false_ne_true,
            if_neg Bool.false_ne_true, List.nil_append]
  | single h ih => exact ih before rest
  | @binary ps qs c h h' ih ih' =>
      obtain ⟨done, operand, heq, hlen, hop⟩ :=
        ih before (.op c :: (qs ++ rest))
      obtain ⟨done', operand', heq', hlen', hop'⟩ :=
        ih' (.op c :: (ps.reverse ++ before)) rest
      refine ⟨done ++ flush operand [] ++ done', operand', ?_, ?_, ?_⟩
      · rw [List.append_assoc, List.cons_append, heq]
        show done ++ (flush operand []
          ++ Executor.operands (.op c :: (ps.reverse ++ before)) []
            (qs ++ rest)) = _
        rw [heq']
        simp
      · rw [operatorTokens_append, List.append_assoc, List.length_append, hlen,
          hlen', List.length_append]
        simp only [operatorTokens, List.length_cons]
        omega
      · intro t ht
        rw [List.append_assoc] at ht
        obtain ht | ht := List.mem_append.mp ht
        · exact hop t ht
        · exact hop' t ht

/-- A string whose parts have the shape is accepted, short of a 16 bit
overflow. -/
theorem Shape.balanced_iff {expr : Str}
    (h : Shape .chain (readParts expr)) :
    Balanced expr ↔ NoBracketTaken (readParts expr)
      ∧ (operatorTokens (readParts expr)).length < 2 ^ 16 := by
  obtain ⟨done, operand, heq, hlen, hop⟩ := h.operands [] []
  have hall : Executor.operands [] [] (readParts expr)
      = done ++ flush operand [] := by
    rw [List.append_nil] at heq
    exact heq
  have hnone : (Executor.operands [] [] (readParts expr)).countP
      isOperatorToken = 0 := by
    rw [hall, List.countP_eq_zero]
    intro t ht
    rw [hop t ht]
    exact Bool.false_ne_true
  have hcount : (Executor.operands [] [] (readParts expr)).countP
      (fun t => !isOperatorToken t)
      = (operatorTokens (readParts expr)).length + 1 := by
    rw [hall, ← hlen, List.countP_eq_length]
    intro t ht
    rw [hop t ht]
    rfl
  have hclosed : Executor.unclosed (readParts expr).reverse = 0 := by
    have hrev := h.unclosed []
    rw [List.append_nil] at hrev
    exact hrev
  constructor
  · intro hbal
    refine ⟨hbal.untaken, ?_⟩
    obtain ⟨-, hlt⟩ | ⟨hzero, -⟩ := hbal.balance
    · rwa [hnone, Nat.zero_add] at hlt
    · rw [hcount] at hzero
      cases hzero
  · intro hc
    obtain ⟨huntaken, hlt⟩ := hc
    refine ⟨hclosed, huntaken, Or.inl ?_⟩
    rw [hnone, hcount, Nat.zero_add]
    exact ⟨rfl, hlt⟩

-- =============================================================== brackets

/-- In a string of the grammar a `(` stands before the first `)`. -/
theorem Derives.open_before_close {k : Phrase} {t : Str} (h : Derives k t)
    {front back : Str} (ht : t = front ++ ')' :: back)
    (hfirst : ')' ∉ front) : '(' ∈ front := by
  induction h generalizing front back with
  | operand hne h =>
      have hmem : ')' ∈ front ++ ')' :: back :=
        List.mem_append_right _ List.mem_cons_self
      rw [← ht] at hmem
      exact absurd rfl (h ')' hmem).2.2
  | bracket h ih =>
      -- the bracket itself stands first
      cases front with
      | nil => cases ht
      | cons c front =>
          injection ht with hc _
          rw [← hc]
          exact List.mem_cons_self
  | single h ih => exact ih ht hfirst
  | @binary t t' op h h' ih ih' =>
      obtain ⟨x, hfront, hrest⟩ | ⟨x, hfront, hrest⟩ :=
        List.append_eq_append_iff.mp ht
      · -- the first `)` is in the right operand
        cases x with
        | nil =>
            injection hrest with hc _
            exact absurd hc (char_ne_close op)
        | cons c x =>
            injection hrest with _ hrest
            have hx : ')' ∉ x := by
              intro hmem
              apply hfirst
              rw [hfront]
              exact List.mem_append_right _ (List.mem_cons_of_mem _ hmem)
            rw [hfront]
            exact List.mem_append_right _
              (List.mem_cons_of_mem _ (ih' hrest hx))
      · cases x with
        | nil =>
            injection hrest with hc _
            exact absurd hc.symm (char_ne_close op)
        | cons c x =>
            injection hrest with hc _
            rw [← hc] at hfront
            exact ih hfront hfirst
  | plain h ih => exact ih ht hfirst
  | signed h ih =>
      cases front with
      | nil =>
          injection ht with hc _
          cases hc
      | cons c front =>
          injection ht with _ ht
          exact List.mem_cons_of_mem _
            (ih ht fun hmem => hfirst (List.mem_cons_of_mem _ hmem))

/-- A string of the grammar ends in no `(`. -/
theorem Derives.getLast? {k : Phrase} {t : Str} (h : Derives k t) :
    ∃ c, t.getLast? = some c ∧ c ≠ '(' := by
  induction h with
  | @operand t hne h =>
      obtain ⟨c, hc⟩ := Option.ne_none_iff_exists'.mp
        (mt List.getLast?_eq_none_iff.mp hne)
      exact ⟨c, hc, (h c (List.mem_of_getLast? hc)).2.1⟩
  | @bracket t h ih =>
      refine ⟨')', ?_, by decide⟩
      rw [← List.cons_append, List.getLast?_concat]
  | single h ih => exact ih
  | @binary t t' op h h' ih ih' =>
      obtain ⟨c, hc, hopen⟩ := ih'
      refine ⟨c, ?_, hopen⟩
      rw [List.getLast?_append, List.getLast?_cons, hc]
      rfl
  | plain h ih => exact ih
  | signed h ih =>
      obtain ⟨c, hc, hopen⟩ := ih
      refine ⟨c, ?_, hopen⟩
      rw [List.getLast?_cons, hc]
      rfl

-- ================================================================== texts

theorem parts_append (prev : Option Char) (mode : Mode) (a b : Str) :
    parts prev mode (a ++ b)
      = parts prev mode a
        ++ parts (a.getLast?.or prev) (modeAfter prev mode a) b := by
  induction a generalizing prev mode with
  | nil => rfl
  | cons c a ih =>
      rw [List.cons_append, parts, ih, parts, modeAfter, List.cons_append]
      cases a with
      | nil => rfl
      | cons d a => rw [List.getLast?_cons_cons]; simp [List.getLast?_cons]

theorem modeAfter_append (prev : Option Char) (mode : Mode) (a b : Str) :
    modeAfter prev mode (a ++ b)
      = modeAfter (a.getLast?.or prev) (modeAfter prev mode a) b := by
  induction a generalizing prev mode with
  | nil => rfl
  | cons c a ih =>
      rw [List.cons_append, modeAfter, ih, modeAfter]
      cases a with
      | nil => rfl
      | cons d a => rw [List.getLast?_cons_cons]; simp [List.getLast?_cons]

/-- Text of which every character is taken into the operand. -/
theorem parts_taken {mode : Mode} {t : Str}
    (h : ∀ prev, ∀ c ∈ t, classify prev mode c = (.char c, mode))
    (prev : Option Char) :
    parts prev mode t = t.map .char ∧ modeAfter prev mode t = mode := by
  induction t generalizing prev with
  | nil => exact ⟨rfl, rfl⟩
  | cons c t ih =>
      have hc := h prev c List.mem_cons_self
      obtain ⟨hparts, hend⟩ :=
        ih (fun p x hx => h p x (List.mem_cons_of_mem _ hx)) (some c)
      rw [parts, modeAfter, hc, hparts, hend]
      exact ⟨rfl, rfl⟩

theorem noBracketTaken_append {ps qs : List Part} :
    NoBracketTaken (ps ++ qs) ↔ NoBracketTaken ps ∧ NoBracketTaken qs := by
  constructor
  · intro h
    exact ⟨fun c hc => h c (List.mem_append_left _ hc),
      fun c hc => h c (List.mem_append_right _ hc)⟩
  · intro hboth c hc
    obtain ⟨hp, hq⟩ := hboth
    obtain hc | hc := List.mem_append.mp hc
    · exact hp c hc
    · exact hq c hc

theorem NoBracketTaken.front {prev : Option Char} {mode : Mode}
    {a b : Str} (h : NoBracketTaken (parts prev mode (a ++ b))) :
    NoBracketTaken (parts prev mode a) := by
  rw [parts_append] at h
  exact (noBracketTaken_append.mp h).1

theorem NoBracketTaken.of_cons {p : Part} {ps : List Part}
    (h : NoBracketTaken (p :: ps)) : NoBracketTaken ps :=
  fun c hc => h c (List.mem_cons_of_mem _ hc)

theorem classify_ordinary {prev : Option Char} {c : Char}
    (hc : isOperator c = false ∧ c ≠ '(' ∧ c ≠ ')') :
    classify prev .outer c = (.char c, .outer) := by
  have hminus : c ≠ '-' := Ordinary.ne_minus hc
  simp [classify, classifyOuter, hc.1, hc.2.1, hc.2.2, hminus]

theorem classify_open (prev : Option Char) :
    classify prev .outer '(' = (.opening, .outer) := by
  simp [classify, classifyOuter, isOperator]

theorem classify_close {prev : Option Char} {mode : Mode}
    (hmode : mode ≠ .untilOperator) :
    classify prev mode ')' = (.closing, .outer) := by
  cases mode with
  | untilOperator => exact absurd rfl hmode
  | outer => simp [classify, classifyOuter, isOperator]
  | untilClose => simp [classify, classifyOuter, isOperator]

/-- An operator behind an operand or a bracket. -/
theorem classify_operator {x : Char} (hx : x ≠ '(') {mode : Mode}
    (hmode : mode ≠ .untilClose) (op : BinOp) :
    classify (some x) mode op.char = (.op op.char, .outer) := by
  cases mode with
  | untilClose => exact absurd rfl hmode
  | outer => simp [classify, classifyOuter, hx]
  | untilOperator => simp [classify, classifyOuter, hx]

-- ================================================================ reading

/-- How a string of the grammar is read where no bracket is taken: with
the shape of the grammar. An expression is read as the content of a
bracket. -/
def Reads : Phrase → Str → Prop
  | .expression, t =>
      NoBracketTaken (parts (some '(') .outer t) →
        modeAfter (some '(') .outer t ≠ .untilOperator
          ∧ Shape .chain (parts (some '(') .outer t)
  | k, t =>
      ∀ prev, NoBracketTaken (parts prev .outer t) →
        modeAfter prev .outer t = .outer ∧ Shape k (parts prev .outer t)

/-- A chain and one more atom, from where the chain has been read. -/
theorem parts_binary {t : Str} (t' : Str) (op : BinOp) {prev : Option Char}
    {mode : Mode} (hlast : ∃ c, t.getLast? = some c ∧ c ≠ '(')
    (hend : modeAfter prev mode t ≠ .untilClose) :
    parts prev mode (t ++ op.char :: t')
        = parts prev mode t
          ++ .op op.char :: parts (some op.char) .outer t'
      ∧ modeAfter prev mode (t ++ op.char :: t')
        = modeAfter (some op.char) .outer t' := by
  obtain ⟨c, hc, hopen⟩ := hlast
  rw [parts_append, modeAfter_append, hc, parts, modeAfter]
  show parts prev mode t
      ++ (classify (some c) (modeAfter prev mode t) op.char).1 :: _ = _ ∧ _ = _
  rw [show (some c).or prev = some c from rfl,
    classify_operator hopen hend op]
  exact ⟨rfl, rfl⟩

/-- A sign behind a `(` takes the content of the bracket, and no bracket
is in it only if it has none. -/
theorem reads_signed {t : Str} (h : Derives .chain t) (hne : t ≠ [])
    (huntaken : NoBracketTaken (parts (some '(') .outer ('-' :: t))) :
    modeAfter (some '(') .outer ('-' :: t) ≠ .untilOperator
      ∧ Shape .chain (parts (some '(') .outer ('-' :: t)) := by
  have hminus : classify (some '(') .outer '-' = (.char '-', .untilClose) := by
    simp [classify, classifyOuter]
  have htaken : ∀ prev, ∀ c : Char, c ≠ ')' →
      classify prev .untilClose c = (.char c, .untilClose) := by
    intro prev c hc
    rw [classify, if_neg hc]
  rw [parts, hminus] at huntaken
  rw [parts, modeAfter, hminus]
  by_cases hclose : ')' ∈ t
  · -- the first `)` has a `(` before it, and the sign takes that
    exfalso
    obtain ⟨front, back, ht, hfirst⟩ := List.eq_append_cons_of_mem hclose
    have hopen := h.open_before_close ht hfirst
    have hfront := (parts_taken (fun prev c hc => htaken prev c
      fun h => hfirst (h ▸ hc)) (some '-')).1
    rw [ht, parts_append, hfront] at huntaken
    have hbracket := (noBracketTaken_append.mp huntaken.of_cons).1 '('
      (List.mem_map_of_mem hopen)
    exact hbracket.1 rfl
  · obtain ⟨hparts, hend⟩ := parts_taken
      (fun prev c hc => htaken prev c fun h => hclose (h ▸ hc)) (some '-')
    rw [hparts, hend]
    refine ⟨by decide, .single ?_⟩
    exact Shape.signed hne

theorem Derives.ne_nil {k : Phrase} {t : Str} (h : Derives k t) : t ≠ [] := by
  obtain ⟨c, hc, -⟩ := h.getLast?
  rintro rfl
  cases hc

theorem Derives.reads {k : Phrase} {t : Str} (h : Derives k t) :
    Reads k t := by
  induction h with
  | @operand t hne h =>
      intro prev _
      obtain ⟨hparts, hend⟩ := parts_taken
        (fun prev c hc => classify_ordinary (h c hc)) prev
      rw [hparts, hend]
      refine ⟨rfl, Shape.operand hne ?_⟩
      cases t with
      | nil => exact absurd rfl hne
      | cons c t =>
          have hc := (h c List.mem_cons_self).1
          simp [isOperator] at hc
          simp [isOperatorToken, hc]
  | @bracket t h ih =>
      intro prev huntaken
      obtain ⟨c, hc, -⟩ := h.getLast?
      rw [parts, classify_open, parts_append, hc] at huntaken
      rw [parts, modeAfter, classify_open, parts_append, modeAfter_append, hc]
      obtain ⟨hend, hshape⟩ :=
        ih (noBracketTaken_append.mp huntaken.of_cons).1
      have hclose : classify ((some c).or (some '(')) _ ')'
          = (.closing, .outer) := classify_close hend
      rw [parts, modeAfter, hclose]
      exact ⟨rfl, .bracket hshape⟩
  | single h ih =>
      intro prev huntaken
      obtain ⟨hend, hshape⟩ := ih prev huntaken
      exact ⟨hend, .single hshape⟩
  | @binary t t' op h h' ih ih' =>
      intro prev huntaken
      obtain ⟨hend, hshape⟩ := ih prev huntaken.front
      have hne : modeAfter prev .outer t ≠ .untilClose := by
        rw [hend]
        decide
      obtain ⟨hparts, hends⟩ := parts_binary t' op h.getLast? hne
      rw [hparts] at huntaken
      rw [hparts, hends]
      obtain ⟨hend', hshape'⟩ :=
        ih' (some op.char) (noBracketTaken_append.mp huntaken).2.of_cons
      exact ⟨hend', .binary op.char hshape hshape'⟩
  | plain h ih =>
      intro huntaken
      obtain ⟨hend, hshape⟩ := ih (some '(') huntaken
      rw [hend]
      exact ⟨by decide, hshape⟩
  | signed h ih => exact reads_signed h h.ne_nil

/-- How a chain is read behind a leading minus: as one operand to its
end, or with the shape of the grammar. -/
theorem Derives.reads_leading {k : Phrase} {t : Str} (h : Derives k t)
    (hk : k ≠ .expression) (prev : Option Char)
    (huntaken : NoBracketTaken (parts prev .untilOperator t)) :
    (modeAfter prev .untilOperator t = .untilOperator
        ∧ parts prev .untilOperator t = t.map .char)
      ∨ (modeAfter prev .untilOperator t = .outer
        ∧ Shape .chain (.char '-' :: parts prev .untilOperator t)) := by
  have htaken : ∀ prev, ∀ c : Char, isOperator c = false →
      classify prev .untilOperator c = (.char c, .untilOperator) := by
    intro prev c hc
    rw [classify, hc, if_neg Bool.false_ne_true]
  induction h with
  | @operand t hne h =>
      left
      exact (parts_taken (fun prev c hc => htaken prev c (h c hc).1) prev).symm
  | @bracket t h ih =>
      exfalso
      rw [parts, htaken prev '(' rfl] at huntaken
      exact (huntaken '(' List.mem_cons_self).1 rfl
  | single h ih => exact ih (by decide) huntaken
  | @binary t t' op h h' ih ih' =>
      right
      have hchain := ih (by decide) huntaken.front
      have hne : modeAfter prev .untilOperator t ≠ .untilClose := by
        obtain ⟨hend, -⟩ | ⟨hend, -⟩ := hchain <;> rw [hend] <;> decide
      obtain ⟨hparts, hends⟩ := parts_binary t' op h.getLast? hne
      rw [hparts] at huntaken
      obtain ⟨hend', hshape'⟩ := h'.reads (some op.char)
        (noBracketTaken_append.mp huntaken).2.of_cons
      rw [hparts, hends]
      refine ⟨hend', ?_⟩
      rw [← List.cons_append]
      obtain ⟨-, htext⟩ | ⟨-, hshape⟩ := hchain
      · -- the sign and its operand, up to the operator
        rw [htext]
        exact .binary op.char (.single (Shape.signed h.ne_nil)) hshape'
      · exact .binary op.char hshape hshape'
  | plain h ih => exact absurd rfl hk
  | signed h ih => exact absurd rfl hk

/-- An expression whose signs find their end and take no bracket has the
shape of the grammar. -/
theorem Derives.shape {expr : Str} (h : Derives .expression expr)
    (hend : SignsEnd expr) (huntaken : NoBracketTaken (readParts expr)) :
    Shape .chain (readParts expr) := by
  cases h with
  | plain h => exact (h.reads none huntaken).2
  | @signed t h =>
      have hminus : classify none .outer '-' = (.char '-', .untilOperator) := by
        simp [classify, classifyOuter]
      unfold SignsEnd at hend
      unfold readParts at huntaken ⊢
      rw [modeAfter, hminus] at hend
      rw [parts, hminus] at huntaken ⊢
      obtain ⟨hend', -⟩ | ⟨-, hshape⟩ :=
        h.reads_leading (by decide) (some '-') huntaken.of_cons
      · -- no operator comes, and the inner loop runs past the end
        rw [hend'] at hend
        cases hend
      · exact hshape

-- =============================================================== acceptance

/-- `importExpress` does with a string what the grammar says exactly if
every sign finds its end, an expression has no bracket behind a sign and
less than 65536 operators outside the signs' operands, and in a string
that is no expression operands and operators do not balance. -/
theorem import_conforms_iff (expr : Str) :
    Conforms expr ↔ SignsEnd expr
      ∧ (Derives .expression expr → NoBracketTaken (readParts expr)
        ∧ (operatorTokens (readParts expr)).length < 2 ^ 16)
      ∧ (¬ Derives .expression expr → ¬ Balanced expr) := by
  unfold Conforms
  rw [import_zero_iff, import_minus_iff]
  constructor
  · intro hc
    obtain ⟨hderives, hend, hbal⟩ | ⟨hderives, hend, hbal⟩ := hc
    · refine ⟨hend, ?_, fun h => absurd hderives h⟩
      intro _
      exact (hderives.shape hend hbal.untaken).balanced_iff.mp hbal
    · exact ⟨hend, fun h => absurd h hderives, fun _ => hbal⟩
  · intro hc
    obtain ⟨hend, hyes, hno⟩ := hc
    by_cases hderives : Derives .expression expr
    · left
      have hok := hyes hderives
      exact ⟨hderives, hend,
        (hderives.shape hend hok.1).balanced_iff.mpr hok⟩
    · right
      exact ⟨hderives, hend, hno hderives⟩

/-- A `)` that closes nothing is passed over. -/
theorem import_extra_close : ¬ Conforms "a)".toList := by
  have hnot : ¬ Derives .expression "a)".toList := by
    intro h
    have ht : "a)".toList = ['a'] ++ ')' :: [] := rfl
    have hopen := h.open_before_close ht (by decide)
    revert hopen
    decide
  intro hc
  obtain ⟨h, -⟩ | ⟨-, ex, h⟩ := hc
  · exact hnot h
  · cases h

end PrimiHub.Executor
