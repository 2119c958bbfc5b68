/-
When the run mode of an expression is resolved.

`getColumnDtype` raises on a name that is no column, so the fold over the
tokens goes on exactly as long as the operands are columns
(`resolveTokens_ok_iff`); the branch for literals is never taken. What the
fold returns is then said token by token (`resolveTokens_spec`), and the
characters of the tokens are those of the expression, brackets apart
(`mem_expr_iff`).
-/
import PrimiHub.Executor.Columns
import PrimiHub.Executor.Proofs.Accept

namespace PrimiHub.Executor

-- ================================================================== tokens

theorem mem_operandTokens {suffixStk : List Str} {token : Str} :
    token ∈ operandTokens suffixStk
      ↔ token ∈ suffixStk ∧ isOperatorToken token = false := by
  rw [operandTokens, List.mem_filter, Bool.not_eq_true']

theorem resolveToken_operator (cfg : ColumnConfig)
    (acc : Map TokenType × Bool) {token : Str}
    (h : isOperatorToken token = true) :
    resolveToken cfg acc token = .ok (acc.1, acc.2 || token == ['/']) :=
  if_pos h

theorem resolveToken_column {cfg : ColumnConfig}
    (acc : Map TokenType × Bool) {token : Str}
    (h : isOperatorToken token = false) (hcol : cfg.HasColumn token) :
    resolveToken cfg acc token
      = .ok (insertType acc.1 token .column, acc.2) := by
  obtain ⟨dtype, hdtype⟩ := Option.isSome_iff_exists.mp hcol
  simp [resolveToken, h, ColumnConfig.getColumnDtype, hdtype, bind,
    Except.bind]

/-- The type of a token that is no column is asked for in vain. -/
theorem resolveToken_unknown {cfg : ColumnConfig}
    (acc : Map TokenType × Bool) {token : Str}
    (h : isOperatorToken token = false) (hcol : ¬ cfg.HasColumn token) :
    ∃ fault, resolveToken cfg acc token = .error fault := by
  have hnone : cfg.colDtype.lookup token = none := by
    rwa [ColumnConfig.HasColumn, Option.not_isSome_iff_eq_none] at hcol
  simp [resolveToken, h, ColumnConfig.getColumnDtype, hnone, bind,
    Except.bind]

/-- The fold goes through where every operand is a column. -/
theorem resolveTokens_ok_iff (cfg : ColumnConfig) (suffixStk : List Str)
    (acc : Map TokenType × Bool) :
    (∃ r, suffixStk.foldlM (resolveToken cfg) acc = .ok r)
      ↔ ∀ token ∈ operandTokens suffixStk, cfg.HasColumn token := by
  induction suffixStk generalizing acc with
  | nil =>
      exact iff_of_true ⟨acc, rfl⟩ fun _ h => absurd h List.not_mem_nil
  | cons token rest ih =>
      rw [List.foldlM_cons, operandTokens, List.filter_cons]
      cases hop : isOperatorToken token with
      | true =>
          rw [resolveToken_operator cfg acc hop]
          exact ih _
      | false =>
          rw [if_pos (by rfl), List.forall_mem_cons]
          by_cases hcol : cfg.HasColumn token
          · rw [resolveToken_column acc hop hcol]
            exact (ih _).trans (and_iff_right hcol).symm
          · obtain ⟨fault, hfault⟩ := resolveToken_unknown acc hop hcol
            rw [hfault]
            refine iff_of_false ?_ fun h => hcol h.1
            rintro ⟨r, hr⟩
            cases hr

/-- A token keeps the type it has. -/
theorem lookup_insertType {typeMap : Map TokenType} {token name : Str}
    (h : typeMap.lookup name = some .column) :
    (insertType typeMap token .column).lookup name = some .column := by
  unfold insertType
  split
  · exact h
  · rw [List.lookup_cons]
    split
    · rfl
    · exact h

/-- Where all types in the map are columns, the token is one, too. -/
theorem lookup_insertType_self {typeMap : Map TokenType} {token : Str}
    (h : ∀ name type, typeMap.lookup name = some type → type = .column) :
    (insertType typeMap token .column).lookup token = some .column := by
  unfold insertType
  split
  · rename_i hsome
    obtain ⟨type, htype⟩ := Option.isSome_iff_exists.mp hsome
    rw [htype, h token type htype]
  · exact List.lookup_cons_self

/-- What the fold returns: the operands as columns, and whether there is a
division. -/
theorem resolveTokens_spec {cfg : ColumnConfig} {suffixStk : List Str}
    {acc r : Map TokenType × Bool}
    (h : suffixStk.foldlM (resolveToken cfg) acc = .ok r)
    (hacc : ∀ name type, acc.1.lookup name = some type → type = .column) :
    r.2 = (acc.2 || decide (['/'] ∈ suffixStk))
      ∧ (∀ name, acc.1.lookup name = some .column →
        r.1.lookup name = some .column)
      ∧ ∀ token ∈ operandTokens suffixStk,
        r.1.lookup token = some .column := by
  induction suffixStk generalizing acc with
  | nil =>
      cases h
      refine ⟨(Bool.or_false _).symm, fun _ hname => hname, ?_⟩
      exact fun _ htoken => absurd htoken List.not_mem_nil
  | cons token rest ih =>
      have hall := (resolveTokens_ok_iff cfg (token :: rest) acc).mp ⟨r, h⟩
      rw [List.foldlM_cons] at h
      cases hop : isOperatorToken token with
      | true =>
          -- an operator leaves the map and may be the division
          rw [resolveToken_operator cfg acc hop] at h
          obtain ⟨hmode, hkeep, htypes⟩ := ih h hacc
          refine ⟨?_, hkeep, ?_⟩
          · rw [hmode, Bool.or_assoc]
            congr 1
            rw [Bool.eq_iff_iff, Bool.or_eq_true, beq_iff_eq,
              decide_eq_true_iff, decide_eq_true_iff, List.mem_cons]
            exact or_congr_left eq_comm
          · rw [operandTokens, List.filter_cons_of_neg (by rw [hop]; decide)]
            exact htypes
      | false =>
          -- an operand is entered as a column, unless it is there
          have hcol : cfg.HasColumn token :=
            hall token (mem_operandTokens.mpr ⟨List.mem_cons_self, hop⟩)
          rw [resolveToken_column acc hop hcol] at h
          obtain ⟨hmode, hkeep, htypes⟩ := ih h (by
            intro name type htype
            unfold insertType at htype
            split at htype
            · exact hacc name type htype
            · rw [List.lookup_cons] at htype
              split at htype
              · cases htype
                rfl
              · exact hacc name type htype)
          have hself : (insertType acc.1 token .column).lookup token
              = some .column := lookup_insertType_self hacc
          refine ⟨?_, fun name hname => hkeep name (lookup_insertType hname),
            ?_⟩
          · rw [hmode]
            congr 1
            rw [Bool.eq_iff_iff, decide_eq_true_iff, decide_eq_true_iff,
              List.mem_cons]
            refine (or_iff_right ?_).symm
            rintro rfl
            cases hop
          · rw [operandTokens, List.filter_cons_of_pos (by rw [hop]; decide),
              List.forall_mem_cons]
            exact ⟨hkeep token hself, htypes⟩

-- =============================================================== characters

/-- The part of a character tells which character it was. -/
theorem classify_part (prev : Option Char) (mode : Mode) (c : Char) :
    (classify prev mode c).1 = .char c ∨ (classify prev mode c).1 = .op c
      ∨ ((classify prev mode c).1 = .opening ∧ c = '(')
      ∨ ((classify prev mode c).1 = .closing ∧ c = ')') := by
  have houter : (classifyOuter prev c).1 = .char c
      ∨ (classifyOuter prev c).1 = .op c
      ∨ ((classifyOuter prev c).1 = .opening ∧ c = '(')
      ∨ ((classifyOuter prev c).1 = .closing ∧ c = ')') := by
    unfold classifyOuter
    split
    · exact Or.inl rfl
    split
    · exact Or.inl rfl
    split
    · exact Or.inr (Or.inl rfl)
    split
    · rename_i hopen
      exact Or.inr (Or.inr (Or.inl ⟨rfl, hopen⟩))
    split
    · rename_i hclose
      exact Or.inr (Or.inr (Or.inr ⟨rfl, hclose⟩))
    · exact Or.inl rfl
  cases mode with
  | outer => exact houter
  | untilOperator =>
      rw [classify]
      split
      · exact houter
      · exact Or.inl rfl
  | untilClose =>
      rw [classify]
      split
      · exact houter
      · exact Or.inl rfl

/-- A character that is no bracket is in an operand or an operator. -/
theorem mem_parts_iff {prev : Option Char} {mode : Mode} {text : Str}
    {d : Char} (hopen : d ≠ '(') (hclose : d ≠ ')') :
    d ∈ text ↔ Part.char d ∈ parts prev mode text
      ∨ Part.op d ∈ parts prev mode text := by
  induction text generalizing prev mode with
  | nil => simp [parts]
  | cons c rest ih =>
      rw [parts, List.mem_cons, List.mem_cons, List.mem_cons,
        @ih (some c) (classify prev mode c).2]
      obtain hpart | hpart | ⟨hpart, rfl⟩ | ⟨hpart, rfl⟩ :=
        classify_part prev mode c
      · simp only [hpart, Part.char.injEq, reduceCtorEq, false_or, or_assoc]
      · simp only [hpart, Part.op.injEq, reduceCtorEq, false_or]
        exact or_left_comm
      · simp only [hpart, reduceCtorEq, hopen, false_or]
      · simp only [hpart, reduceCtorEq, hclose, false_or]

theorem mem_operatorTokens {ps : List Part} {c : Char} :
    [c] ∈ operatorTokens ps ↔ Part.op c ∈ ps := by
  induction ps with
  | nil => simp [operatorTokens]
  | cons p ps ih => cases p <;> simp [operatorTokens, ih]

/-- The characters of an expression are those of its tokens, brackets
apart. -/
theorem mem_expr_iff {expr : Str} {tokens : List Str}
    (h : parseExpress expr [] = .ok tokens) {d : Char} (hopen : d ≠ '(')
    (hclose : d ≠ ')') : d ∈ expr ↔ ∃ token ∈ tokens, d ∈ token := by
  have hperm := parseExpress_perm h
  have hops := operatorTokens_spec fun c (hc : Part.op c ∈ readParts expr) =>
    parts_op hc
  have hflat : (operands [] [] (readParts expr)).flatten
      = chars (readParts expr) := flatten_operands [] [] (readParts expr)
  have hread : d ∈ expr ↔ Part.char d ∈ readParts expr
      ∨ Part.op d ∈ readParts expr := mem_parts_iff hopen hclose
  rw [hread, ← mem_chars, ← hflat, List.mem_flatten, ← mem_operatorTokens]
  refine ⟨?_, ?_⟩
  · rintro (⟨token, htoken, hd⟩ | hop)
    · refine ⟨token, hperm.mem_iff.mpr ?_, hd⟩
      exact List.mem_append_left _ (List.mem_append_left _ htoken)
    · refine ⟨[d], hperm.mem_iff.mpr ?_, List.mem_singleton_self d⟩
      exact List.mem_append_left _ (List.mem_append_right _ hop)
  · rintro ⟨token, htoken, hd⟩
    obtain hleft | hbracket := List.mem_append.mp (hperm.mem_iff.mp htoken)
    · obtain hoperand | hop := List.mem_append.mp hleft
      · exact Or.inl ⟨token, hoperand, hd⟩
      · obtain ⟨c, rfl, -⟩ := hops token hop
        rw [List.mem_singleton.mp hd]
        exact Or.inr hop
    · rw [List.eq_of_mem_replicate hbracket] at hd
      exact absurd (List.mem_singleton.mp hd) hopen

/-- A slash is a division, or in an operand. -/
theorem mem_slash_iff {expr : Str} {tokens : List Str}
    (h : parseExpress expr [] = .ok tokens) :
    '/' ∈ expr ↔ ['/'] ∈ tokens
      ∨ ∃ token ∈ operandTokens tokens, '/' ∈ token := by
  rw [mem_expr_iff h (by decide) (by decide)]
  refine ⟨?_, ?_⟩
  · rintro ⟨token, htoken, hslash⟩
    cases hop : isOperatorToken token with
    | false =>
        exact Or.inr ⟨token, mem_operandTokens.mpr ⟨htoken, hop⟩, hslash⟩
    | true =>
        left
        simp only [isOperatorToken, Bool.or_eq_true, beq_iff_eq] at hop
        obtain ((rfl | rfl) | rfl) | rfl := hop
        · exact absurd hslash (by decide)
        · exact absurd hslash (by decide)
        · exact absurd hslash (by decide)
        · exact htoken
  · rintro (hdivision | ⟨token, htoken, hslash⟩)
    · exact ⟨['/'], hdivision, List.mem_singleton_self _⟩
    · exact ⟨token, (mem_operandTokens.mp htoken).1, hslash⟩

-- =========================================================== local columns

/-- The owners and types of imported columns go together. -/
theorem resolveLocalColumn_isOk {cfg : ColumnConfig} (h : cfg.Matching) :
    ∃ cfg', cfg.resolveLocalColumn = .ok cfg'
      ∧ cfg'.colDtype = cfg.colDtype := by
  have hlength : cfg.colDtype.length = cfg.colOwner.length := by
    have heq := h.length_eq
    rw [List.length_map, List.length_map] at heq
    exact heq.symm
  have hfind : cfg.colOwner.find?
      (fun c => (cfg.colDtype.lookup c.1).isNone) = none := by
    rw [List.find?_eq_none]
    intro c hc hnone
    rw [Option.isNone_iff_eq_none, List.lookup_eq_none_iff] at hnone
    have hmem := h.mem_iff.mp (List.mem_map_of_mem hc)
    obtain ⟨d, hd, hname⟩ := List.mem_map.mp hmem
    have hne := hnone d hd
    rw [bne_iff_ne] at hne
    exact hne hname.symm
  unfold ColumnConfig.resolveLocalColumn
  rw [if_neg (not_not.mpr hlength), hfind]
  exact ⟨_, rfl, rfl⟩

theorem hasFP64Column_iff (cfg : ColumnConfig) :
    cfg.hasFP64Column = true ↔ cfg.HasFP64 := by
  unfold ColumnConfig.hasFP64Column ColumnConfig.HasFP64
  simp only [List.any_eq_true, beq_iff_eq]

-- ============================================================== main result

/-- The run mode of an accepted expression is resolved exactly if all its
operands are columns, and one with a slash in its name stands only where
floating point mode is chosen for another reason. -/
theorem runModeResolved_iff {expr : Str} {ex : Compiler} {cfg : ColumnConfig}
    (hexpr : importExpress expr .fresh = .ok (0, ex)) (hcfg : cfg.Matching) :
    RunModeResolved cfg expr ex.suffixStk
      ↔ (∀ token ∈ operandTokens ex.suffixStk, cfg.HasColumn token)
        ∧ ((∃ token ∈ operandTokens ex.suffixStk, '/' ∈ token) →
          ['/'] ∈ ex.suffixStk ∨ cfg.HasFP64) := by
  obtain ⟨tokens, hparse, -, rfl⟩ := importExpress_ok_iff.mp hexpr
  obtain ⟨cfg', hlocal, hdtype⟩ := resolveLocalColumn_isOk hcfg
  have hcolumn : ∀ token, cfg'.HasColumn token ↔ cfg.HasColumn token := by
    intro token
    rw [ColumnConfig.HasColumn, ColumnConfig.HasColumn, hdtype]
  have hfp64 : cfg'.hasFP64Column = true ↔ cfg.HasFP64 := by
    rw [hasFP64Column_iff, ColumnConfig.HasFP64, ColumnConfig.HasFP64, hdtype]
  -- a slash in the text is a division or part of a name
  have hslash := mem_slash_iff hparse
  have hfold := resolveTokens_ok_iff cfg' tokens ([], false)
  simp only [hcolumn] at hfold
  dsimp only
  rw [← hfold]
  have hrun : ∀ r, tokens.foldlM (resolveToken cfg') ([], false) = .ok r →
      resolveRunMode cfg [] tokens
        = .ok (cfg', r.1, r.2 || cfg'.hasFP64Column) := by
    intro r hr
    simp only [resolveRunMode, hlocal, hr, bind, Except.bind]
  refine ⟨?_, ?_⟩
  · rintro ⟨cfg'', typeMap, fp64, hresolve, -, hmode⟩
    -- the fold came to its end, for the mode was resolved
    have hok : ∃ r, tokens.foldlM (resolveToken cfg') ([], false) = .ok r := by
      cases hr : tokens.foldlM (resolveToken cfg') ([], false) with
      | ok r => exact ⟨r, rfl⟩
      | error fault =>
          simp only [resolveRunMode, hlocal, hr, bind, Except.bind] at hresolve
          cases hresolve
    obtain ⟨r, hr⟩ := hok
    obtain ⟨hdiv, -, -⟩ := resolveTokens_spec hr fun _ _ h => by cases h
    refine ⟨⟨r, hr⟩, fun hname => ?_⟩
    rw [hrun r hr] at hresolve
    cases hresolve
    have htrue := hmode.mpr (Or.inl (hslash.mpr (Or.inr hname)))
    rw [hdiv, Bool.false_or, Bool.or_eq_true, decide_eq_true_iff,
      hfp64] at htrue
    exact htrue
  · rintro ⟨⟨r, hr⟩, hname⟩
    obtain ⟨hdiv, -, htypes⟩ := resolveTokens_spec hr fun _ _ h => by cases h
    have hall := hfold.mp ⟨r, hr⟩
    refine ⟨cfg', r.1, _, hrun r hr, ?_, ?_⟩
    · intro token htoken
      rw [htypes token htoken, if_pos (hall token htoken)]
    · rw [hdiv, Bool.false_or, Bool.or_eq_true, decide_eq_true_iff, hfp64,
        hslash]
      refine ⟨fun h => ?_, ?_⟩
      · obtain hdivision | hcol := h
        · exact Or.inl (Or.inl hdivision)
        · exact Or.inr (Or.inl hcol)
      · rintro ((hdivision | hslashed) | hcol | ⟨token, htoken, hnot, -⟩)
        · exact Or.inl hdivision
        · exact hname hslashed
        · exact Or.inr hcol
        · exact absurd (hall token htoken) hnot

-- ================================================================= two columns

/-- Two integer columns of two parties. -/
def twoIntegers : ColumnConfig :=
  ⟨0, [(['A'], 0), (['B'], 1)], [(['A'], .int64), (['B'], .int64)], []⟩

/-- A product of columns is resolved. -/
theorem runModeResolved_product :
    RunModeResolved twoIntegers ['A', '*', 'B'] [['A'], ['B'], ['*']] := by
  have hexpr : importExpress ['A', '*', 'B'] .fresh
      = .ok (0, ⟨[['A'], ['B'], ['*']], ['A', '*', 'B']⟩) := rfl
  have hcfg : twoIntegers.Matching := List.Perm.refl _
  have hplain : ∀ token ∈ operandTokens [['A'], ['B'], ['*']],
      '/' ∉ token := by
    decide
  refine (runModeResolved_iff hexpr hcfg).mpr ⟨by decide, ?_⟩
  rintro ⟨token, htoken, hslash⟩
  exact absurd hslash (hplain token htoken)

/-- A literal is not. -/
theorem not_runModeResolved_literal :
    ¬ ∀ (expr : Str) (ex : Compiler) (cfg : ColumnConfig),
      importExpress expr .fresh = .ok (0, ex) → cfg.Matching →
        RunModeResolved cfg expr ex.suffixStk := by
  intro h
  have hcfg : twoIntegers.Matching := List.Perm.refl _
  obtain ⟨_, _, _, hresolve, -⟩ := h ['A', '+', '2']
    ⟨[['A'], ['2'], ['+']], ['A', '+', '2']⟩ twoIntegers rfl hcfg
  cases hresolve

end PrimiHub.Executor
