/-
Where `parseExpress` reads past the end.

The cursor takes each character as the scan does (`Cursor.reaches_read`),
so it comes to the end of the expression in the loop the scan ends in
(`Cursor.reaches_end`). The outer loop stops there; an inner loop goes on
behind the terminator. The loop that runs at the end is the outer one
exactly if the signs close (`signsEnd_iff`).
-/
import PrimiHub.Executor.Cursor
import PrimiHub.Executor.Proofs.Accept

namespace PrimiHub.Executor

open StateTransition

-- =============================================================== simulation

/-- The cursor, as the scan knows it. -/
def Cursor.scan (memory : Nat → Char) (c : Cursor) : Scan :=
  ⟨if c.i = 0 then none else some (memory (c.i - 1)), c.mode, c.temp,
    c.stk2, c.suffixStk⟩

variable {memory : Nat → Char} {length : Nat} {c : Cursor}

/-- The cursor behind a character that it took as the scan does, having
read no index from `bound` on besides those it had read before. -/
structure Cursor.Took (memory : Nat → Char) (c c' : Cursor) : Prop where
  i : c'.i = c.i + 1
  scan : c'.scan memory = (c.scan memory).step (memory c.i)
  reads : ∀ k ∈ c'.reads, k ∈ c.reads ∨ k ≤ c.i

/-- Behind a character the scan has it as the previous one. -/
theorem Cursor.scan_succ (c : Cursor) {i : Nat} (hi : c.i = i + 1) :
    c.scan memory = ⟨some (memory i), c.mode, c.temp, c.stk2, c.suffixStk⟩ := by
  unfold Cursor.scan
  rw [hi, if_neg (Nat.succ_ne_zero i), Nat.add_sub_cancel]

/-- The scan has no previous character at the beginning only. -/
theorem Cursor.scan_prev_none : (c.scan memory).prev = none ↔ c.i = 0 := by
  show (if c.i = 0 then none else some (memory (c.i - 1))) = none ↔ c.i = 0
  by_cases hi : c.i = 0
  · rw [if_pos hi]
    exact iff_of_true rfl hi
  · rw [if_neg hi]
    exact iff_of_false (Option.some_ne_none _) hi

/-- The previous character of the scan is the one before the index. -/
theorem Cursor.scan_prev_some {char : Char} :
    (c.scan memory).prev = some char
      ↔ c.i ≠ 0 ∧ memory (c.i - 1) = char := by
  show (if c.i = 0 then none else some (memory (c.i - 1))) = some char ↔ _
  by_cases hi : c.i = 0
  · rw [if_pos hi]
    exact iff_of_false (Option.some_ne_none char).symm fun h => h.1 hi
  · rw [if_neg hi, Option.some.injEq]
    exact (and_iff_right hi).symm

/-- An index in the expression that the cursor reads. -/
theorem Cursor.mem_look {k j i : Nat} (hj : j ≤ i)
    (h : k ∈ (c.look j).reads) : k ∈ c.reads ∨ k ≤ i := by
  obtain rfl | h := List.mem_cons.mp h
  · exact Or.inr hj
  · exact Or.inl h

/-- A round of the outer loop inside the expression. -/
theorem Cursor.step_body (hmode : c.mode = .outer) (hi : c.i < length) :
    c.step memory length = some (c.body memory) := by
  unfold Cursor.step
  rw [hmode]
  simp only [if_neg (Nat.not_lt.mpr hi.le), if_neg hi.ne]

/-- What ends an inner loop. -/
def stops : Mode → Char → Bool
  | .outer, _ => true
  | .untilOperator, char => isOperator char
  | .untilClose, char => char == ')'

/-- An inner loop goes on. -/
theorem Cursor.step_append (hgo : stops c.mode (memory c.i) = false) :
    c.step memory length = some
      { c.look c.i with temp := c.temp ++ [memory c.i], i := c.i + 1 } := by
  unfold Cursor.step Cursor.inner
  cases hmode : c.mode with
  | outer => rw [hmode] at hgo; cases hgo
  | untilOperator =>
      rw [hmode] at hgo
      simp only [show isOperator (memory c.i) = false from hgo]
      rfl
  | untilClose =>
      rw [hmode] at hgo
      simp only [show (memory c.i == ')') = false from hgo]
      rfl

/-- An inner loop ends. -/
theorem Cursor.step_stop (hmode : c.mode ≠ .outer)
    (hstop : stops c.mode (memory c.i) = true) :
    c.step memory length = some { c.look c.i with mode := .outer } := by
  unfold Cursor.step Cursor.inner
  cases h : c.mode with
  | outer => exact absurd h hmode
  | untilOperator =>
      rw [h] at hstop
      simp only [show isOperator (memory c.i) = true from hstop, if_pos]
  | untilClose =>
      rw [h] at hstop
      simp only [show (memory c.i == ')') = true from hstop, if_pos]

/-- An inner loop takes every character that does not stop it. -/
theorem Scan.step_append {s : Scan} {char : Char}
    (hgo : stops s.mode char = false) :
    s.step char = { s with temp := s.temp ++ [char], prev := some char } := by
  unfold Scan.step Scan.read
  cases hmode : s.mode with
  | outer => rw [hmode] at hgo; cases hgo
  | untilOperator =>
      rw [hmode] at hgo
      simp only [show isOperator char = false from hgo, Scan.append, hmode]
      rfl
  | untilClose =>
      rw [hmode] at hgo
      have hne : char ≠ ')' := ne_of_beq_false hgo
      simp only [if_neg hne, Scan.append, hmode]

/-- The character that stops an inner loop is taken by the outer one. -/
theorem Scan.step_stop {s : Scan} {char : Char} (hmode : s.mode ≠ .outer)
    (hstop : stops s.mode char = true) :
    s.step char = { s with mode := .outer }.step char := by
  unfold Scan.step Scan.read
  cases h : s.mode with
  | outer => exact absurd h hmode
  | untilOperator =>
      rw [h] at hstop
      simp only [show isOperator char = true from hstop, if_pos]
  | untilClose =>
      rw [h] at hstop
      simp only [if_pos (show char = ')' from eq_of_beq hstop)]

/-- These branches look at no character but their own. -/
theorem Scan.token_prev (s : Scan) (prev : Option Char) (char : Char) :
    { s with prev := prev }.token char = { s.token char with prev := prev } := by
  unfold Scan.token
  by_cases hop : isOperator char = true
  · simp only [if_pos hop]
  by_cases ho : char = '('
  · simp only [if_neg hop, if_pos ho]
  by_cases hc : char = ')'
  · simp only [if_neg hop, if_neg ho, if_pos hc]
  · simp only [if_neg hop, if_neg ho, if_neg hc]

/-- Only a sign changes the loop. -/
theorem Scan.token_mode (s : Scan) (char : Char) :
    (s.token char).mode = s.mode := by
  unfold Scan.token
  by_cases hop : isOperator char = true
  · simp only [if_pos hop]
  by_cases ho : char = '('
  · simp only [if_neg hop, if_pos ho]
  by_cases hc : char = ')'
  · simp only [if_neg hop, if_neg ho, if_pos hc]
  · simp only [if_neg hop, if_neg ho, if_neg hc]

/-- The cursor behind a character that is no sign. -/
theorem Cursor.scan_token (c : Cursor) :
    (c.token (memory c.i)).scan memory
      = { (c.scan memory).token (memory c.i) with
          prev := some (memory c.i) } := by
  have hprev := Scan.token_prev
    ⟨none, c.mode, c.temp, c.stk2, c.suffixStk⟩ (c.scan memory).prev
    (memory c.i)
  have hmode := Scan.token_mode
    ⟨none, c.mode, c.temp, c.stk2, c.suffixStk⟩ (memory c.i)
  show (c.token (memory c.i)).scan memory
    = { Scan.token { (⟨none, c.mode, c.temp, c.stk2, c.suffixStk⟩ : Scan) with
          prev := (c.scan memory).prev } (memory c.i) with
        prev := some (memory c.i) }
  rw [hprev, Cursor.scan_succ _ rfl]
  unfold Cursor.token
  rw [Scan.mk.injEq]
  exact ⟨rfl, hmode.symm, rfl, rfl, rfl⟩

/-- A character in the outer loop. -/
theorem Scan.step_outer {s : Scan} (hmode : s.mode = .outer) (char : Char) :
    s.step char = { s.body char with prev := some char } := by
  unfold Scan.step Scan.read
  rw [hmode]

/-- A character that is no sign. -/
theorem Cursor.took_token {before : Cursor} (hmode : c.mode = .outer)
    (hi : before.i = c.i) (hbefore : before.scan memory = c.scan memory)
    (hreads : ∀ k ∈ before.reads, k ∈ c.reads ∨ k ≤ c.i)
    (hstart : ¬ (memory c.i = '-' ∧ c.i = 0))
    (hopen : ¬ (memory c.i = '-' ∧ c.i ≠ 0 ∧ memory (c.i - 1) = '(')) :
    c.Took memory (before.token (memory c.i)) where
  i := congrArg (· + 1) hi
  scan := by
    rw [← Cursor.scan_prev_none] at hstart
    rw [← Cursor.scan_prev_some] at hopen
    rw [← hi, Cursor.scan_token, hbefore, hi, Scan.step_outer hmode]
    unfold Scan.body
    rw [if_neg hstart, if_neg hopen]
  reads := hreads

/-- The outer loop takes a character, with the first round of the loop it
starts. -/
theorem Cursor.reaches_body (hmode : c.mode = .outer) (hi : c.i < length) :
    ∃ c', Reaches (Cursor.step memory length) c c' ∧ c.Took memory c' := by
  have hstep : c.step memory length = some (c.body memory) :=
    Cursor.step_body hmode hi
  unfold Cursor.body at hstep
  by_cases hminus : memory c.i = '-'
  · simp only [if_pos hminus] at hstep
    by_cases hzero : c.i = 0
    · rw [if_pos hzero] at hstep
      refine ⟨_, .single hstep, rfl, ?_, fun k => mem_look le_rfl⟩
      rw [Cursor.scan_succ _ rfl, Scan.step_outer hmode]
      unfold Scan.body
      rw [if_pos ⟨hminus, Cursor.scan_prev_none.mpr hzero⟩]
      rfl
    · rw [if_neg hzero] at hstep
      have hreads : ∀ k ∈ ((c.look c.i).look (c.i - 1)).reads,
          k ∈ c.reads ∨ k ≤ c.i := by
        intro k hk
        obtain hk | hk := mem_look (Nat.sub_le c.i 1) hk
        · exact mem_look le_rfl hk
        · exact Or.inr hk
      by_cases hopen : memory (c.i - 1) = '('
      · rw [if_pos hopen] at hstep
        refine ⟨_, .tail (.single hstep) (Cursor.step_append ?_), rfl, ?_,
          fun k hk => ?_⟩
        · show (memory c.i == ')') = false
          rw [hminus]
          rfl
        · rw [Cursor.scan_succ _ rfl, Scan.step_outer hmode]
          unfold Scan.body
          rw [if_neg fun h => hzero (Cursor.scan_prev_none.mp h.2),
            if_pos ⟨hminus, Cursor.scan_prev_some.mpr ⟨hzero, hopen⟩⟩]
          rfl
        · obtain rfl | hk := List.mem_cons.mp hk
          · exact Or.inr le_rfl
          · exact hreads k hk
      · rw [if_neg hopen] at hstep
        exact ⟨_, .single hstep, took_token hmode rfl rfl hreads
          (fun h => hzero h.2) (fun h => hopen h.2.2)⟩
  · simp only [if_neg hminus] at hstep
    exact ⟨_, .single hstep, took_token hmode rfl rfl
      (fun k => mem_look le_rfl) (fun h => hminus h.1)
      (fun h => hminus h.1)⟩

/-- A character inside the expression is taken as the scan takes it. -/
theorem Cursor.reaches_read (hi : c.i < length) :
    ∃ c', Reaches (Cursor.step memory length) c c' ∧ c.Took memory c' := by
  by_cases hmode : c.mode = .outer
  · exact Cursor.reaches_body hmode hi
  cases hstop : stops c.mode (memory c.i) with
  | false =>
      refine ⟨_, .single (Cursor.step_append hstop), rfl, ?_,
        fun k => mem_look le_rfl⟩
      rw [Cursor.scan_succ _ rfl, Scan.step_append hstop]
      rfl
  | true =>
      obtain ⟨c', hreach, htook⟩ :=
        Cursor.reaches_body (c := { c.look c.i with mode := .outer }) rfl hi
      refine ⟨c', .head (Cursor.step_stop hmode hstop) hreach, htook.i, ?_,
        fun k hk => ?_⟩
      · have hscan : (c.scan memory).step (memory c.i)
            = { c.scan memory with mode := .outer }.step (memory c.i) :=
          Scan.step_stop hmode hstop
        rw [htook.scan, hscan]
        rfl
      · obtain hk | hk := htook.reads k hk
        · exact mem_look le_rfl hk
        · exact Or.inr hk

-- ============================================================== whole runs

/-- A character inside the expression. -/
theorem charAt_append (front back : Str) (c : Char) (beyond : Nat → Char) :
    charAt (front ++ c :: back) beyond front.length = c := by
  unfold charAt
  rw [if_pos (by simp)]
  simp

/-- Behind the expression stands the terminator. -/
theorem charAt_length (expr : Str) (beyond : Nat → Char) :
    charAt expr beyond expr.length = '\x00' := by
  unfold charAt
  rw [if_neg (Nat.lt_irrefl _), if_pos rfl]

/-- The cursor comes to the end of the expression as the scan does. -/
theorem Cursor.reaches_end (expr : Str) (beyond : Nat → Char)
    (front rest : Str) (c : Cursor) (hexpr : expr = front ++ rest)
    (hi : c.i = front.length) :
    ∃ c', Reaches (Cursor.step (charAt expr beyond) expr.length) c c'
      ∧ c'.i = expr.length
      ∧ c'.scan (charAt expr beyond)
        = Executor.scan (c.scan (charAt expr beyond)) rest
      ∧ ∀ k ∈ c'.reads, k ∈ c.reads ∨ k < expr.length := by
  induction rest generalizing front c with
  | nil =>
      rw [List.append_nil] at hexpr
      exact ⟨c, .refl, by rw [hi, hexpr], rfl, fun k hk => Or.inl hk⟩
  | cons char rest ih =>
      have hlt : c.i < expr.length := by
        rw [hexpr, hi, List.length_append, List.length_cons]
        omega
      have hread : ∃ c₁,
          Reaches (Cursor.step (charAt expr beyond) expr.length) c c₁
            ∧ c.Took (charAt expr beyond) c₁ := Cursor.reaches_read hlt
      obtain ⟨c₁, hreach₁, htook⟩ := hread
      have hchar : charAt expr beyond c.i = char := by
        rw [hexpr, hi, charAt_append]
      obtain ⟨c', hreach, hi', hscan, hreads⟩ := ih (front ++ [char]) c₁
        (by rw [hexpr, List.append_assoc, List.singleton_append])
        (by rw [htook.i, hi, List.length_append, List.length_singleton])
      refine ⟨c', hreach₁.trans hreach, hi', ?_, fun k hk => ?_⟩
      · rw [hscan, htook.scan, hchar, scan_cons]
      · obtain hk | hk := hreads k hk
        · obtain hk | hk := htook.reads k hk
          · exact Or.inl hk
          · exact Or.inr (Nat.lt_of_le_of_lt hk hlt)
        · exact Or.inr hk

/-- A look adds to what has been read. -/
theorem Cursor.reads_look (c : Cursor) (k : Nat) :
    c.reads ⊆ (c.look k).reads :=
  List.subset_cons_self k c.reads

/-- A round of an inner loop reads one index. -/
theorem Cursor.reads_inner (c : Cursor) (stop : Char → Bool) :
    (c.inner memory stop).reads = (c.look c.i).reads := by
  unfold Cursor.inner
  by_cases hstop : stop (memory c.i) = true
  · rw [if_pos hstop]
  · rw [if_neg hstop]

/-- A round of the outer loop adds to what has been read. -/
theorem Cursor.reads_body (c : Cursor) :
    c.reads ⊆ (c.body memory).reads := by
  have htwice : c.reads ⊆ ((c.look c.i).look (c.i - 1)).reads :=
    List.Subset.trans (c.reads_look c.i) (Cursor.reads_look _ _)
  unfold Cursor.body
  by_cases hminus : memory c.i = '-'
  · simp only [if_pos hminus]
    by_cases hzero : c.i = 0
    · rw [if_pos hzero]
      exact c.reads_look c.i
    · rw [if_neg hzero]
      by_cases hopen : memory (c.i - 1) = '('
      · rw [if_pos hopen]
        exact htwice
      · rw [if_neg hopen]
        exact htwice
  · simp only [if_neg hminus]
    exact c.reads_look c.i

/-- What has been read stays read. -/
theorem Cursor.reads_of_step {c' : Cursor}
    (h : c.step memory length = some c') : c.reads ⊆ c'.reads := by
  unfold Cursor.step at h
  cases hmode : c.mode with
  | outer =>
      simp only [hmode] at h
      by_cases hend : length < c.i
      · rw [if_pos hend] at h
        cases h
      rw [if_neg hend] at h
      by_cases hlast : c.i = length
      · rw [if_pos hlast, Option.some.injEq] at h
        rw [← h]
        exact List.Subset.refl _
      · rw [if_neg hlast, Option.some.injEq] at h
        rw [← h]
        exact c.reads_body
  | untilOperator =>
      simp only [hmode, Option.some.injEq] at h
      rw [← h, Cursor.reads_inner]
      exact c.reads_look c.i
  | untilClose =>
      simp only [hmode, Option.some.injEq] at h
      rw [← h, Cursor.reads_inner]
      exact c.reads_look c.i

/-- Nothing that has been read is forgotten. -/
theorem Cursor.reads_of_reaches {c' : Cursor}
    (h : Reaches (Cursor.step memory length) c c') :
    c.reads ⊆ c'.reads := by
  induction h with
  | refl => exact List.Subset.refl _
  | tail _ hstep ih => exact List.Subset.trans ih (Cursor.reads_of_step hstep)

/-- The outer loop ends behind the expression. -/
theorem Cursor.ends_outer (hmode : c.mode = .outer) (hi : c.i = length) :
    { c with temp := [], stk2 := flush c.temp c.stk2, i := length + 1 }
      ∈ eval (Cursor.step memory length) c := by
  refine mem_eval.mpr ⟨.single ?_, ?_⟩
  · unfold Cursor.step
    simp only [hmode, hi, Nat.lt_irrefl, if_false, if_true, Option.mem_def]
  · unfold Cursor.step
    simp only [hmode, Nat.lt_succ_self, if_true]

/-- An inner loop reads its index. -/
theorem Cursor.reads_of_inner {last : Cursor} (hmode : c.mode ≠ .outer)
    (h : last ∈ eval (Cursor.step memory length) c) : c.i ∈ last.reads := by
  have hstep : ∃ c', c.step memory length = some c' ∧ c.i ∈ c'.reads := by
    cases hstop : stops c.mode (memory c.i) with
    | false => exact ⟨_, Cursor.step_append hstop, List.mem_cons_self⟩
    | true => exact ⟨_, Cursor.step_stop hmode hstop, List.mem_cons_self⟩
  obtain ⟨c', hc', hread⟩ := hstep
  rw [reaches_eval (.single hc')] at h
  exact Cursor.reads_of_reaches (mem_eval.mp h).1 hread

/-- An inner loop that comes to the terminator reads on. -/
theorem Cursor.reads_past {last : Cursor} (hmode : c.mode ≠ .outer)
    (hi : c.i = length) (hnul : memory length = '\x00')
    (h : last ∈ eval (Cursor.step memory length) c) :
    length + 1 ∈ last.reads := by
  have hgo : stops c.mode (memory c.i) = false := by
    rw [hi, hnul]
    cases hm : c.mode with
    | outer => exact absurd hm hmode
    | untilOperator => rfl
    | untilClose => rfl
  have hstep : ∃ c', c.step memory length = some c' ∧ c'.i = length + 1
      ∧ c'.mode = c.mode :=
    ⟨_, Cursor.step_append hgo, congrArg (· + 1) hi, rfl⟩
  obtain ⟨c', hc', hi', hmode'⟩ := hstep
  rw [reaches_eval (.single hc')] at h
  rw [← hi']
  exact Cursor.reads_of_inner (hmode' ▸ hmode) h

/-- The cursor stays in the expression exactly if the scan ends in the
outer loop, and it then leaves the tokens the scan leaves. -/
theorem parsesWithin_iff_mode (expr : Str) (beyond : Nat → Char)
    (suffixStk : List Str) :
    ParsesWithin expr beyond suffixStk
      ↔ (scan (.start suffixStk) expr).mode = .outer := by
  obtain ⟨c, hreach, hi, hscan, hreads⟩ := Cursor.reaches_end expr beyond []
    expr (.start suffixStk) rfl rfl
  have hmode : c.mode = (scan (.start suffixStk) expr).mode :=
    congrArg Scan.mode hscan
  unfold ParsesWithin
  rw [reaches_eval hreach, ← hmode]
  constructor
  · intro h
    obtain ⟨last, hlast, hwithin⟩ := h
    by_contra hne
    have hpast := hwithin _ (Cursor.reads_past hne hi
      (charAt_length expr beyond) hlast)
    omega
  · intro houter
    refine ⟨_, Cursor.ends_outer houter hi, fun k hk => ?_⟩
    obtain hk | hk := hreads k hk
    · cases hk
    · exact hk.le

/-- Inside the expression the cursor leaves the tokens of the scan. -/
theorem parseExpress_of_mem_eval {expr : Str} {beyond : Nat → Char}
    {suffixStk : List Str} {last : Cursor}
    (h : last ∈ eval (Cursor.step (charAt expr beyond) expr.length)
      (.start suffixStk))
    (hwithin : ∀ k ∈ last.reads, k ≤ expr.length) :
    parseExpress expr suffixStk = .ok (last.stk2 ++ last.suffixStk) := by
  obtain ⟨c, hreach, hi, hscan, -⟩ := Cursor.reaches_end expr beyond []
    expr (.start suffixStk) rfl rfl
  have houter : (scan (.start suffixStk) expr).mode = .outer :=
    (parsesWithin_iff_mode expr beyond suffixStk).mp ⟨last, h, hwithin⟩
  have hend : last = { c with
      temp := [], stk2 := flush c.temp c.stk2, i := expr.length + 1 } := by
    rw [reaches_eval hreach] at h
    exact Part.mem_unique h
      (Cursor.ends_outer ((congrArg Scan.mode hscan).trans houter) hi)
  have hstart : (Cursor.start suffixStk).scan (charAt expr beyond)
      = .start suffixStk := rfl
  rw [parseExpress_ok_iff]
  refine ⟨houter, ?_⟩
  rw [← hstart, ← hscan, hend]
  rfl

-- ================================================================== signs

/-- The loop the scan is in depends on the characters alone. -/
theorem scan_mode (s : Scan) (text : Str) :
    (scan s text).mode = modeAfter s.prev s.mode text := by
  induction text generalizing s with
  | nil => rfl
  | cons c rest ih =>
      rw [scan_cons, ih, modeAfter, step_eq]

/-- What the loop that runs waits for. -/
def Waits : Mode → Str → Prop
  | .outer, _ => True
  | .untilOperator, text => ∃ c ∈ text, isOperator c = true
  | .untilClose, text => ')' ∈ text

/-- Every `(-` has a `)` behind it. -/
def Closes (text : Str) : Prop :=
  ∀ front back, text = front ++ '(' :: '-' :: back → ')' ∈ back

/-- The signs of a text, from its second character on. -/
theorem closes_cons (p c : Char) (rest : Str) :
    Closes (p :: c :: rest)
      ↔ (p = '(' → c = '-' → ')' ∈ rest) ∧ Closes (c :: rest) := by
  constructor
  · intro h
    refine ⟨?_, fun front back heq => h (p :: front) back (by rw [heq]; rfl)⟩
    rintro rfl rfl
    exact h [] rest rfl
  · intro h front back heq
    cases front with
    | nil =>
        obtain ⟨rfl, rfl, rfl⟩ : p = '(' ∧ c = '-' ∧ rest = back := by
          simpa using heq
        exact h.1 rfl rfl
    | cons q front =>
        exact h.2 front back (List.cons.inj heq).2

/-- The outer loop goes on at a character that is no sign. -/
theorem classifyOuter_mode {prev : Option Char} {c : Char}
    (hstart : ¬ (c = '-' ∧ prev = none))
    (hopen : ¬ (c = '-' ∧ prev = some '(')) :
    (classifyOuter prev c).2 = .outer := by
  unfold classifyOuter
  rw [if_neg hstart, if_neg hopen]
  split_ifs <;> rfl

/-- The outer loop, behind a character. -/
theorem waits_classifyOuter (p c : Char) (rest : Str) :
    Waits (classifyOuter (some p) c).2 rest
      ↔ (p = '(' → c = '-' → ')' ∈ rest) := by
  have hstart : ¬ (c = '-' ∧ some p = none) :=
    fun h => Option.some_ne_none p h.2
  by_cases hsign : c = '-' ∧ some p = some '('
  · unfold classifyOuter
    rw [if_neg hstart, if_pos hsign]
    exact ⟨fun h _ _ => h, fun h => h (Option.some.inj hsign.2) hsign.1⟩
  · rw [classifyOuter_mode hstart hsign]
    refine iff_of_true trivial fun hp hc => absurd ⟨hc, ?_⟩ hsign
    rw [hp]

/-- One character, in whichever loop runs. -/
theorem waits_classify (p c : Char) (mode : Mode) (rest : Str) :
    Waits (classify (some p) mode c).2 rest
      ↔ Waits mode (c :: rest) ∧ (p = '(' → c = '-' → ')' ∈ rest) := by
  cases mode with
  | outer =>
      rw [classify, waits_classifyOuter]
      exact (and_iff_right trivial).symm
  | untilOperator =>
      rw [classify]
      by_cases hop : isOperator c = true
      · rw [if_pos hop, waits_classifyOuter]
        exact (and_iff_right ⟨c, List.mem_cons_self, hop⟩).symm
      · rw [if_neg hop]
        constructor
        · intro h
          obtain ⟨a, ha, hopa⟩ := h
          refine ⟨⟨a, List.mem_cons_of_mem c ha, hopa⟩, ?_⟩
          rintro - rfl
          exact absurd rfl hop
        · intro h
          obtain ⟨⟨a, ha, hopa⟩, -⟩ := h
          obtain rfl | ha := List.mem_cons.mp ha
          · exact absurd hopa hop
          · exact ⟨a, ha, hopa⟩
  | untilClose =>
      rw [classify]
      by_cases hclose : c = ')'
      · rw [if_pos hclose, waits_classifyOuter]
        exact (and_iff_right (List.mem_cons.mpr (Or.inl hclose.symm))).symm
      · rw [if_neg hclose]
        constructor
        · exact fun h => ⟨List.mem_cons_of_mem c h, fun _ _ => h⟩
        · intro h
          obtain heq | hmem := List.mem_cons.mp h.1
          · exact absurd heq.symm hclose
          · exact hmem

/-- Behind the first character: the signs end if the loop that runs finds
what it waits for, and every `(-` its bracket. -/
theorem modeAfter_some_iff (p : Char) (mode : Mode) (text : Str) :
    modeAfter (some p) mode text = .outer
      ↔ Waits mode text ∧ Closes (p :: text) := by
  induction text generalizing p mode with
  | nil =>
      have hcloses : Closes [p] := by
        intro front back heq
        have hlen := congrArg List.length heq
        simp at hlen
        omega
      rw [modeAfter, and_iff_left hcloses]
      cases mode with
      | outer => exact iff_of_true rfl trivial
      | untilOperator =>
          refine iff_of_false nofun fun h => ?_
          obtain ⟨_, hmem, -⟩ := h
          cases hmem
      | untilClose => exact iff_of_false nofun List.not_mem_nil
  | cons c rest ih =>
      rw [modeAfter, ih, closes_cons, ← and_assoc, waits_classify]

/-- The signs of an expression end exactly if they close. -/
theorem signsEnd_iff (expr : Str) : SignsEnd expr ↔ SignsClose expr := by
  unfold SignsEnd SignsClose
  cases expr with
  | nil =>
      refine iff_of_true rfl ⟨nofun, fun front back heq => ?_⟩
      exact absurd heq.symm (List.append_ne_nil_of_right_ne_nil _ (by simp))
  | cons c rest =>
      rw [modeAfter, modeAfter_some_iff]
      refine and_congr_left fun _ => ?_
      rw [classify]
      by_cases hminus : c = '-'
      · unfold classifyOuter
        rw [if_pos ⟨hminus, rfl⟩, hminus]
        constructor
        · intro h rest' heq
          exact (List.cons.inj heq).2 ▸ h
        · exact fun h => h rest rfl
      · rw [classifyOuter_mode (fun h => hminus h.1) fun h => hminus h.1]
        refine iff_of_true trivial fun rest' heq => ?_
        exact absurd (List.cons.inj heq).1 hminus

-- ============================================================== the reads

/-- `parseExpress` ends without reading past the terminator exactly where
the signs close. -/
theorem parsesWithin_iff (expr : Str) (beyond : Nat → Char)
    (suffixStk : List Str) :
    ParsesWithin expr beyond suffixStk ↔ SignsClose expr := by
  rw [parsesWithin_iff_mode, scan_mode]
  exact signsEnd_iff expr

/-- A leading minus and no other operator. -/
theorem not_parsesWithin_leading :
    ¬ ParsesWithin ['-', 'a'] (fun _ => '+') [] := by
  rw [parsesWithin_iff_mode]
  decide

end PrimiHub.Executor
