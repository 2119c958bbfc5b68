/-
What `read_from_abnormal` leaves behind of a column: one cell, one row, all
rows.

A cell goes into the containers of its own column only, so each column can
be followed on its own: `_self` lemmas say what the cells of a column add
to it, `_frame` lemmas that the others leave it alone.

Chain: `processCell_fits`, `processCell_carries` and `processCell_listed`
(one cell), `readCell_cases` (what a cell can do to the state), then
`readRow_self` and `readRows_self` with `readRows_frame` and
`readRows_colMetas`.
-/
import PrimiHub.DataStore.Sqlite

namespace PrimiHub.DataStore

open Lib

variable {D : Type}

-- ============================================== the values of a cell

/-- The `int64_t` a cell holds, as an integer or as its text. -/
def Cell.int64? : Cell D → Option Int
  | .integer n => some n
  | .text s =>
      match strtol s with
      | some (n, []) => if -2 ^ 63 ≤ n ∧ n < 2 ^ 63 then some n else none
      | _ => none
  | _ => none

/-- NULL or not a number. -/
def Cell.abnormal : Cell D → Bool
  | .null => true
  | .text s => !numeral s
  | .integer _ => false
  | .real _ => false
  | .blob => true

/-- An integer, as a column of this code has it. -/
def carried (fp : FloatOps D) (code : Nat) (cell : Cell D) (v : Int) :
    Pushed D :=
  match code with
  | 0 => .string (match cell with
      | .text s => s
      | _ => (toString v).toList)
  | 2 => .double (fp.ofInt v)
  | _ => .int v

/-- Whether the reader takes a text for a number. -/
def converts (s : List Char) : Bool :=
  if '.' ∈ s then strtodConverts s else (strtol s).isSome

-- ============================================================ one cell

variable {fp : FloatOps D}

/-- The value goes onto the vector the column's array is made of. -/
def Pushed.fits (code : Nat) : Pushed D → Bool
  | .string _ => code = 0
  | .int _ => code = 1 ∨ code = 3
  | .double _ => code = 2
  | .nothing => false

/-- The types are string and three numeric ones. -/
theorem code_cases {code : Nat} (h : code ≤ 3) :
    code = 0 ∨ code ∈ [1, 2, 3] := by
  simp only [List.mem_cons, List.not_mem_nil, or_false]
  omega

theorem ne_zero_of_numeric {code : Nat} (h : code ∈ [1, 2, 3]) :
    code ≠ 0 := by
  rintro rfl
  simp at h

/-- What becomes of a text in a numeric column. -/
theorem processCell_text {code : Nat} {s : List Char} {out : Outcome D}
    (hcode : code ∈ [1, 2, 3])
    (h : processCell fp code (.text s) = some out) :
    (converts s = false ∧ out = abnormalText fp code)
      ∨ (converts s = true ∧ '.' ∉ s ∧ ∃ n rest, strtol s = some (n, rest)
          ∧ out = ⟨false, carried fp code (.text s) (intVal n)⟩)
      ∨ (converts s = true ∧ '.' ∈ s ∧ code = 2
          ∧ out = ⟨false, .double (fp.strtod s)⟩) := by
  simp only [processCell, ne_zero_of_numeric hcode, if_false] at h
  by_cases hpoint : '.' ∈ s
  · rw [if_neg (not_not.2 hpoint)] at h
    simp only [converts, hpoint, if_true]
    split_ifs at h with hconv
    · refine Or.inr (Or.inr ⟨hconv, trivial, ?_⟩)
      simp only [List.mem_cons, List.not_mem_nil, or_false] at hcode
      rcases hcode with rfl | rfl | rfl
      · cases h
      · exact ⟨rfl, (Option.some.inj h).symm⟩
      · cases h
    · exact Or.inl ⟨by simpa using hconv, (Option.some.inj h).symm⟩
  · rw [if_pos hpoint] at h
    simp only [converts, hpoint, if_false]
    cases hread : strtol s with
    | none =>
        rw [hread] at h
        exact Or.inl ⟨rfl, (Option.some.inj h).symm⟩
    | some r =>
        obtain ⟨n, rest⟩ := r
        rw [hread] at h
        refine Or.inr (Or.inl ⟨rfl, not_false, n, rest, rfl, ?_⟩)
        rw [← Option.some.inj h]
        simp only [List.mem_cons, List.not_mem_nil, or_false] at hcode
        rcases hcode with rfl | rfl | rfl
        · rfl
        · rfl
        · rfl

/-- Every value goes onto the right vector, except for a NULL of a LONG
column. -/
theorem processCell_fits {code : Nat} {cell : Cell D} {out : Outcome D}
    (hcode : code ≤ 3) (h : processCell fp code cell = some out) :
    out.pushed.fits code = true ↔ ¬ (code = 3 ∧ cell = .null) := by
  have hcodes : code = 0 ∨ code = 1 ∨ code = 2 ∨ code = 3 := by omega
  cases cell with
  | null =>
      rcases hcodes with rfl | rfl | rfl | rfl
      all_goals
        obtain rfl := Option.some.inj h
        simp [Pushed.fits]
  | integer n =>
      rcases hcodes with rfl | rfl | rfl | rfl
      all_goals
        obtain rfl := Option.some.inj h
        simp [Pushed.fits]
  | real d =>
      rcases hcodes with rfl | rfl | rfl | rfl
      · obtain rfl := Option.some.inj h
        simp [Pushed.fits]
      · cases h
      · obtain rfl := Option.some.inj h
        simp [Pushed.fits]
      · cases h
  | text s =>
      rcases code_cases hcode with rfl | hnum
      · obtain rfl := Option.some.inj h
        simp [Pushed.fits]
      · rcases processCell_text hnum h with ⟨-, rfl⟩ | ⟨-, -, n, rest, -, rfl⟩
          | ⟨-, -, rfl, rfl⟩
        · rcases hcodes with rfl | rfl | rfl | rfl
          all_goals simp_all [Pushed.fits, abnormalText]
        · rcases hcodes with rfl | rfl | rfl | rfl
          all_goals simp_all [Pushed.fits, carried]
        · simp [Pushed.fits]
  | blob => cases h

/-- An integer survives where it fits 32 bits. -/
theorem intVal_eq_iff {v : Int} (hlo : -2 ^ 63 ≤ v) (hhi : v < 2 ^ 63) :
    intVal v = v ↔ -2 ^ 31 ≤ v ∧ v < 2 ^ 31 := by
  have hclamp : max (-2 ^ 63) (min v (2 ^ 63 - 1)) = v := by omega
  rw [intVal, hclamp]
  constructor
  · intro h
    rw [← h]
    have hle := Int.le_bmod (x := v) (m := 2 ^ 32) (by decide)
    have hlt := Int.bmod_lt (x := v) (m := 2 ^ 32) (by decide)
    omega
  · intro hc
    obtain ⟨h1, h2⟩ := hc
    exact Int.bmod_eq_of_le (by omega) (by omega)

/-- What `stoi` and the 32-bit read give fits 32 bits. -/
theorem intVal_range (v : Int) :
    -2 ^ 31 ≤ intVal v ∧ intVal v < 2 ^ 31 := by
  rw [intVal]
  generalize max (-2 ^ 63) (min v (2 ^ 63 - 1)) = w
  have hle := Int.le_bmod (x := w) (m := 2 ^ 32) (by decide)
  have hlt := Int.bmod_lt (x := w) (m := 2 ^ 32) (by decide)
  omega

/-- What is a number begins like one. -/
theorem converts_of_numeral {s : List Char} (h : numeral s = true) :
    converts s = true := by
  rw [converts]
  split_ifs with hpoint
  · exact strtodConverts_of_numeral h
  · exact Option.isSome_iff_ne_none.2 (strtol_of_numeral h hpoint)

/-- A text is an integer where `strtol` takes all of it. -/
theorem int64?_text {s : List Char} {v : Int}
    (h : (Cell.text s : Cell D).int64? = some v) :
    strtol s = some (v, []) ∧ -2 ^ 63 ≤ v ∧ v < 2 ^ 63 := by
  rw [Cell.int64?] at h
  split at h
  case h_1 n hread =>
    split_ifs at h with hrange
    obtain rfl := Option.some.inj h
    exact ⟨hread, hrange⟩
  case h_2 => cases h

/-- The value of a cell tells the integers apart. -/
theorem carried_inj {code : Nat} (hcode : code ∈ [1, 2, 3]) (cell : Cell D)
    {w v : Int} (hw : -2 ^ 31 ≤ w ∧ w < 2 ^ 31)
    (hv : -2 ^ 63 ≤ v ∧ v < 2 ^ 63) :
    carried fp code cell w = carried fp code cell v ↔ w = v := by
  refine ⟨fun h => ?_, fun h => by rw [h]⟩
  simp only [List.mem_cons, List.not_mem_nil, or_false] at hcode
  rcases hcode with rfl | rfl | rfl
  · exact Pushed.int.inj h
  · exact fp.exact w v hw.1 hw.2 hv.1 hv.2 (Pushed.double.inj h)
  · exact Pushed.int.inj h

/-- An integer is kept, except for a text outside 32 bits. -/
theorem processCell_carries {code : Nat} {cell : Cell D} {out : Outcome D}
    {v : Int} (hcode : code ≤ 3) (h : processCell fp code cell = some out)
    (hv : cell.int64? = some v) :
    out.pushed = carried fp code cell v
      ↔ (code ≠ 0 → ∀ s, cell = .text s → -2 ^ 31 ≤ v ∧ v < 2 ^ 31) := by
  cases cell with
  | null => cases hv
  | real d => cases hv
  | blob => cases hv
  | integer n =>
      obtain rfl := Option.some.inj hv
      have hcodes : code = 0 ∨ code = 1 ∨ code = 2 ∨ code = 3 := by omega
      rcases hcodes with rfl | rfl | rfl | rfl
      all_goals
        obtain rfl := Option.some.inj h
        simp [carried]
  | text s =>
      obtain ⟨hread, hlo, hhi⟩ := int64?_text hv
      have hpoint := no_point_of_strtol hread
      have hconv : converts s = true := by
        rw [converts, if_neg hpoint, hread]
        rfl
      rcases code_cases hcode with rfl | hnum
      · obtain rfl := Option.some.inj h
        simp [carried]
      · rcases processCell_text hnum h with ⟨hnot, -⟩
          | ⟨-, -, n, rest, hn, rfl⟩ | ⟨-, hin, -, -⟩
        · rw [hconv] at hnot
          cases hnot
        · obtain ⟨rfl, rfl⟩ := Prod.mk.inj
            (Option.some.inj (hread.symm.trans hn))
          rw [carried_inj hnum _ (intVal_range v) ⟨hlo, hhi⟩,
            intVal_eq_iff hlo hhi]
          exact ⟨fun hr _ _ _ => hr,
            fun hr => hr (ne_zero_of_numeric hnum) s rfl⟩
        · exact absurd hin hpoint

/-- A row is listed when its cell is abnormal, except for a text that only
starts with a number. -/
theorem processCell_listed {code : Nat} {cell : Cell D} {out : Outcome D}
    (hcode : code ∈ [1, 2, 3]) (h : processCell fp code cell = some out) :
    out.listed = cell.abnormal
      ↔ ∀ s, cell = .text s → converts s = true → numeral s = true := by
  have hcodes := hcode
  simp only [List.mem_cons, List.not_mem_nil, or_false] at hcodes
  cases cell with
  | null =>
      rcases hcodes with rfl | rfl | rfl
      all_goals
        obtain rfl := Option.some.inj h
        simp [Cell.abnormal]
  | integer n =>
      obtain rfl := Option.some.inj h
      simp [Cell.abnormal]
  | real d =>
      rcases hcodes with rfl | rfl | rfl
      · cases h
      · obtain rfl := Option.some.inj h
        simp [Cell.abnormal]
      · cases h
  | blob => cases h
  | text s =>
      have hiff : (∀ s', Cell.text s = (Cell.text s' : Cell D) →
          converts s' = true → numeral s' = true)
            ↔ (converts s = true → numeral s = true) :=
        ⟨fun hall => hall s rfl, fun hs s' heq => Cell.text.inj heq ▸ hs⟩
      rw [hiff, Cell.abnormal]
      rcases processCell_text hcode h with ⟨hnot, rfl⟩
        | ⟨hconv, -, n, rest, -, rfl⟩ | ⟨hconv, -, -, rfl⟩
      · have hnum : numeral s = false := by
          by_contra hne
          rw [converts_of_numeral (by simpa using hne)] at hnot
          cases hnot
        simp [abnormalText, hnot, hnum]
      · simp [hconv]
      · simp [hconv]

/-- No row is listed for a string. -/
theorem processCell_listed_zero {cell : Cell D} {out : Outcome D}
    (h : processCell fp 0 cell = some out) : out.listed = false := by
  cases cell with
  | blob => cases h
  | _ =>
      obtain rfl := Option.some.inj h
      rfl

-- =========================================================== the loops

/-- What becomes of a cell the reader does not give up on. -/
def outcome (fp : FloatOps D) (code : Nat) (cell : Cell D) : Outcome D :=
  (processCell fp code cell).getD ⟨false, .nothing⟩

variable {colType : SortedMap String Nat} {row : Nat} {name : String}
  {s s' : ReadState D}

/-- A cell is pushed into the container of its own column. -/
theorem container_record (other : String) (out : Outcome D) :
    (record name row out s).container other
      = if other = name then (s.container name).push out.pushed
        else s.container other := by
  rw [record, ReadState.container]
  cases hp : out.pushed with
  | nothing =>
      by_cases hname : other = name
      · rw [if_pos hname, hname]
        rfl
      · rw [if_neg hname]
        rfl
  | _ =>
      dsimp only
      rw [SortedMap.find?_insert]
      split_ifs with hname
      · rfl
      · rfl

/-- A cell is listed for its own column. -/
theorem listed_record (other : String) (out : Outcome D) :
    (record name row out s).listed other
      = if other = name then
          s.listed name ++ (if out.listed then [row] else [])
        else s.listed other := by
  rw [record, ReadState.listed]
  cases out.listed with
  | false =>
      by_cases hname : other = name
      · simp [hname, ReadState.listed]
      · simp [hname, ReadState.listed]
  | true =>
      simp only [if_true, SortedMap.find?_insert]
      split_ifs with hname
      · rfl
      · rfl

/-- Opening a column leaves the containers of the others. -/
theorem container_openColumn {code : Nat} (other : String)
    (hfresh : row = 0 → other = name → s.container name = {}) :
    (openColumn name code row s).container other = s.container other := by
  rw [openColumn]
  split_ifs with h
  · rw [ReadState.container, SortedMap.find?_insert]
    split_ifs with hname
    · rw [hname, hfresh h.1 hname]
      rfl
    · rfl
  · rfl

/-- And the lists of rows. -/
theorem listed_openColumn {code : Nat} (other : String) :
    (openColumn name code row s).listed other = s.listed other := by
  rw [openColumn]
  split_ifs with h
  · rfl
  · rfl

/-- What a cell that is read can do. -/
theorem readCell_cases {cell : Cell D}
    (h : readCell fp colType row name cell s = some s') :
    (colType.find? name = none ∧ s' = s)
      ∨ ∃ code out, colType.find? name = some code
        ∧ processCell fp code cell = some out
        ∧ s' = record name row out (openColumn name code row s) := by
  rw [readCell] at h
  cases hcode : colType.find? name with
  | none =>
      rw [hcode] at h
      exact Or.inl ⟨rfl, (Option.some.inj h).symm⟩
  | some code =>
      rw [hcode] at h
      cases hout : processCell fp code cell with
      | none =>
          simp only [hout] at h
          cases h
      | some out =>
          simp only [hout] at h
          exact Or.inr ⟨code, out, rfl, hout, (Option.some.inj h).symm⟩

/-- A cell leaves the other columns alone, and those not requested. -/
theorem readCell_frame {cell : Cell D} {other : String}
    (h : readCell fp colType row name cell s = some s')
    (hout : other ≠ name ∨ colType.find? other = none) :
    s'.container other = s.container other
      ∧ s'.listed other = s.listed other := by
  rcases readCell_cases h with ⟨-, rfl⟩ | ⟨code, out, hcode, -, rfl⟩
  · exact ⟨rfl, rfl⟩
  · have hne : other ≠ name := by
      rintro rfl
      rcases hout with hne | hnone
      · exact hne rfl
      · rw [hnone] at hcode
        cases hcode
    rw [container_record, if_neg hne, listed_record, if_neg hne,
      listed_openColumn]
    exact ⟨container_openColumn other fun _ heq => absurd heq hne, rfl⟩

/-- A cell of a requested column is processed into it. -/
theorem readCell_self {cell : Cell D} {code : Nat}
    (hcode : colType.find? name = some code)
    (hfresh : row = 0 → s.container name = {})
    (h : readCell fp colType row name cell s = some s') :
    processCell fp code cell = some (outcome fp code cell)
      ∧ s'.container name
          = (s.container name).push (outcome fp code cell).pushed
      ∧ s'.listed name = s.listed name
          ++ (if (outcome fp code cell).listed then [row] else []) := by
  rcases readCell_cases h with ⟨hnone, -⟩ | ⟨code', out, hcode', hout, rfl⟩
  · rw [hcode] at hnone
    cases hnone
  · obtain rfl := Option.some.inj (hcode.symm.trans hcode')
    rw [container_record, if_pos rfl, listed_record, if_pos rfl,
      listed_openColumn, container_openColumn name fun hrow _ => hfresh hrow,
      outcome, hout]
    exact ⟨rfl, rfl, rfl⟩

/-- A row that is read starts with a cell that is read. -/
theorem readRow_cons_inv {cell : Cell D} {rest : List (String × Cell D)}
    (h : readRow fp colType row ((name, cell) :: rest) s = some s') :
    ∃ s₁, readCell fp colType row name cell s = some s₁
      ∧ readRow fp colType row rest s₁ = some s' := by
  rw [readRow] at h
  cases hcell : readCell fp colType row name cell s with
  | none =>
      rw [hcell] at h
      cases h
  | some s₁ =>
      rw [hcell] at h
      exact ⟨s₁, rfl, h⟩

/-- A row leaves the columns alone that it does not have, and those not
requested. -/
theorem readRow_frame {cells : List (String × Cell D)} {other : String}
    (h : readRow fp colType row cells s = some s')
    (hout : other ∉ cells.map Prod.fst ∨ colType.find? other = none) :
    s'.container other = s.container other
      ∧ s'.listed other = s.listed other := by
  induction cells generalizing s with
  | nil =>
      obtain rfl := Option.some.inj h
      exact ⟨rfl, rfl⟩
  | cons e rest ih =>
      obtain ⟨n, cell⟩ := e
      rw [List.map_cons, List.mem_cons, not_or] at hout
      obtain ⟨s₁, hcell, hread⟩ := readRow_cons_inv h
      have hhead := readCell_frame hcell (hout.imp_left And.left)
      have hrest := ih hread (hout.imp_left And.right)
      rw [hrest.1, hrest.2]
      exact hhead

/-- A row processes the one cell it has of a requested column. -/
theorem readRow_self {cells : List (String × Cell D)} {code : Nat}
    {cell : Cell D} (hnodup : (cells.map Prod.fst).Nodup)
    (hcode : colType.find? name = some code)
    (hcell : cells.lookup name = some cell)
    (hfresh : row = 0 → s.container name = {})
    (h : readRow fp colType row cells s = some s') :
    processCell fp code cell = some (outcome fp code cell)
      ∧ s'.container name
          = (s.container name).push (outcome fp code cell).pushed
      ∧ s'.listed name = s.listed name
          ++ (if (outcome fp code cell).listed then [row] else []) := by
  induction cells generalizing s with
  | nil => cases hcell
  | cons e rest ih =>
      obtain ⟨n, c⟩ := e
      obtain ⟨hhead, hrest⟩ := List.nodup_cons.1 hnodup
      obtain ⟨s₁, hread, hreadrest⟩ := readRow_cons_inv h
      by_cases hn : name = n
      · subst hn
        rw [List.lookup_cons_self] at hcell
        obtain rfl := Option.some.inj hcell
        have hframe := readRow_frame hreadrest (Or.inl hhead)
        rw [hframe.1, hframe.2]
        exact readCell_self hcode hfresh hread
      · rw [lookup_cons_of_ne hn] at hcell
        obtain ⟨hcont, hlist⟩ := readCell_frame hread (Or.inl hn)
        have hfresh₁ : row = 0 → s₁.container name = {} := by
          rw [hcont]
          exact hfresh
        have hnext := ih hrest hcell hfresh₁ hreadrest
        rwa [hcont, hlist] at hnext

/-- What the first row adds to `col_metas`. -/
def metasOf (colType : SortedMap String Nat) (names : List String) :
    List (String × Nat) :=
  names.filterMap fun name =>
    (colType.find? name).bind fun code =>
      if code ≤ 3 then some (name, code) else none

/-- The first row adds the columns to `col_metas`, cell by cell. -/
theorem readCell_colMetas {cell : Cell D}
    (h : readCell fp colType row name cell s = some s') :
    s'.colMetas = s.colMetas
      ++ (if row = 0 then metasOf colType [name] else []) := by
  rcases readCell_cases h with ⟨hcode, rfl⟩ | ⟨code, out, hcode, -, rfl⟩
  · simp [metasOf, hcode]
  · rw [record, openColumn]
    by_cases hrow : row = 0
    · by_cases hle : code ≤ 3
      · simp [metasOf, hcode, hrow, hle]
      · simp [metasOf, hcode, hrow, hle]
    · simp [hrow]

/-- A row adds its columns if it is the first. -/
theorem readRow_colMetas {cells : List (String × Cell D)}
    (h : readRow fp colType row cells s = some s') :
    s'.colMetas = s.colMetas
      ++ (if row = 0 then metasOf colType (cells.map Prod.fst) else []) := by
  induction cells generalizing s with
  | nil =>
      obtain rfl := Option.some.inj h
      simp [metasOf]
  | cons e rest ih =>
      obtain ⟨n, cell⟩ := e
      obtain ⟨s₁, hcell, hread⟩ := readRow_cons_inv h
      have hsplit : metasOf colType (n :: rest.map Prod.fst)
          = metasOf colType [n] ++ metasOf colType (rest.map Prod.fst) :=
        List.filterMap_append (l := [n])
      rw [ih hread, readCell_colMetas hcell, List.append_assoc, List.map_cons]
      split_ifs with hrow
      · rw [hsplit]
      · rfl

-- ============================================================ all rows

variable {names : List String} {rows : List (List (Cell D))}

/-- The cells of a column in these rows. -/
def columnOf (names : List String) (rows : List (List (Cell D)))
    (name : String) : List (Cell D) :=
  rows.map fun row => ((names.zip row).lookup name).getD .null

/-- The rows listed for a column, counted from one on. -/
def listedRows (fp : FloatOps D) (code row : Nat) (cells : List (Cell D)) :
    List Nat :=
  (cells.zipIdx row).filterMap fun c =>
    if (outcome fp code c.1).listed then some c.2 else none

/-- The container of a column after these cells. -/
def collect (fp : FloatOps D) (code : Nat) (c : TypeContainer D)
    (cells : List (Cell D)) : TypeContainer D :=
  cells.foldl (fun c cell => c.push (outcome fp code cell).pushed) c

/-- A row has a cell under each name. -/
theorem lookup_zip {cells : List (Cell D)} (hname : name ∈ names)
    (hlen : cells.length = names.length) :
    (names.zip cells).lookup name
      = some (((names.zip cells).lookup name).getD .null) := by
  have hkeys : (names.zip cells).map Prod.fst = names :=
    List.map_fst_zip (by omega)
  obtain ⟨cell, hcell⟩ := (exists_lookup_iff (names.zip cells) name).2 (by
    rwa [hkeys])
  rw [hcell]
  rfl

/-- Rows that are read start with a row that is read, with the columns of
the query. -/
theorem readRows_cons_inv {r : List (Cell D)} {rest : List (List (Cell D))}
    (hwidths : ∀ r' ∈ r :: rest, r'.length = names.length)
    (h : readRows fp colType names row (r :: rest) s = some s') :
    (names.zip r).map Prod.fst = names
      ∧ ∃ s₁, readRow fp colType row (names.zip r) s = some s₁
        ∧ readRows fp colType names (row + 1) rest s₁ = some s' := by
  have hlen := hwidths r (List.mem_cons_self ..)
  refine ⟨List.map_fst_zip (by omega), ?_⟩
  rw [readRows] at h
  cases hrow : readRow fp colType row (names.zip r) s with
  | none =>
      rw [hrow] at h
      cases h
  | some s₁ =>
      rw [hrow] at h
      exact ⟨s₁, rfl, h⟩

/-- What the rows leave behind of a requested column. -/
theorem readRows_self {code : Nat} (hnodup : names.Nodup)
    (hname : name ∈ names) (hcode : colType.find? name = some code)
    (hwidths : ∀ r ∈ rows, r.length = names.length)
    (hfresh : row = 0 → s.container name = {})
    (h : readRows fp colType names row rows s = some s') :
    (∀ cell ∈ columnOf names rows name,
        processCell fp code cell = some (outcome fp code cell))
      ∧ s'.container name
          = collect fp code (s.container name) (columnOf names rows name)
      ∧ s'.listed name = s.listed name
          ++ listedRows fp code row (columnOf names rows name) := by
  induction rows generalizing row s with
  | nil =>
      obtain rfl := Option.some.inj h
      refine ⟨List.forall_mem_nil _, rfl, ?_⟩
      simp [listedRows, columnOf]
  | cons r rest ih =>
      obtain ⟨hkeys, s₁, hrow, hread⟩ := readRows_cons_inv hwidths h
      have hlen := hwidths r (List.mem_cons_self ..)
      obtain ⟨hcell, hcont, hlist⟩ := readRow_self (by rwa [hkeys]) hcode
        (lookup_zip hname hlen) hfresh hrow
      obtain ⟨hcells, hcont', hlist'⟩ := ih
        (fun r' hr' => hwidths r' (List.mem_cons_of_mem _ hr'))
        (fun hzero => by omega) hread
      refine ⟨List.forall_mem_cons.2 ⟨hcell, hcells⟩, ?_, ?_⟩
      · rw [hcont', hcont]
        rfl
      · rw [hlist', hlist, List.append_assoc]
        congr 1
        simp only [columnOf, listedRows, List.map_cons, List.zipIdx_cons]
        rw [List.filterMap_cons]
        split_ifs with hl
        · simp
        · simp

/-- Nothing is listed under a name that is not requested or not there. -/
theorem readRows_frame (hwidths : ∀ r ∈ rows, r.length = names.length)
    (hout : name ∉ names ∨ colType.find? name = none)
    (h : readRows fp colType names row rows s = some s') :
    s'.listed name = s.listed name := by
  induction rows generalizing row s with
  | nil =>
      obtain rfl := Option.some.inj h
      rfl
  | cons r rest ih =>
      obtain ⟨hkeys, s₁, hrow, hread⟩ := readRows_cons_inv hwidths h
      have hrest := ih
        (fun r' hr' => hwidths r' (List.mem_cons_of_mem _ hr')) hread
      rw [hrest]
      exact (readRow_frame hrow (by rwa [hkeys])).2

/-- `col_metas` is filled by the first row. -/
theorem readRows_colMetas (hwidths : ∀ r ∈ rows, r.length = names.length)
    (h : readRows fp colType names row rows s = some s') :
    s'.colMetas = s.colMetas
      ++ (if row = 0 ∧ rows ≠ [] then metasOf colType names else []) := by
  induction rows generalizing row s with
  | nil =>
      obtain rfl := Option.some.inj h
      simp
  | cons r rest ih =>
      obtain ⟨hkeys, s₁, hrow, hread⟩ := readRows_cons_inv hwidths h
      have hrest := ih
        (fun r' hr' => hwidths r' (List.mem_cons_of_mem _ hr')) hread
      rw [hrest, readRow_colMetas hrow, hkeys]
      simp

end PrimiHub.DataStore
