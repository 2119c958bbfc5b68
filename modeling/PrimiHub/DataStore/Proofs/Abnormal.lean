/-
When the table of `read_from_abnormal` is the query's result.

The reader pairs fields in name order with arrays in query order, and it
sorts values into vectors cell by cell. So its table is right exactly when
the requested columns come in the query as they come in the schema, there
is a row to open the columns with, and no cell is one of those it misreads:
a NULL in a LONG column, which goes to the wrong vector, a text that starts
with a number and is none, and an integer text outside 32 bits
(`abnormal_table_faithful_iff`).

Chain: `values_collect` (the array of a column), `readOff_of_some` (what
the reader returns), `columnValues_length_iff` and `listedRows_eq_iff` (when
that is right of a column), then fields against arrays.
-/
import Mathlib.Data.List.Infix
import Mathlib.Data.List.Nodup
import PrimiHub.DataStore.Proofs.Rows

namespace PrimiHub.DataStore

open Lib

variable {D : Type}

-- ====================================================== the statement

/-- The cells of a column of the query. -/
def Query.column (q : Query D) (name : String) : List (Cell D) :=
  q.rows.map fun row => ((q.names.zip row).lookup name).getD .null

/-- The values of an array, row by row. -/
def ColumnArray.values : ColumnArray D → List (Pushed D)
  | .strings l => l.map .string
  | .ints l => l.map .int
  | .doubles l => l.map .double

/-- The rows of a column that belong into the index. -/
def abnormalRows (colType : SortedMap String Nat) (q : Query D)
    (name : String) : List Nat :=
  match colType.find? name with
  | none => []
  | some code =>
      if name ∈ q.names ∧ code ∈ [1, 2, 3] then
        (q.column name).zipIdx.filterMap fun c =>
          if c.1.abnormal then some c.2 else none
      else []

/-- Every requested column of the query is in the table under its name,
with a value for each row and every integer as it was, and the index has
the rows to be filled in and no others. -/
structure FaithfulTable (fp : FloatOps D) (colType : SortedMap String Nat)
    (q : Query D) (t : AbnormalTable D) : Prop where
  columns : ∀ name code, name ∈ q.names → colType.find? name = some code →
    ∃ (p : Nat) (kind : FieldType) (array : ColumnArray D),
      t.fields[p]? = some (name, kind)
      ∧ t.colMetas[p]?.map Prod.fst = some name
      ∧ t.arrays[p]? = some array
      ∧ array.values.length = q.rows.length
      ∧ ∀ (i : Nat) cell v, (q.column name)[i]? = some cell →
        cell.int64? = some v →
          array.values[i]? = some (carried fp code cell v)
  index : ∀ name, (t.index.find? name).getD [] = abnormalRows colType q name

/-- The requested columns of the query, in its order. -/
def requested (colType : SortedMap String Nat) (q : Query D) :
    List String :=
  q.names.filter fun name => (colType.find? name).isSome

/-- A text that is a number if it starts with one, and fits an `int` if it
is an `int64_t`. -/
def PlainText (s : List Char) : Prop :=
  (converts s = true → numeral s = true)
    ∧ ∀ n, strtol s = some (n, []) → -2 ^ 63 ≤ n → n < 2 ^ 63 →
      -2 ^ 31 ≤ n ∧ n < 2 ^ 31

/-- What the reader needs of a query and a `col_type`. -/
structure ReadsRight (colType : SortedMap String Nat) (q : Query D) :
    Prop where
  codes : ∀ name code, name ∈ q.names → colType.find? name = some code →
    code ≤ 3
  order : requested colType q <+: (schemaFields colType).map Prod.fst
  rows : q.rows = [] → requested colType q = []
  longs : ∀ name, name ∈ q.names → colType.find? name = some 3 →
    .null ∉ q.column name
  texts : ∀ name code, name ∈ q.names → colType.find? name = some code →
    code ≠ 0 → ∀ s, .text s ∈ q.column name → PlainText s

-- =========================================================== the table

variable {fp : FloatOps D} {colType : SortedMap String Nat} {name : String}

/-- What is pushed is found in the array of its type. -/
theorem values_push {code : Nat} (hcode : code ≤ 3) (c : TypeContainer D)
    (p : Pushed D) :
    (toArray (c.push p) code).values
      = (toArray c code).values ++ (if p.fits code then [p] else []) := by
  have hcodes : code = 0 ∨ code = 1 ∨ code = 2 ∨ code = 3 := by omega
  cases p with
  | nothing => simp [TypeContainer.push, Pushed.fits]
  | _ =>
      rcases hcodes with rfl | rfl | rfl | rfl
      all_goals
        simp [toArray, TypeContainer.push, Pushed.fits, ColumnArray.values]

/-- The array of a column has the values of its cells that went onto the
right vector. -/
theorem values_collect {code : Nat} (hcode : code ≤ 3) (c : TypeContainer D)
    (cells : List (Cell D)) :
    (toArray (collect fp code c cells) code).values
      = (toArray c code).values
        ++ (cells.map fun cell => (outcome fp code cell).pushed).filter
          (Pushed.fits code) := by
  induction cells generalizing c with
  | nil => simp [collect]
  | cons cell rest ih =>
      have hstep : collect fp code c (cell :: rest)
          = collect fp code (c.push (outcome fp code cell).pushed) rest := rfl
      rw [hstep, ih, values_push hcode, List.append_assoc, List.map_cons,
        List.filter_cons]
      split_ifs with hfits
      · rfl
      · rfl

theorem values_empty (code : Nat) :
    (toArray ({} : TypeContainer D) code).values = [] := by
  unfold toArray
  split
  all_goals rfl

variable {q : Query D} {t : AbnormalTable D}

/-- The values of a column of the table. -/
def columnValues (fp : FloatOps D) (code : Nat) (q : Query D)
    (name : String) : List (Pushed D) :=
  ((q.column name).map fun cell => (outcome fp code cell).pushed).filter
    (Pushed.fits code)

/-- What the reader returns, column by column. -/
structure ReadOff (fp : FloatOps D) (colType : SortedMap String Nat)
    (q : Query D) (t : AbnormalTable D) : Prop where
  fields : t.fields = schemaFields colType
  colMetas : t.colMetas
    = if q.rows ≠ [] then metasOf colType q.names else []
  arrays : ∀ (p : Nat) name code, t.colMetas[p]? = some (name, code) →
    ∃ array, t.arrays[p]? = some array
      ∧ array.values = columnValues fp code q name
  cells : ∀ name code, name ∈ q.names → colType.find? name = some code →
    ∀ cell ∈ q.column name,
      processCell fp code cell = some (outcome fp code cell)
  index : ∀ name code, name ∈ q.names → colType.find? name = some code →
    (t.index.find? name).getD [] = listedRows fp code 0 (q.column name)
  noindex : ∀ name, name ∉ q.names ∨ colType.find? name = none →
    (t.index.find? name).getD [] = []

/-- The requested columns with a supported type. -/
theorem mem_metasOf {names : List String} {name : String} {code : Nat} :
    (name, code) ∈ metasOf colType names
      ↔ name ∈ names ∧ colType.find? name = some code ∧ code ≤ 3 := by
  simp only [metasOf, List.mem_filterMap]
  constructor
  · intro h
    obtain ⟨n, hn, hsome⟩ := h
    obtain ⟨k, hk, hif⟩ := Option.bind_eq_some_iff.1 hsome
    split_ifs at hif with hle
    obtain ⟨rfl, rfl⟩ := Prod.mk.inj (Option.some.inj hif)
    exact ⟨hn, hk, hle⟩
  · intro h
    obtain ⟨hn, hk, hle⟩ := h
    exact ⟨name, hn, by rw [hk, Option.bind_some, if_pos hle]⟩

/-- What the reader has returned, read off its steps. -/
theorem readOff_of_some (h : readFromAbnormal fp colType q = some t) :
    ReadOff fp colType q t := by
  rw [readFromAbnormal] at h
  cases hrows : readRows fp colType q.names 0 q.rows
      ⟨[], SortedMap.empty, SortedMap.empty⟩ with
  | none =>
      rw [hrows] at h
      cases h
  | some s =>
      rw [hrows] at h
      obtain rfl := Option.some.inj h
      have hself := fun name code (hname : name ∈ q.names)
          (hcode : colType.find? name = some code) =>
        readRows_self q.names_nodup hname hcode q.widths (fun _ => rfl) hrows
      have hmetas := readRows_colMetas q.widths hrows
      simp only [List.nil_append, true_and] at hmetas
      refine ⟨rfl, hmetas, ?_, ?_, ?_, ?_⟩
      · intro p name code hp
        have hmem : (name, code) ∈ metasOf colType q.names := by
          have hin := List.mem_of_getElem? hp
          dsimp only at hin
          rw [hmetas] at hin
          split_ifs at hin with hne
          · exact hin
          · cases hin
        obtain ⟨hname, hcode, hle⟩ := mem_metasOf.1 hmem
        obtain ⟨-, hcont, -⟩ := hself name code hname hcode
        dsimp only at hp ⊢
        refine ⟨_, by rw [List.getElem?_map, hp, Option.map_some], ?_⟩
        rw [hcont, values_collect hle]
        change (toArray ({} : TypeContainer D) code).values ++ _ = _
        rw [values_empty]
        rfl
      · intro name code hname hcode
        exact (hself name code hname hcode).1
      · intro name code hname hcode
        exact (hself name code hname hcode).2.2
      · intro name hout
        exact readRows_frame q.widths hout hrows

/-- A column has a value for every row unless it is a LONG column with a
NULL. -/
theorem columnValues_length_iff {code : Nat} (hcode : code ≤ 3)
    (hcells : ∀ cell ∈ q.column name,
      processCell fp code cell = some (outcome fp code cell)) :
    (columnValues fp code q name).length = q.rows.length
      ↔ (code = 3 → .null ∉ q.column name) := by
  have hrows : q.rows.length
      = ((q.column name).map fun cell =>
          (outcome fp code cell).pushed).length := by
    rw [List.length_map, Query.column, List.length_map]
  rw [columnValues, hrows, List.length_filter_eq_length_iff,
    List.forall_mem_map]
  constructor
  · intro h hlong hnull
    exact (processCell_fits hcode (hcells _ hnull)).1 (h _ hnull) ⟨hlong, rfl⟩
  · intro h cell hcell
    refine (processCell_fits hcode (hcells cell hcell)).2 ?_
    intro hc
    obtain ⟨hlong, rfl⟩ := hc
    exact h hlong hcell

/-- The values are then those of the cells, row by row. -/
theorem columnValues_getElem? {code : Nat} (hcode : code ≤ 3)
    (hcells : ∀ cell ∈ q.column name,
      processCell fp code cell = some (outcome fp code cell))
    (hlong : code = 3 → .null ∉ q.column name) {i : Nat} {cell : Cell D}
    (hi : (q.column name)[i]? = some cell) :
    (columnValues fp code q name)[i]?
      = some (outcome fp code cell).pushed := by
  have hall : ∀ p ∈ (q.column name).map fun cell =>
      (outcome fp code cell).pushed, p.fits code = true := by
    rw [List.forall_mem_map]
    intro c hc
    refine (processCell_fits hcode (hcells c hc)).2 ?_
    intro h
    obtain ⟨h3, rfl⟩ := h
    exact hlong h3 hc
  rw [columnValues, List.filter_eq_self.2 hall, List.getElem?_map, hi,
    Option.map_some]

-- ============================================================ the index

/-- The rows whose cell satisfies a test. -/
theorem mem_rowsWhere {cells : List (Cell D)} {f : Cell D → Bool} {i : Nat} :
    (i ∈ cells.zipIdx.filterMap fun c => if f c.1 then some c.2 else none)
      ↔ ∃ cell, cells[i]? = some cell ∧ f cell = true := by
  simp only [List.mem_filterMap]
  constructor
  · intro h
    obtain ⟨⟨cell, j⟩, hmem, hif⟩ := h
    split_ifs at hif with hf
    obtain rfl := Option.some.inj hif
    exact ⟨cell, List.mem_zipIdx_iff_getElem?.1 hmem, hf⟩
  · intro h
    obtain ⟨cell, hcell, hf⟩ := h
    exact ⟨(cell, i), List.mem_zipIdx_iff_getElem?.2 hcell, by rw [if_pos hf]⟩

/-- The rows are listed right when every cell is. -/
theorem listedRows_eq_iff {code : Nat} {cells : List (Cell D)} :
    (listedRows fp code 0 cells = cells.zipIdx.filterMap fun c =>
        if c.1.abnormal then some c.2 else none)
      ↔ ∀ cell ∈ cells, (outcome fp code cell).listed = cell.abnormal := by
  constructor
  · intro h cell hcell
    obtain ⟨i, hi⟩ := List.mem_iff_getElem?.1 hcell
    have hiff := congrArg (i ∈ ·) h
    simp only [listedRows, eq_iff_iff] at hiff
    rw [mem_rowsWhere (f := fun c => (outcome fp code c).listed),
      mem_rowsWhere (f := Cell.abnormal), hi] at hiff
    simp only [Option.some.injEq, exists_eq_left'] at hiff
    exact Bool.eq_iff_iff.2 hiff
  · intro h
    refine List.filterMap_congr fun c hc => ?_
    rw [h c.1 (List.fst_mem_of_mem_zipIdx hc)]

/-- A column of type 0 lists no row. -/
theorem listedRows_zero {cells : List (Cell D)}
    (hcells : ∀ cell ∈ cells,
      processCell fp 0 cell = some (outcome fp 0 cell)) :
    listedRows fp 0 0 cells = [] := by
  refine List.filterMap_eq_nil_iff.2 fun c hc => ?_
  have hmem := List.fst_mem_of_mem_zipIdx hc
  rw [processCell_listed_zero (hcells c.1 hmem)]
  rfl

-- =================================================== fields and arrays

/-- A field of the schema has a supported type. -/
theorem code_of_mem_schemaFields {kind : FieldType} {code : Nat}
    (h : (name, kind) ∈ schemaFields colType)
    (hcode : colType.find? name = some code) : code ≤ 3 := by
  obtain ⟨e, he, hsome⟩ := List.mem_filterMap.1 h
  obtain ⟨n, k⟩ := e
  have hk : k ≤ 3 ∧ n = name := by
    split at hsome
    case h_5 => cases hsome
    all_goals
      rename_i hk
      dsimp only at hk
      exact ⟨by omega, (Prod.mk.inj (Option.some.inj hsome)).1⟩
  obtain ⟨hle, rfl⟩ := hk
  have hfind := (colType.mem_entries_iff n k).1 he
  rw [hcode] at hfind
  obtain rfl := Option.some.inj hfind
  exact hle

/-- With known codes only, `col_metas` has the requested columns. -/
theorem metasOf_names
    (hcodes : ∀ name code, name ∈ q.names → colType.find? name = some code →
      code ≤ 3) :
    (metasOf colType q.names).map Prod.fst = requested colType q := by
  have hall : ∀ names : List String, (∀ n ∈ names, n ∈ q.names) →
      (metasOf colType names).map Prod.fst
        = names.filter fun name => (colType.find? name).isSome := by
    intro names hin
    induction names with
    | nil => rfl
    | cons n rest ih =>
        have hrest := ih fun m hm => hin m (List.mem_cons_of_mem _ hm)
        rw [metasOf, List.filterMap_cons, List.filter_cons]
        cases hcode : colType.find? n with
        | none => simpa [metasOf] using hrest
        | some code =>
            have hle := hcodes n code (hin n (List.mem_cons_self ..)) hcode
            simp only [Option.bind_some, if_pos hle, List.map_cons,
              Option.isSome_some, if_true]
            exact congrArg (n :: ·) hrest
  exact hall q.names fun n hn => hn

/-- A column of the query with a type is requested. -/
theorem mem_requested {code : Nat} (hname : name ∈ q.names)
    (hcode : colType.find? name = some code) :
    name ∈ requested colType q :=
  List.mem_filter.2 ⟨hname, by rw [hcode]; rfl⟩

/-- No column is requested twice. -/
theorem requested_nodup : (requested colType q).Nodup :=
  q.names_nodup.filter _

section Faithful

variable (hread : ReadOff fp colType q t)
include hread

/-- A faithful table has all columns, so their types are supported. -/
theorem codes_of_faithful (h : FaithfulTable fp colType q t) :
    ∀ name code, name ∈ q.names → colType.find? name = some code →
      code ≤ 3 := by
  intro name code hname hcode
  obtain ⟨p, kind, array, hfield, -⟩ := h.columns name code hname hcode
  rw [hread.fields] at hfield
  exact code_of_mem_schemaFields (List.mem_of_getElem? hfield) hcode

/-- Without a row no column is opened, so none can have been requested. -/
theorem rows_of_faithful (h : FaithfulTable fp colType q t)
    (hrows : q.rows = []) : requested colType q = [] := by
  refine List.eq_nil_iff_forall_not_mem.2 fun name hname => ?_
  obtain ⟨hin, hsome⟩ := List.mem_filter.1 hname
  obtain ⟨code, hcode⟩ := Option.isSome_iff_exists.1 hsome
  obtain ⟨p, kind, array, -, hmeta, -⟩ := h.columns name code hin hcode
  rw [hread.colMetas, if_neg (not_not.2 hrows)] at hmeta
  cases hmeta

/-- Where there are rows, `col_metas` has the requested columns. -/
theorem colMetas_names
    (hcodes : ∀ name code, name ∈ q.names → colType.find? name = some code →
      code ≤ 3) (hrows : q.rows ≠ []) :
    t.colMetas.map Prod.fst = requested colType q := by
  rw [hread.colMetas, if_pos hrows, metasOf_names hcodes]

/-- The columns of a faithful table stand in the order of the schema. -/
theorem order_of_faithful (h : FaithfulTable fp colType q t) :
    requested colType q <+: (schemaFields colType).map Prod.fst := by
  by_cases hrows : q.rows = []
  · rw [rows_of_faithful hread h hrows]
    exact List.nil_prefix
  · have hmetas := colMetas_names hread (codes_of_faithful hread h) hrows
    refine List.prefix_iff_getElem?.2 fun j hj => ?_
    have hmem := List.getElem_mem hj
    obtain ⟨hin, hsome⟩ := List.mem_filter.1 hmem
    obtain ⟨code, hcode⟩ := Option.isSome_iff_exists.1 hsome
    obtain ⟨p, kind, array, hfield, hmeta, -⟩ := h.columns _ code hin hcode
    -- the array's place and the field's are one, and a name has one place
    rw [← List.getElem?_map, hmetas] at hmeta
    have hpj : p = j := by
      obtain ⟨hp, heq⟩ := List.getElem?_eq_some_iff.1 hmeta
      exact (List.Nodup.getElem_inj_iff requested_nodup).1 heq
    subst hpj
    rw [hread.fields] at hfield
    rw [List.getElem?_map, hfield]
    rfl

/-- The array under a column's name is the column's. -/
theorem array_of_faithful (h : FaithfulTable fp colType q t) {code : Nat}
    (hname : name ∈ q.names) (hcode : colType.find? name = some code) :
    (columnValues fp code q name).length = q.rows.length
      ∧ ∀ (i : Nat) cell v, (q.column name)[i]? = some cell →
        cell.int64? = some v →
          (columnValues fp code q name)[i]?
            = some (carried fp code cell v) := by
  obtain ⟨p, kind, array, -, hmeta, harray, hlength, hvalues⟩ :=
    h.columns name code hname hcode
  obtain ⟨m, hm, hfst⟩ := Option.map_eq_some_iff.1 hmeta
  obtain ⟨n, k⟩ := m
  obtain rfl : n = name := hfst
  obtain ⟨array', harray', hcolumn⟩ := hread.arrays p n k hm
  obtain rfl := Option.some.inj (harray.symm.trans harray')
  have hk : k = code := by
    have hin := List.mem_of_getElem? hm
    rw [hread.colMetas] at hin
    split_ifs at hin with hne
    · obtain ⟨-, hfind, -⟩ := mem_metasOf.1 hin
      rw [hcode] at hfind
      exact (Option.some.inj hfind).symm
    · cases hin
  subst hk
  rw [hcolumn] at hlength
  refine ⟨hlength, fun i cell v hi hv => ?_⟩
  rw [← hcolumn]
  exact hvalues i cell v hi hv

end Faithful

/-- A faithful table shows that the query meets the condition. -/
theorem readsRight_of_faithful (hread : ReadOff fp colType q t)
    (h : FaithfulTable fp colType q t) : ReadsRight colType q := by
  have hcodes := codes_of_faithful hread h
  have hlongs : ∀ name code, name ∈ q.names →
      colType.find? name = some code → code = 3 →
        .null ∉ q.column name := fun name code hname hcode =>
    (columnValues_length_iff (hcodes name code hname hcode)
      (hread.cells name code hname hcode)).1
        (array_of_faithful hread h hname hcode).1
  refine ⟨hcodes, order_of_faithful hread h, rows_of_faithful hread h,
    fun name hname hcode => hlongs name 3 hname hcode rfl, ?_⟩
  intro name code hname hcode hzero s hs
  have hle := hcodes name code hname hcode
  have hnum : code ∈ [1, 2, 3] := (code_cases hle).resolve_left hzero
  have hcell := hread.cells name code hname hcode _ hs
  constructor
  · have hindex := h.index name
    rw [hread.index name code hname hcode, abnormalRows, hcode] at hindex
    simp only [hname, hnum, and_self, if_true] at hindex
    exact (processCell_listed hnum hcell).1 (listedRows_eq_iff.1 hindex _ hs)
      s rfl
  · intro n hn hlo hhi
    have hv : (Cell.text s : Cell D).int64? = some n := by
      rw [Cell.int64?, hn]
      exact if_pos ⟨hlo, hhi⟩
    obtain ⟨i, hi⟩ := List.mem_iff_getElem?.1 hs
    have hvalue := (array_of_faithful hread h hname hcode).2 i _ n hi hv
    rw [columnValues_getElem? hle (hread.cells name code hname hcode)
      (hlongs name code hname hcode) hi] at hvalue
    exact (processCell_carries hle hcell hv).1 (Option.some.inj hvalue)
      hzero s rfl

/-- Under the condition a field and its array are those of one column. -/
theorem columns_of_readsRight (hread : ReadOff fp colType q t)
    (h : ReadsRight colType q) {code : Nat} (hname : name ∈ q.names)
    (hcode : colType.find? name = some code) :
    ∃ (p : Nat) (kind : FieldType), t.fields[p]? = some (name, kind)
      ∧ t.colMetas[p]? = some (name, code) := by
  have hreq := mem_requested hname hcode
  have hrows : q.rows ≠ [] := by
    intro hnil
    rw [h.rows hnil] at hreq
    cases hreq
  obtain ⟨p, hp, hpname⟩ := List.mem_iff_getElem.1 hreq
  have hfield := List.prefix_iff_getElem?.1 h.order p hp
  rw [hpname, List.getElem?_map] at hfield
  obtain ⟨f, hf, rfl⟩ := Option.map_eq_some_iff.1 hfield
  have hmeta : (t.colMetas.map Prod.fst)[p]? = some f.1 := by
    rw [colMetas_names hread h.codes hrows, List.getElem?_eq_getElem hp,
      hpname]
  rw [List.getElem?_map] at hmeta
  obtain ⟨m, hm, hfst⟩ := Option.map_eq_some_iff.1 hmeta
  have hin := List.mem_of_getElem? hm
  rw [hread.colMetas, if_pos hrows] at hin
  obtain ⟨-, hfind, -⟩ := mem_metasOf.1 hin
  rw [hfst, hcode] at hfind
  refine ⟨p, f.2, ?_, ?_⟩
  · rw [hread.fields, hf]
  · rw [hm, ← hfst, Option.some.inj hfind]

/-- Under the condition the table is faithful. -/
theorem faithful_of_readsRight (hread : ReadOff fp colType q t)
    (h : ReadsRight colType q) : FaithfulTable fp colType q t := by
  refine ⟨?_, ?_⟩
  · intro name code hname hcode
    have hle := h.codes name code hname hcode
    have hcells := hread.cells name code hname hcode
    have hlong : code = 3 → .null ∉ q.column name := by
      rintro rfl
      exact h.longs name hname hcode
    obtain ⟨p, kind, hfield, hmeta⟩ :=
      columns_of_readsRight hread h hname hcode
    obtain ⟨array, harray, hvalues⟩ := hread.arrays p name code hmeta
    refine ⟨p, kind, array, hfield, by rw [hmeta]; rfl, harray, ?_, ?_⟩
    · rw [hvalues]
      exact (columnValues_length_iff hle hcells).2 hlong
    · intro i cell v hi hv
      rw [hvalues, columnValues_getElem? hle hcells hlong hi]
      have hcell := hcells cell (List.mem_of_getElem? hi)
      refine congrArg some ((processCell_carries hle hcell hv).2 ?_)
      rintro hzero s rfl
      obtain ⟨hn, hlo, hhi⟩ := int64?_text hv
      exact (h.texts name code hname hcode hzero s
        (List.mem_of_getElem? hi)).2 v hn hlo hhi
  · intro name
    rw [abnormalRows]
    cases hcode : colType.find? name with
    | none => exact hread.noindex name (Or.inr hcode)
    | some code =>
        dsimp only
        by_cases hname : name ∈ q.names
        · have hcells := hread.cells name code hname hcode
          rw [hread.index name code hname hcode]
          rcases code_cases (h.codes name code hname hcode) with rfl | hnum
          · rw [if_neg (by simp)]
            exact listedRows_zero hcells
          · have hzero := ne_zero_of_numeric hnum
            rw [if_pos ⟨hname, hnum⟩, listedRows_eq_iff]
            intro cell hcell
            refine (processCell_listed hnum (hcells cell hcell)).2 ?_
            rintro s rfl
            exact (h.texts name code hname hcode hzero s hcell).1
        · rw [if_neg fun hin => hname hin.1]
          exact hread.noindex name (Or.inl hname)

/-- The table is the query's result exactly when the requested columns of
the query are the first of the schema, in its order, with a row to start
from, and no cell is one the reader misreads. -/
theorem abnormal_table_faithful_iff (fp : FloatOps D)
    (colType : SortedMap String Nat) (q : Query D) (t : AbnormalTable D)
    (h : readFromAbnormal fp colType q = some t) :
    FaithfulTable fp colType q t ↔ ReadsRight colType q :=
  ⟨readsRight_of_faithful (readOff_of_some h),
    faithful_of_readsRight (readOff_of_some h)⟩

/-- Doubles that hold integers only, enough for the tables below. -/
def integerFloats : FloatOps Int where
  ofInt := id
  strtod := fun _ => 0
  toText := fun d => (toString d).toList
  exact := fun _ _ _ _ _ _ h => h

/-- A column of integers and a column of LONGs, asked for in this order. -/
def idAndSize : SortedMap String Nat :=
  (SortedMap.empty.insert "id" 1).insert "size" 3

/-- Two rows of them, with one cell to be filled in. -/
def plainQuery : Query Int where
  names := ["id", "size"]
  rows := [[.integer 7, .text "12".toList], [.null, .integer 5000000000]]
  names_nodup := by decide
  widths := by decide

/-- A query that meets the condition. -/
theorem plainQuery_faithful :
    ∃ t, readFromAbnormal integerFloats idAndSize plainQuery = some t
      ∧ FaithfulTable integerFloats idAndSize plainQuery t := by
  refine ⟨_, rfl, (abnormal_table_faithful_iff integerFloats idAndSize
    plainQuery _ rfl).2 ?_⟩
  have hnames : ∀ name ∈ plainQuery.names,
      idAndSize.find? name = some 1 ∧ plainQuery.column name
          = [.integer 7, .null]
        ∨ idAndSize.find? name = some 3 ∧ plainQuery.column name
          = [.text "12".toList, .integer 5000000000] := by
    decide
  refine ⟨?_, by decide, nofun, ?_, ?_⟩
  · intro name code hname hcode
    rcases hnames name hname with ⟨hfind, -⟩ | ⟨hfind, -⟩
    · rw [← Option.some.inj (hfind.symm.trans hcode)]
      decide
    · rw [← Option.some.inj (hfind.symm.trans hcode)]
  · intro name hname hcode
    rcases hnames name hname with ⟨hfind, -⟩ | ⟨-, hcol⟩
    · cases hfind.symm.trans hcode
    · rw [hcol]
      decide
  · intro name code hname _ _ s hs
    rcases hnames name hname with ⟨-, hcol⟩ | ⟨-, hcol⟩
    · rw [hcol] at hs
      simp at hs
    · rw [hcol] at hs
      obtain rfl : s = "12".toList := by simpa using hs
      refine ⟨by decide, fun n hn _ _ => ?_⟩
      have hread : strtol "12".toList = some (12, []) := by decide
      obtain rfl : (12 : Int) = n :=
        (Prod.mk.inj (Option.some.inj (hread.symm.trans hn))).1
      decide

/-- The same columns in a query that has them the other way round. -/
def swappedQuery : Query Int where
  names := ["size", "id"]
  rows := [[.integer 12, .integer 7]]
  names_nodup := by decide
  widths := by decide

/-- The values of one column stand under the name of the other. -/
theorem swappedQuery_mislabelled :
    ∃ t, readFromAbnormal integerFloats idAndSize swappedQuery = some t
      ∧ t.fields = [("id", .int64), ("size", .int64)]
      ∧ t.arrays = [.ints [12], .ints [7]]
      ∧ ¬ FaithfulTable integerFloats idAndSize swappedQuery t := by
  refine ⟨_, rfl, rfl, rfl, fun h => ?_⟩
  have hright := readsRight_of_faithful (readOff_of_some rfl) h
  exact absurd hright.order (by decide)

end PrimiHub.DataStore
