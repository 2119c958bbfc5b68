/-
What `readInternal` does to integers.

A text that is a decimal integer is read by `stoi` to its end, so the
builders store the integer where it is an `int` and zero where it is not
(`stoiOrZero_of_decimalInteger`). Both integer builders store the same
values (`makeArrowArray_integer`); they differ in the type of the array.
An integer that is no `int` is not zero, so a zero in its place is always
wrong, and the condition is exact.

The positions are those of the selection: the `i`-th column of the result
is what `queryResult` has at `i` (`queryResult_getD`), and the loop gives
it the field that the `i`-th index stands for (`fetchColumns_spec`).
-/
import Mathlib.Data.List.GetD
import PrimiHub.DataStore.Fetch

namespace PrimiHub.DataStore

open Lib (decimal stoi strtol strtol_digits)

variable {F D : Type} (R : FloatReader F D)

-- ============================================================= one cell

theorem strtol_of_decimalInteger {cell : Text} {v : Int}
    (h : decimalInteger cell = some v) : strtol cell = some (v, []) := by
  unfold decimalInteger at h
  split at h
  case h_1 digits =>
    by_cases hd : digits ≠ [] ∧ digits.all Char.isDigit
    · rw [if_pos hd] at h
      rw [← Option.some.inj h]
      exact (strtol_digits hd.1 (List.all_eq_true.1 hd.2)).2
    · rw [if_neg hd] at h
      cases h
  case h_2 =>
    by_cases hd : cell ≠ [] ∧ cell.all Char.isDigit
    · rw [if_pos hd] at h
      rw [← Option.some.inj h]
      exact (strtol_digits hd.1 (List.all_eq_true.1 hd.2)).1
    · rw [if_neg hd] at h
      cases h

/-- What both integer builders store. -/
theorem stoiOrZero_of_decimalInteger {cell : Text} {v : Int}
    (h : decimalInteger cell = some v) :
    stoiOrZero cell = if -2 ^ 31 ≤ v ∧ v < 2 ^ 31 then v else 0 := by
  simp only [stoiOrZero, stoi, strtol_of_decimalInteger h]
  by_cases hv : -2 ^ 31 ≤ v ∧ v < 2 ^ 31
  · rw [if_pos hv, if_pos hv, Option.getD_some]
  · rw [if_neg hv, if_neg hv, Option.getD_none]

theorem stoiOrZero_eq_iff {cell : Text} {v : Int}
    (h : decimalInteger cell = some v) :
    stoiOrZero cell = v ↔ -2 ^ 31 ≤ v ∧ v < 2 ^ 31 := by
  rw [stoiOrZero_of_decimalInteger h]
  by_cases hv : -2 ^ 31 ≤ v ∧ v < 2 ^ 31
  · rw [if_pos hv]
    exact iff_of_true rfl hv
  · rw [if_neg hv]
    omega

-- ========================================================== one column

theorem makeArrowArray_integer (type : IntType) (cells : List Text) :
    ∃ built, makeArrowArray R (.integer type) cells
        = .integers built (cells.map stoiOrZero)
      ∧ (built = type ↔ type = .int32 ∨ type = .int64) := by
  cases type with
  | int64 => exact ⟨.int64, rfl, by decide⟩
  | uint64 => exact ⟨.int64, rfl, by decide⟩
  | int8 => exact ⟨.int32, rfl, by decide⟩
  | int16 => exact ⟨.int32, rfl, by decide⟩
  | int32 => exact ⟨.int32, rfl, by decide⟩
  | uint8 => exact ⟨.int32, rfl, by decide⟩
  | uint16 => exact ⟨.int32, rfl, by decide⟩
  | uint32 => exact ⟨.int32, rfl, by decide⟩

/-- Rows pushed onto columns put the `i`-th cells behind the `i`-th
column. -/
theorem foldl_pushRow_getD {columns i : Nat} (hi : i < columns) :
    ∀ {rows : List (List Text)} {queryResult : List (List Text)},
      queryResult.length = columns →
      (∀ row ∈ rows, row.length = columns) →
      (rows.foldl pushRow queryResult).getD i []
        = queryResult.getD i [] ++ rows.filterMap (·[i]?)
  | [], _, _, _ => by simp
  | row :: rest, queryResult, hlen, hwidths => by
      have hrow := hwidths row List.mem_cons_self
      have hpushed : (pushRow queryResult row).length = columns := by
        rw [pushRow, List.length_zipWith, hlen, hrow, Nat.min_self]
      have hcell : (pushRow queryResult row).getD i []
          = queryResult.getD i [] ++ [row[i]] := by
        rw [List.getD_eq_getElem _ _ (by omega),
          List.getD_eq_getElem _ _ (by omega)]
        simp only [pushRow, List.getElem_zipWith]
      rw [List.foldl_cons, foldl_pushRow_getD hi hpushed fun r hr =>
        hwidths r (List.mem_cons_of_mem _ hr), hcell, List.append_assoc,
        List.filterMap_cons, List.getElem?_eq_getElem (by omega)]
      rfl

theorem SqlResult.queryResult_getD {columns i : Nat}
    (result : SqlResult columns) (hi : i < columns) :
    result.queryResult.getD i [] = result.column i := by
  have h := foldl_pushRow_getD hi (List.length_replicate (a := []))
    result.widths
  rw [SqlResult.queryResult, h, List.getD_replicate _ hi,
    List.nil_append]
  rfl

theorem SqlResult.column_length {columns i : Nat}
    (result : SqlResult columns) (hi : i < columns) :
    (result.column i).length = result.rows.length := by
  rw [SqlResult.column, List.length_filterMap_eq_countP, List.countP_eq_length]
  intro row hrow
  rw [Option.isSome_iff_exists]
  have hwidth := result.widths row hrow
  exact ⟨row[i], List.getElem?_eq_getElem (by omega)⟩

-- ============================================================ the table

/-- Each selected column has its field, and the array of the cells at its
place in the selection. -/
theorem fetchColumns_spec {tableSchema : List ArrowField}
    (queryResult : List (List Text)) :
    ∀ {selected : List Nat} (start : Nat),
      (∀ index ∈ selected, index < tableSchema.length) →
      ∃ table, fetchColumns R tableSchema queryResult start selected
          = .ok table
        ∧ table.length = selected.length
        ∧ ∀ (i index : Nat) (field : ArrowField),
          selected[i]? = some index → tableSchema[index]? = some field →
          table[i]? = some (field, makeArrowArray R field.type
            (queryResult.getD (start + i) []))
  | [], _, _ => ⟨[], rfl, rfl, fun _ _ _ h => by simp at h⟩
  | index :: rest, start, hrange => by
      have hindex := hrange index List.mem_cons_self
      obtain ⟨others, hothers, hlen, hspec⟩ := fetchColumns_spec queryResult
        (start + 1) fun j hj => hrange j (List.mem_cons_of_mem _ hj)
      refine ⟨(tableSchema[index], makeArrowArray R tableSchema[index].type
        (queryResult.getD start [])) :: others, ?_, ?_, ?_⟩
      · rw [fetchColumns, List.getElem?_eq_getElem hindex, hothers]
        rfl
      · rw [List.length_cons, List.length_cons, hlen]
      · intro i j field hi hfield
        cases i with
        | zero =>
            cases hi
            rw [List.getElem?_eq_getElem hindex] at hfield
            cases hfield
            rfl
        | succ i =>
            rw [List.getElem?_cons_succ] at hi ⊢
            rw [hspec i j field hi hfield, Nat.add_right_comm, Nat.add_assoc]

variable {tableSchema : List ArrowField} {selected : List Nat}
  {result : SqlResult selected.length}

/-- The table of a selection in range, on its integer columns. -/
theorem readInternal_spec (result : SqlResult selected.length)
    (hrange : ∀ index ∈ selected, index < tableSchema.length) :
    ∃ table, readInternal R tableSchema selected result = .ok table
      ∧ table.length = selected.length
      ∧ ∀ i name type, IntegerColumn tableSchema selected i name type →
        ∃ built, table[i]? = some (⟨name, .integer type⟩,
            .integers built ((result.column i).map stoiOrZero))
          ∧ (built = type ↔ type = .int32 ∨ type = .int64) := by
  obtain ⟨table, htable, hlen, hspec⟩ :=
    fetchColumns_spec R result.queryResult 0 hrange
  refine ⟨table, htable, hlen, ?_⟩
  rintro i name type ⟨index, hi, hfield⟩
  have hlt := (List.getElem?_eq_some_iff.1 hi).1
  have harray := hspec i index _ hi hfield
  rw [Nat.zero_add, result.queryResult_getD hlt] at harray
  obtain ⟨built, hbuilt, htype⟩ :=
    makeArrowArray_integer R type (result.column i)
  rw [hbuilt] at harray
  exact ⟨built, harray, htype⟩

theorem IntegerColumn.lt_length {i : Nat} {name : Text} {type : IntType}
    (h : IntegerColumn tableSchema selected i name type) :
    i < selected.length := by
  obtain ⟨index, hi, -⟩ := h
  exact (List.getElem?_eq_some_iff.1 hi).1

theorem integersSurvive_of_fitsInt (hrange : ∀ index ∈ selected,
    index < tableSchema.length)
    (hfits : FitsInt tableSchema selected result) :
    IntegersSurvive R tableSchema selected result := by
  obtain ⟨table, htable, hlen, hspec⟩ :=
    readInternal_spec R result hrange
  refine ⟨table, htable, hlen, fun i name type hcolumn => ?_⟩
  obtain ⟨built, harray, -⟩ := hspec i name type hcolumn
  refine ⟨built, _, harray, ?_, ?_⟩
  · rw [List.length_map, result.column_length hcolumn.lt_length]
  · intro r cell v hcell hv
    have hint := hfits i name type hcolumn cell
      (List.mem_of_getElem? hcell) v hv
    rw [List.getElem?_map, hcell, Option.map_some,
      (stoiOrZero_eq_iff hv.1).2 hint]

theorem fitsInt_of_integersSurvive (hrange : ∀ index ∈ selected,
    index < tableSchema.length)
    (h : IntegersSurvive R tableSchema selected result) :
    FitsInt tableSchema selected result := by
  obtain ⟨table, htable, -, hsurvive⟩ := h
  obtain ⟨table', htable', -, hspec⟩ :=
    readInternal_spec R result hrange
  rw [htable] at htable'
  cases htable'
  intro i name type hcolumn cell hcell v hv
  obtain ⟨r, hr⟩ := List.getElem?_of_mem hcell
  obtain ⟨built, values, harray, -, hvalues⟩ := hsurvive i name type hcolumn
  obtain ⟨built', harray', -⟩ := hspec i name type hcolumn
  rw [harray] at harray'
  cases harray'
  have hstored := hvalues r cell v hr hv
  rw [List.getElem?_map, hr, Option.map_some] at hstored
  exact (stoiOrZero_eq_iff hv.1).1 (Option.some.inj hstored)

-- ============================================================== with CSV

theorem IntegerCells.exists_ints {type : IntType} {cells : List Text}
    (h : IntegerCells type cells) :
    ∃ ints, List.Forall₂ (IsInteger type) cells ints := by
  induction cells with
  | nil => exact ⟨[], .nil⟩
  | cons cell rest ih =>
      obtain ⟨⟨v, hv⟩, hrest⟩ := List.forall_mem_cons.1 h
      obtain ⟨ints, hints⟩ := ih hrest
      exact ⟨v :: ints, .cons hv hints⟩

/-- Integers that are `int`s are stored as they are. -/
theorem map_stoiOrZero_of_ints {type : IntType} {cells : List Text}
    {ints : List Int} (h : List.Forall₂ (IsInteger type) cells ints)
    (hfits : ∀ cell ∈ cells, ∀ v, IsInteger type cell v →
      -2 ^ 31 ≤ v ∧ v < 2 ^ 31) :
    cells.map stoiOrZero = ints := by
  induction h with
  | nil => rfl
  | cons hv _ ih =>
      rw [List.forall_mem_cons] at hfits
      rw [List.map_cons, ih hfits.2,
        (stoiOrZero_eq_iff hv.1).2 (hfits.1 _ hv)]

variable {csv : CsvReader}

theorem builtAsDeclared_of_agreesWithCsv (hrange : ∀ index ∈ selected,
    index < tableSchema.length)
    (h : AgreesWithCsv R csv tableSchema selected result) :
    BuiltAsDeclared csv tableSchema selected result := by
  obtain ⟨table, htable, hagrees⟩ := h
  obtain ⟨table', htable', -, hspec⟩ :=
    readInternal_spec R result hrange
  rw [htable] at htable'
  cases htable'
  intro i name type hcolumn hcells htaken
  obtain ⟨values, hvalues⟩ := Option.isSome_iff_exists.1 htaken
  obtain ⟨built, harray, htype⟩ := hspec i name type hcolumn
  have hsame := hagrees i name type hcolumn hcells values hvalues
  rw [harray] at hsame
  injection hsame with hsame
  injection hsame with _ hsame
  injection hsame with hbuilt _
  exact htype.1 hbuilt

theorem agreesWithCsv_of_fitsInt (hrange : ∀ index ∈ selected,
    index < tableSchema.length)
    (hfits : FitsInt tableSchema selected result)
    (hbuilt : BuiltAsDeclared csv tableSchema selected result) :
    AgreesWithCsv R csv tableSchema selected result := by
  obtain ⟨table, htable, -, hspec⟩ :=
    readInternal_spec R result hrange
  refine ⟨table, htable, fun i name type hcolumn hcells values hvalues => ?_⟩
  obtain ⟨built, harray, htype⟩ := hspec i name type hcolumn
  have hdeclared := hbuilt i name type hcolumn hcells
    (Option.isSome_iff_exists.2 ⟨values, hvalues⟩)
  obtain ⟨ints, hints⟩ := hcells.exists_ints
  rw [harray, htype.2 hdeclared, csv.convert_integers hvalues hints,
    map_stoiOrZero_of_ints hints (hfits i name type hcolumn)]

/-- The integers survive exactly when those of a column's type are all
`int`s, and the table is then also the one CSV gives exactly when each
column that CSV takes has a builder of its own type. -/
theorem integersSurvive_iff (csv : CsvReader) (hrange : ∀ index ∈ selected,
    index < tableSchema.length) :
    (IntegersSurvive R tableSchema selected result
        ↔ FitsInt tableSchema selected result)
      ∧ (IntegersSurvive R tableSchema selected result
          ∧ AgreesWithCsv R csv tableSchema selected result
        ↔ FitsInt tableSchema selected result
          ∧ BuiltAsDeclared csv tableSchema selected result) := by
  refine ⟨⟨fitsInt_of_integersSurvive R hrange,
    integersSurvive_of_fitsInt R hrange⟩, ?_, ?_⟩
  · rintro ⟨hsurvive, hagrees⟩
    exact ⟨fitsInt_of_integersSurvive R hrange hsurvive,
      builtAsDeclared_of_agreesWithCsv R hrange hagrees⟩
  · rintro ⟨hfits, hbuilt⟩
    exact ⟨integersSurvive_of_fitsInt R hrange hfits,
      agreesWithCsv_of_fitsInt R hrange hfits hbuilt⟩

/-- A `float` that holds integers, as `stof` reads them. -/
def wholeFloats : FloatReader Int Int where
  stof text := (strtol text).map Prod.fst
  zero := 0
  widen v := v

/-- A cell that Arrow takes for an integer of the type: no minus sign in an
unsigned one, not even before a zero. -/
def csvInteger (type : IntType) (cell : Text) : Option Int :=
  if cell.head? = some '-' ∧ 0 ≤ type.range.1 then none
  else (decimalInteger cell).filter type.Holds

theorem csvInteger_eq {type : IntType} {cell : Text} {v v' : Int}
    (h : csvInteger type cell = some v) (hv : IsInteger type cell v') :
    v = v' := by
  unfold csvInteger at h
  split at h
  · cases h
  · rw [hv.1] at h
    exact (Option.some.inj (Option.filter_eq_some_iff.1 h).1).symm

/-- A reader that takes columns of such cells. -/
def decimalCsv : CsvReader where
  convert type cells := cells.mapM (csvInteger type)
  convert_integers := by
    intro type cells values ints h hints
    induction hints generalizing values with
    | nil =>
        cases h
        rfl
    | cons hv _ ih =>
        rw [List.mapM_cons] at h
        obtain ⟨v, hcell, h⟩ := Option.bind_eq_some_iff.1 h
        obtain ⟨rest, hrest, h⟩ := Option.bind_eq_some_iff.1 h
        cases h
        rw [csvInteger_eq hcell hv, ih hrest]

/-- A wide column and a narrower one. -/
def personSchema : List ArrowField :=
  [⟨"id".toList, .integer .int64⟩, ⟨"age".toList, .integer .int32⟩]

/-- Two rows, with the second column selected first. -/
def personResult : SqlResult [1, 0].length :=
  ⟨[["41".toList, "-7".toList], ["-3".toList, "900".toList]], by decide⟩

theorem integersSurvive_person :
    (IntegersSurvive wholeFloats personSchema [1, 0] personResult
        ↔ FitsInt personSchema [1, 0] personResult)
      ∧ (IntegersSurvive wholeFloats personSchema [1, 0] personResult
          ∧ AgreesWithCsv wholeFloats decimalCsv personSchema [1, 0]
            personResult
        ↔ FitsInt personSchema [1, 0] personResult
          ∧ BuiltAsDeclared decimalCsv personSchema [1, 0] personResult) :=
  integersSurvive_iff wholeFloats decimalCsv (by decide)

/-- Three thousand millions in a column of 64 bits become zero. -/
theorem not_integersSurvive_long :
    ¬ IntegersSurvive wholeFloats [⟨"id".toList, .integer .int64⟩] [0]
      ⟨[["3000000000".toList]], by decide⟩ := by
  intro h
  have hfits := fitsInt_of_integersSurvive wholeFloats (by decide) h
  have hint := hfits 0 "id".toList .int64 ⟨0, rfl, rfl⟩ "3000000000".toList
    (List.mem_singleton_self _) 3000000000 ⟨by decide, by decide⟩
  exact absurd hint.2 (by decide)

end PrimiHub.DataStore
