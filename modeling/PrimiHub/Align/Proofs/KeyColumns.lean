/-
No result with several key columns is read back.

A first field is at most as long as the first cell of the key
(`strSplit_field_le`), and without its blanks it is no longer. The key the
reader looks for has all cells, so the two agree only where all cells but
the first are empty. Then the text of the key ends in a separator, of which
the writer makes a field less than there are columns, and it refuses to
write (`strSplit_replicate`).
-/
import PrimiHub.Align.Proofs.Csv
import PrimiHub.Psi.Proofs.JoinKey

namespace PrimiHub.Align

open Lib
open Psi

-- =================================================================== sizes

theorem length_utf8 (s : String) : (utf8 s).length = s.utf8ByteSize := rfl

theorem decodeField_size {field : Bytes} {s : String}
    (h : decodeField field = .ok s) : s.utf8ByteSize = field.length := by
  unfold decodeField String.fromUTF8? at h
  split at h
  · next heq =>
    split at heq
    · cases heq
      cases h
      rfl
    · cases heq
  · cases h

/-- A part of a text is no longer. -/
theorem ofList_size {part chars : List Char} (h : part.Sublist chars) :
    (String.ofList part).utf8ByteSize
      ≤ (String.ofList chars).utf8ByteSize := by
  have hcons : ∀ (c : Char) (cs : List Char),
      (String.ofList (c :: cs)).utf8ByteSize
        = c.utf8Size + (String.ofList cs).utf8ByteSize := by
    intro c cs
    rw [← String.utf8ByteSize_singleton, String.singleton_eq_ofList,
      ← String.utf8ByteSize_append, ← String.ofList_append]
    rfl
  induction h with
  | slnil => exact Nat.le_refl _
  | cons c _ ih =>
      rw [hcons]
      exact Nat.le_trans ih (Nat.le_add_left _ _)
  | cons_cons c _ ih =>
      rw [hcons, hcons]
      exact Nat.add_le_add_left ih _

/-- What is stripped is no longer. -/
theorem strip_size (s : String) : (strip s).utf8ByteSize ≤ s.utf8ByteSize := by
  have hright := List.dropWhile_sublist isSpace
    (l := (s.toList.dropWhile isSpace).reverse)
  have hpart := hright.reverse
  rw [List.reverse_reverse] at hpart
  have hsize := ofList_size (hpart.trans (List.dropWhile_sublist isSpace))
  rwa [String.ofList_toList] at hsize

/-- The key of a row is its key fields, one after the other. -/
theorem psiKey_columns {index : List Nat} {row key : List String}
    (h : (index.mapM fun i => row[i]?) = some key) :
    psiKey (.columns index) row = some (key.foldl (· ++ ·) "") := by
  show index.foldlM _ "" = _
  generalize "" = s
  induction index generalizing key s with
  | nil =>
      cases h
      rfl
  | cons i index ih =>
      rw [List.mapM_cons] at h
      rw [List.foldlM_cons]
      cases hcell : row[i]? with
      | none =>
          rw [hcell] at h
          cases h
      | some cell =>
          rw [hcell] at h
          cases hcells : index.mapM fun i => row[i]? with
          | none =>
              rw [hcells] at h
              cases h
          | some cells =>
              rw [hcells] at h
              cases h
              exact ih hcells (s ++ cell)

theorem foldl_append_size (key : List String) (s : String) :
    (key.foldl (· ++ ·) s).utf8ByteSize
      = s.utf8ByteSize + (key.map String.utf8ByteSize).sum := by
  induction key generalizing s with
  | nil => rfl
  | cons cell cells ih =>
      rw [List.foldl_cons, ih, String.utf8ByteSize_append, List.map_cons,
        List.sum_cons, Nat.add_assoc]

-- =================================================================== fields

/-- The text of a key, with a separator in front of every cell but the
first. -/
theorem joinKey_cons (cell : String) (cells : List String) :
    joinKey (cell :: cells)
      = utf8 cell ++ cells.flatMap fun cell => dataRecordSep ++ utf8 cell := by
  show cells.foldl _ (utf8 cell) = _
  generalize utf8 cell = text
  induction cells generalizing text with
  | nil => exact (List.append_nil text).symm
  | cons next cells ih =>
      rw [List.foldl_cons, ih, List.flatMap_cons, List.append_assoc,
        List.append_assoc, List.append_assoc]

/-- The first field of a written key is shorter than its cells together. -/
theorem first_field_lt {key : List String} (htwo : 2 ≤ key.length)
    (hwritten : (strSplit dataRecordSep (joinKey key)).length = key.length) :
    ((strSplit dataRecordSep (joinKey key)).getD 0 []).length
      < (key.map String.utf8ByteSize).sum := by
  match key, htwo, hwritten with
  | first :: second :: cells, _, hwritten =>
    have hp := dataRecordSep_ne_nil
    have hjoin : joinKey (first :: second :: cells)
        = utf8 first ++ dataRecordSep ++ (utf8 second
          ++ cells.flatMap fun cell => dataRecordSep ++ utf8 cell) := by
      rw [joinKey_cons, List.flatMap_cons, List.append_assoc,
        List.append_assoc]
    obtain ⟨i, hi, hfind⟩ := findSub_append_le hp (utf8 first)
      (utf8 second ++ cells.flatMap fun cell => dataRecordSep ++ utf8 cell)
    rw [hjoin, strSplit_of_some hp hfind] at hwritten ⊢
    rw [length_utf8] at hi
    rw [List.getD_cons_zero, List.length_take]
    rw [List.map_cons, List.map_cons, List.sum_cons, List.sum_cons]
    by_contra hlt
    rw [Nat.not_lt] at hlt
    have hsum : first.utf8ByteSize
        + (second.utf8ByteSize + (cells.map String.utf8ByteSize).sum)
        ≤ i := Nat.le_trans hlt (Nat.min_le_left _ _)
    -- the field is the first cell, and there is no other
    have hfirst : i = (utf8 first).length := by
      rw [length_utf8]
      omega
    have hsecond : utf8 second = [] :=
      List.length_eq_zero_iff.mp (by rw [length_utf8]; omega)
    have hcells : (cells.flatMap fun cell => dataRecordSep ++ utf8 cell)
        = (List.replicate cells.length dataRecordSep).flatten := by
      rw [← List.map_const', List.flatMap_def]
      congr 1
      apply List.map_congr_left
      intro cell hcell
      have hzero := List.sum_eq_zero_iff_forall_eq_nat.mp
        (show (cells.map String.utf8ByteSize).sum = 0 by omega) _
        (List.mem_map_of_mem hcell)
      have hnil : utf8 cell = [] := List.length_eq_zero_iff.mp hzero
      rw [hnil, List.append_nil]
    rw [hfirst, hsecond, hcells, List.nil_append, ← List.length_append,
      List.drop_left, strSplit_replicate hp, List.length_cons,
      List.length_replicate] at hwritten
    rw [List.length_cons, List.length_cons] at hwritten
    omega

-- ================================================================ the result

/-- Records that are written are split into as many fields as there are
columns. -/
theorem splitRecords_eq_ok {columns : Nat} {records : List Bytes}
    {fields : List (List Bytes)}
    (h : splitRecords columns records = .ok fields) :
    fields = records.map (strSplit dataRecordSep)
      ∧ ∀ record ∈ records,
        (strSplit dataRecordSep record).length = columns := by
  induction records generalizing fields with
  | nil =>
      cases h
      exact ⟨rfl, fun _ hmem => by cases hmem⟩
  | cons record records ih =>
      rw [splitRecords] at h
      by_cases hlength : (strSplit dataRecordSep record).length = columns
      · simp only [hlength, ne_eq, not_true_eq_false, if_false] at h
        cases hrest : splitRecords columns records with
        | error e =>
            rw [hrest] at h
            cases h
        | ok rest =>
            rw [hrest] at h
            cases h
            obtain ⟨heq, hall⟩ := ih hrest
            refine ⟨congrArg _ heq, ?_⟩
            intro r hr
            obtain rfl | hr := List.mem_cons.mp hr
            · exact hlength
            · exact hall r hr
      · simp only [hlength, ne_eq, not_false_eq_true, if_true] at h
        cases h

/-- The first column written has the first fields. -/
theorem saved_first {records : List Bytes} {names : List String}
    {columns : List (List Bytes)} (htwo : 2 ≤ names.length)
    (h : saveDataToCsvFile records names = .ok columns) :
    (∃ rest, columns = (records.map fun record =>
        (strSplit dataRecordSep record).getD 0 []) :: rest)
      ∧ ∀ record ∈ records,
        (strSplit dataRecordSep record).length = names.length := by
  rw [saveDataToCsvFile, if_neg (by omega)] at h
  cases hfields : splitRecords names.length records with
  | error e =>
      rw [hfields] at h
      cases h
  | ok fields =>
      rw [hfields] at h
      cases h
      obtain ⟨rfl, hall⟩ := splitRecords_eq_ok hfields
      refine ⟨?_, hall⟩
      obtain ⟨k, hk⟩ : ∃ k, names.length = k + 1 := ⟨names.length - 1, by omega⟩
      rw [hk, List.range_succ_eq_map, List.map_cons, List.map_map]
      exact ⟨_, rfl⟩

/-- The lines of a file are as many as its records, and begin with the first
field of the first one. -/
theorem readLines_first {columns : List (List Bytes)} {column : List Bytes}
    {lines : List (List String)} {items : List String}
    (hlines : readLines (column :: columns) = .ok lines)
    (hread : lines.mapM firstField = .ok items) :
    items.length = column.length
      ∧ ∀ item rest, items = item :: rest →
        item.utf8ByteSize = (column.getD 0 []).length := by
  rw [readLines, mapM_eq_ok_iff] at hlines
  rw [mapM_eq_ok_iff] at hread
  have hlength := hlines.length_eq
  rw [List.length_range, hread.length_eq] at hlength
  refine ⟨hlength.symm, ?_⟩
  intro item rest hitems
  rw [hitems, List.forall₂_cons_right_iff] at hread
  obtain ⟨line, more, hline, -, hmore⟩ := hread
  rw [hmore, List.forall₂_cons_right_iff] at hlines
  obtain ⟨i, indices, hfields, -, hrange⟩ := hlines
  -- the first line has index 0
  have hzero : i = 0 := by
    have hhead := congrArg List.head? hrange
    rw [List.head?_range] at hhead
    split at hhead
    · cases hhead
    · exact (Option.some.inj hhead).symm
  rw [mapM_eq_ok_iff, List.forall₂_cons_left_iff] at hfields
  obtain ⟨field, fields, hfield, -, rfl⟩ := hfields
  cases hline
  rw [hzero] at hfield
  exact decodeField_size hfield

/-- An alignment has read the lines of the file. -/
theorem alignWithColumns_ok {psiIndex : PsiIndex}
    {columns : List (List Bytes)} {rows out : List (List String)}
    (h : alignWithColumns psiIndex columns rows = .ok out) :
    ∃ lines items, readLines columns = .ok lines
      ∧ lines.mapM firstField = .ok items
      ∧ generateNewDatasetFromCsv psiIndex lines rows = .ok out := by
  cases hlines : readLines columns with
  | error e =>
      rw [alignWithColumns, hlines] at h
      cases h
  | ok lines =>
      rw [alignWithColumns, hlines] at h
      change generateNewDatasetFromCsv psiIndex lines rows = .ok out at h
      cases hread : lines.mapM firstField with
      | error e =>
          rw [generateNewDatasetFromCsv, readIntersection, hread] at h
          cases h
      | ok items => exact ⟨lines, items, rfl, hread, h⟩

/-- With several key columns no result is aligned. -/
theorem not_alignsOnKeys {index : List Nat} (names : List String)
    {result : List (List String)} {columns : List (List Bytes)}
    (htwo : 2 ≤ index.length) (hnames : names.length = index.length)
    (hresult : ∀ key ∈ result, key.length = index.length)
    (hsave : saveDataToCsvFile (result.map joinKey) names = .ok columns)
    (rows : List (List String)) :
    ¬ AlignsOnKeys index rows result columns := by
  intro haligns
  obtain ⟨out, hout, hrows⟩ := haligns
  obtain ⟨⟨more, rfl⟩, hwritten⟩ := saved_first (by omega) hsave
  obtain ⟨lines, items, hlines, hread, hgenerate⟩ := alignWithColumns_ok hout
  obtain ⟨hlength, hfirst⟩ := readLines_first hlines hread
  rw [List.length_map, List.length_map] at hlength
  obtain ⟨hne, -, hkeys⟩ := csv_all_lines hread hgenerate
    (hrows.length_eq.trans hlength.symm)
  obtain ⟨item, items', rfl⟩ := List.exists_cons_of_ne_nil hne
  obtain ⟨key, keys, rfl⟩ : ∃ key keys, result = key :: keys :=
    List.exists_cons_of_length_eq_add_one hlength.symm
  -- the first row written, with its key as the reader and the spec have it
  rw [List.forall₂_cons_right_iff] at hrows
  obtain ⟨row, rest, ⟨-, hkey⟩, -, rfl⟩ := hrows
  have hitemKey := (List.forall₂_cons.mp hkeys).1.2
  rw [psiKey_columns hkey, Option.some.injEq] at hitemKey
  have hsize := foldl_append_size key ""
  rw [hitemKey, String.utf8ByteSize_empty, Nat.zero_add] at hsize
  -- and the two sizes
  have hkeyLength := hresult key List.mem_cons_self
  have hlt := first_field_lt (by omega)
    ((hwritten (joinKey key) List.mem_cons_self).trans
      (hnames.trans hkeyLength.symm))
  have hitem := hfirst item items' rfl
  rw [List.map_cons, List.map_cons, List.getD_cons_zero] at hitem
  have hstrip := strip_size item
  omega

/-- Two records over two key columns. -/
theorem not_alignsOnKeys_two :
    ¬ AlignsOnKeys [0, 1] [["a", "b"], ["c", "d"]]
      [["a", "b"], ["c", "d"]] [[utf8 "a", utf8 "c"], [utf8 "b", utf8 "d"]] :=
  not_alignsOnKeys ["x", "y"] (by decide) (by decide) (by decide)
    (by decide) [["a", "b"], ["c", "d"]]

/-- The reader looks for "ab" among the ids, which are "a". -/
theorem not_alignsOnKeys_one :
    saveDataToCsvFile ([["a", "b"]].map joinKey) ["x", "y"]
        = .ok [[utf8 "a"], [utf8 "b"]]
      ∧ ¬ AlignsOnKeys [0, 1] [["a", "b"]] [["a", "b"]]
        [[utf8 "a"], [utf8 "b"]] := by
  refine ⟨by decide, ?_⟩
  intro haligns
  obtain ⟨out, hout, hrows⟩ := haligns
  have hnone : alignWithColumns (.columns [0, 1]) [[utf8 "a"], [utf8 "b"]]
      [["a", "b"]] = .ok [] := by decide
  rw [hnone] at hout
  cases hout
  cases hrows

end PrimiHub.Align
