/-
When a keyword query brings the server's rows.

For one key, the client ends with the label text of its rows split at
"####" (`keywordQuery_eq`); the label rows behind it are read at their
commas. Both steps lose nothing exactly if the texts are plain: putting a
row together again after reading it gives the row back
(`joinCells_readRow`), so rows that come out right have come through
both.

# Chain

1. `getSelectedContent_eq`, `elements_eq`: what the server loads.
2. `createDb_eq`, `keywordQuery_eq`: what the client extracts.
3. `readRow_joinCells_iff`, `labels_iff`; `keyword_rows_iff`.
-/
import PrimiHub.Pir.Labels
import PrimiHub.Psi.Proofs.JoinKey

namespace PrimiHub.Pir

open Lib
open Psi (Bytes Table dataRecordSep PlainRow plainRow_iff
  dataRecordSep_ne_nil)

-- ========================================================= loaded columns

variable {table : Table}

theorem selectColumn_ok {colIndex : Nat} {column : Psi.Column}
    (h : selectColumn table colIndex = .ok column) :
    table.columns[colIndex]? = some column := by
  unfold selectColumn at h
  cases hc : table.columns[colIndex]? with
  | none => simp only [hc, reduceCtorEq] at h
  | some c =>
      simp only [hc, Except.ok.injEq] at h
      rw [h]

/-- The texts of the rows in the columns selected so far. -/
def rowTexts (table : Table) (selectedCol : List Nat) : List Bytes :=
  (List.range table.numRows).map fun i =>
    joinCells (selectedCells table selectedCol i)

/-- The cells of a column by row. -/
theorem cells_eq_map {colIndex : Nat} {column : Psi.Column}
    (h : table.columns[colIndex]? = some column) :
    column.cells = (List.range table.numRows).map fun i =>
      ((table.columns[colIndex]?.map Psi.Column.cells).getD []).getD i [] := by
  have hlen := table.cells_length column (List.mem_of_getElem? h)
  apply List.ext_getElem?
  intro i
  rw [List.getElem?_map, h]
  by_cases hi : i < table.numRows
  · rw [List.getElem?_range hi, List.getElem?_eq_getElem (hlen ▸ hi)]
    simp [List.getD_eq_getElem?_getD, hlen ▸ hi]
  · have hrange : (List.range table.numRows).length ≤ i := by simpa using hi
    rw [List.getElem?_eq_none (by omega), List.getElem?_eq_none hrange]
    rfl

/-- One more column. -/
theorem appendCells_rowTexts {selectedCol : List Nat} {colIndex : Nat}
    {column : Psi.Column} (hne : selectedCol ≠ [])
    (h : table.columns[colIndex]? = some column) :
    appendCells (rowTexts table selectedCol) column.cells
      = rowTexts table (selectedCol ++ [colIndex]) := by
  unfold appendCells rowTexts
  rw [cells_eq_map h, List.zipWith_map, List.zipWith_self]
  apply List.map_congr_left
  intro i _
  have hcells : selectedCells table (selectedCol ++ [colIndex]) i
      = selectedCells table selectedCol i
        ++ [((table.columns[colIndex]?.map Psi.Column.cells).getD []).getD i
          []] := by
    rw [selectedCells, List.map_append]
    rfl
  have hne' : selectedCells table selectedCol i ≠ [] := by
    intro hnil
    exact hne (List.map_eq_nil_iff.mp hnil)
  show joinCells _ ++ [comma] ++ _ = [comma].intercalate _
  rw [hcells, intercalate_concat hne']
  rfl

/-- The loop over the further columns. -/
theorem appendSelected_ok {selectedCol rest : List Nat}
    {content : List Bytes} (hne : selectedCol ≠ [])
    (h : appendSelected table rest (rowTexts table selectedCol)
      = .ok content) :
    content = rowTexts table (selectedCol ++ rest) := by
  induction rest generalizing selectedCol with
  | nil =>
      rw [appendSelected, Except.ok.injEq] at h
      rw [← h, List.append_nil]
  | cons colIndex rest ih =>
      rw [appendSelected] at h
      cases hc : selectColumn table colIndex with
      | error e => simp only [hc, reduceCtorEq] at h
      | ok column =>
          simp only [hc, appendCells_rowTexts hne (selectColumn_ok hc)] at h
          rw [ih (by simp) h, List.append_assoc, List.singleton_append]

/-- `GetSelectedContent` joins the cells of every row. -/
theorem getSelectedContent_eq {selectedCol : List Nat} {content : List Bytes}
    (hne : selectedCol ≠ [])
    (h : getSelectedContent table selectedCol = .ok content) :
    content = rowTexts table selectedCol := by
  cases selectedCol with
  | nil => exact absurd rfl hne
  | cons first rest =>
      rw [getSelectedContent] at h
      cases hc : selectColumn table first with
      | error e => simp only [hc, reduceCtorEq] at h
      | ok column =>
          have hcells : column.cells = rowTexts table [first] := by
            rw [cells_eq_map (selectColumn_ok hc), rowTexts]
            apply List.map_congr_left
            intro i _
            rw [selectedCells, joinCells, List.map_singleton,
              List.intercalate_singleton]
          simp only [hc, hcells] at h
          exact appendSelected_ok (List.cons_ne_nil _ _) h

-- ================================================================ the map

/-- The values of a key among the rows. -/
def valuesOf (rows : List (Bytes × Bytes)) (key : Bytes) : List Bytes :=
  (rows.filter fun row => row.1 = key).map Prod.snd

/-- A row goes to the rows of its key. -/
theorem addRow_self (elements : PirDataType) (row : Bytes × Bytes) :
    addRow elements row row.1
      = some ((elements row.1).getD [] ++ [row.2]) := by
  unfold addRow
  cases elements row.1 with
  | none => exact Function.update_self ..
  | some values => exact Function.update_self ..

/-- The other keys keep theirs. -/
theorem addRow_of_ne (elements : PirDataType) {row : Bytes × Bytes}
    {key : Bytes} (h : key ≠ row.1) :
    addRow elements row key = elements key := by
  unfold addRow
  cases elements row.1 with
  | none => exact Function.update_of_ne h _ _
  | some values => exact Function.update_of_ne h _ _

/-- `elements_` after some rows. -/
theorem foldl_addRow (rows : List (Bytes × Bytes)) (key : Bytes) :
    rows.foldl addRow (fun _ => none) key
      = if valuesOf rows key = [] then none
        else some (valuesOf rows key) := by
  induction rows using List.reverseRecOn with
  | nil => rfl
  | append_singleton rows row ih =>
      have hvalues : valuesOf (rows ++ [row]) key
          = valuesOf rows key ++ if row.1 = key then [row.2] else [] := by
        unfold valuesOf
        rw [List.filter_append, List.map_append]
        by_cases hkey : row.1 = key
        · simp [hkey]
        · simp [hkey]
      rw [List.foldl_append, List.foldl_cons, List.foldl_nil, hvalues]
      by_cases hkey : row.1 = key
      · subst hkey
        rw [addRow_self, ih, if_pos rfl]
        by_cases hnil : valuesOf rows row.1 = []
        · simp [hnil]
        · simp [hnil]
      · rw [addRow_of_ne _ (Ne.symm hkey), ih, if_neg hkey, List.append_nil]

/-- The label texts of a key are those of its label rows. -/
theorem valuesOf_rowTexts (keyCol valueCol : List Nat) (key : Bytes) :
    valuesOf ((rowTexts table keyCol).zip (rowTexts table valueCol)) key
      = (labelRows table keyCol valueCol key).map joinCells := by
  unfold valuesOf rowTexts labelRows
  rw [List.zip_map', List.filter_map, List.map_map, List.map_map]
  rfl

/-- What the server loads: every key with the texts of its rows. -/
theorem elements_eq {keyCol valueCol : List Nat} {elements : PirDataType}
    (h : serverLoadDataset table keyCol valueCol = .ok elements)
    (key : Bytes) :
    valueCol ≠ [] ∧ elements key
      = if labelRows table keyCol valueCol key = [] then none
        else some ((labelRows table keyCol valueCol key).map joinCells) := by
  unfold serverLoadDataset at h
  split at h
  · cases h
  · split at h
    · cases h
    · next hkeyCol =>
      split at h
      · cases h
      · next keyArray hkey =>
        split at h
        · cases h
        · next hvalueCol =>
          split at h
          · cases h
          · next valueArray hvalue =>
            injection h with h
            rw [List.isEmpty_iff] at hkeyCol hvalueCol
            refine ⟨hvalueCol, ?_⟩
            rw [← h, foldl_addRow, getSelectedContent_eq hkeyCol hkey,
              getSelectedContent_eq hvalueCol hvalue, valuesOf_rowTexts]
            simp only [List.map_eq_nil_iff]

-- ============================================================== the query

/-- The label of a key is its texts with "####" between them. -/
theorem createDb_eq (labelVec : List Bytes) (hne : labelVec ≠ []) :
    (labelVec.dropLast.map (· ++ dataRecordSep)).flatten
      ++ labelVec.getLast?.getD [] = dataRecordSep.intercalate labelVec := by
  induction labelVec with
  | nil => exact absurd rfl hne
  | cons f rest ih =>
      cases rest with
      | nil => simp
      | cons g rest =>
          have hrest := ih (List.cons_ne_nil g rest)
          rw [List.dropLast_cons_cons, List.map_cons, List.flatten_cons,
            List.getLast?_cons_cons, List.append_assoc, hrest,
            List.intercalate_cons_cons, List.append_assoc]

/-- `ExtractResult` over different keys: each has its own record. -/
theorem extractResult_eq (hasData : Bytes → Bool)
    (record : Bytes → MatchRecord) (keys : List Bytes) (hnodup : keys.Nodup)
    (key : Bytes) :
    extractResult hasData (keys.map fun k => (k, record k)) key
      = if key ∈ keys ∧ (record key).found ∧ hasData (record key).label then
          some (strSplit dataRecordSep (record key).label)
        else none := by
  unfold extractResult
  induction keys using List.reverseRecOn with
  | nil => simp
  | append_singleton keys k ih =>
      have hsplit := List.nodup_append.mp hnodup
      have hfresh : k ∉ keys := fun hk =>
        hsplit.2.2 k hk k List.mem_cons_self rfl
      have hih := ih hsplit.1
      rw [List.map_append, List.map_singleton, List.foldl_append,
        List.foldl_cons, List.foldl_nil]
      generalize (keys.map fun k => (k, record k)).foldl (extractItem hasData)
        (fun _ => none) = result at hih ⊢
      by_cases hk : key = k
      · subst hk
        have hnone : result key = none := by
          rw [hih, if_neg fun hc => hfresh hc.1]
        unfold extractItem
        cases hfound : (record key).found with
        | false => simp [hfound, hnone]
        | true =>
            cases hdata : hasData (record key).label with
            | false => simp [hfound, hdata, hnone]
            | true => simp [hfound, hdata, hnone]
      · have hother : extractItem hasData result (k, record k) key
            = result key := by
          unfold extractItem
          simp only
          split
          · rfl
          · split
            · exact Function.update_of_ne hk _ _
            · rfl
        rw [hother, hih]
        simp [hk]

/-- What the client extracts for a key: nothing if it did not ask or the
server does not have it; else the texts of its rows, joined and split
again. -/
theorem keywordQuery_eq {keyCol valueCol : List Nat} {elements : PirDataType}
    (h : serverLoadDataset table keyCol valueCol = .ok elements)
    (hasData : Bytes → Bool) (clientKeys : List Bytes) (key : Bytes) :
    keywordQuery hasData elements clientKeys key
      = if key ∈ clientKeys ∧ labelRows table keyCol valueCol key ≠ []
          ∧ hasData (dataRecordSep.intercalate
            ((labelRows table keyCol valueCol key).map joinCells)) then
          some (strSplit dataRecordSep (dataRecordSep.intercalate
            ((labelRows table keyCol valueCol key).map joinCells)))
        else none := by
  obtain ⟨-, helements⟩ := elements_eq h key
  unfold keywordQuery
  rw [extractResult_eq _ _ _ (List.nodup_dedup _)]
  simp only [List.mem_dedup, apsiQuery, createDb, helements]
  by_cases hnil : labelRows table keyCol valueCol key = []
  · simp [hnil]
  · have hlabel := createDb_eq
      ((labelRows table keyCol valueCol key).map joinCells)
      (by rwa [ne_eq, List.map_eq_nil_iff])
    simp only [hnil, if_false, Option.map_some, Option.isSome_some,
      Option.getD_some, hlabel, ne_eq, not_false_eq_true, true_and]

-- ============================================================= the texts

/-- No part of a text read at its commas has one. -/
theorem comma_not_mem_splitOn (text : Bytes) :
    ∀ cell ∈ text.splitOn comma, comma ∉ cell := by
  induction text with
  | nil => simp
  | cons b text ih =>
      rw [List.splitOn_cons_eq_if_modifyHead]
      by_cases hb : (b == comma) = true
      · rw [if_pos hb, List.forall_mem_cons]
        exact ⟨List.not_mem_nil, ih⟩
      · rw [if_neg hb]
        cases hsplit : text.splitOn comma with
        | nil => exact absurd hsplit (List.splitOn_ne_nil _ _)
        | cons cell rest =>
            rw [hsplit, List.forall_mem_cons] at ih
            rw [List.modifyHead_cons, List.forall_mem_cons]
            refine ⟨fun hmem => ?_, ih.2⟩
            obtain hmem | hmem := List.mem_cons.mp hmem
            · exact hb (by rw [← hmem]; exact beq_self_eq_true _)
            · exact ih.1 hmem

/-- Reading a row and putting it together again. -/
theorem joinCells_readRow (columns : Nat) (row : Bytes) :
    joinCells (readRow columns row) = row := by
  unfold joinCells readRow
  by_cases hone : columns = 1
  · rw [if_pos hone, List.intercalate_singleton]
  · rw [if_neg hone, List.intercalate_splitOn]

/-- Putting a row together and reading it again: its cells come back if
there is one, or none has a comma. -/
theorem readRow_joinCells_iff {columns : Nat} {cells : List Bytes}
    (hlen : cells.length = columns) (hpos : columns ≠ 0) :
    readRow columns (joinCells cells) = cells
      ↔ columns = 1 ∨ ∀ cell ∈ cells, comma ∉ cell := by
  unfold readRow joinCells
  by_cases hone : columns = 1
  · rw [if_pos hone]
    obtain ⟨cell, rfl⟩ := List.length_eq_one_iff.mp (hlen.trans hone)
    rw [List.intercalate_singleton]
    exact ⟨fun _ => Or.inl hone, fun _ => rfl⟩
  · rw [if_neg hone, or_iff_right hone]
    constructor
    · intro h
      rw [← h]
      exact comma_not_mem_splitOn _
    · intro h
      apply List.splitOn_intercalate _ h
      intro hnil
      rw [hnil] at hlen
      exact hpos hlen.symm

/-- The rows of a key come through exactly if their texts are plain and
their cells have no commas to be read at. -/
theorem labels_iff {columns : Nat} {rows : List (List Bytes)}
    (hrows : rows ≠ []) (hlen : ∀ row ∈ rows, row.length = columns)
    (hpos : columns ≠ 0) :
    (strSplit dataRecordSep (dataRecordSep.intercalate
        (rows.map joinCells))).map (readRow columns) = rows
      ↔ PlainRow (rows.map joinCells)
        ∧ (columns = 1 ∨ ∀ row ∈ rows, ∀ cell ∈ row, comma ∉ cell) := by
  have hne : rows.map joinCells ≠ [] := by rwa [ne_eq, List.map_eq_nil_iff]
  rw [← plainRow_iff, ← strSplit_intercalate_iff dataRecordSep_ne_nil hne]
  -- once the texts are the joined rows, reading them is row by row
  have hread : (rows.map joinCells).map (readRow columns) = rows
      ↔ columns = 1 ∨ ∀ row ∈ rows, ∀ cell ∈ row, comma ∉ cell := by
    rw [List.map_map]
    have hid : rows.map (readRow columns ∘ joinCells) = rows
        ↔ ∀ row ∈ rows, readRow columns (joinCells row) = row := by
      conv_lhs => rhs; rw [← List.map_id rows]
      exact List.map_inj_left
    rw [hid]
    constructor
    · intro hall
      by_cases hone : columns = 1
      · exact Or.inl hone
      · right
        intro row hrow
        exact ((readRow_joinCells_iff (hlen row hrow) hpos).mp
          (hall row hrow)).resolve_left hone
    · intro hor row hrow
      apply (readRow_joinCells_iff (hlen row hrow) hpos).mpr
      exact hor.imp_right fun hall => hall row hrow
  constructor
  · intro h
    have hlabels : strSplit dataRecordSep (dataRecordSep.intercalate
        (rows.map joinCells)) = rows.map joinCells := by
      conv_rhs => rw [← h]
      rw [List.map_map]
      have hback : joinCells ∘ readRow columns = id :=
        funext (joinCells_readRow columns)
      rw [hback, List.map_id]
    rw [hlabels] at h
    exact ⟨hlabels, hread.mp h⟩
  · intro h
    rw [h.1]
    exact hread.mpr h.2

-- ============================================================ keyword rows

/-- A label that splits into something is not empty. -/
theorem intercalate_ne_nil_of_plain {texts : List Bytes} (hne : texts ≠ [])
    (h : PlainRow texts) : dataRecordSep.intercalate texts ≠ [] := by
  rw [← plainRow_iff, ← strSplit_intercalate_iff dataRecordSep_ne_nil hne]
    at h
  intro hnil
  rw [hnil, Psi.strSplit_nil] at h
  exact hne h.symm

/-- A query brings exactly the rows the server has for the queried keys
if and only if, for each of these keys, the texts of its label rows are
plain and, with several label columns, no cell has a comma. -/
theorem keyword_rows_iff {keyCol valueCol : List Nat}
    {elements : PirDataType} {hasData : Bytes → Bool}
    (hdata : ∀ label, label ≠ [] → hasData label = true)
    (h : serverLoadDataset table keyCol valueCol = .ok elements)
    (clientKeys : List Bytes) :
    ReturnsRows table keyCol valueCol clientKeys
        (keywordQuery hasData elements clientKeys)
      ↔ ∀ key ∈ clientKeys, labelRows table keyCol valueCol key ≠ [] →
        PlainRow ((labelRows table keyCol valueCol key).map joinCells)
          ∧ (valueCol.length = 1 ∨ ∀ row ∈ labelRows table keyCol valueCol key,
            ∀ cell ∈ row, comma ∉ cell) := by
  have hquery := keywordQuery_eq h hasData clientKeys
  obtain ⟨hvalueCol, -⟩ := elements_eq h []
  have hpos : valueCol.length ≠ 0 := by
    rwa [ne_eq, List.length_eq_zero_iff]
  have hlen : ∀ key, ∀ row ∈ labelRows table keyCol valueCol key,
      row.length = valueCol.length := by
    intro key row hrow
    obtain ⟨i, -, rfl⟩ := List.mem_map.mp hrow
    rw [selectedCells, List.length_map]
  constructor
  · intro hr key hkey hrows
    obtain ⟨labels, hlabels, hmap⟩ := hr.rows key hkey hrows
    rw [hquery] at hlabels
    split at hlabels
    · rw [Option.some.injEq] at hlabels
      rw [← hlabels, labels_iff hrows (hlen key) hpos] at hmap
      exact hmap
    · cases hlabels
  · intro hc
    constructor
    · intro key hkey hrows
      have hplain := hc key hkey hrows
      have hne := intercalate_ne_nil_of_plain
        (by rwa [ne_eq, List.map_eq_nil_iff]) hplain.1
      refine ⟨_, ?_, (labels_iff hrows (hlen key) hpos).mpr hplain⟩
      rw [hquery, if_pos ⟨hkey, hrows, hdata _ hne⟩]
    · intro key hkey
      rw [hquery, if_neg]
      intro hcond
      obtain hkey | hkey := hkey
      · exact hkey hcond.1
      · exact hcond.2.1 hkey

/-- A table of keys and one label column. -/
def labelTable (rows : List (Bytes × Bytes)) : Table where
  columns := [⟨"id", .string, [rows.map Prod.fst]⟩,
    ⟨"label", .string, [rows.map Prod.snd]⟩]
  numRows := rows.length
  cells_length := by
    simp [Psi.Column.cells]
  batched := by
    simp

/-- Two rows of one key, and a key the server does not have. -/
theorem keyword_rows_plain :
    ∃ elements, serverLoadDataset (labelTable [([1], [2]), ([1], [3])]) [0] [1]
        = .ok elements
      ∧ ReturnsRows (labelTable [([1], [2]), ([1], [3])]) [0] [1] [[1], [9]]
        (keywordQuery (fun label => !label.isEmpty) elements [[1], [9]]) := by
  have hload : serverLoadDataset (labelTable [([1], [2]), ([1], [3])]) [0] [1]
      = .ok _ := rfl
  refine ⟨_, hload, (keyword_rows_iff ?_ hload _).mpr ?_⟩
  · intro label hne
    cases label with
    | nil => exact absurd rfl hne
    | cons b rest => rfl
  · intro key _ _
    refine ⟨?_, Or.inl rfl⟩
    rw [← plainRow_iff]
    by_cases hkey : key = [1]
    · subst hkey
      decide
    · have hnil : labelRows (labelTable [([1], [2]), ([1], [3])]) [0] [1] key
          = [] := by
        have hne : ¬ ([1] : Bytes) = key := fun h => hkey h.symm
        simp [labelRows, labelTable, selectedCells, joinCells,
          Psi.Column.cells, List.range_succ, hne]
      rw [hnil]
      trivial

/-- A label with "####" in it comes back as two rows. -/
theorem keyword_rows_merged :
    ∃ elements, serverLoadDataset
        (labelTable [([1], [2, 35, 35, 35, 35, 3])]) [0] [1] = .ok elements
      ∧ ¬ ReturnsRows (labelTable [([1], [2, 35, 35, 35, 35, 3])]) [0] [1] [[1]]
        (keywordQuery (fun label => !label.isEmpty) elements [[1]]) := by
  have hload : serverLoadDataset
      (labelTable [([1], [2, 35, 35, 35, 35, 3])]) [0] [1] = .ok _ := rfl
  refine ⟨_, hload, fun h => ?_⟩
  obtain ⟨labels, hlabels, hmap⟩ := h.rows [1] List.mem_cons_self (by decide)
  have hsplit : strSplit dataRecordSep (dataRecordSep.intercalate
      ((labelRows (labelTable [([1], [2, 35, 35, 35, 35, 3])]) [0] [1]
        [1]).map joinCells)) = [[2], [3]] := by
    decide
  rw [keywordQuery_eq hload, if_pos (by decide), hsplit, Option.some.injEq]
    at hlabels
  rw [← hlabels] at hmap
  revert hmap
  decide

end PrimiHub.Pir
