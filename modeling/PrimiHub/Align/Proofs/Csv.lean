/-
What the CSV alignment writes.

The rows written are those of the ids read, as far as they go, and the ids
left are the rest of the list (`CsvInv.written`). A row that was passed
stands in the map until its turn, so that the loop gets stuck at no id of
the dataset (`csv_complete`). The ids read are the first fields without the
blanks around them, which is all that can go wrong with a single key column
(`csv_lines_iff`, and for the files `emitsInOrder_iff`).
-/
import PrimiHub.Align.Csv
import PrimiHub.Lib.Traverse

namespace PrimiHub.Align

open Lib

-- ================================================================== ids read

/-- What is read of a result without blank lines. -/
theorem readIntersection_eq {psiResult : List (List String)}
    {items : List String} (h : psiResult.mapM firstField = .ok items) :
    readIntersection psiResult
      = .ok ((items.map strip).filter (· ≠ "")) := by
  rw [readIntersection, h]
  rfl

/-- A result with one key column is its ids. -/
theorem firstField_single (ids : List String) :
    (ids.map fun id => [id]).mapM firstField = .ok ids := by
  rw [mapM_eq_ok_iff, List.forall₂_map_left_iff, List.forall₂_same]
  intro id _
  rfl

/-- A row without fields has no key but the empty one. -/
theorem psiKey_nil {psiIndex : PsiIndex} {key : String}
    (h : psiKey psiIndex [] = some key) : key = "" := by
  match psiIndex, h with
  | .columns [], h => exact (Option.some.inj h).symm

/-- One key column, as a number or as a list. -/
theorem psiKey_single {column : Nat} {psiIndex : PsiIndex}
    (h : psiIndex = .column column ∨ psiIndex = .columns [column])
    (row : List String) : psiKey psiIndex row = row[column]? := by
  obtain rfl | rfl := h
  · rfl
  · show ((row[column]?).map ("" ++ ·)).bind (fun key => some key) = _
    cases row[column]? with
    | none => rfl
    | some field => exact congrArg some String.empty_append

-- ================================================================== the loop

/-- The rows written from the map are those of the first ids left. -/
theorem writeFromMap_spec (map : String → Option (List String))
    (list : List String) :
    ∃ taken, taken ++ (writeFromMap map list).2 = list
      ∧ List.Forall₂ (fun row key => map key = some row)
          (writeFromMap map list).1 taken
      ∧ ∀ key rest, (writeFromMap map list).2 = key :: rest →
          map key = none := by
  induction list with
  | nil => exact ⟨[], rfl, .nil, fun _ _ h => by cases h⟩
  | cons key rest ih =>
      obtain ⟨taken, htaken, hrows, hleft⟩ := ih
      unfold writeFromMap
      cases hkey : map key with
      | some row =>
          exact ⟨key :: taken, congrArg (key :: ·) htaken,
            .cons hkey hrows, hleft⟩
      | none =>
          refine ⟨[], rfl, .nil, ?_⟩
          intro key' rest' h
          cases h
          exact hkey

variable {psiIndex : PsiIndex} {set : List String}

/-- A row is passed over, or it is the row of an id and is kept or
written. -/
theorem csvRow_cases (psiIndex : PsiIndex) (set : List String)
    (st : CsvState) (row : List String) :
    (csvRow psiIndex set st row = st
      ∧ (row ≠ [] → ∀ key, psiKey psiIndex row = some key →
          key ∉ set ∨ st.list = []))
    ∨ ∃ key head rest, psiKey psiIndex row = some key
      ∧ st.list = head :: rest
      ∧ (key ≠ head ∧ csvRow psiIndex set st row
            = CsvState.flush
                { st with map := Function.update st.map key (some row) }
        ∨ key = head ∧ csvRow psiIndex set st row
            = CsvState.flush
                { st with list := rest, written := st.written ++ [row] }) := by
  unfold csvRow
  by_cases hrow : row.length = 0
  · rw [if_pos hrow]
    exact Or.inl ⟨rfl, fun hne =>
      absurd (List.length_eq_zero_iff.mp hrow) hne⟩
  · rw [if_neg hrow]
    cases hkey : psiKey psiIndex row with
    | none => exact Or.inl ⟨rfl, fun _ _ h => by cases h⟩
    | some key =>
        dsimp only
        by_cases hset : key ∈ set
        · rw [if_neg (not_not.mpr hset)]
          cases hlist : st.list with
          | nil => exact Or.inl ⟨rfl, fun _ _ _ => Or.inr rfl⟩
          | cons head rest =>
              refine Or.inr ⟨key, head, rest, rfl, rfl, ?_⟩
              by_cases hhead : key = head
              · exact Or.inr ⟨hhead, if_neg (not_not.mpr hhead)⟩
              · exact Or.inl ⟨hhead, if_pos hhead⟩
        · rw [if_pos hset]
          refine Or.inl ⟨rfl, ?_⟩
          intro _ key' h
          cases h
          exact Or.inl hset

/-- What holds when the rows `done` of the dataset `rows` were read. -/
structure CsvInv (psiIndex : PsiIndex) (rows : List (List String))
    (set : List String) (done : List (List String)) (st : CsvState) :
    Prop where
  written : ∃ taken, taken ++ st.list = set
    ∧ List.Forall₂ (fun row key => row ∈ rows
        ∧ psiKey psiIndex row = some key) st.written taken
  map : ∀ key row, st.map key = some row →
    row ∈ rows ∧ psiKey psiIndex row = some key
  kept : set.Nodup → ∀ row ∈ done, row ≠ [] → ∀ key ∈ st.list,
    psiKey psiIndex row = some key → st.map key ≠ none

/-- The loop over the map keeps the invariant. -/
theorem CsvInv.flush {rows done : List (List String)} {st : CsvState}
    (h : CsvInv psiIndex rows set done st) :
    CsvInv psiIndex rows set done st.flush := by
  obtain ⟨more, hmore, hrows, -⟩ := writeFromMap_spec st.map st.list
  obtain ⟨taken, htaken, hwritten⟩ := h.written
  refine ⟨⟨taken ++ more, ?_, ?_⟩, h.map, ?_⟩
  · show taken ++ more ++ (writeFromMap st.map st.list).2 = set
    rw [List.append_assoc, hmore, htaken]
  · exact List.rel_append hwritten
      (hrows.imp fun row key hkey => h.map key row hkey)
  · intro hnodup row hrow hne key hkey hrowKey
    apply h.kept hnodup row hrow hne key _ hrowKey
    rw [← hmore]
    exact List.mem_append_right more hkey

/-- What one row does. -/
theorem CsvInv.row {rows done : List (List String)} {st : CsvState}
    (h : CsvInv psiIndex rows set done st) {row : List String}
    (hrow : row ∈ rows) :
    CsvInv psiIndex rows set (done ++ [row])
      (csvRow psiIndex set st row) := by
  obtain ⟨taken, htaken, hwritten⟩ := h.written
  have hsuffix : ∀ key ∈ st.list, key ∈ set := by
    intro key hkey
    rw [← htaken]
    exact List.mem_append_right taken hkey
  obtain ⟨hsame, hpass⟩ | ⟨key, head, rest, hkey, hlist, hcase⟩ :=
    csvRow_cases psiIndex set st row
  · -- passed over: it is the row of no id that is left
    rw [hsame]
    refine ⟨h.written, h.map, ?_⟩
    intro hnodup row' hrow' hne key' hkey' hrowKey
    obtain hdone | hnew := List.mem_append.mp hrow'
    · exact h.kept hnodup row' hdone hne key' hkey' hrowKey
    · rw [List.mem_singleton] at hnew
      rw [hnew] at hne hrowKey
      obtain hset | hnil := hpass hne key' hrowKey
      · exact absurd (hsuffix key' hkey') hset
      · rw [hnil] at hkey'
        cases hkey'
  · obtain ⟨hhead, heq⟩ | ⟨hhead, heq⟩ := hcase
    · -- kept in the map
      rw [heq]
      apply CsvInv.flush
      refine ⟨h.written, ?_, ?_⟩
      · intro key' row' hmap
        by_cases hsame : key' = key
        · simp only [hsame, Function.update_self, Option.some.injEq] at hmap
          rw [hsame, ← hmap]
          exact ⟨hrow, hkey⟩
        · simp only [Function.update_of_ne hsame] at hmap
          exact h.map key' row' hmap
      · intro hnodup row' hrow' hne key' hkey' hrowKey
        by_cases hsame : key' = key
        · simp only [hsame, Function.update_self]
          exact Option.some_ne_none row
        · simp only [Function.update_of_ne hsame]
          obtain hdone | hnew := List.mem_append.mp hrow'
          · exact h.kept hnodup row' hdone hne key' hkey' hrowKey
          · rw [List.mem_singleton.mp hnew, hkey] at hrowKey
            exact absurd (Option.some.inj hrowKey).symm hsame
    · -- written: its turn has come
      rw [heq]
      apply CsvInv.flush
      rw [hlist] at htaken
      refine ⟨⟨taken ++ [head], ?_, ?_⟩, h.map, ?_⟩
      · rw [List.append_assoc]
        exact htaken
      · apply List.rel_append hwritten
        exact .cons ⟨hrow, by rw [hkey, hhead]⟩ .nil
      · intro hnodup row' hrow' hne key' hkey' hrowKey
        obtain hdone | hnew := List.mem_append.mp hrow'
        · apply h.kept hnodup row' hdone hne key' _ hrowKey
          rw [hlist]
          exact List.mem_cons_of_mem head hkey'
        · -- the id is written and does not come again
          rw [List.mem_singleton.mp hnew, hkey] at hrowKey
          have hsame : head = key' := hhead ▸ Option.some.inj hrowKey
          rw [← htaken, List.nodup_append] at hnodup
          have hnot := (List.nodup_cons.mp hnodup.2.1).1
          rw [hsame] at hnot
          exact absurd hkey' hnot

/-- What all rows do. -/
theorem CsvInv.rows {rows done : List (List String)} {st : CsvState}
    (h : CsvInv psiIndex rows set done st) {more : List (List String)}
    (hmore : ∀ row ∈ more, row ∈ rows) :
    CsvInv psiIndex rows set (done ++ more)
      (more.foldl (csvRow psiIndex set) st) := by
  induction more generalizing done st with
  | nil =>
      rw [List.append_nil]
      exact h
  | cons row more ih =>
      have hnext := ih (h.row (hmore row List.mem_cons_self))
        fun row' hrow' => hmore row' (List.mem_cons_of_mem row hrow')
      rw [List.append_assoc] at hnext
      exact hnext

/-- The loop over the map ends at an id that is not in it. -/
def CsvState.Blocked (st : CsvState) : Prop :=
  ∀ key rest, st.list = key :: rest → st.map key = none

theorem blocked_rows {st : CsvState} (h : st.Blocked)
    (rows : List (List String)) :
    (rows.foldl (csvRow psiIndex set) st).Blocked := by
  induction rows generalizing st with
  | nil => exact h
  | cons row rows ih =>
      apply ih
      have hflush : ∀ st' : CsvState, st'.flush.Blocked := by
        intro st'
        obtain ⟨-, -, -, hleft⟩ := writeFromMap_spec st'.map st'.list
        exact hleft
      obtain ⟨hsame, -⟩ | ⟨_, _, _, -, -, ⟨-, heq⟩ | ⟨-, heq⟩⟩ :=
        csvRow_cases psiIndex set st row
      · rwa [hsame]
      · rw [heq]
        exact hflush _
      · rw [heq]
        exact hflush _

-- =============================================================== the new file

section File

variable {psiResult rows : List (List String)} {items : List String}

/-- The function is the loop over the rows. -/
theorem csv_eq (hread : psiResult.mapM firstField = .ok items) :
    generateNewDatasetFromCsv psiIndex psiResult rows
      = if (items.map strip).filter (· ≠ "") = [] then
          .error .emptyIntersection
        else
          .ok (rows.foldl
            (csvRow psiIndex ((items.map strip).filter (· ≠ "")))
            ⟨(items.map strip).filter (· ≠ ""), fun _ => none, []⟩).written
    := by
  rw [generateNewDatasetFromCsv, readIntersection_eq hread]
  generalize (items.map strip).filter (· ≠ "") = list
  show (if list.length = 0 then _ else _) = _
  by_cases h : list = []
  · rw [if_pos h, if_pos (List.length_eq_zero_iff.mpr h)]
    rfl
  · rw [if_neg h, if_neg fun hlength => h (List.length_eq_zero_iff.mp hlength)]
    rfl

/-- The invariant at the end of the rows. -/
theorem csvInv_end (set : List String) :
    CsvInv psiIndex rows set rows
      (rows.foldl (csvRow psiIndex set) ⟨set, fun _ => none, []⟩) := by
  have hstart : CsvInv psiIndex rows set []
      ⟨set, fun _ => none, []⟩ :=
    ⟨⟨[], rfl, .nil⟩, fun _ _ h => (by cases h), fun _ _ h => (by cases h)⟩
  exact hstart.rows fun _ h => h

/-- The rows written are those of the first ids read. -/
theorem csv_front (hread : psiResult.mapM firstField = .ok items)
    {out : List (List String)}
    (h : generateNewDatasetFromCsv psiIndex psiResult rows = .ok out) :
    (items.map strip).filter (· ≠ "") ≠ []
      ∧ ∃ taken left, taken ++ left = (items.map strip).filter (· ≠ "")
        ∧ List.Forall₂ (fun row key => row ∈ rows
          ∧ psiKey psiIndex row = some key) out taken := by
  rw [csv_eq hread] at h
  split at h
  · cases h
  · next hne =>
    cases h
    obtain ⟨taken, htaken, hwritten⟩ :=
      (csvInv_end _).written
    exact ⟨hne, taken, _, htaken, hwritten⟩

/-- With a row for every line of the result no line is blank, and the rows
are those of the lines. -/
theorem csv_all_lines (hread : psiResult.mapM firstField = .ok items)
    {out : List (List String)}
    (h : generateNewDatasetFromCsv psiIndex psiResult rows = .ok out)
    (hlength : out.length = items.length) :
    items ≠ [] ∧ (∀ item ∈ items, strip item ≠ "")
      ∧ List.Forall₂ (fun row key => row ∈ rows
        ∧ psiKey psiIndex row = some key) out (items.map strip) := by
  obtain ⟨hne, taken, left, htaken, hwritten⟩ := csv_front hread h
  have hle := List.length_filter_le (fun id => decide (id ≠ ""))
    (items.map strip)
  have hsum := congrArg List.length htaken
  have htakenLength := hwritten.length_eq
  rw [List.length_append] at hsum
  rw [List.length_map] at hle
  have hleft : left = [] := List.length_eq_zero_iff.mp (by omega)
  have hall : ∀ item ∈ items.map strip, decide (item ≠ "") = true := by
    rw [← List.length_filter_eq_length_iff, List.length_map]
    omega
  rw [hleft, List.append_nil, List.filter_eq_self.mpr hall] at htaken
  refine ⟨?_, ?_, ?_⟩
  · intro hnil
    rw [hnil] at hne
    exact hne rfl
  · intro item hitem
    exact of_decide_eq_true (hall _ (List.mem_map_of_mem hitem))
  · rwa [htaken] at hwritten

/-- Where the ids are in the dataset none is left over. -/
theorem csv_complete {set : List String} (hnodup : set.Nodup)
    (hpresent : ∀ id ∈ set, ∃ row ∈ rows, row ≠ []
      ∧ psiKey psiIndex row = some id) :
    (rows.foldl (csvRow psiIndex set) ⟨set, fun _ => none, []⟩).list = [] := by
  have hinv : CsvInv psiIndex rows set rows _ := csvInv_end set
  have hblocked : (rows.foldl (csvRow psiIndex set)
      ⟨set, fun _ => none, []⟩).Blocked :=
    blocked_rows (fun _ _ _ => rfl) rows
  generalize rows.foldl (csvRow psiIndex set) ⟨set, fun _ => none, []⟩ = st
    at hinv hblocked
  obtain ⟨taken, htaken, -⟩ := hinv.written
  cases hlist : st.list with
  | nil => rfl
  | cons id rest =>
      have hid : id ∈ st.list := by
        rw [hlist]
        exact List.mem_cons_self
      have hset : id ∈ set := by
        rw [← htaken]
        exact List.mem_append_right taken hid
      obtain ⟨row, hrow, hne, hkey⟩ := hpresent id hset
      exact absurd (hblocked id rest hlist)
        (hinv.kept hnodup row hrow hne id hid hkey)

end File

/-- The lines are in the order of distinct ids of the dataset exactly where
these are written without blanks around them, and none is empty. -/
theorem csv_lines_iff {rows : List (List String)} {ids : List String}
    (hnodup : ids.Nodup)
    (hpresent : ∀ id ∈ ids, ∃ row ∈ rows, psiKey psiIndex row = some id) :
    (∃ out, generateNewDatasetFromCsv psiIndex (ids.map fun id => [id]) rows
          = .ok out
        ∧ List.Forall₂ (fun row id => row ∈ rows
          ∧ psiKey psiIndex row = some id) out ids)
      ↔ ids ≠ [] ∧ ∀ id ∈ ids, id ≠ "" ∧ strip id = id := by
  have hread := firstField_single ids
  constructor
  · intro h
    obtain ⟨out, hout, hlines⟩ := h
    obtain ⟨hne, hall, hwritten⟩ := csv_all_lines hread hout
      hlines.length_eq
    -- a line has one key
    have hstrip : ids.map strip = ids := by
      apply List.right_unique_forall₂' _ hwritten hlines
      intro row id id' hid hid'
      exact Option.some.inj (hid.2.symm.trans hid'.2)
    refine ⟨hne, ?_⟩
    intro id hid
    have hsame : strip id = id := List.map_inj_left.mp
      (hstrip.trans (List.map_id ids).symm) id hid
    refine ⟨?_, hsame⟩
    rw [← hsame]
    exact hall id hid
  · intro h
    obtain ⟨hne, hplain⟩ := h
    have hset : (ids.map strip).filter (· ≠ "") = ids := by
      have hstrip : ids.map strip = ids := by
        rw [List.map_congr_left fun id hid => (hplain id hid).2]
        exact List.map_id ids
      rw [hstrip, List.filter_eq_self]
      intro id hid
      exact decide_eq_true (hplain id hid).1
    have hrows : ∀ id ∈ ids, ∃ row ∈ rows, row ≠ []
        ∧ psiKey psiIndex row = some id := by
      intro id hid
      obtain ⟨row, hrow, hkey⟩ := hpresent id hid
      refine ⟨row, hrow, ?_, hkey⟩
      intro hnil
      rw [hnil] at hkey
      exact (hplain id hid).1 (psiKey_nil hkey)
    have hout : generateNewDatasetFromCsv psiIndex _ rows = _ := csv_eq hread
    rw [hset, if_neg hne] at hout
    obtain ⟨taken, htaken, hwritten⟩ := (csvInv_end ids).written
    rw [csv_complete hnodup hrows, List.append_nil] at htaken
    rw [htaken] at hwritten
    exact ⟨_, hout, hwritten⟩

theorem emitsInOrder_rows {psi old : CsvFile} {ids : List String} :
    EmitsInOrder psiIndex psi old ids
      ↔ ∃ out, generateNewDatasetFromCsv psiIndex psi.rows old.rows = .ok out
        ∧ List.Forall₂ (fun row id => row ∈ old.rows
          ∧ psiKey psiIndex row = some id) out ids := by
  unfold EmitsInOrder generateNewDatasetFile
  constructor
  · intro h
    obtain ⟨new, hnew, -, hrows⟩ := h
    obtain ⟨out, hout, hfile⟩ := bind_eq_ok_iff.mp hnew
    cases hfile
    exact ⟨out, hout, hrows⟩
  · intro h
    obtain ⟨out, hout, hrows⟩ := h
    exact ⟨⟨old.header, out⟩, bind_eq_ok_iff.mpr ⟨out, hout, rfl⟩, rfl, hrows⟩

/-- Distinct ids without blanks around them, each in some row, are emitted
in order where there is one and none is empty. -/
theorem emitsInOrder_iff {column : Nat} {psiIndex : PsiIndex}
    (hcolumn : psiIndex = .column column ∨ psiIndex = .columns [column])
    (header : List String) (old : CsvFile) {ids : List String}
    (hnodup : ids.Nodup) (hstrip : ∀ id ∈ ids, strip id = id)
    (hpresent : ∀ id ∈ ids, ∃ row ∈ old.rows, row[column]? = some id) :
    EmitsInOrder psiIndex ⟨header, ids.map fun id => [id]⟩ old ids
      ↔ ids ≠ [] ∧ ∀ id ∈ ids, id ≠ "" := by
  have hkey : ∀ id ∈ ids, ∃ row ∈ old.rows,
      psiKey psiIndex row = some id := by
    intro id hid
    obtain ⟨row, hrow, hfield⟩ := hpresent id hid
    exact ⟨row, hrow, (psiKey_single hcolumn row).trans hfield⟩
  rw [emitsInOrder_rows, csv_lines_iff hnodup hkey]
  refine and_congr_right fun _ => forall₂_congr fun id hid => ?_
  exact and_iff_left (hstrip id hid)

/-- Two ids that come the other way round, one of them twice. -/
theorem emitsInOrder_two :
    EmitsInOrder (.columns [0]) ⟨["id"], [["a"], ["b"]]⟩
      ⟨["id", "city"], [["b", "north"], [], ["a", "south"], ["b", "east"]]⟩
      ["a", "b"] :=
  (@emitsInOrder_iff 0 (.columns [0]) (Or.inr rfl) ["id"]
    ⟨["id", "city"], [["b", "north"], [], ["a", "south"], ["b", "east"]]⟩
    ["a", "b"] (by decide) (by decide) (by decide)).mpr
      ⟨by decide, by decide⟩

/-- An empty list is refused, and an empty id is passed over. -/
theorem not_emitsInOrder_empty :
    ¬ EmitsInOrder (.column 0) ⟨["id"], []⟩ ⟨["id"], [["a"]]⟩ []
      ∧ ¬ EmitsInOrder (.column 0) ⟨["id"], [["a"], [""]]⟩
        ⟨["id"], [[""], ["a"]]⟩ ["a", ""] := by
  rw [emitsInOrder_rows, emitsInOrder_rows]
  constructor
  · intro h
    have hempty := (csv_lines_iff List.nodup_nil
      fun id hid => absurd hid List.not_mem_nil).mp h
    exact hempty.1 rfl
  · intro h
    have hnodup : ["a", ""].Nodup := by decide
    have hplain := (csv_lines_iff hnodup (by decide)).mp h
    exact (hplain.2 "" (by decide)).1 rfl

end PrimiHub.Align
