/-
What a PSI task leaves at both parties.

The elements of a party are one text for each row (`load_rows`). Where the
splitter takes the texts apart, equal texts are equal rows, so the
positions that the library reports are rows (`picked_rows`), and what is
saved of them are the rows again (`save_rows`). Between the parties go
three messages and, where the result is shared, a fourth
(`ecdh_sync`, `base_sync`). An operator that is given no element gives up
before it sends or receives anything, so the task does what it is asked to
exactly if both tables have a row (`task_saves_iff`).
-/
import Mathlib.Data.List.Perm.Basic
import PrimiHub.Lib.Meet
import PrimiHub.Psi.Proofs.Extract
import PrimiHub.Psi.Proofs.Frames
import PrimiHub.Psi.Task

namespace PrimiHub.Psi

open Lib
open Node (Retcode)

-- ================================================================== filters

section Filter

variable {α β : Type} [DecidableEq α] [DecidableEq β]

/-- The step of `filterDuplicated`. -/
def addNew (filtered : List α) (item : α) : List α :=
  if item ∈ filtered then filtered else filtered ++ [item]

theorem mem_foldl_addNew (l filtered : List α) (x : α) :
    x ∈ l.foldl addNew filtered ↔ x ∈ filtered ∨ x ∈ l := by
  induction l generalizing filtered with
  | nil => simp
  | cons a l ih =>
      rw [List.foldl_cons, ih, addNew, List.mem_cons]
      split_ifs with ha
      · constructor
        · rintro (h | h)
          · exact Or.inl h
          · exact Or.inr (Or.inr h)
        · rintro (h | rfl | h)
          · exact Or.inl h
          · exact Or.inl ha
          · exact Or.inr h
      · rw [List.mem_append, List.mem_singleton, or_assoc]

/-- Taking the duplicates out loses no element. -/
theorem mem_filterDuplicated {l : List α} {x : α} :
    x ∈ filterDuplicated l ↔ x ∈ l := by
  refine (mem_foldl_addNew l [] x).trans ?_
  simp

/-- A function that tells the items apart commutes with the filter. -/
theorem filterDuplicated_map {f : α → β} {l : List α}
    (h : ∀ x ∈ l, ∀ y ∈ l, f x = f y → x = y) :
    filterDuplicated (l.map f) = (filterDuplicated l).map f := by
  have hfold : ∀ (more filtered : List α), more ⊆ l → filtered ⊆ l →
      (more.map f).foldl addNew (filtered.map f)
        = (more.foldl addNew filtered).map f := by
    intro more
    induction more with
    | nil => exact fun _ _ _ => rfl
    | cons a more ih =>
        intro filtered hmore hfiltered
        obtain ⟨ha, hmore⟩ := List.cons_subset.mp hmore
        have hmem : f a ∈ filtered.map f ↔ a ∈ filtered := by
          refine ⟨fun hfa => ?_, List.mem_map_of_mem⟩
          obtain ⟨b, hb, hab⟩ := List.mem_map.mp hfa
          exact h b (hfiltered hb) a ha hab ▸ hb
        have hstep : addNew (filtered.map f) (f a)
            = (addNew filtered a).map f := by
          rw [addNew, addNew]
          by_cases hin : a ∈ filtered
          · rw [if_pos (hmem.mpr hin), if_pos hin]
          · rw [if_neg (mt hmem.mp hin), if_neg hin, List.map_append,
              List.map_singleton]
        have hsub : addNew filtered a ⊆ l := by
          rw [addNew]
          split_ifs
          · exact hfiltered
          · exact List.append_subset.mpr
              ⟨hfiltered, List.cons_subset.mpr ⟨ha, List.nil_subset l⟩⟩
        rw [List.map_cons, List.foldl_cons, List.foldl_cons, hstep]
        exact ih _ hmore hsub
  exact hfold l [] (fun _ hx => hx) (List.nil_subset l)

end Filter

section Positions

variable {α β : Type}

/-- The entries at the positions where `p` holds. -/
theorem map_filter_range (l : List α) (d : α) (p : α → Bool) :
    ((List.range l.length).filter fun i => p (l.getD i d)).map
        (fun i => l.getD i d)
      = l.filter p := by
  have hall : (List.range l.length).map (fun i => l.getD i d) = l := by
    apply List.ext_getElem
    · simp
    · intro i h₁ h₂
      simp [List.getD_eq_getElem?_getD, h₂]
  calc ((List.range l.length).filter fun i => p (l.getD i d)).map
        (fun i => l.getD i d)
      = ((List.range l.length).map fun i => l.getD i d).filter p := by
        rw [List.filter_map]
        rfl
    _ = l.filter p := by rw [hall]

/-- A filter and a function in one pass. -/
theorem filterMap_ite (l : List α) (p : α → Prop) [DecidablePred p]
    (g : α → β) :
    l.filterMap (fun a => if p a then some (g a) else none)
      = (l.filter fun a => decide (p a)).map g := by
  induction l with
  | nil => rfl
  | cons a l ih =>
      by_cases ha : p a
      · rw [List.filterMap_cons_some (b := g a) (by rw [if_pos ha]),
          List.filter_cons_of_pos (by rw [decide_eq_true ha]), ih,
          List.map_cons]
      · rw [List.filterMap_cons_none (by rw [if_neg ha]),
          List.filter_cons_of_neg (by rw [decide_eq_false ha]; nofun), ih]

end Positions

-- ===================================================================== rows

/-- The text of a row. -/
def rowText (row : List Bytes) : Bytes := dataRecordSep.intercalate row

/-- The splitter takes the text of a row apart, or there is only one
field. -/
def Splits (columns : Nat) (row : List Bytes) : Prop :=
  row.length = columns ∧ (columns = 1 ∨ PlainRow row)

theorem rowText_singleton (f : Bytes) : rowText [f] = f :=
  List.intercalate_singleton

theorem Splits.ne_nil {columns : Nat} (hpos : columns ≠ 0)
    {row : List Bytes} (h : Splits columns row) : row ≠ [] := by
  rintro rfl
  exact hpos h.1.symm

/-- Where there are several fields, the splitter gives the row back. -/
theorem Splits.strSplit {columns : Nat} (hpos : columns ≠ 0)
    {row : List Bytes} (h : Splits columns row) (htwo : columns ≠ 1) :
    strSplit dataRecordSep (rowText row) = row :=
  (strSplit_intercalate_iff dataRecordSep_ne_nil (h.ne_nil hpos)).2
    ((plainRow_iff row).2 (h.2.resolve_left htwo))

/-- Rows with one text are one row. -/
theorem rowText_inj {columns : Nat} (hpos : columns ≠ 0)
    {row row' : List Bytes} (h : Splits columns row)
    (h' : Splits columns row') (heq : rowText row = rowText row') :
    row = row' := by
  by_cases hone : columns = 1
  · obtain ⟨f, rfl⟩ := List.length_eq_one_iff.mp (h.1.trans hone)
    obtain ⟨g, rfl⟩ := List.length_eq_one_iff.mp (h'.1.trans hone)
    rw [rowText_singleton, rowText_singleton] at heq
    rw [heq]
  · rw [← h.strSplit hpos hone, heq, h'.strSplit hpos hone]

/-- The client saves rows of its own. -/
theorem mem_requestedRows {resultType : PsiResultType}
    {client server : List (List Bytes)} {row : List Bytes}
    (h : row ∈ requestedRows resultType client server) : row ∈ client := by
  cases resultType with
  | intersection => exact (List.mem_filter.mp h).1
  | difference => exact (List.mem_filter.mp h).1

/-- A position is reported where the server has the row. -/
theorem mem_index_iff {columns : Nat} (hpos : columns ≠ 0)
    {client server : List (List Bytes)}
    (hclient : ∀ row ∈ client, Splits columns row)
    (hserver : ∀ row ∈ server, Splits columns row) {index : List Nat}
    (h : ExactIndex (client.map rowText) (server.map rowText) index)
    (i : Nat) :
    i ∈ index ↔ i < client.length ∧ client.getD i [] ∈ server := by
  rw [h.mem_iff]
  constructor
  · rintro ⟨item, hitem, hin⟩
    rw [List.getElem?_map, Option.map_eq_some_iff] at hitem
    obtain ⟨row, hrow, rfl⟩ := hitem
    obtain ⟨row', hrow', heq⟩ := List.mem_map.mp hin
    have hlt := (List.getElem?_eq_some_iff.mp hrow).1
    have hsame := rowText_inj hpos (hserver row' hrow')
      (hclient row (List.mem_of_getElem? hrow)) heq
    refine ⟨hlt, ?_⟩
    rw [List.getD_eq_getElem?_getD, hrow, Option.getD_some, ← hsame]
    exact hrow'
  · rintro ⟨hlt, hin⟩
    have hrow := List.getElem?_eq_getElem hlt
    rw [List.getD_eq_getElem?_getD, hrow, Option.getD_some] at hin
    exact ⟨rowText client[i], by rw [List.getElem?_map, hrow]; rfl,
      List.mem_map_of_mem hin⟩

/-- The text at a position is that of the row there. -/
theorem getElem?_rowTexts {rows : List (List Bytes)} {i : Nat}
    (hi : i < rows.length) :
    (rows.map rowText)[i]? = some (rowText (rows.getD i [])) := by
  rw [List.getElem?_map, List.getD_eq_getElem?_getD,
    List.getElem?_eq_getElem hi]
  rfl

/-- What the operator makes of the reported positions are rows of the
client, each as often as it is to be there. -/
theorem picked_rows {columns : Nat} (hpos : columns ≠ 0)
    {client server : List (List Bytes)}
    (hclient : ∀ row ∈ client, Splits columns row)
    (hserver : ∀ row ∈ server, Splits columns row) {index : List Nat}
    (h : ExactIndex (client.map rowText) (server.map rowText) index)
    (resultType : PsiResultType) :
    ∃ rows : List (List Bytes),
      ecdhGetIntersection resultType (client.map rowText) index
        = rows.map rowText
      ∧ rows.Perm (requestedRows resultType client server) := by
  have hmem := mem_index_iff hpos hclient hserver h
  cases resultType with
  | intersection =>
      refine ⟨index.map fun i => client.getD i [], ?_, ?_⟩
      · rw [List.map_map]
        refine List.map_congr_left fun i hi => ?_
        rw [List.getD_eq_getElem?_getD,
          getElem?_rowTexts ((hmem i).mp hi).1]
        rfl
      · have hperm : index.Perm ((List.range client.length).filter
            fun i => decide (client.getD i [] ∈ server)) := by
          refine (List.perm_ext_iff_of_nodup h.nodup
            (List.nodup_range.filter _)).mpr fun i => ?_
          rw [hmem, List.mem_filter, List.mem_range, decide_eq_true_iff]
        refine (hperm.map _).trans (List.Perm.of_eq ?_)
        exact map_filter_range client [] fun row => decide (row ∈ server)
  | difference =>
      refine ⟨requestedRows .difference client server, ?_, List.Perm.refl _⟩
      have hkept : ∀ i ∈ List.range (client.map rowText).length,
          (if i ∈ index then none else (client.map rowText)[i]?)
            = if client.getD i [] ∉ server then
                some (rowText (client.getD i []))
              else none := by
        intro i hi
        have hlt : i < client.length := by
          rwa [List.mem_range, List.length_map] at hi
        rw [getElem?_rowTexts hlt]
        by_cases hin : client.getD i [] ∈ server
        · rw [if_pos ((hmem i).mpr ⟨hlt, hin⟩), if_neg (not_not.mpr hin)]
        · rw [if_neg fun hi => hin ((hmem i).mp hi).2, if_pos hin]
      show differenceByIndex (client.map rowText) index = _
      rw [differenceByIndex, List.filterMap_congr hkept, List.length_map,
        filterMap_ite (List.range client.length)
          (fun i => client.getD i [] ∉ server)
          fun i => rowText (client.getD i []), requestedRows,
        ← map_filter_range client [] fun row => decide (row ∉ server),
        List.map_map]
      rfl

-- ============================================================== load and save

/-- What a party's loader finds: the selected columns, whose texts it can
read and take apart, and a place to save the result. -/
structure PsiNode.Provides (node : PsiNode) (config : TaskConfig)
    (task : PsiTask) (table : Table) : Prop where
  params : loadParams node.completePath config = .ok task
  dataset : task.datasetId ≠ ""
  driver : ∃ getCursor cursor,
    node.getDriver task.datasetId task.isDatasetDetail = some getCursor
      ∧ getCursor task.dataIndex = some cursor
      ∧ (∀ type ∈ cursor.types, type.refused = none)
      ∧ cursor.read = some table
  selected : table.columns.length = task.dataIndex.length
  columns : table.columns ≠ []
  reach : ThreadsReach node.cores table
  even : EvenChunks table
  splits : table.columns.length = 1
    ∨ ∀ i, i < table.numRows → PlainRow (table.row i)
  fits : ∀ row ∈ table.rows, (rowText row).length < 2 ^ 64
  writable : node.validateDir task.resultFilePath = true
    ∧ ∀ names columns, node.write task.resultFilePath names columns = true

/-- The names of the columns, in the order they are loaded in. -/
theorem appendColumns_names {cores rows : Nat} {first : Column}
    {rest : List Column}
    (heven : ∀ c ∈ rest, c.chunks.length = first.chunks.length)
    (loaded : Loaded) :
    (appendColumns cores rows first rest loaded).names
      = loaded.names ++ rest.map Column.name := by
  induction rest generalizing loaded with
  | nil => rw [appendColumns, List.map_nil, List.append_nil]
  | cons c rest ih =>
      have hc := heven c List.mem_cons_self
      rw [appendColumns, if_neg (not_not.mpr hc),
        ih fun d hd => heven d (List.mem_cons_of_mem c hd),
        List.map_cons, List.append_assoc, List.singleton_append]

/-- The texts of all rows, and the names of all columns. -/
theorem load_rows {cores : Nat} {table : Table} (hcols : table.columns ≠ [])
    (hreach : ThreadsReach cores table) (heven : EvenChunks table) :
    loadDatasetFromTable cores table
      = .ok ⟨table.rows.map rowText, table.columns.map Column.name⟩ := by
  obtain ⟨first, rest, hcols⟩ := List.exists_cons_of_ne_nil hcols
  have hcount : table.chunkCount = first.chunks.length := by
    simp [Table.chunkCount, hcols]
  obtain ⟨hne, hone⟩ := hreach
  rw [hcount] at hne hone
  obtain ⟨loaded, hload, hdata⟩ :=
    load_eq hcols hne fun h => (hone h).2
  have hnames : loaded.names = table.columns.map Column.name := by
    rw [loadDatasetFromTable, hcols] at hload
    simp only [hne, if_false] at hload
    rw [if_neg fun h => absurd (hone h.1).2 (Nat.not_lt.2 h.2)] at hload
    obtain rfl := Except.ok.inj hload
    rw [appendColumns_names, hcols, List.map_cons]
    · rfl
    · intro c hc
      rw [← hcount]
      exact heven c (by rw [hcols]; exact List.mem_cons_of_mem _ hc)
  have htexts : loaded.data = table.rows.map rowText := by
    rw [hdata, (usedColumns_iff hcols).2 heven, Table.rows, List.map_map]
    refine List.map_congr_left fun i hi => ?_
    have hle := le_reached_iff.2 fun h => (hone h).1
    rw [if_pos (Nat.lt_of_lt_of_le (List.mem_range.mp hi) hle)]
    rfl
  rw [hload, ← hnames, ← htexts]

theorem PsiNode.Provides.splitsRows {node : PsiNode} {config : TaskConfig}
    {task : PsiTask} {table : Table} (h : node.Provides config task table) :
    ∀ row ∈ table.rows, Splits table.columns.length row := by
  intro row hrow
  obtain ⟨i, hi, rfl⟩ := List.mem_map.mp hrow
  exact ⟨List.length_map _, h.splits.imp_right fun hplain =>
    hplain i (List.mem_range.mp hi)⟩

/-- A table that is provided has a column. -/
theorem PsiNode.Provides.columns_pos {node : PsiNode} {config : TaskConfig}
    {task : PsiTask} {table : Table} (h : node.Provides config task table) :
    table.columns.length ≠ 0 :=
  mt List.length_eq_zero_iff.mp h.columns

/-- The elements of a party: one for each row that it keeps. -/
theorem loadDataset_rows {node : PsiNode} {config : TaskConfig}
    {task : PsiTask} {table : Table} (h : node.Provides config task table) :
    loadDataset node task = .ok ⟨(task.keptRows table).map rowText,
      table.columns.map Column.name⟩ := by
  obtain ⟨getCursor, cursor, hdriver, hcursor, htypes, hread⟩ := h.driver
  have hindex : task.dataIndex ≠ [] := by
    intro hnil
    have hselected := h.selected
    rw [hnil] at hselected
    exact h.columns_pos hselected
  have hrefused : cursor.types.findSome? ColumnType.refused = none :=
    List.findSome?_eq_none_iff.mpr htypes
  have hinternal : loadDatasetInternal node.cores getCursor task.dataIndex
      = .ok ⟨table.rows.map rowText, table.columns.map Column.name⟩ := by
    rw [loadDatasetInternal, hcursor]
    simp only [hrefused, hread]
    rw [if_neg (not_not.mpr h.selected)]
    exact load_rows h.columns h.reach h.even
  rw [loadDataset, if_neg (not_or.mpr ⟨h.dataset, hindex⟩), hdriver]
  simp only [hinternal]
  rw [PsiTask.keptRows]
  by_cases hunique : task.uniqueValues = true
  · rw [if_pos hunique, if_pos hunique, filterDuplicated_map]
    intro row hrow row' hrow' heq
    exact rowText_inj h.columns_pos (h.splitsRows row hrow)
      (h.splitsRows row' hrow') heq
  · rw [if_neg hunique, if_neg hunique]

/-- Without its duplicates a table has the same rows. -/
theorem mem_keptRows {task : PsiTask} {table : Table} {row : List Bytes} :
    row ∈ task.keptRows table ↔ row ∈ table.rows := by
  rw [PsiTask.keptRows]
  split_ifs
  · exact mem_filterDuplicated
  · rfl

/-- The saved columns are those of the rows. -/
theorem save_rows {names : List String} (hpos : names.length ≠ 0)
    {rows : List (List Bytes)}
    (h : ∀ row ∈ rows, Splits names.length row) :
    saveDataToCsvFile (rows.map rowText) names
      = .ok ((List.range names.length).map fun j =>
        rows.map fun row => row.getD j []) := by
  by_cases hone : names.length = 1
  · rw [saveDataToCsvFile, if_pos hone, hone]
    have htexts : rows.map rowText = rows.map fun row => row.getD 0 [] := by
      refine List.map_congr_left fun row hrow => ?_
      obtain ⟨f, rfl⟩ := List.length_eq_one_iff.mp ((h row hrow).1.trans hone)
      exact rowText_singleton f
    rw [htexts]
    rfl
  · have hsplit : splitRecords names.length (rows.map rowText)
        = .ok rows := by
      rw [splitRecords_ok]
      · refine congrArg Except.ok ?_
        rw [List.map_map]
        refine (List.map_congr_left fun row hrow => ?_).trans
          (List.map_id rows)
        exact (h row hrow).strSplit hpos hone
      · intro text htext
        obtain ⟨row, hrow, rfl⟩ := List.mem_map.mp htext
        rw [(h row hrow).strSplit hpos hone]
        exact (h row hrow).1
    rw [saveDataToCsvFile, if_neg hone, hsplit]
    rfl

-- =============================================================== the exchange

/-- The frames of items that are strings. -/
theorem resultString_eq (items : List StdString) :
    resultString (items.map Subtype.val) = encodeResult items := by
  rw [resultString, encodeResult, List.map_map]
  rfl

/-- Items of a length that fits 64 bits are the strings of the frames. -/
theorem exists_stdStrings {result : List Bytes}
    (h : ∀ item ∈ result, item.length < 2 ^ 64) :
    ∃ items : List StdString, items.map Subtype.val = result := by
  induction result with
  | nil => exact ⟨[], rfl⟩
  | cons item result ih =>
      obtain ⟨items, hitems⟩ :=
        ih fun x hx => h x (List.mem_cons_of_mem item hx)
      exact ⟨⟨item, h item List.mem_cons_self⟩ :: items,
        by rw [List.map_cons, hitems]⟩

/-- The list that is broadcast is the list that is read, also where it is
empty and the receive fails. -/
theorem receiveResult_resultString {result : List Bytes}
    (h : ∀ item ∈ result, item.length < 2 ^ 64) :
    ∃ items : List StdString, items.map Subtype.val = result
      ∧ receiveResult (received (resultString result)) []
        = some (.success, items) := by
  obtain ⟨items, rfl⟩ := exists_stdStrings h
  refine ⟨items, rfl, ?_⟩
  have htest : ¬ ((received (encodeResult items)).1 ≠ .success
      ∧ (received (encodeResult items)).2 ≠ []) := by
    rintro ⟨hfail, hne⟩
    exact hfail (if_neg hne)
  rw [resultString_eq, receiveResult, if_neg htest]
  show (decodeResult (encodeResult items)).map _ = _
  rw [decodeResult_encodeResult]
  rfl

theorem toInt32_of_lt {n : Nat} (h : n < 2 ^ 31) : toInt32 n = n := by
  have hmod : n % 2 ^ 32 = n := Nat.mod_eq_of_lt (by omega)
  unfold toInt32
  rw [BitVec.toInt_eq_toNat_cond, BitVec.toNat_ofNat, hmod, if_pos (by omega)]

/-- A message that is not empty is received. -/
theorem received_of_ne_nil {data : Bytes} (h : data ≠ []) :
    received data = (.success, data) := by
  rw [received, if_neg h]

/-- Both messages of the response are found in it. -/
theorem parse_psiResponseString (protobuf : Protobuf) {a b : Bytes}
    (ha : a.length < 2 ^ 31) (hb : b.length < 2 ^ 31)
    (response : PsiResponse) :
    recvPsiResponse protobuf false (received (psiResponseString a b)) response
      = some (mergeResponse (protobuf.response a) (protobuf.serverSetup b)
        response) := by
  have hlen : (psiResponseString a b).length
      = 8 + a.length + (8 + b.length) := by
    simp only [psiResponseString, List.length_append, length_toBe]
  have hne : psiResponseString a b ≠ [] := by
    intro hnil
    rw [hnil, List.length_nil] at hlen
    omega
  have hdrop8 : (psiResponseString a b).drop 8
      = a ++ (toBe 8 b.length ++ b) := by
    rw [psiResponseString, List.append_assoc,
      List.drop_left' (length_toBe 8 _)]
  have hdropA : (psiResponseString a b).drop (8 + a.length)
      = toBe 8 b.length ++ b := by
    rw [← List.drop_drop, hdrop8, List.drop_left' rfl]
  have hdropB : (psiResponseString a b).drop (16 + a.length) = b := by
    have hsum : 16 + a.length = 8 + a.length + 8 := by omega
    rw [hsum, ← List.drop_drop, hdropA, List.drop_left' (length_toBe 8 _)]
  have hlenA : lengthAt (psiResponseString a b) 0 = a.length := by
    rw [lengthAt, List.drop_zero, psiResponseString, List.append_assoc,
      List.take_left' (length_toBe 8 _), ofBe_toBe]
    exact Nat.mod_eq_of_lt (by omega)
  have hlenB : lengthAt (psiResponseString a b) (8 + a.length)
      = b.length := by
    rw [lengthAt, hdropA, List.take_left' (length_toBe 8 _), ofBe_toBe]
    exact Nat.mod_eq_of_lt (by omega)
  have hsize : (psiResponseString a b).length < 2 ^ 64 := by omega
  have hinside : PartsInside (psiResponseString a b) := by
    rw [PartsInside, hlenA, hlenB, toInt32_of_lt ha, toInt32_of_lt hb, hlen]
    omega
  have hparse : parsePsiResponseFromString protobuf false
      (psiResponseString a b) response = some _ :=
    (parse_eq_some_iff hsize).mpr ⟨hinside, rfl⟩
  rw [setupPart, hlenA, hlenB, toInt32_of_lt ha, toInt32_of_lt hb,
    Int.toNat_natCast, Int.toNat_natCast, hdrop8, hdropB,
    List.take_left' rfl, List.take_length] at hparse
  rw [received_of_ne_nil hne, recvPsiResponse, if_neg]
  · exact hparse
  · rintro (h | h)
    · exact h rfl
    · exact hne h

section Exchange

variable {κ κ' ρ : Type} {lib : PsiLibrary κ κ' ρ} {wire : Wire ρ}
  {keys : κ × κ'} {client server : List Bytes}

/-- Two processes of which the first returns SUCCESS with this result, and
the second SUCCESS with that one. -/
abbrev Returns (p q : PsiProc (Retcode × List Bytes))
    (result result' : List Bytes) : Prop :=
  Settles p q (fun _ => False) fun a b =>
    a = (.success, result) ∧ b = (.success, result')

/-- The server takes the parameters as the client has sent them. -/
theorem recvInitParam_initParam {parse : String → Option Int} {n : Nat}
    (h : ∀ entry ∈ initParam n true, parse entry.1 = some entry.2) :
    recvInitParam parse = some (n, true) := by
  have hsize := h ("dataset_size", (n : Int)) List.mem_cons_self
  have hreveal := h ("reveal_intersection", 1)
    (List.mem_cons_of_mem _ List.mem_cons_self)
  rw [recvInitParam, hsize, hreveal]
  rfl

/-- A response with a data structure is merged into the empty one. -/
theorem mergeResponse_empty (elements : List Bytes) {setup : ServerSetup}
    (h : setup.dataStructure ≠ none) :
    mergeResponse elements setup ⟨⟨[], none⟩, []⟩
      = (.success, ⟨setup, elements⟩) := by
  obtain ⟨bits, dataStructure⟩ := setup
  cases dataStructure with
  | none => exact absurd rfl h
  | some dataStructure => rfl

/-- With a data structure in the setup the library is asked for the
positions. -/
theorem getIntersection_of_setup (lib : PsiLibrary κ κ' ρ) (clientKey : κ)
    (resultType : PsiResultType) (input elements : List Bytes)
    {setup : ServerSetup} (h : setup.dataStructure ≠ none) :
    EcdhPsiOperator.getIntersection lib clientKey resultType input
        ⟨setup, elements⟩
      = (.success, ecdhGetIntersection resultType input
        (lib.getIntersection clientKey true setup elements)) := by
  obtain ⟨bits, dataStructure⟩ := setup
  cases dataStructure with
  | none => exact absurd rfl h
  | some dataStructure => rfl

/-- The three messages of the operator. -/
theorem ecdh_sync (hwire : wire.Carries lib keys client server)
    (hlib : lib.Exact keys client server) (resultType : PsiResultType) :
    Returns
      (EcdhPsiOperator.executeAsClient lib wire keys.1 resultType client)
      (EcdhPsiOperator.executeAsServer lib wire keys.2 server)
      (ecdhGetIntersection resultType client
        (lib.getIntersection keys.1 true (lib.setupOf keys client server)
          (lib.responseOf keys client))) [] := by
  apply Settles.put_get
  rw [received_of_ne_nil hwire.paramsSent,
    recvInitParam_initParam hwire.params]
  apply Settles.put_get
  have hsent := received_of_ne_nil hwire.requestSent
  rw [PsiLibrary.requestOf] at hsent
  simp only [hsent]
  apply Settles.get_put
  have hrequest := hwire.request
  rw [PsiLibrary.requestOf] at hrequest
  simp only [hrequest]
  have hparse := parse_psiResponseString wire.parse hwire.responseShort
    hwire.setupShort ⟨⟨[], none⟩, []⟩
  rw [hwire.response, hwire.setup] at hparse
  rw [mergeResponse_empty _ hlib.dataStructure] at hparse
  have hget := getIntersection_of_setup lib keys.1 resultType client
    (lib.responseOf keys client) hlib.dataStructure
  simp only [PsiLibrary.responseOf, PsiLibrary.setupOf,
    PsiLibrary.requestOf] at hparse hget ⊢
  simp only [hparse, hget]
  exact Settles.ret ⟨rfl, rfl⟩

/-- The message by which the result is shared. -/
theorem base_sync {p q : PsiProc (Retcode × List Bytes)}
    {result : List Bytes} (h : Returns p q result [])
    (hfits : ∀ item ∈ result, item.length < 2 ^ 64) (syncResult : Bool) :
    Returns (baseExecute partyClient syncResult p)
      (baseExecute partyServer syncResult q) result
      (if syncResult then result else []) := by
  apply Settles.bind h
  rintro _ _ - ⟨rfl, rfl⟩
  cases syncResult with
  | false => exact Settles.ret ⟨rfl, rfl⟩
  | true =>
      obtain ⟨items, hitems, hreceive⟩ := receiveResult_resultString hfits
      apply Settles.put_get
      simp only [hreceive]
      refine Settles.ret ⟨rfl, ?_⟩
      rw [List.nil_append, hitems]
      rfl

end Exchange

-- =================================================================== the task

section Task

variable {κ κ' ρ : Type} {lib : PsiLibrary κ κ' ρ} {wire : Wire ρ}
  {others : OtherOperators} {keys : κ × κ'} {node node' : PsiNode}
  {config config' : TaskConfig} {task task' : PsiTask}
  {table table' : Table}

/-- What `LoadParams` takes from the parameters. -/
theorem loadParams_ok {completePath : String → String}
    (h : loadParams completePath config = .ok task) :
    task.partyName = config.partyName ∧ task.resultType = config.resultType
      ∧ task.psiTag = config.psiTag
      ∧ task.broadcastResult
        = config.flag "sync_result_to_server" false := by
  rw [loadParams] at h
  split at h
  · cases h
  · split at h
    · cases h
    · split at h
      · cases h
        exact ⟨rfl, rfl, rfl, rfl⟩
      · cases h
        exact ⟨rfl, rfl, rfl, rfl⟩

/-- A party whose dataset is there, up to the operator. -/
theorem execute_eq (h : node.Provides config task table)
    (hecdh : task.psiTag = 0) :
    node.execute lib wire others keys config
      = (do
        let (ret, result) ← baseExecute task.partyName task.broadcastResult
          (EcdhPsiOperator.onExecute lib wire keys task
            ((task.keptRows table).map rowText))
        if ret ≠ .success then
          Proc.raise (.thrown "Psi execute operator failed.")
        else Proc.lift (saveResult node task result
          (table.columns.map Column.name))) := by
  rw [PsiNode.execute, h.params]
  simp only [Proc.lift_ok, Proc.ret_bind, loadDataset_rows h, hecdh, if_true]
  rfl

/-- Rows that can be taken apart are saved. -/
theorem saveResult_rows (h : node.Provides config task table)
    {rows : List (List Bytes)}
    (hrows : ∀ row ∈ rows, Splits table.columns.length row)
    (hsave : task.needSaveResult = true) :
    saveResult node task (rows.map rowText) (table.columns.map Column.name)
      = .ok (some (.ofRows task.resultFilePath
        (table.columns.map Column.name) rows)) := by
  have hnames : (table.columns.map Column.name).length
      = table.columns.length := List.length_map _
  have hcolumns := save_rows (hnames ▸ h.columns_pos)
    (hnames.symm ▸ hrows)
  obtain ⟨hdir, hwrite⟩ := h.writable
  rw [saveResult, hsave, hcolumns]
  simp only [Bool.not_true, Bool.false_eq_true, if_false, hdir, hwrite]
  rfl

/-- Only the set of the server's rows counts. -/
theorem requestedRows_congr {resultType : PsiResultType}
    {client server server' : List (List Bytes)}
    (h : ∀ row, row ∈ server ↔ row ∈ server') :
    requestedRows resultType client server
      = requestedRows resultType client server' := by
  cases resultType with
  | intersection =>
      exact List.filter_congr fun row _ => decide_eq_decide.mpr (h row)
  | difference =>
      exact List.filter_congr fun row _ =>
        decide_eq_decide.mpr (not_congr (h row))

/-- No row is kept only where there is none. -/
theorem keptRows_eq_nil_iff :
    task.keptRows table = [] ↔ table.numRows = 0 := by
  have hrows : table.rows = [] ↔ table.numRows = 0 := by
    rw [Table.rows, List.map_eq_nil_iff, List.range_eq_nil]
  rw [← hrows, List.eq_nil_iff_forall_not_mem, List.eq_nil_iff_forall_not_mem]
  exact forall_congr' fun row => not_congr mem_keptRows

/-- A party without rows gives up. -/
theorem execute_no_rows (h : node.Provides config task table)
    (hecdh : task.psiTag = 0) (hempty : table.numRows = 0) :
    node.execute lib wire others keys config
      = Proc.raise (.thrown "Psi execute operator failed.") := by
  rw [execute_eq h hecdh, keptRows_eq_nil_iff.mpr hempty]
  rfl

/-- The operators of two parties with items. -/
theorem onExecute_returns {texts texts' : List Bytes}
    (hclient : task.partyName = partyClient)
    (hserver : task'.partyName = partyServer) (hne : texts ≠ [])
    (hne' : texts' ≠ []) (hwire : wire.Carries lib keys texts texts')
    (hlib : lib.Exact keys texts texts') :
    Returns (EcdhPsiOperator.onExecute lib wire keys task texts)
      (EcdhPsiOperator.onExecute lib wire keys task' texts')
      (ecdhGetIntersection task.resultType texts
        (lib.getIntersection keys.1 true (lib.setupOf keys texts texts')
          (lib.responseOf keys texts))) [] := by
  rw [EcdhPsiOperator.onExecute, EcdhPsiOperator.onExecute, if_neg hne,
    if_neg hne', if_pos hclient, hserver, if_neg (by decide), if_pos rfl]
  exact ecdh_sync hwire hlib task.resultType

/-- The server saves the rows if it gets them. -/
theorem saveResult_server (h' : node'.Provides config' task' table')
    (hserver : task'.partyName = partyServer) {rows : List (List Bytes)}
    (hrows : ∀ row ∈ rows, Splits table'.columns.length row) :
    saveResult node' task'
        (if task'.broadcastResult then rows.map rowText else [])
        (table'.columns.map Column.name)
      = .ok (if task'.broadcastResult then
          some (.ofRows task'.resultFilePath
            (table'.columns.map Column.name) rows)
        else none) := by
  have hneed : task'.needSaveResult = task'.broadcastResult := by
    rw [PsiTask.needSaveResult, hserver]
    cases task'.broadcastResult <;> rfl
  cases hflag : task'.broadcastResult with
  | false =>
      rw [saveResult, hneed, hflag]
      rfl
  | true => exact saveResult_rows h' hrows (hneed.trans hflag)

/-- Two parties with rows save what they are asked to. -/
theorem saves_of_rows (h : node.Provides config task table)
    (h' : node'.Provides config' task' table')
    (hclient : task.partyName = partyClient)
    (hserver : task'.partyName = partyServer)
    (hecdh : task.psiTag = 0) (hecdh' : task'.psiTag = 0)
    (hsync : task'.broadcastResult = task.broadcastResult)
    (hcolumns : table'.columns.length = table.columns.length)
    (hrows : table.numRows ≠ 0) (hrows' : table'.numRows ≠ 0)
    (hwire : wire.Carries lib keys ((task.keptRows table).map rowText)
      ((task'.keptRows table').map rowText))
    (hlib : lib.Exact keys ((task.keptRows table).map rowText)
      ((task'.keptRows table').map rowText)) :
    SavesRequested (node.execute lib wire others keys config)
      (node'.execute lib wire others keys config') task task' table
      table' := by
  have hsplit : ∀ row ∈ task.keptRows table,
      Splits table.columns.length row :=
    fun row hrow => h.splitsRows row (mem_keptRows.mp hrow)
  have hsplit' : ∀ row ∈ task'.keptRows table',
      Splits table.columns.length row :=
    fun row hrow => hcolumns ▸ h'.splitsRows row (mem_keptRows.mp hrow)
  -- the positions of the library are rows of the client
  obtain ⟨rows, hresult, hperm⟩ := picked_rows h.columns_pos hsplit hsplit'
    hlib.positions task.resultType
  have hkept : ∀ row ∈ rows, row ∈ table.rows := fun row hrow =>
    mem_keptRows.mp (mem_requestedRows (hperm.mem_iff.mp hrow))
  have hsaved : ∀ row ∈ rows, Splits table.columns.length row :=
    fun row hrow => h.splitsRows row (hkept row hrow)
  have hfits : ∀ item ∈ rows.map rowText, item.length < 2 ^ 64 := by
    intro item hitem
    obtain ⟨row, hrow, rfl⟩ := List.mem_map.mp hitem
    exact h.fits row (hkept row hrow)
  have hne : (task.keptRows table).map rowText ≠ [] :=
    mt List.map_eq_nil_iff.mp (mt keptRows_eq_nil_iff.mp hrows)
  have hne' : (task'.keptRows table').map rowText ≠ [] :=
    mt List.map_eq_nil_iff.mp (mt keptRows_eq_nil_iff.mp hrows')
  have hoperator := onExecute_returns hclient hserver hne hne' hwire hlib
  rw [hresult] at hoperator
  have hsave := saveResult_rows h hsaved (by
    rw [PsiTask.needSaveResult, hclient]
    rfl)
  have hsave' := saveResult_server h' hserver fun row hrow =>
    hcolumns.symm ▸ hsaved row hrow
  rw [hsync] at hsave'
  rw [SavesRequested, execute_eq h hecdh, execute_eq h' hecdh', hclient,
    hserver, hsync]
  -- the two operators meet to their end, and both save afterwards
  obtain ⟨_, _, hreturned, rfl, rfl⟩ :=
    (base_sync hoperator hfits task.broadcastResult).exists_ok
  refine Sync.lockStep (Sync.bind hreturned (x := .ok (some (.ofRows
      task.resultFilePath (table.columns.map Column.name) rows)))
    (y := .ok (if task.broadcastResult then
        some (.ofRows task'.resultFilePath (table'.columns.map Column.name)
          rows)
      else none)) ?_) ⟨rows, ?_, rfl, rfl⟩
  · show Sync (Proc.lift (saveResult node task (rows.map rowText) _))
      (Proc.lift (saveResult node' task' _ _)) _ _
    rw [hsave, hsave']
    exact Sync.finish (.ok _) (.ok _)
  · have hsame : ∀ row, row ∈ task'.keptRows table' ↔ row ∈ table'.rows :=
      fun row => mem_keptRows
    rw [← requestedRows_congr hsame]
    exact hperm

/-- For all tables of equally many columns that the loader can read and take
apart, all parameters of an ECDH task and every schedule: both parties save
what the task asks for exactly if both have a row. A party without rows
gives up before it sends or receives anything. -/
theorem task_saves_iff (h : node.Provides config task table)
    (h' : node'.Provides config' task' table')
    (hclient : config.partyName = partyClient)
    (hserver : config'.partyName = partyServer)
    (hparams : config'.paramMap = config.paramMap)
    (hecdh : config.psiTag = 0)
    (hcolumns : table'.columns.length = table.columns.length)
    (hexact : table.numRows ≠ 0 → table'.numRows ≠ 0 →
      wire.Carries lib keys ((task.keptRows table).map rowText)
          ((task'.keptRows table').map rowText)
        ∧ lib.Exact keys ((task.keptRows table).map rowText)
          ((task'.keptRows table').map rowText)) :
    (SavesRequested (node.execute lib wire others keys config)
        (node'.execute lib wire others keys config') task task' table table'
      ↔ table.numRows ≠ 0 ∧ table'.numRows ≠ 0)
    ∧ (table.numRows = 0 → node.execute lib wire others keys config
      = Proc.raise (.thrown "Psi execute operator failed."))
    ∧ (table'.numRows = 0 → node'.execute lib wire others keys config'
      = Proc.raise (.thrown "Psi execute operator failed.")) := by
  obtain ⟨hname, -, htag, hflag⟩ := loadParams_ok h.params
  obtain ⟨hname', -, htag', hflag'⟩ := loadParams_ok h'.params
  have hecdh' : config'.psiTag = 0 := by
    rw [TaskConfig.psiTag, hparams]
    exact hecdh
  have hsync : task'.broadcastResult = task.broadcastResult := by
    rw [hflag, hflag', TaskConfig.flag, TaskConfig.flag, hparams]
  -- a party without rows raises before it meets the other
  have hnone : table.numRows = 0 →
      node.execute lib wire others keys config = Proc.raise _ :=
    execute_no_rows h (htag.trans hecdh)
  have hnone' : table'.numRows = 0 →
      node'.execute lib wire others keys config' = Proc.raise _ :=
    execute_no_rows h' (htag'.trans hecdh')
  refine ⟨?_, hnone, hnone'⟩
  constructor
  · intro hsaves
    constructor
    · intro hempty
      rw [SavesRequested, hnone hempty] at hsaves
      refine not_lockStep_of_raise (.refl _ _) ?_ hsaves
      rintro y ⟨rows, -, hc, -⟩
      cases hc
    · intro hempty
      rw [SavesRequested, hnone' hempty] at hsaves
      refine not_lockStep_of_raise_right (.refl _ _) ?_ hsaves
      rintro x ⟨rows, -, -, hs⟩
      cases hs
  · rintro ⟨hrows, hrows'⟩
    obtain ⟨hwire, hlib⟩ := hexact hrows hrows'
    exact saves_of_rows h h' (hname.trans hclient) (hname'.trans hserver)
      (htag.trans hecdh) (htag'.trans hecdh') hsync hcolumns hrows hrows'
      hwire hlib

end Task

-- ================================================================= an example

/-- A PSI library without encryption: the setup has the server's items,
behind each but the last a zero byte. -/
def openLibrary : PsiLibrary Unit Unit (List Bytes) where
  createRequest _ _ items := items
  createSetupMessage _ _ _ items := ⟨[0].intercalate items, some (.gcs 1 1)⟩
  processRequest _ _ request := request
  getIntersection _ _ setup response :=
    (List.range response.length).filter fun i =>
      (strSplit [0] setup.bits).contains (response.getD i [])

/-- Messages that carry its requests, setups and responses. -/
def openWire : Wire (List Bytes) where
  params entries := toBe 8 ((entries.lookup "dataset_size").getD 0).toNat
  parseParams data key :=
    if key = "dataset_size" then some (ofBe data)
    else if key = "reveal_intersection" then some 1
    else none
  request items := [0].intercalate items
  parseRequest data := strSplit [0] data
  response items := [0].intercalate items
  setup setup := setup.bits
  parse := ⟨fun data => strSplit [0] data, fun data => ⟨data, some (.gcs 1 1)⟩⟩

/-- A node with one table. -/
def nodeWith (table : Table) : PsiNode where
  cores := 8
  getDriver _ _ := some fun _ =>
    some ⟨table.columns.map Column.type, some table⟩
  completePath path := path
  validateDir path := decide (path ≠ "")
  write _ _ _ := true

/-- The parameters of a task whose result both parties get. -/
def sharedParams : List (String × ParamValue) :=
  [("psiTag", .int32 0), ("sync_result_to_server", .int32 1),
    ("clientIndex", .int32Array [0, 1]), ("serverIndex", .int32Array [0, 1]),
    ("outputFullFilename", .string "/result/client.csv"),
    ("server_outputFullFilname", .string "/result/server.csv")]

def sharedConfig (partyName : String) : TaskConfig :=
  ⟨partyName, fun key => sharedParams.lookup key, some (some "data", false),
    true⟩

def sharedTask (partyName resultFilePath : String) : PsiTask where
  partyName := partyName
  resultType := .intersection
  psiTag := 0
  uniqueValues := true
  broadcastResult := true
  datasetId := "data"
  isDatasetDetail := false
  dataIndex := [0, 1]
  resultFilePath := resultFilePath

/-- A server that has one of the rows of `plainTable`. -/
def serverTable : Table where
  columns := [⟨"id", .string, [[[99], [101]]]⟩,
    ⟨"value", .string, [[[100], [102]]]⟩]
  numRows := 2
  cells_length := by decide
  batched := by decide

/-- A node with a small table of two columns. -/
theorem nodeWith_provides {table : Table} {partyName path : String}
    (hparams : loadParams (fun path => path) (sharedConfig partyName)
      = .ok (sharedTask partyName path))
    (hpath : path ≠ "") (htwo : table.columns.length = 2)
    (htypes : ∀ type ∈ table.columns.map Column.type, type.refused = none)
    (hreach : ThreadsReach 8 table) (heven : EvenChunks table)
    (hsplits : ∀ i, i < table.numRows →
      Separable dataRecordSep (table.row i))
    (hfits : ∀ row ∈ table.rows, (rowText row).length < 2 ^ 64) :
    (nodeWith table).Provides (sharedConfig partyName)
      (sharedTask partyName path) table where
  params := hparams
  dataset := show "data" ≠ "" by decide
  driver := ⟨_, _, rfl, rfl, htypes, rfl⟩
  selected := htwo
  columns := by
    rintro hnil
    rw [hnil] at htwo
    cases htwo
  reach := hreach
  even := heven
  splits := Or.inr fun i hi => (plainRow_iff _).1 (hsplits i hi)
  fits := hfits
  writable := ⟨decide_eq_true hpath, fun _ _ => rfl⟩

/-- The client's table of the sample. -/
theorem plainTable_provided :
    (nodeWith plainTable).Provides (sharedConfig partyClient)
      (sharedTask partyClient "/result/client.csv") plainTable :=
  nodeWith_provides rfl (by decide) rfl (by decide)
    ⟨by decide, fun _ => ⟨by decide, by decide⟩⟩
    (fun c hc => by revert c; decide) (by decide) (by decide)

/-- The server's table of the sample. -/
theorem serverTable_provided :
    (nodeWith serverTable).Provides (sharedConfig partyServer)
      (sharedTask partyServer "/result/server.csv") serverTable :=
  nodeWith_provides rfl (by decide) rfl (by decide)
    ⟨by decide, fun _ => ⟨by decide, by decide⟩⟩
    (fun c hc => by revert c; decide) (by decide) (by decide)

/-- "a####b" and "c####d", and at the server the second and "e####f". -/
def plainTexts : List Bytes :=
  [[97, 35, 35, 35, 35, 98], [99, 35, 35, 35, 35, 100]]

def serverTexts : List Bytes :=
  [[99, 35, 35, 35, 35, 100], [101, 35, 35, 35, 35, 102]]

/-- Messages in the clear are parsed as they were. -/
theorem openWire_carries :
    openWire.Carries openLibrary ((), ()) plainTexts serverTexts where
  params := by decide
  paramsSent := by decide
  request := by decide
  requestSent := by decide
  response := by decide
  responseShort := by decide
  setup := by decide
  setupShort := by decide

/-- A library in the clear finds the common texts. -/
theorem openLibrary_exact :
    openLibrary.Exact ((), ()) plainTexts serverTexts where
  dataStructure := by decide
  positions := by
    have hsplit : strSplit [0] (([0] : Bytes).intercalate serverTexts)
        = serverTexts := by decide
    refine ⟨List.nodup_range.filter _, fun i => ?_⟩
    show i ∈ (List.range plainTexts.length).filter (fun i =>
      (strSplit [0] (([0] : Bytes).intercalate serverTexts)).contains
        (plainTexts.getD i [])) ↔ _
    rw [hsplit, List.mem_filter, List.mem_range, List.contains_iff_mem]
    constructor
    · rintro ⟨hi, hmem⟩
      refine ⟨_, List.getElem?_eq_getElem hi, ?_⟩
      rwa [List.getD_eq_getElem?_getD, List.getElem?_eq_getElem hi] at hmem
    · rintro ⟨item, hitem, hmem⟩
      refine ⟨(List.getElem?_eq_some_iff.mp hitem).1, ?_⟩
      rwa [List.getD_eq_getElem?_getD, hitem]

/-- The task of the sample, by ECDH and with the result for both. -/
theorem task_saves_shared_row :
    SavesRequested
      ((nodeWith plainTable).execute openLibrary openWire (fun _ => none)
        ((), ()) (sharedConfig partyClient))
      ((nodeWith serverTable).execute openLibrary openWire (fun _ => none)
        ((), ()) (sharedConfig partyServer))
      (sharedTask partyClient "/result/client.csv")
      (sharedTask partyServer "/result/server.csv") plainTable
      serverTable :=
  (task_saves_iff plainTable_provided serverTable_provided rfl rfl rfl rfl
    rfl fun _ _ => ⟨openWire_carries, openLibrary_exact⟩).1.2
    ⟨by decide, by decide⟩

end PrimiHub.Psi
