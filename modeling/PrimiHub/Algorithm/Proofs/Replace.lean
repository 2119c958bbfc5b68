/-
When the loop over the columns changes the missing cells and no others.

The integer branch takes the number of chunks of column 0 for that of the
column it scans. Until column 0 is replaced itself the two are the same
(`chunkNum_first`); from then on column 0 is one chunk. So the loop does
its work at each of its points if and only if the integer columns that
come after column 0 have one chunk, and the counts and sums fit their
types (`replacesMissing_iff`).
-/
import PrimiHub.Algorithm.Proofs.Scan

namespace PrimiHub.Algorithm

open Aby3 (I64)
open Lib

variable {D : Type} {dbl : Numbers D} {revealed : Revealed D}
  {file : CsvFile} {requests done before : List (String × Dtype)}
  {s s' : State D} {name : String} {dtype : Dtype} {i : Nat}
  {chunks : List (List TextCell)}

-- ============================================================ finding columns

theorem getElem?_of_idxOf? (h : file.names.idxOf? name = some i) :
    file.names[i]? = some name := by
  obtain ⟨hlt, heq, -⟩ := List.idxOf?_eq_some_iff.mp h
  rw [List.getElem?_eq_getElem hlt, heq]

theorem name_unique {name' : String} (h : file.names.idxOf? name = some i)
    (h' : file.names.idxOf? name' = some i) : name = name' := by
  have heq := getElem?_of_idxOf? h
  rw [getElem?_of_idxOf? h'] at heq
  exact (Option.some.inj heq).symm

theorem exists_finds (h : file.names.idxOf? name = some i) :
    ∃ chunks, Finds file name i chunks := by
  have hname := getElem?_of_idxOf? h
  rw [CsvFile.names, List.getElem?_map, Option.map_eq_some_iff] at hname
  obtain ⟨⟨name', chunks⟩, hcolumn, rfl⟩ := hname
  exact ⟨chunks, h, hcolumn⟩

theorem Finds.unique {j : Nat} {chunks' : List (List TextCell)}
    (h : Finds file name i chunks) (h' : Finds file name j chunks') :
    i = j ∧ chunks = chunks' := by
  have hij : i = j := Option.some.inj (h.index.symm.trans h'.index)
  subst hij
  have hcolumn := h.column
  rw [h'.column] at hcolumn
  cases hcolumn
  exact ⟨rfl, rfl⟩

/-- All columns are cut into the blocks of the file. -/
theorem Finds.length_eq (h : Finds file name i chunks) :
    chunks.length = file.blocks.length := by
  rw [← file.blocks_eq _ (List.mem_of_getElem? h.column), List.length_map]

/-- The column found first is the one of the first name. -/
theorem idxOf?_eq_zero_iff :
    file.names.idxOf? name = some 0 ↔ file.names.head? = some name := by
  cases hnames : file.names with
  | nil => simp
  | cons first names =>
      rw [List.idxOf?_cons, List.head?_cons]
      by_cases heq : first = name
      · rw [if_pos (by rw [heq, beq_self_eq_true]), heq]
        simp
      · rw [if_neg (by rw [beq_iff_eq]; exact heq)]
        simp [heq]

/-- A column asked for is read as strings. -/
theorem load_of_mem (hmem : (name, dtype) ∈ requests)
    (hnum : dtype.numeric = true) (h : Finds file name i chunks) :
    (loadDatasetFromCSV D requests file).columns[i]?
      = some (name, .strings chunks) := by
  have hexpect : expectType requests name = true := by
    refine List.any_eq_true.mpr ⟨_, hmem, ?_⟩
    rw [hnum, Bool.and_true, decide_eq_true_eq]
  simp only [loadDatasetFromCSV, List.getElem?_map, h.column,
    Option.map_some, hexpect, if_true]

theorem chunkNum_load {c : String × Column D}
    (h : (loadDatasetFromCSV D requests file).columns[i]? = some c) :
    c.2.chunkNum = file.blocks.length := by
  simp only [loadDatasetFromCSV, List.getElem?_map,
    Option.map_eq_some_iff] at h
  obtain ⟨d, hd, rfl⟩ := h
  rw [← file.blocks_eq _ (List.mem_of_getElem? hd), List.length_map]
  dsimp only
  split
  · rfl
  · rfl

-- ================================================================== one step

/-- A request for a column that is not there, or of another type. -/
theorem processed_skip
    (hP : Processed dbl revealed file requests done s)
    (h : dtype.numeric = false ∨ file.names.idxOf? name = none) :
    Processed dbl revealed file requests (done ++ [(name, dtype)]) s := by
  have hold : ∀ {name' dtype' i' chunks'},
      (name', dtype') ∈ done ++ [(name, dtype)] → dtype'.numeric = true →
      Finds file name' i' chunks' → (name', dtype') ∈ done := by
    intro name' dtype' i' chunks' hmem hnum hfinds
    rcases List.mem_append.mp hmem with hmem | hmem
    · exact hmem
    · cases List.mem_singleton.mp hmem
      rcases h with h | h
      · rw [h] at hnum
        cases hnum
      · rw [hfinds.index] at h
        cases h
  refine ⟨?_, ?_, ?_⟩
  · intro name' dtype' i' chunks' hmem hfinds
    exact hP.int (hold hmem rfl hfinds) hfinds
  · intro name' i' chunks' hmem hfinds
    exact hP.double (hold hmem rfl hfinds) hfinds
  · intro j hj
    exact hP.others j fun request hmem =>
      hj request (List.mem_append_left _ hmem)

/-- A step that replaces one column leaves the others alone. -/
theorem processed_append
    (hP : Processed dbl revealed file requests before s)
    (hfresh : ∀ request ∈ before, request.1 ≠ name)
    (hfinds : Finds file name i chunks) {c c' : String × Column D}
    (hcolumn : s.table.columns[i]? = some c)
    (hset : s'.table.columns = s.table.columns.set i c')
    (hint : ∀ n, n ≠ name → s'.fedInt.lookup n = s.fedInt.lookup n)
    (hdouble : ∀ n, n ≠ name → s'.fedDouble.lookup n = s.fedDouble.lookup n)
    (hnum : dtype.numeric = true)
    (hnewInt : ∀ d, dtype = .int d → ∃ stats,
      s'.fedInt.lookup name = some stats
        ∧ StatsOf stats (parsable int64 chunks)
        ∧ c' = (name,
          .int64 (replaced int64 (revealed.int name stats) chunks)))
    (hnewDouble : dtype = .double → ∃ stats,
      s'.fedDouble.lookup name = some stats
        ∧ c' = (name, .float64
          (replaced dbl (dbl.printed (revealed.double name stats)) chunks))) :
    Processed dbl revealed file requests (before ++ [(name, dtype)]) s' := by
  have hself : s'.table.columns[i]? = some c' := by
    rw [hset, List.getElem?_set_self' , hcolumn]
    rfl
  have hother : ∀ {j}, j ≠ i →
      s'.table.columns[j]? = s.table.columns[j]? := by
    intro j hj
    rw [hset, List.getElem?_set_ne (Ne.symm hj)]
  -- two requests for one column would have one name
  have hindex : ∀ {name' dtype' j chunks'}, (name', dtype') ∈ before →
      Finds file name' j chunks' → j ≠ i := by
    intro name' dtype' j chunks' hmem hfinds' hj
    rw [hj] at hfinds'
    exact hfresh _ hmem (name_unique hfinds'.index hfinds.index)
  refine ⟨?_, ?_, ?_⟩
  · intro name' dtype' j chunks' hmem hfinds'
    rcases List.mem_append.mp hmem with hmem | hmem
    · rw [hint _ (hfresh _ hmem), hother (hindex hmem hfinds')]
      exact hP.int hmem hfinds'
    · cases List.mem_singleton.mp hmem
      obtain ⟨rfl, rfl⟩ := hfinds.unique hfinds'
      rw [hself]
      obtain ⟨stats, hfed, hstats, hc⟩ := hnewInt _ rfl
      exact ⟨stats, hfed, hstats, congrArg some hc⟩
  · intro name' j chunks' hmem hfinds'
    rcases List.mem_append.mp hmem with hmem | hmem
    · rw [hdouble _ (hfresh _ hmem), hother (hindex hmem hfinds')]
      exact hP.double hmem hfinds'
    · cases List.mem_singleton.mp hmem
      obtain ⟨rfl, rfl⟩ := hfinds.unique hfinds'
      rw [hself]
      obtain ⟨stats, hfed, hc⟩ := hnewDouble rfl
      exact ⟨stats, hfed, congrArg some hc⟩
  · intro j hj
    -- a column of no request is not this one
    have hji : j ≠ i := by
      intro heq
      refine hj (name, dtype) (List.mem_append_right _ ?_) hnum ?_
      · exact List.mem_singleton_self _
      · rw [heq]
        exact hfinds.index
    rw [hother hji]
    exact hP.others j fun request hmem =>
      hj request (List.mem_append_left _ hmem)

theorem lookup_cons_of_ne {β : Type} {n : String} (h : n ≠ name) (v : β)
    (l : List (String × β)) : ((name, v) :: l).lookup n = l.lookup n := by
  rw [List.lookup_cons, beq_eq_false_iff_ne.mpr h]

-- ================================================================ column 0

/-- The first column of the table has been replaced. -/
def FirstDone (file : CsvFile) (done : List (String × Dtype)) : Prop :=
  ∃ request ∈ done, request.2.numeric = true
    ∧ file.names.head? = some request.1

/-- The chunks of column 0. -/
theorem chunkNum_first (hP : Processed dbl revealed file requests before s)
    (hfinds : Finds file name i chunks) :
    ∃ first, s.table.columns[0]? = some first
      ∧ (FirstDone file before → first.2.chunkNum = 1)
      ∧ (¬FirstDone file before →
        first.2.chunkNum = file.blocks.length) := by
  by_cases hdone : FirstDone file before
  · obtain ⟨⟨name', dtype'⟩, hmem, hnum, hhead⟩ := hdone
    obtain ⟨chunks', hfinds'⟩ :=
      exists_finds (idxOf?_eq_zero_iff.mpr hhead)
    cases dtype' with
    | int d =>
        obtain ⟨stats, -, -, hcolumn⟩ := hP.int hmem hfinds'
        exact ⟨_, hcolumn, fun _ => rfl,
          fun h => absurd ⟨_, hmem, hnum, hhead⟩ h⟩
    | double =>
        obtain ⟨stats, -, hcolumn⟩ := hP.double hmem hfinds'
        exact ⟨_, hcolumn, fun _ => rfl,
          fun h => absurd ⟨_, hmem, hnum, hhead⟩ h⟩
    | other => cases hnum
  · have hsame := hP.others 0 fun request hmem hnum hindex =>
      hdone ⟨request, hmem, hnum, idxOf?_eq_zero_iff.mp hindex⟩
    have hlt : 0 < (loadDatasetFromCSV D requests file).columns.length := by
      have hmem := List.mem_of_getElem? hfinds.column
      simp only [loadDatasetFromCSV, List.length_map]
      exact List.length_pos_of_mem hmem
    rw [hsame, List.getElem?_eq_getElem hlt]
    exact ⟨_, rfl, fun h => absurd h hdone,
      fun _ => chunkNum_load (List.getElem?_eq_getElem hlt)⟩

section Order

variable {map : SortedMap String Dtype} {rest : List (String × Dtype)}

theorem lt_of_split (h : map.entries = before ++ (name, dtype) :: rest) :
    (∀ request ∈ before, request.1 < name)
      ∧ ∀ request ∈ rest, name < request.1 := by
  have hsorted := map.sorted
  rw [h, List.pairwise_append, List.pairwise_cons] at hsorted
  obtain ⟨-, ⟨hrest, -⟩, hbefore⟩ := hsorted
  exact ⟨fun request hmem => hbefore request hmem _ List.mem_cons_self,
    hrest⟩

/-- What comes before a name has been done before. -/
theorem firstDone_iff (h : map.entries = before ++ (name, dtype) :: rest) :
    FirstDone file before ↔ FirstBefore file map.entries name := by
  obtain ⟨hbefore, hrest⟩ := lt_of_split h
  constructor
  · intro hdone
    obtain ⟨request, hmem, hnum, hhead⟩ := hdone
    refine ⟨request, ?_, hnum, hhead, hbefore request hmem⟩
    rw [h]
    exact List.mem_append_left _ hmem
  · intro hfirst
    obtain ⟨request, hmem, hnum, hhead, hlt⟩ := hfirst
    refine ⟨request, ?_, hnum, hhead⟩
    rw [h] at hmem
    rcases List.mem_append.mp hmem with hmem | hmem
    · exact hmem
    · rcases List.mem_cons.mp hmem with rfl | hmem
      · exact absurd hlt (lt_irrefl _)
      · exact absurd hlt (lt_asymm (hrest request hmem))

end Order

-- ======================================================= what a step does

/-- The integer branch, on a column of strings. -/
theorem executeColumn_int_iff (hfinds : Finds file name i chunks)
    (hcolumn : s.table.columns[i]? = some (name, .strings chunks))
    {first : String × Column D} (hfirst : s.table.columns[0]? = some first)
    {d : IntDtype} :
    executeColumn dbl revealed file.names s (name, .int d) = some s'
      ↔ chunks ≠ [] ∧ first.2.chunkNum = chunks.length
        ∧ ∃ t', t'.numRows = s.table.numRows
          ∧ t'.columns = s.table.columns.set i (name, .int64 (replaced int64
            (revealed.int name (allStats int64 chunks)) chunks))
          ∧ s' = ⟨t', (name, allStats int64 chunks) :: s.fedInt,
            s.fedDouble⟩ := by
  simp only [executeColumn, hfinds.index, hfirst, Option.bind_eq_bind,
    Option.bind_some, Option.bind_eq_some_iff]
  constructor
  · intro h
    obtain ⟨⟨stats, t'⟩, hproc, h⟩ := h
    obtain ⟨hne, hchunk, rfl, hnum, hset⟩ :=
      (processColumn_iff (fun _ => rfl) hcolumn).mp hproc
    rw [printed_int64] at hset
    exact ⟨hne, hchunk, t', hnum, hset, (Option.some.inj h).symm⟩
  · intro h
    obtain ⟨hne, hchunk, t', hnum, hset, rfl⟩ := h
    refine ⟨(allStats int64 chunks, t'), ?_, rfl⟩
    rw [processColumn_iff (fun _ => rfl) hcolumn, printed_int64]
    exact ⟨hne, hchunk, rfl, hnum, hset⟩

/-- The double branch. -/
theorem executeColumn_double_iff (hfinds : Finds file name i chunks)
    (hcolumn : s.table.columns[i]? = some (name, .strings chunks)) :
    executeColumn dbl revealed file.names s (name, .double) = some s'
      ↔ chunks ≠ []
        ∧ ∃ t', t'.numRows = s.table.numRows
          ∧ t'.columns = s.table.columns.set i (name, .float64 (replaced dbl
            (dbl.printed (revealed.double name (allStats dbl chunks)))
            chunks))
          ∧ s' = ⟨t', s.fedInt,
            (name, allStats dbl chunks) :: s.fedDouble⟩ := by
  simp only [executeColumn, hfinds.index, hcolumn, Option.bind_eq_bind,
    Option.bind_some, Option.bind_eq_some_iff]
  constructor
  · intro h
    obtain ⟨⟨stats, t'⟩, hproc, h⟩ := h
    obtain ⟨hne, -, rfl, hnum, hset⟩ :=
      (processColumn_iff (fun _ => rfl) hcolumn).mp hproc
    exact ⟨hne, t', hnum, hset, (Option.some.inj h).symm⟩
  · intro h
    obtain ⟨hne, t', hnum, hset, rfl⟩ := h
    refine ⟨(allStats dbl chunks, t'), ?_, rfl⟩
    rw [processColumn_iff (fun _ => rfl) hcolumn]
    exact ⟨hne, rfl, rfl, hnum, hset⟩

theorem executeColumn_skip
    (h : dtype.numeric = false ∨ file.names.idxOf? name = none) :
    executeColumn dbl revealed file.names s (name, dtype) = some s := by
  unfold executeColumn
  cases hindex : file.names.idxOf? name with
  | none => rfl
  | some i =>
      rcases h with h | h
      · cases dtype with
        | int d => cases h
        | double => cases h
        | other => rfl
      · rw [hindex] at h
        cases h

section Runs

variable {map : SortedMap String Dtype} {rest : List (String × Dtype)}

/-- A column that is asked for is still as it was read. -/
theorem column_of_split
    (hP : Processed dbl revealed file map.entries before s)
    (hsplit : map.entries = before ++ (name, dtype) :: rest)
    (hnum : dtype.numeric = true) (hfinds : Finds file name i chunks) :
    s.table.columns[i]? = some (name, .strings chunks) := by
  have hmem : (name, dtype) ∈ map.entries := by
    rw [hsplit]
    exact List.mem_append_right _ List.mem_cons_self
  rw [← load_of_mem hmem hnum hfinds]
  refine hP.others i fun request hbefore _ hindex => ?_
  have hlt := (lt_of_split hsplit).1 request hbefore
  exact hlt.ne (name_unique hindex hfinds.index)

/-- The chunks of column 0 are those of an integer column as long as
column 0 has not come before it. -/
theorem chunkNum_eq_iff
    (hP : Processed dbl revealed file map.entries before s)
    (hsplit : map.entries = before ++ (name, dtype) :: rest)
    (hfinds : Finds file name i chunks) :
    ∃ first, s.table.columns[0]? = some first
      ∧ (first.2.chunkNum = chunks.length
        ↔ (FirstBefore file map.entries name → chunks.length = 1)) := by
  obtain ⟨first, hfirst, hdone, hnot⟩ := chunkNum_first hP hfinds
  refine ⟨first, hfirst, ?_⟩
  rw [← firstDone_iff hsplit]
  by_cases h : FirstDone file before
  · rw [hdone h, eq_comm]
    exact ⟨fun heq _ => heq, fun heq => heq h⟩
  · rw [hnot h, hfinds.length_eq]
    exact ⟨fun _ hyes => absurd hyes h, fun _ => rfl⟩

/-- A step of a loop that meets the condition. -/
theorem exists_step (hfitting : Fitting file map.entries)
    (hP : Processed dbl revealed file map.entries before s)
    (hsplit : map.entries = before ++ (name, dtype) :: rest) :
    ∃ s', executeColumn dbl revealed file.names s (name, dtype) = some s'
      ∧ Processed dbl revealed file map.entries (before ++ [(name, dtype)])
        s' := by
  have hmem : (name, dtype) ∈ map.entries := by
    rw [hsplit]
    exact List.mem_append_right _ List.mem_cons_self
  have hfresh : ∀ request ∈ before, request.1 ≠ name := fun request hbefore =>
    ((lt_of_split hsplit).1 request hbefore).ne
  -- a column of no number, or not in the file, is passed over
  by_cases hskip : dtype.numeric = false ∨ file.names.idxOf? name = none
  · exact ⟨s, executeColumn_skip hskip, processed_skip hP hskip⟩
  · rw [not_or, Bool.not_eq_false] at hskip
    obtain ⟨hnum, hindex⟩ := hskip
    obtain ⟨i, hi⟩ := Option.ne_none_iff_exists'.mp hindex
    obtain ⟨chunks, hfinds⟩ := exists_finds hi
    have hcolumn := column_of_split hP hsplit hnum hfinds
    have hne := hfitting.chunks hmem hnum hfinds
    have hsize : chunks.flatten.length = s.table.numRows :=
      s.table.length_eq _ (List.mem_of_getElem? hcolumn)
    cases dtype with
    | int d =>
        obtain ⟨hchunk, hstats⟩ := hfitting.int hmem hfinds
        -- an integer column is read with the number of chunks of the first
        obtain ⟨first, hfirst, heq⟩ := chunkNum_eq_iff hP hsplit hfinds
        obtain ⟨t', -, hrows, hset⟩ := exists_setColumn
          (c := .int64 (replaced int64 (revealed.int name
            (allStats int64 chunks)) chunks))
          (t := s.table) ((length_replaced _ _).trans hsize) i name
        refine ⟨_, (executeColumn_int_iff hfinds hcolumn hfirst).mpr
          ⟨hne, heq.mpr hchunk, t', hrows, hset, rfl⟩, ?_⟩
        refine processed_append hP hfresh hfinds hcolumn hset
          (fun n hn => lookup_cons_of_ne hn _ _) (fun _ _ => rfl) rfl ?_ ?_
        · intro _ _
          exact ⟨_, List.lookup_cons_self,
            (statsOf_allStats chunks).mpr hstats, rfl⟩
        · intro heq
          cases heq
    | double =>
        obtain ⟨t', -, hrows, hset⟩ := exists_setColumn
          (c := .float64 (replaced dbl (dbl.printed
            (revealed.double name (allStats dbl chunks))) chunks))
          (t := s.table) ((length_replaced _ _).trans hsize) i name
        refine ⟨_, (executeColumn_double_iff hfinds hcolumn).mpr
          ⟨hne, t', hrows, hset, rfl⟩, ?_⟩
        refine processed_append hP hfresh hfinds hcolumn hset
          (fun _ _ => rfl) (fun n hn => lookup_cons_of_ne hn _ _) rfl ?_ ?_
        · intro _ heq
          cases heq
        · intro _
          exact ⟨_, List.lookup_cons_self, rfl⟩
    | other => cases hnum

theorem executeColumns_append (file : CsvFile)
    (requests before : List (String × Dtype)) (x : String × Dtype) :
    executeColumns dbl revealed file requests (before ++ [x])
      = (executeColumns dbl revealed file requests before).bind
        fun s => executeColumn dbl revealed file.names s x := by
  rw [executeColumns, List.foldlM_append, Option.bind_eq_bind]
  refine congrArg _ (funext fun s => ?_)
  rw [List.foldlM_cons]
  exact bind_pure _

/-- Before the loop nothing has changed. -/
theorem processed_nil :
    Processed dbl revealed file requests []
      ⟨loadDatasetFromCSV D requests file, [], []⟩ where
  int h := absurd h List.not_mem_nil
  double h := absurd h List.not_mem_nil
  others _ _ := rfl

theorem replaces_of_fitting (h : Fitting file map.entries) :
    ReplacesMissing dbl revealed file map := by
  intro done
  induction done using List.reverseRecOn with
  | nil =>
      intro rest _
      exact ⟨_, rfl, processed_nil⟩
  | append_singleton before x ih =>
      intro rest hsplit
      rw [List.append_assoc] at hsplit
      obtain ⟨s, hrun, hP⟩ := ih _ hsplit
      obtain ⟨name, dtype⟩ := x
      obtain ⟨s', hstep, hP'⟩ := exists_step h hP hsplit
      refine ⟨s', ?_, hP'⟩
      rw [executeColumns_append, hrun]
      exact hstep

/-- What a loop that does its work says about a column. -/
theorem fitting_of_replaces (h : ReplacesMissing dbl revealed file map) :
    Fitting file map.entries := by
  have hstep : ∀ {name dtype}, (name, dtype) ∈ map.entries →
      ∃ before rest s s', map.entries = before ++ (name, dtype) :: rest
        ∧ Processed dbl revealed file map.entries before s
        ∧ Processed dbl revealed file map.entries
          (before ++ [(name, dtype)]) s'
        ∧ executeColumn dbl revealed file.names s (name, dtype)
          = some s' := by
    intro name dtype hmem
    obtain ⟨before, rest, hsplit⟩ := List.append_of_mem hmem
    obtain ⟨s, hrun, hP⟩ := h before _ hsplit
    obtain ⟨s', hrun', hP'⟩ := h (before ++ [(name, dtype)]) rest (by
      rw [hsplit, List.append_assoc]
      rfl)
    rw [executeColumns_append, hrun] at hrun'
    exact ⟨before, rest, s, s', hsplit, hP, hP', hrun'⟩
  refine ⟨?_, ?_⟩
  · intro name dtype i chunks hmem hnum hfinds
    obtain ⟨before, rest, s, s', hsplit, hP, -, hexec⟩ := hstep hmem
    have hcolumn := column_of_split hP hsplit hnum hfinds
    cases dtype with
    | int d =>
        obtain ⟨first, hfirst, -⟩ := chunkNum_eq_iff hP hsplit hfinds
        exact ((executeColumn_int_iff hfinds hcolumn hfirst).mp hexec).1
    | double =>
        exact ((executeColumn_double_iff hfinds hcolumn).mp hexec).1
    | other => cases hnum
  · intro name d i chunks hmem hfinds
    obtain ⟨before, rest, s, s', hsplit, hP, hP', hexec⟩ := hstep hmem
    have hcolumn := column_of_split hP hsplit rfl hfinds
    obtain ⟨first, hfirst, heq⟩ := chunkNum_eq_iff hP hsplit hfinds
    obtain ⟨-, hchunk, t', -, -, rfl⟩ :=
      (executeColumn_int_iff hfinds hcolumn hfirst).mp hexec
    refine ⟨heq.mp hchunk, ?_⟩
    obtain ⟨stats, hfed, hstats, -⟩ := hP'.int
      (List.mem_append_right _ (List.mem_singleton_self _)) hfinds
    rw [List.lookup_cons_self] at hfed
    cases hfed
    exact (statsOf_allStats chunks).mp hstats

end Runs

-- ================================================================ the result

/-- The loop changes exactly the missing cells of the columns asked for. -/
theorem replacesMissing_iff (dbl : Numbers D) (revealed : Revealed D)
    (file : CsvFile) (requests : SortedMap String Dtype) :
    ReplacesMissing dbl revealed file requests
      ↔ Fitting file requests.entries :=
  ⟨fitting_of_replaces, replaces_of_fitting⟩

/-- Two integer columns in a file of two blocks. -/
def twoBlocks : CsvFile where
  columns :=
    [("a", [[some ['1']], [none]]), ("b", [[some ['2']], [some ['5']]])]
  blocks := [1, 1]
  blocks_eq := by decide

def bothInteger : SortedMap String Dtype where
  entries := [("a", .int .integer), ("b", .int .integer)]
  sorted := by decide

/-- What a lone party would have revealed. -/
def ownMax : Revealed I64 :=
  ⟨fun _ stats => stats.max, fun _ stats => stats.max⟩

/-- The second column is scanned as far as the first one now goes. -/
theorem not_replacesMissing_twoBlocks :
    ¬ReplacesMissing int64 ownMax twoBlocks bothInteger := by
  intro h
  have hfinds : Finds twoBlocks "b" 1 [[some ['2']], [some ['5']]] :=
    ⟨by decide, rfl⟩
  have hint : ("b", .int .integer) ∈ bothInteger.entries :=
    List.mem_cons_of_mem _ List.mem_cons_self
  have hchunk := ((fitting_of_replaces h).int hint hfinds).1
    ⟨("a", .int .integer), List.mem_cons_self, rfl, rfl, by decide⟩
  exact absurd hchunk (by decide)

/-- Of that column the 2 is counted and added, the 5 only counted; the
rebuild of the second chunk reads past the lists of positions. -/
example :
    ((accumulate int64 1 [[some ['2']], [some ['5']]]).map fun r =>
        ((r.1.stats 2).sum, (r.1.stats 2).count, r.2))
      = some (2, 2, [[]])
    ∧ buildNewColumn int64 [[some ['2']], [some ['5']]] ['2'] [[]] = none := by
  decide

end PrimiHub.Algorithm
