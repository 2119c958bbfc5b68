/-
Join keys: when the strings a PSI task compares stand for the rows they
were built from, and come apart into them again.

The loader with the separator is right about a table exactly when three
things hold of it (`join_keys_iff`): the threads between them reach every
row, the columns are cut into equally many chunks, and no row misleads
`str_split`. The last is the condition of `Lib.Split` at "####":
`plainRow_iff` says it without the splitter. The loader without the
separator is right about tables without rows only.

Chain: `Adjoining.runJobs` (threads with adjoining shares are one pass),
`runJobs_columnJobs` (both ways of sharing out), `load_eq` (the text of
every row), then `Lib.Split`.
-/
import Mathlib.Algebra.BigOperators.Group.List.Basic
import Mathlib.Data.List.TakeWhile
import PrimiHub.Psi.Dataset

namespace PrimiHub.Psi

open Lib

-- ====================================================== the statement

/-- The strings tell rows apart as the fields do, and split into the
fields. -/
structure FaithfulKeys (table : Table) (data : List Bytes) : Prop where
  length : data.length = table.numRows
  agree : ∀ i j, i < table.numRows → j < table.numRows →
    (data.getD i [] = data.getD j [] ↔ table.row i = table.row j)
  fields : ∀ i, i < table.numRows →
    strSplit dataRecordSep (data.getD i []) = table.row i

/-- How many chunks the first column has. -/
def Table.chunkCount (t : Table) : Nat :=
  (t.columns.head?.map (·.chunks.length)).getD 0

/-- There is a chunk, and where there is just one the threads' shares
reach the last row without leaving `int32_t`. -/
def ThreadsReach (cores : Nat) (t : Table) : Prop :=
  let shares := rowShares cores t.numRows
  t.chunkCount ≠ 0 ∧ (t.chunkCount = 1 →
    t.numRows ≤ shares.threadNum * shares.perThread
      ∧ shares.threadNum * shares.perThread < 2 ^ 31)

/-- Every column is cut into as many chunks as the first. -/
def EvenChunks (t : Table) : Prop :=
  ∀ c ∈ t.columns, c.chunks.length = t.chunkCount

/-- No field has "####" in it, none but the last ends in '#', and the last
one is not empty. -/
def PlainRow (row : List Bytes) : Prop :=
  (∀ f ∈ row.dropLast, ¬ dataRecordSep <:+: f ∧ f.getLast? ≠ some hash)
    ∧ ∀ f, row.getLast? = some f → f ≠ [] ∧ ¬ dataRecordSep <:+: f

-- =========================================================== the passes

/-- The first `m` rows of a pass done, the others not yet. -/
def written (f : Bytes → Bytes → Bytes) (cells : List Bytes) (m : Nat)
    (data : List Bytes) : List Bytes :=
  data.mapIdx fun j text => if j < m then f (cells.getD j []) text else text

variable {f : Bytes → Bytes → Bytes} {cells data : List Bytes}

/-- No row has been reached. -/
theorem written_zero : written f cells 0 data = data := by
  apply List.ext_getElem?
  intro j
  simp [written]

/-- The length of a thread's share. -/
theorem length_slice {β : Type} (l : List β) {s e : Nat}
    (h : e ≤ l.length) : (slice l s e).length = e - s := by
  rw [slice, List.length_take, List.length_drop]
  omega

/-- An entry of a thread's share. -/
theorem getD_slice (l : List Bytes) {s e j : Nat} (hs : s ≤ j) (he : j < e) :
    (slice l s e).getD (j - s) [] = l.getD j [] := by
  have hlt : j - s < e - s := by omega
  have hadd : s + (j - s) = j := by omega
  rw [slice, List.getD_eq_getElem?_getD, List.getD_eq_getElem?_getD,
    List.getElem?_take_of_lt hlt, List.getElem?_drop, hadd]

/-- A thread that starts where the pass has got to takes it further. -/
theorem writeCells_written {m n : Nat} (hmn : m ≤ n) (hn : n ≤ cells.length) :
    writeCells f ⟨m, slice cells m n⟩ (written f cells m data)
      = written f cells n data := by
  apply List.ext_getElem?
  intro j
  simp only [writeCells, written, List.getElem?_mapIdx, Option.map_map]
  cases data[j]? with
  | none => rfl
  | some text =>
      have hlen := length_slice cells (s := m) hn
      simp only [Option.map_some, Function.comp_apply, hlen]
      congr 1
      by_cases hjm : j < m
      · rw [if_neg (by omega), if_pos hjm, if_pos (by omega)]
      · by_cases hjn : j < n
        · rw [if_pos (by omega), if_neg hjm, if_pos hjn,
            getD_slice cells (by omega) hjn]
        · rw [if_neg (by omega), if_neg hjm, if_neg hjn]

/-- Threads with adjoining shares make one pass. -/
theorem runJobs_bounds (bound : Nat → Nat) (threads : Nat)
    (hzero : bound 0 = 0)
    (hmono : ∀ i < threads, bound i ≤ bound (i + 1))
    (hle : ∀ i ≤ threads, bound i ≤ cells.length) :
    runJobs f ((List.range threads).map fun i =>
        ⟨bound i, slice cells (bound i) (bound (i + 1))⟩) data
      = written f cells (bound threads) data := by
  induction threads with
  | zero => rw [hzero, written_zero]; rfl
  | succ t ih =>
      have hdone := ih (fun i hi => hmono i (by omega))
        fun i hi => hle i (by omega)
      rw [runJobs] at hdone
      rw [List.range_succ, List.map_append, runJobs, List.foldl_append, hdone]
      exact writeCells_written (hmono t (by omega)) (hle (t + 1) (by omega))

/-- Jobs that take up one after the other, from the first row to `stop`. -/
def Adjoining (cells : List Bytes) (stop : Nat) (jobs : List Job) : Prop :=
  ∃ (bound : Nat → Nat) (threads : Nat), bound 0 = 0 ∧ bound threads = stop
    ∧ (∀ i < threads, bound i ≤ bound (i + 1))
    ∧ (∀ i ≤ threads, bound i ≤ cells.length)
    ∧ jobs = (List.range threads).map fun i =>
        ⟨bound i, slice cells (bound i) (bound (i + 1))⟩

/-- Threads with adjoining shares leave what one pass over their rows
leaves. -/
theorem Adjoining.runJobs {stop : Nat} {jobs : List Job}
    (h : Adjoining cells stop jobs) :
    Psi.runJobs f jobs data = written f cells stop data := by
  obtain ⟨bound, threads, hzero, rfl, hmono, hle, rfl⟩ := h
  exact runJobs_bounds bound threads hzero hmono hle

-- =================================================== the sharing out

/-- Every thread but the last gets a full share. -/
theorem Shares.of_le (total threads : Nat) {i : Nat}
    (hi : i < (Shares.of total threads).threadNum) :
    i * (Shares.of total threads).perThread ≤ total := by
  have hfull : threads * (total / threads) ≤ total :=
    Nat.mul_div_le total threads
  have hit : i ≤ threads := by
    simp only [Shares.of] at hi
    split_ifs at hi with h
    · omega
    · omega
  exact (Nat.mul_le_mul_right _ hit).trans hfull

/-- Shares of rows adjoin, as far as they reach. -/
theorem rowJobs_adjoining (cells : List Bytes) (threads : Nat) :
    Adjoining cells (min ((Shares.of cells.length threads).threadNum
        * (Shares.of cells.length threads).perThread) cells.length)
      (rowJobs (Shares.of cells.length threads) cells.length cells) := by
  have hle := fun i => Shares.of_le cells.length threads (i := i)
  generalize Shares.of cells.length threads = shares at hle
  have hjobs : rowJobs shares cells.length cells
      = (List.range shares.threadNum).map fun i =>
          ⟨min (i * shares.perThread) cells.length,
            slice cells (min (i * shares.perThread) cells.length)
              (min ((i + 1) * shares.perThread) cells.length)⟩ := by
    refine List.map_congr_left fun i hi => ?_
    rw [min_eq_left (hle i (List.mem_range.1 hi))]
  refine ⟨fun i => min (i * shares.perThread) cells.length, _, by simp, rfl,
    fun i _ => ?_, fun i _ => min_le_right _ _, hjobs⟩
  have hstep : i * shares.perThread ≤ (i + 1) * shares.perThread :=
    Nat.mul_le_mul_right _ (Nat.le_succ i)
  show min _ _ ≤ min _ _
  omega

/-- Where the cells of chunk `i` begin. -/
def offset (chunks : List (List Bytes)) (i : Nat) : Nat :=
  ((chunks.map List.length).take i).sum

/-- A later chunk begins later. -/
theorem offset_mono (chunks : List (List Bytes)) {s e : Nat} (h : s ≤ e) :
    offset chunks s ≤ offset chunks e := by
  obtain ⟨d, rfl⟩ := Nat.exists_eq_add_of_le h
  rw [offset, offset, List.take_add, List.sum_append]
  omega

/-- Behind the last chunk all rows lie before. -/
theorem offset_length (chunks : List (List Bytes)) :
    offset chunks chunks.length = chunks.flatten.length := by
  rw [offset, List.take_of_length_le (by simp), List.length_flatten]

/-- Chunks next to each other are cells next to each other. -/
theorem slice_flatten (chunks : List (List Bytes)) {s e : Nat} (h : s ≤ e) :
    (slice chunks s e).flatten
      = slice chunks.flatten (offset chunks s) (offset chunks e) := by
  have hs : offset chunks s
      = (((chunks.take e).map List.length).take s).sum := by
    rw [List.map_take, List.take_take, min_eq_left h, offset]
  rw [slice, slice, ← List.drop_take, ← List.drop_take, offset.eq_def _ e,
    List.take_sum_flatten, hs, List.drop_sum_flatten]

/-- Shares of chunks adjoin, up to the last row. -/
theorem chunkJobs_adjoining (chunks : List (List Bytes)) {threads : Nat}
    (hthreads : 0 < threads) :
    Adjoining chunks.flatten chunks.flatten.length
      (chunkJobs (Shares.of chunks.length threads)
        (chunks.map List.length) chunks) := by
  have hle := fun i => Shares.of_le chunks.length threads (i := i)
  have hpos : 0 < (Shares.of chunks.length threads).threadNum := by
    simp only [Shares.of]
    split_ifs with h
    · omega
    · exact hthreads
  generalize Shares.of chunks.length threads = shares at hle hpos
  -- the chunk at which thread `i` begins, and the last one ends
  let cut : Nat → Nat := fun i =>
    if i = shares.threadNum then chunks.length else i * shares.perThread
  have hcutle : ∀ i ≤ shares.threadNum, cut i ≤ chunks.length := by
    intro i hi
    by_cases h : i = shares.threadNum
    · exact (if_pos h).le
    · exact (if_neg h).trans_le (hle i (by omega))
  have hcut : ∀ i < shares.threadNum, cut i ≤ cut (i + 1) := by
    intro i hi
    by_cases h : i + 1 = shares.threadNum
    · exact (hcutle i hi.le).trans (if_pos h).ge
    · refine (if_neg (by omega)).trans_le (le_trans ?_ (if_neg h).ge)
      exact Nat.mul_le_mul_right _ (Nat.le_succ i)
  have hjobs : chunkJobs shares (chunks.map List.length) chunks
      = (List.range shares.threadNum).map fun i =>
          ⟨offset chunks (cut i), slice chunks.flatten
            (offset chunks (cut i)) (offset chunks (cut (i + 1)))⟩ := by
    refine List.map_congr_left fun i hi => ?_
    have hi := List.mem_range.1 hi
    have hs : cut i = i * shares.perThread := if_neg (by omega)
    have he : cut (i + 1) = if i = shares.threadNum - 1 then chunks.length
        else (i + 1) * shares.perThread := by
      by_cases h : i = shares.threadNum - 1
      · rw [if_pos h]
        exact if_pos (by omega)
      · rw [if_neg h]
        exact if_neg (by omega)
    rw [← slice_flatten chunks (hcut i hi), he, hs]
    rfl
  have hend : offset chunks (cut shares.threadNum) = chunks.flatten.length := by
    rw [← offset_length]
    exact congrArg (offset chunks) (if_pos rfl)
  refine ⟨fun i => offset chunks (cut i), _, ?_, hend, ?_, ?_, hjobs⟩
  · have hzero : cut 0 = 0 := (if_neg (by omega)).trans (Nat.zero_mul _)
    simp [hzero, offset]
  · exact fun i hi => offset_mono chunks (hcut i hi)
  · intro i hi
    rw [← offset_length]
    exact offset_mono chunks (hcutle i hi)

/-- There is a thread where there is a chunk. -/
theorem chunkThreads_pos {cores chunks : Nat} (h : chunks ≠ 0) :
    0 < if chunks ≤ max (min (cores / 2 - 1) 10) 1 then chunks
      else max (min (cores / 2 - 1) 10) 1 := by
  split_ifs
  · omega
  · omega

/-- The rows a pass reaches, in a table with this first column. -/
def reached (cores rows : Nat) (first : Column) : Nat :=
  let shares := rowShares cores rows
  if first.chunks.length = 1 then
    min (shares.threadNum * shares.perThread) rows
  else rows

/-- A pass over a column cut like the first one. -/
theorem runJobs_columnJobs {cores rows : Nat} {first c : Column}
    (hne : first.chunks.length ≠ 0) (hrows : c.cells.length = rows)
    (hlens : first.chunks.map List.length = c.chunks.map List.length) :
    runJobs f (columnJobs cores rows first c) data
      = written f c.cells (reached cores rows first) data := by
  have hcount : first.chunks.length = c.chunks.length := by
    simpa using congrArg List.length hlens
  subst hrows
  rw [columnJobs, reached]
  split_ifs with hone
  · exact (rowJobs_adjoining c.cells _).runJobs
  · rw [hlens, hcount]
    exact (chunkJobs_adjoining c.chunks
      (chunkThreads_pos (hcount ▸ hne))).runJobs

-- ====================================================== the row texts

/-- The text of a row so far. -/
def keyText (columns : List Column) (j : Nat) : Bytes :=
  dataRecordSep.intercalate (columns.map fun c => c.cells.getD j [])

/-- The texts of all rows, of which `m` are reached. -/
def keyTexts (m rows : Nat) (columns : List Column) : List Bytes :=
  (List.range rows).map fun j => if j < m then keyText columns j else []

/-- The first column starts the keys. -/
theorem first_pass (m rows : Nat) (first : Column) :
    written (fun cell _ => cell) first.cells m (List.replicate rows [])
      = keyTexts m rows [first] := by
  apply List.ext_getElem?
  intro j
  rw [written, keyTexts, List.getElem?_mapIdx, List.getElem?_replicate,
    List.getElem?_map]
  by_cases hj : j < rows
  · simp [hj, keyText]
  · simp [hj]

/-- Each further column joins the keys behind the separator. -/
theorem next_pass (m rows : Nat) {columns : List Column}
    (hne : columns ≠ []) (c : Column) :
    written (fun cell text => text ++ dataRecordSep ++ cell) c.cells m
        (keyTexts m rows columns)
      = keyTexts m rows (columns ++ [c]) := by
  apply List.ext_getElem?
  intro j
  rw [written, keyTexts, keyTexts, List.getElem?_mapIdx, List.getElem?_map,
    List.getElem?_map, Option.map_map]
  cases hj : (List.range rows)[j]? with
  | none => rfl
  | some k =>
      obtain rfl : k = j := by
        have hget := List.getElem?_eq_some_iff.1 hj
        obtain ⟨_, hget⟩ := hget
        simpa using hget.symm
      simp only [Option.map_some, Function.comp_apply, Option.some.injEq]
      split_ifs with hm
      · rw [keyText, keyText, List.map_append, List.map_singleton,
          intercalate_concat (by simpa using hne)]
      · rfl

/-- The columns that make it into the strings. -/
def usedColumns (first : Column) (rest : List Column) : List Column :=
  first :: rest.takeWhile fun c => c.chunks.length = first.chunks.length

/-- The loop over the further columns; one that is cut differently is left
out. -/
theorem appendColumns_data {cores rows : Nat} {first : Column}
    (hne : first.chunks.length ≠ 0) {rest : List Column}
    (hrows : ∀ c ∈ rest, c.cells.length = rows)
    (hlens : ∀ c ∈ rest, c.chunks.length = first.chunks.length →
      first.chunks.map List.length = c.chunks.map List.length)
    {done : List Column} (hdone : done ≠ []) (names : List String) :
    (appendColumns cores rows first rest
        ⟨keyTexts (reached cores rows first) rows done, names⟩).data
      = keyTexts (reached cores rows first) rows
          (done ++ rest.takeWhile fun c =>
            c.chunks.length = first.chunks.length) := by
  induction rest generalizing done names with
  | nil => rw [appendColumns, List.takeWhile_nil, List.append_nil]
  | cons c rest ih =>
      rw [appendColumns]
      by_cases hcount : c.chunks.length = first.chunks.length
      · rw [if_neg (by simpa using hcount),
          runJobs_columnJobs hne (hrows c (List.mem_cons_self ..))
            (hlens c (List.mem_cons_self ..) hcount),
          next_pass _ _ hdone,
          ih (fun d hd => hrows d (List.mem_cons_of_mem _ hd))
            (fun d hd => hlens d (List.mem_cons_of_mem _ hd)) (by simp),
          List.takeWhile_cons_of_pos (by simpa using hcount),
          List.append_assoc, List.singleton_append]
      · rw [if_pos hcount, List.takeWhile_cons_of_neg (by simpa using hcount),
          List.append_nil]

/-- What the loader puts into `col_data`, where it is defined. -/
theorem load_eq {cores : Nat} {table : Table} {first : Column}
    {rest : List Column} (hcols : table.columns = first :: rest)
    (hne : first.chunks.length ≠ 0)
    (hint : first.chunks.length = 1 →
      (rowShares cores table.numRows).threadNum
        * (rowShares cores table.numRows).perThread < 2 ^ 31) :
    ∃ loaded, loadDatasetFromTable cores table = .ok loaded
      ∧ loaded.data = keyTexts (reached cores table.numRows first)
          table.numRows (usedColumns first rest) := by
  have hfirst : first ∈ table.columns := by
    rw [hcols]
    exact List.mem_cons_self ..
  have hrest : ∀ c ∈ rest, c ∈ table.columns := fun c hc => by
    rw [hcols]
    exact List.mem_cons_of_mem _ hc
  have hpass : runJobs (fun cell _ => cell)
      (columnJobs cores table.numRows first first)
      (List.replicate table.numRows [])
        = keyTexts (reached cores table.numRows first) table.numRows
            [first] := by
    rw [runJobs_columnJobs hne (table.cells_length first hfirst) rfl,
      first_pass]
  refine ⟨appendColumns cores table.numRows first rest
    ⟨keyTexts (reached cores table.numRows first) table.numRows [first],
      [first.name]⟩, ?_, ?_⟩
  · rw [loadDatasetFromTable, hcols]
    simp only [hne, if_false]
    rw [if_neg (fun h => absurd (hint h.1) (Nat.not_lt.2 h.2)), hpass]
  · exact appendColumns_data hne
      (fun c hc => table.cells_length c (hrest c hc))
      (fun c hc h => table.batched first hfirst c (hrest c hc) h.symm)
      (List.cons_ne_nil first []) [first.name]

/-- Where it is not, there is no data. -/
theorem load_undefined {cores : Nat} {table : Table} {first : Column}
    {rest : List Column} (hcols : table.columns = first :: rest)
    (h : first.chunks.length = 0 ∨ (first.chunks.length = 1
      ∧ 2 ^ 31 ≤ (rowShares cores table.numRows).threadNum
        * (rowShares cores table.numRows).perThread)) :
    loadDatasetFromTable cores table = .error .undefined := by
  rw [loadDatasetFromTable, hcols]
  rcases h with h | h
  · simp only [h, if_true]
  · simp only [h.1, Nat.one_ne_zero, if_false, true_and, h.2, if_true]

-- ==================================================== keys and fields

/-- The key of a row; rows that no thread reaches have the empty one. -/
theorem getD_keyTexts {m rows j : Nat} (columns : List Column)
    (hj : j < rows) :
    (keyTexts m rows columns).getD j []
      = if j < m then keyText columns j else [] := by
  rw [keyTexts, List.getD_eq_getElem?_getD, List.getElem?_map,
    List.getElem?_range hj]
  rfl

theorem strSplit_nil : strSplit dataRecordSep [] = [] := by decide

theorem dataRecordSep_ne_nil : dataRecordSep ≠ [] := by decide

variable {cores : Nat} {table : Table} {first : Column} {rest : List Column}

/-- Fields that come back come from the whole row, reached by a thread. -/
theorem of_fields (hcols : table.columns = first :: rest) {m : Nat}
    (hrows : 0 < table.numRows)
    (h : ∀ i, i < table.numRows → strSplit dataRecordSep
      ((keyTexts m table.numRows (usedColumns first rest)).getD i [])
        = table.row i) :
    table.numRows ≤ m ∧ usedColumns first rest = table.columns := by
  have hlast := h (table.numRows - 1) (by omega)
  rw [getD_keyTexts _ (by omega)] at hlast
  split_ifs at hlast with hm
  · refine ⟨by omega, ?_⟩
    -- the used columns are the first ones, so nothing may be missing
    have hsplit : first :: rest = usedColumns first rest
        ++ rest.dropWhile fun c => c.chunks.length = first.chunks.length := by
      rw [usedColumns, List.cons_append, List.takeWhile_append_dropWhile]
    rw [Table.row, hcols, hsplit, List.map_append] at hlast
    have hmore := strSplit_prefix dataRecordSep_ne_nil (by simp [usedColumns])
      hlast
    rw [List.map_eq_nil_iff] at hmore
    rw [hcols, hsplit, hmore, List.append_nil]
  · rw [strSplit_nil, Table.row, hcols] at hlast
    cases hlast

/-- The whole row, reached by a thread. -/
theorem faithful_iff (hcols : table.columns = first :: rest)
    (hall : usedColumns first rest = table.columns) {m : Nat}
    (hm : table.numRows ≤ m) :
    FaithfulKeys table
        (keyTexts m table.numRows (usedColumns first rest))
      ↔ ∀ i, i < table.numRows → Separable dataRecordSep (table.row i) := by
  have hkey : ∀ i, i < table.numRows →
      (keyTexts m table.numRows (usedColumns first rest)).getD i []
        = dataRecordSep.intercalate (table.row i) := by
    intro i hi
    rw [getD_keyTexts _ hi, if_pos (by omega), hall]
    rfl
  have hrow : ∀ i, table.row i ≠ [] := by
    intro i
    simp [Table.row, hcols]
  constructor
  · intro h i hi
    have hfields := h.fields i hi
    rwa [hkey i hi, strSplit_intercalate_iff dataRecordSep_ne_nil (hrow i)]
      at hfields
  · intro h
    have hfields : ∀ i, i < table.numRows →
        strSplit dataRecordSep (dataRecordSep.intercalate (table.row i))
          = table.row i := fun i hi =>
      (strSplit_intercalate_iff dataRecordSep_ne_nil (hrow i)).2 (h i hi)
    refine ⟨by simp [keyTexts], fun i j hi hj => ?_, fun i hi => ?_⟩
    · rw [hkey i hi, hkey j hj]
      constructor
      · intro heq
        rw [← hfields i hi, heq, hfields j hj]
      · intro heq
        rw [heq]
    · rw [hkey i hi, hfields i hi]

/-- What misleads the splitter at "####". -/
theorem plainRow_iff (row : List Bytes) :
    Separable dataRecordSep row ↔ PlainRow row := by
  have hearly := replicate_infix_append_iff hash 3
  induction row with
  | nil => simp [Separable, PlainRow]
  | cons f rest ih =>
      cases rest with
      | nil => simp [Separable, PlainRow]
      | cons g rest =>
          have hfield : (¬ dataRecordSep <:+: f ++ dataRecordSep.dropLast)
              ↔ ¬ dataRecordSep <:+: f ∧ f.getLast? ≠ some hash := by
            rw [← not_or]
            exact not_congr (hearly f)
          have hcons : Separable dataRecordSep (f :: g :: rest)
              ↔ (¬ dataRecordSep <:+: f ++ dataRecordSep.dropLast)
                ∧ Separable dataRecordSep (g :: rest) := Iff.rfl
          refine hcons.trans ((and_congr hfield ih).trans ?_)
          rw [PlainRow, PlainRow, List.dropLast_cons_cons,
            List.forall_mem_cons, List.getLast?_cons_cons]
          exact and_assoc.symm

/-- All columns are used where they are cut like the first. -/
theorem usedColumns_iff (hcols : table.columns = first :: rest) :
    usedColumns first rest = table.columns ↔ EvenChunks table := by
  have hcount : table.chunkCount = first.chunks.length := by
    simp [Table.chunkCount, hcols]
  rw [usedColumns, EvenChunks, hcount, hcols, List.cons.injEq,
    List.takeWhile_eq_self_iff, List.forall_mem_cons]
  simp

/-- Where the row shares reach the last row, so do the passes. -/
theorem le_reached_iff :
    table.numRows ≤ reached cores table.numRows first
      ↔ (first.chunks.length = 1 → table.numRows
          ≤ (rowShares cores table.numRows).threadNum
            * (rowShares cores table.numRows).perThread) := by
  rw [reached]
  split_ifs with hone
  · simp only [hone, forall_const, Nat.le_min, le_refl, and_true]
  · simp [hone]

/-- The loader of a PSI task, on every table. -/
theorem load_faithful_iff (hcols : table.columns = first :: rest) :
    (∃ loaded, loadDatasetFromTable cores table = .ok loaded
        ∧ FaithfulKeys table loaded.data)
      ↔ ThreadsReach cores table
        ∧ (table.numRows = 0 ∨ EvenChunks table)
        ∧ ∀ i, i < table.numRows → PlainRow (table.row i) := by
  have hcount : table.chunkCount = first.chunks.length := by
    simp [Table.chunkCount, hcols]
  simp only [ThreadsReach, hcount, ← plainRow_iff]
  constructor
  · intro hc
    obtain ⟨loaded, hload, hfaithful⟩ := hc
    -- a run that ends has met the two conditions of the loops
    have hne : first.chunks.length ≠ 0 := by
      intro h
      rw [load_undefined hcols (Or.inl h)] at hload
      cases hload
    have hint : first.chunks.length = 1 →
        (rowShares cores table.numRows).threadNum
          * (rowShares cores table.numRows).perThread < 2 ^ 31 := by
      intro hone
      by_contra hover
      rw [load_undefined hcols (Or.inr ⟨hone, Nat.le_of_not_lt hover⟩)]
        at hload
      cases hload
    obtain ⟨loaded', hload', hdata⟩ := load_eq hcols hne hint
    obtain rfl := Except.ok.inj (hload.symm.trans hload')
    rw [hdata] at hfaithful
    rcases Nat.eq_zero_or_pos table.numRows with hzero | hpos
    · refine ⟨⟨hne, fun hone => ⟨?_, hint hone⟩⟩, Or.inl hzero, ?_⟩
      · rw [hzero]
        exact Nat.zero_le _
      · intro i hi
        omega
    · obtain ⟨hm, hall⟩ := of_fields hcols hpos hfaithful.fields
      exact ⟨⟨hne, fun hone => ⟨le_reached_iff.1 hm hone, hint hone⟩⟩,
        Or.inr ((usedColumns_iff hcols).1 hall),
        (faithful_iff hcols hall hm).1 hfaithful⟩
  · intro hc
    obtain ⟨⟨hne, hreach⟩, heven, hsep⟩ := hc
    obtain ⟨loaded, hload, hdata⟩ :=
      load_eq hcols hne fun hone => (hreach hone).2
    refine ⟨loaded, hload, ?_⟩
    rw [hdata]
    rcases Nat.eq_zero_or_pos table.numRows with hzero | hpos
    · refine ⟨by simp [keyTexts], ?_, ?_⟩
      · intro i j hi
        omega
      · intro i hi
        omega
    -- all columns are used, and the threads reach all rows
    · have hall := (usedColumns_iff hcols).2 (heven.resolve_left (by omega))
      exact (faithful_iff hcols hall
        (le_reached_iff.2 fun hone => (hreach hone).1)).2 hsep

-- ================================================ without a separator

/-- The loader knows what to do with the column's type. -/
def Column.Supported (c : Column) : Prop := ∀ name, c.type ≠ .other name

/-- The texts of all rows, field after field. -/
def flatTexts (rows : Nat) (columns : List Column) : List Bytes :=
  (List.range rows).map fun j =>
    (columns.map fun c => c.cells.getD j []).flatten

/-- Without the separator a cell joins the key directly. -/
theorem append_pass {rows : Nat} (columns : List Column) {c : Column}
    (hrows : c.cells.length = rows) :
    writeCells (fun cell text => text ++ cell) ⟨0, c.cells⟩
        (flatTexts rows columns) = flatTexts rows (columns ++ [c]) := by
  apply List.ext_getElem?
  intro j
  rw [writeCells, flatTexts, flatTexts, List.getElem?_mapIdx,
    List.getElem?_map, List.getElem?_map, Option.map_map]
  cases hj : (List.range rows)[j]? with
  | none => rfl
  | some k =>
      obtain ⟨hlt, hget⟩ := List.getElem?_eq_some_iff.1 hj
      obtain rfl : k = j := by simpa using hget.symm
      have hin : 0 ≤ k ∧ k < 0 + c.cells.length := by
        rw [List.length_range] at hlt
        omega
      simp only [Option.map_some, Function.comp_apply, Option.some.injEq,
        hin, and_self, if_true]
      rw [List.map_append, List.flatten_append]
      simp

/-- The loop of the loader without the separator. -/
theorem appendTyped_ok {rows : Nat} (done : List Column)
    {rest : List Column} (hrows : ∀ c ∈ rest, c.cells.length = rows)
    (htypes : ∀ c ∈ rest, c.Supported) :
    appendTyped rest (flatTexts rows done)
      = .ok (flatTexts rows (done ++ rest)) := by
  induction rest generalizing done with
  | nil => rw [appendTyped, List.append_nil]
  | cons c rest ih =>
      have hpass := append_pass done (hrows c (List.mem_cons_self ..))
      have hrest := ih (done ++ [c])
        (fun d hd => hrows d (List.mem_cons_of_mem _ hd))
        fun d hd => htypes d (List.mem_cons_of_mem _ hd)
      rw [List.append_assoc, List.singleton_append] at hrest
      rw [appendTyped, hpass]
      cases htype : c.type with
      | other name => exact absurd htype (htypes c (List.mem_cons_self ..) name)
      | _ => exact hrest

/-- A column of another type stops the loader. -/
theorem supported_of_appendTyped {rest : List Column}
    {data result : List Bytes} (h : appendTyped rest data = .ok result) :
    ∀ c ∈ rest, c.Supported := by
  induction rest generalizing data with
  | nil => exact List.forall_mem_nil _
  | cons c rest ih =>
      rw [appendTyped] at h
      cases htype : c.type with
      | other name =>
          rw [htype] at h
          cases h
      | _ =>
          rw [htype] at h
          refine List.forall_mem_cons.2 ⟨fun name => ?_, ih h⟩
          rw [htype]
          exact ColumnType.noConfusion

/-- The other loader, on every table of two columns and more. -/
theorem loadTyped_faithful_iff (htwo : 2 ≤ table.columns.length) :
    (∃ data, loadTypedDatasetFromTable table = .ok data
        ∧ FaithfulKeys table data)
      ↔ (∀ c ∈ table.columns, c.Supported) ∧ table.numRows = 0 := by
  have hstart : List.replicate table.numRows []
      = flatTexts table.numRows [] := by
    simp [flatTexts]
  constructor
  · intro h
    obtain ⟨data, hload, hfaithful⟩ := h
    have htypes := supported_of_appendTyped hload
    rw [loadTypedDatasetFromTable, hstart,
      appendTyped_ok [] table.cells_length htypes] at hload
    obtain rfl := Except.ok.inj hload
    refine ⟨htypes, ?_⟩
    by_contra hrows
    have hfirst := hfaithful.fields 0 (by omega)
    have hrow : (flatTexts table.numRows ([] ++ table.columns)).getD 0 []
        = (table.row 0).flatten := by
      rw [flatTexts, List.getD_eq_getElem?_getD, List.getElem?_map,
        List.getElem?_range (by omega)]
      rfl
    rw [hrow] at hfirst
    exact strSplit_flatten_ne dataRecordSep_ne_nil
      (by simpa [Table.row] using htwo) hfirst
  · intro h
    obtain ⟨htypes, hzero⟩ := h
    refine ⟨flatTexts table.numRows ([] ++ table.columns), ?_, ?_⟩
    · rw [loadTypedDatasetFromTable, hstart]
      exact appendTyped_ok [] table.cells_length htypes
    · refine ⟨by simp [flatTexts], ?_, ?_⟩
      · intro i j hi
        omega
      · intro i hi
        omega

/-- The keys of a table stand for its rows exactly when every row is
reached, no column is left out and no row misleads the splitter. Built
without a separator they do for no row at all. -/
theorem join_keys_iff (cores : Nat) (table : Table)
    (htwo : 2 ≤ table.columns.length) :
    ((∃ loaded, loadDatasetFromTable cores table = .ok loaded
          ∧ FaithfulKeys table loaded.data)
        ↔ ThreadsReach cores table
          ∧ (table.numRows = 0 ∨ EvenChunks table)
          ∧ ∀ i, i < table.numRows → PlainRow (table.row i))
      ∧ ((∃ data, loadTypedDatasetFromTable table = .ok data
          ∧ FaithfulKeys table data)
        ↔ (∀ c ∈ table.columns, c.Supported) ∧ table.numRows = 0) := by
  refine ⟨?_, loadTyped_faithful_iff htwo⟩
  cases hcols : table.columns with
  | nil =>
      rw [hcols] at htwo
      cases htwo
  | cons first rest => exact load_faithful_iff hcols

/-- A name and a number, told apart by nothing a key would confuse. -/
def plainTable : Table where
  columns := [⟨"name", .string, [[[97], [99]]]⟩,
    ⟨"number", .string, [[[98], [100]]]⟩]
  numRows := 2
  cells_length := by decide
  batched := by decide

theorem plainTable_faithful :
    ∃ loaded, loadDatasetFromTable 8 plainTable = .ok loaded
      ∧ FaithfulKeys plainTable loaded.data := by
  have hrows : ∀ i, i < 2 →
      Separable dataRecordSep (plainTable.row i) := by decide
  refine (join_keys_iff 8 plainTable (by decide)).1.2
    ⟨⟨by decide, fun _ => ⟨by decide, by decide⟩⟩, Or.inr ?_, ?_⟩
  · exact fun c hc => by revert c; decide
  · exact fun i hi => (plainRow_iff _).1 (hrows i hi)

/-- The rows "a#", "b" and "a", "#b". -/
def collidingTable : Table where
  columns := [⟨"left", .string, [[[97, 35], [97]]]⟩,
    ⟨"right", .string, [[[98], [35, 98]]]⟩]
  numRows := 2
  cells_length := by decide
  batched := by decide

/-- Both loaders give the two rows one key. -/
theorem collidingTable_fails :
    (∃ loaded, loadDatasetFromTable 8 collidingTable = .ok loaded
        ∧ ¬ FaithfulKeys collidingTable loaded.data)
      ∧ ∃ data, loadTypedDatasetFromTable collidingTable = .ok data
        ∧ ¬ FaithfulKeys collidingTable data := by
  have hrows : collidingTable.row 0 ≠ collidingTable.row 1 := by decide
  refine ⟨⟨_, rfl, fun h => hrows ?_⟩, ⟨_, rfl, fun h => hrows ?_⟩⟩
  · exact (h.agree 0 1 (by decide) (by decide)).1 (by decide)
  · exact (h.agree 0 1 (by decide) (by decide)).1 (by decide)

-- ====================================================== saved results

/-- Records with the right number of fields are split. -/
theorem splitRecords_ok {columns : Nat} {records : List Bytes}
    (h : ∀ r ∈ records, (strSplit dataRecordSep r).length = columns) :
    splitRecords columns records
      = .ok (records.map (strSplit dataRecordSep)) := by
  induction records with
  | nil => rfl
  | cons r rest ih =>
      have hrest := ih fun d hd => h d (List.mem_cons_of_mem _ hd)
      have hlen := h r (List.mem_cons_self ..)
      rw [splitRecords, hrest]
      simp only [hlen, ne_eq, not_true_eq_false, if_false]
      rfl

/-- Records of faithful keys are saved as the fields of their rows. -/
theorem saved_rows {names : List String} (h : FaithfulKeys table data)
    (htwo : 2 ≤ table.columns.length)
    (hnames : names.length = table.columns.length) (picked : List Nat)
    (hpicked : ∀ i ∈ picked, i < table.numRows) :
    saveDataToCsvFile (picked.map fun i => data.getD i []) names
      = .ok (table.columns.map fun c =>
          picked.map fun i => c.cells.getD i []) := by
  have hsplit : ∀ i ∈ picked,
      strSplit dataRecordSep (data.getD i []) = table.row i := fun i hi =>
    h.fields i (hpicked i hi)
  have hrecords : splitRecords names.length
      (picked.map fun i => data.getD i []) = .ok (picked.map table.row) := by
    rw [splitRecords_ok]
    · rw [List.map_map]
      exact congrArg Except.ok (List.map_congr_left hsplit)
    · intro r hr
      obtain ⟨i, hi, rfl⟩ := List.mem_map.1 hr
      rw [hsplit i hi, hnames, Table.row, List.length_map]
  rw [saveDataToCsvFile, if_neg (by omega), hrecords]
  change Except.ok _ = Except.ok _
  congr 1
  apply List.ext_getElem?
  intro j
  rw [List.getElem?_map, List.getElem?_map, hnames]
  by_cases hj : j < table.columns.length
  · rw [List.getElem?_range hj, List.getElem?_eq_getElem hj]
    simp [Table.row, hj]
  · rw [List.getElem?_eq_none (Nat.le_of_not_lt hj),
      List.getElem?_eq_none (by simpa using hj)]
    rfl

end PrimiHub.Psi
