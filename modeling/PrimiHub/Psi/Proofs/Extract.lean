/-
When the two extractions lose no row (`extractsEveryRow_iff`).

Shares of chunks always adjoin up to the last row, once there is a chunk.
Shares of rows adjoin too, but the one thread for the rest takes no more
than a share, so they need not reach the last row (`sharesSuffice_iff`).
-/
import PrimiHub.Psi.Extract
import PrimiHub.Psi.Proofs.JoinKey

namespace PrimiHub.Psi

-- ================================================================ the threads

/-- Adjoining jobs write the rows up to their end, each once. -/
theorem Adjoining.rows {cells : List Bytes} {stop : Nat} {jobs : List Job}
    (h : Adjoining cells stop jobs) :
    jobs.flatMap Job.rows = List.range stop := by
  obtain ⟨bound, threads, hzero, rfl, hmono, hle, rfl⟩ := h
  rw [List.flatMap_map]
  induction threads with
  | zero => rw [hzero]; rfl
  | succ t ih =>
      have hdone := ih (fun i hi => hmono i (by omega))
        fun i hi => hle i (by omega)
      have hstep := hmono t (by omega)
      have hwidth : (slice cells (bound t) (bound (t + 1))).length
          = bound (t + 1) - bound t :=
        length_slice cells (hle (t + 1) (by omega))
      rw [List.range_succ, List.flatMap_append, hdone, List.flatMap_singleton,
        Job.rows, hwidth, List.range_eq_range', List.range_eq_range']
      have happend := @List.range'_append 0 (bound t)
        (bound (t + 1) - bound t) 1
      rw [Nat.one_mul, Nat.zero_add] at happend
      rw [happend]
      congr 1
      omega

/-- They write all rows where they end with the last. -/
theorem Adjoining.rows_perm_iff {cells : List Bytes} {stop n : Nat}
    {jobs : List Job} (h : Adjoining cells stop jobs) :
    (jobs.flatMap Job.rows).Perm (List.range n) ↔ stop = n := by
  rw [h.rows]
  constructor
  · intro hperm
    have hlength := hperm.length_eq
    rwa [List.length_range, List.length_range] at hlength
  · intro hstop
    rw [hstop]

variable {table : Table} {first : Column} {rest : List Column}
  {jobs : Column → List Job} {stop : Nat}

/-- What the passes over the columns leave. -/
theorem extractRest_eq {rows chunkSize : Nat} {done : List Column}
    (hdone : done ≠ [])
    (hcount : ∀ c ∈ rest, c.chunks.length = chunkSize)
    (hjobs : ∀ c ∈ rest, Adjoining c.cells stop (jobs c))
    (names : List String) :
    ∃ loaded, extractRest jobs chunkSize rest ⟨keyTexts stop rows done, names⟩
        = .ok loaded ∧ loaded.data = keyTexts stop rows (done ++ rest) := by
  induction rest generalizing done names with
  | nil =>
      rw [List.append_nil]
      exact ⟨_, rfl, rfl⟩
  | cons c rest ih =>
      obtain ⟨hc, hcounts⟩ := List.forall_mem_cons.mp hcount
      obtain ⟨hadjoin, hadjoins⟩ := List.forall_mem_cons.mp hjobs
      rw [extractRest, if_neg (not_not.mpr hc), hadjoin.runJobs,
        next_pass _ _ hdone]
      have hnext := ih (List.append_ne_nil_of_right_ne_nil done
        (List.cons_ne_nil c [])) hcounts hadjoins (names ++ [c.name])
      rw [List.append_assoc] at hnext
      exact hnext

theorem extractColumns_eq (hcols : table.columns = first :: rest)
    (heven : EvenChunks table)
    (hjobs : ∀ c ∈ table.columns, Adjoining c.cells stop (jobs c)) :
    ∃ loaded, extractColumns jobs table.numRows first rest = .ok loaded
      ∧ loaded.data = keyTexts stop table.numRows table.columns := by
  rw [hcols] at hjobs
  obtain ⟨hfirst, hrest⟩ := List.forall_mem_cons.mp hjobs
  have hcount : table.chunkCount = first.chunks.length := by
    rw [Table.chunkCount, hcols]
    rfl
  rw [EvenChunks, hcols, hcount] at heven
  rw [extractColumns, hfirst.runJobs, first_pass, hcols]
  exact extractRest_eq (List.cons_ne_nil first [])
    (List.forall_mem_cons.mp heven).2 hrest [first.name]

theorem extractSequentially_eq (table : Table) :
    extractSequentially table
      = keyTexts table.numRows table.numRows table.columns := by
  refine List.map_congr_left fun r hr => ?_
  rw [if_pos (List.mem_range.mp hr)]
  rfl

/-- The rows are all extracted where the jobs end with the last one. -/
theorem extractsRows_iff (hcols : table.columns = first :: rest)
    (heven : EvenChunks table)
    (hjobs : ∀ c ∈ table.columns, Adjoining c.cells stop (jobs c)) :
    ExtractsRows jobs table (extractColumns jobs table.numRows first rest)
      ↔ stop = table.numRows := by
  have hfirst : first ∈ table.columns := by
    rw [hcols]
    exact List.mem_cons_self
  constructor
  · intro h
    exact (hjobs first hfirst).rows_perm_iff.mp (h.ranges first hfirst)
  · intro hstop
    obtain ⟨loaded, hloaded, hdata⟩ := extractColumns_eq hcols heven hjobs
    refine ⟨fun c hc => (hjobs c hc).rows_perm_iff.mpr hstop, loaded, hloaded,
      ?_⟩
    rw [hdata, hstop, extractSequentially_eq]

-- ============================================================== the functions

/-- Columns cut at the same rows have equally many chunks. -/
theorem SameLayout.even (h : SameLayout table) : EvenChunks table := by
  intro c hc
  have hlength := congrArg List.length (h c hc)
  rw [List.length_map, List.length_map] at hlength
  rw [hlength, Table.chunkCount, Table.firstChunks]
  cases table.columns.head? with
  | none => rfl
  | some first => rfl

theorem firstChunks_eq (hcols : table.columns = first :: rest) :
    table.firstChunks = first.chunks := by
  rw [Table.firstChunks, hcols]
  rfl

/-- Chunks are shared out to the last one. -/
theorem trunk_iff (cores : Nat) (hcols : table.columns = first :: rest)
    (hlayout : SameLayout table) :
    ExtractsRows (trunkJobs cores table) table
        (extractDataFromTrunkArray cores table)
      ↔ table.firstChunks.length ≠ 0 := by
  have hchunks := firstChunks_eq hcols
  have hrun : extractDataFromTrunkArray cores table
      = if first.chunks.length = 0 then .error .undefined
        else extractColumns (trunkJobs cores table) table.numRows first rest
      := by
    simp only [extractDataFromTrunkArray, hcols]
  rw [hrun, hchunks]
  by_cases hzero : first.chunks.length = 0
  · rw [if_pos hzero]
    refine iff_of_false ?_ (not_not.mpr hzero)
    intro h
    obtain ⟨_, hloaded, -⟩ := h.data
    cases hloaded
  · rw [if_neg hzero]
    refine iff_of_true ((extractsRows_iff hcols hlayout.even
      fun c hc => ?_).mpr rfl) hzero
    have hcount : c.chunks.length = first.chunks.length := by
      have hlength := congrArg List.length (hlayout c hc)
      rwa [List.length_map, List.length_map, hchunks] at hlength
    rw [trunkJobs, ← hlayout c hc, hchunks, ← hcount,
      ← table.cells_length c hc]
    exact chunkJobs_adjoining c.chunks (chunkThreads_pos (hcount ▸ hzero))

/-- How far the shares of rows reach. -/
theorem rowShares_eq (cores rows : Nat) :
    (rowShares cores rows).threadNum * (rowShares cores rows).perThread
      = rows / rowThreads cores rows
        * (if rows % rowThreads cores rows = 0 then rowThreads cores rows
          else rowThreads cores rows + 1) := by
  have hshares : rowShares cores rows = Shares.of rows (rowThreads cores rows)
    := rfl
  have hdiv := Nat.div_add_mod rows (rowThreads cores rows)
  rw [hshares, Shares.of, Nat.mul_comm]
  dsimp only
  rw [Nat.mul_comm] at hdiv
  by_cases hmod : rows % rowThreads cores rows = 0
  · rw [if_neg (by omega), if_pos hmod]
  · rw [if_pos (by omega), if_neg hmod]

theorem sharesSuffice_iff (cores rows : Nat) :
    SharesSuffice cores rows
      ↔ rows ≤ (rowShares cores rows).threadNum
            * (rowShares cores rows).perThread
        ∧ (rowShares cores rows).threadNum
            * (rowShares cores rows).perThread < 2 ^ 31 := by
  have hdiv := Nat.div_add_mod rows (rowThreads cores rows)
  rw [Nat.mul_comm] at hdiv
  rw [rowShares_eq, SharesSuffice]
  refine and_congr_left fun _ => ?_
  generalize rows / rowThreads cores rows = share at hdiv
  generalize rows % rowThreads cores rows = rem at hdiv
  split_ifs with hmod
  · omega
  · rw [Nat.mul_succ]
    omega

/-- Rows are shared out to the last one where the shares suffice. -/
theorem array_iff (cores : Nat) (hcols : table.columns = first :: rest)
    (hlayout : SameLayout table) (hone : table.firstChunks.length = 1) :
    ExtractsRows (arrayJobs cores table) table
        (extractDataFromArray cores table)
      ↔ SharesSuffice cores table.numRows := by
  rw [firstChunks_eq hcols] at hone
  have hrun : extractDataFromArray cores table
      = if 2 ^ 31 ≤ (rowShares cores table.numRows).threadNum
            * (rowShares cores table.numRows).perThread then
          .error .undefined
        else extractColumns (arrayJobs cores table) table.numRows first rest
      := by
    simp only [extractDataFromArray, hcols, hone, ne_eq, not_true, if_false]
  rw [sharesSuffice_iff, hrun]
  by_cases hint : 2 ^ 31 ≤ (rowShares cores table.numRows).threadNum
      * (rowShares cores table.numRows).perThread
  · rw [if_pos hint]
    refine iff_of_false ?_ fun h => absurd h.2 (Nat.not_lt.mpr hint)
    intro h
    obtain ⟨_, hloaded, -⟩ := h.data
    cases hloaded
  · have hjobs : ∀ c ∈ table.columns, Adjoining c.cells
        (min ((rowShares cores table.numRows).threadNum
          * (rowShares cores table.numRows).perThread) table.numRows)
        (arrayJobs cores table c) := by
      intro c hc
      have hadjoin := rowJobs_adjoining c.cells
        (rowThreads cores table.numRows)
      rw [table.cells_length c hc] at hadjoin
      exact hadjoin
    rw [if_neg hint, and_iff_left (Nat.lt_of_not_le hint),
      extractsRows_iff hcols hlayout.even hjobs]
    omega

/-- The loader of a PSI task calls one of the two. -/
theorem load_extracts (cores : Nat) (hcols : table.columns ≠ [])
    (heven : EvenChunks table) :
    loadDatasetFromTable cores table
      = if table.firstChunks.length = 1 then extractDataFromArray cores table
        else extractDataFromTrunkArray cores table := by
  obtain ⟨first, rest, hcols⟩ := List.exists_cons_of_ne_nil hcols
  have hrest : ∀ more : List Column, (∀ c ∈ more, c ∈ table.columns) →
      ∀ (jobs : Column → List Job) (loaded : Loaded),
        (∀ c, jobs c = columnJobs cores table.numRows first c) →
        extractRest jobs first.chunks.length more loaded
          = .ok (appendColumns cores table.numRows first more loaded) := by
    intro more hmore jobs loaded hjobs
    induction more generalizing loaded with
    | nil => rfl
    | cons c more ih =>
        have hcount : c.chunks.length = first.chunks.length := by
          have hc := heven c (hmore c List.mem_cons_self)
          rwa [Table.chunkCount, hcols] at hc
        rw [extractRest, appendColumns, if_neg (not_not.mpr hcount),
          if_neg (not_not.mpr hcount), hjobs]
        exact ih (fun d hd => hmore d (List.mem_cons_of_mem c hd)) _
  have hmem : ∀ c ∈ rest, c ∈ table.columns := by
    intro c hc
    rw [hcols]
    exact List.mem_cons_of_mem first hc
  have hchunks := firstChunks_eq hcols
  rw [hchunks, loadDatasetFromTable, extractDataFromArray,
    extractDataFromTrunkArray]
  simp only [hcols]
  by_cases hone : first.chunks.length = 1
  · have hjobs : ∀ c, arrayJobs cores table c
        = columnJobs cores table.numRows first c := by
      intro c
      rw [columnJobs, if_pos hone, arrayJobs]
    simp only [hone, if_true, if_false, ne_eq, not_true, Nat.one_ne_zero, true_and]
    rw [extractColumns, hrest rest hmem _ _ hjobs, hjobs]
  · have hjobs : ∀ c, trunkJobs cores table c
        = columnJobs cores table.numRows first c := by
      intro c
      rw [columnJobs, if_neg hone, trunkJobs, hchunks]
    simp only [hone, if_false, false_and]
    rw [extractColumns, hrest rest hmem _ _ hjobs, hjobs]

/-- No row is lost where there is a chunk, and where it is the only one the
shares of rows suffice. -/
theorem extractsEveryRow_iff (cores : Nat) (hcols : table.columns ≠ [])
    (hlayout : SameLayout table) :
    ExtractsEveryRow cores table
      ↔ table.firstChunks.length ≠ 0
        ∧ (table.firstChunks.length = 1 →
          SharesSuffice cores table.numRows) := by
  obtain ⟨first, rest, hcols⟩ := List.exists_cons_of_ne_nil hcols
  rw [← trunk_iff cores hcols hlayout]
  constructor
  · intro h
    exact ⟨h.trunk, fun hone =>
      (array_iff cores hcols hlayout hone).mp (h.array hone)⟩
  · intro h
    exact ⟨h.1, fun hone => (array_iff cores hcols hlayout hone).mpr
      (h.2 hone)⟩

/-- Two columns of two chunks, one of them empty, on eight cores. -/
def chunkedTable : Table where
  columns := [⟨"name", .string, [[[97], [99]], []]⟩,
    ⟨"number", .string, [[[98], [100]], []]⟩]
  numRows := 2
  cells_length := by decide
  batched := by decide

/-- A column of seven rows in one chunk, for three threads. -/
def wholeTable : Table where
  columns := [⟨"name", .string, [[[97], [98], [99], [100], [101], [102],
    [103]]]⟩]
  numRows := 7
  cells_length := by decide
  batched := by decide

theorem extractsEveryRow_chunked :
    ExtractsEveryRow 8 chunkedTable ∧ ExtractsEveryRow 8 wholeTable :=
  ⟨(extractsEveryRow_iff 8 (by decide) (by decide)).mpr ⟨by decide, by decide⟩,
    (extractsEveryRow_iff 8 (by decide) (by decide)).mpr
      ⟨by decide, by decide⟩⟩

/-- One column without a chunk. -/
def noChunks : Table where
  columns := [⟨"name", .string, []⟩]
  numRows := 0
  cells_length := by decide
  batched := by decide

/-- One column of a hundred thousand rows. -/
def longTable : Table where
  columns := [⟨"name", .string, [List.replicate 100000 [97]]⟩]
  numRows := 100000
  cells_length c hc := by
    rw [List.mem_singleton.mp hc, Column.cells, List.flatten_cons,
      List.flatten_nil, List.append_nil, List.length_replicate]
  batched c hc d hd _ := by
    rw [List.mem_singleton.mp hc, List.mem_singleton.mp hd]

/-- Without a chunk the number of threads is zero. With 1024 cores the
thread for the rest takes 195 of 355 rows. -/
theorem not_extractsEveryRow :
    ¬ ExtractsEveryRow 8 noChunks ∧ ¬ ExtractsEveryRow 1024 longTable := by
  constructor
  · intro h
    have hcols : noChunks.columns = [⟨"name", .string, []⟩] := rfl
    exact (trunk_iff 8 hcols (by decide)).mp h.trunk rfl
  · intro h
    have hcols : longTable.columns
        = [⟨"name", .string, [List.replicate 100000 [97]]⟩] := rfl
    have hlayout : SameLayout longTable := by
      intro c hc
      rw [List.mem_singleton.mp hc]
      rfl
    have hsuffice := (array_iff 1024 hcols hlayout rfl).mp (h.array rfl)
    revert hsuffice
    decide

end PrimiHub.Psi
