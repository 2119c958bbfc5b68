/-
The mini-batches of logistic regression: all calls return and the batches
are without replacement exactly where there is a training row, or nothing
to sample (`sgdLogistic_samples_iff`).

# The stream

`Dealt` says what the batches so far are: complete rounds, each a
permutation of the indices, and a beginning of the pool. One turn of the
loop of `getSubset` deals the next piece of the pool (`Dealt.turn`) and
leaves the iterator before the end, so every turn but the first makes
progress. An empty pool has no piece to deal (`getSubset_running`).

The number of training rows is decided at loading: `rows_pos_iff` follows it
from the chunks to the training set.
-/
import PrimiHub.Algorithm.Proofs.LogisticRegression
import PrimiHub.Algorithm.Regression

namespace PrimiHub.Algorithm.Regression

open Executor (Str text Fault)
open Lib (Grid traverseFin bind_eq_ok_iff)
open LogisticRegressionExecutor (Doubles TableColumn Sharing DataSets
  constructShares loadDataset readColumns trainLength toInt32 loadColumns_ok
  constructShares_ok trainLength_pos_iff)

variable {D E S G : Type} {sh : Shuffle G} {n : Nat}

-- ============================================================== the stream

/-- Complete rounds and a beginning of the pool, from the first shuffle
on. -/
structure Dealt (n : Nat) (out : List Nat) (s : Pool G) : Prop where
  pool : s.pool.Perm (List.range n)
  dealt : (out = [] ∧ s.poolIter = n) ∨
    ∃ rounds : List (List Nat), (∀ r ∈ rounds, r.Perm (List.range n))
      ∧ s.poolIter < n ∧ out = rounds.flatten ++ s.pool.take s.poolIter

theorem Dealt.length {out : List Nat} {s : Pool G} (h : Dealt n out s) :
    s.pool.length = n := by
  rw [h.pool.length_eq, List.length_range]

/-- Only rows of the training set are dealt. -/
theorem Dealt.lt {out : List Nat} {s : Pool G} (h : Dealt n out s) {i : Nat}
    (hi : i ∈ out) : i < n := by
  rcases h.dealt with ⟨hnil, -⟩ | ⟨rounds, hrounds, -, hout⟩
  · rw [hnil] at hi
    exact absurd hi List.not_mem_nil
  · rw [hout, List.mem_append] at hi
    rcases hi with hi | hi
    · obtain ⟨r, hr, hi⟩ := List.mem_flatten.mp hi
      exact List.mem_range.mp ((hrounds r hr).mem_iff.mp hi)
    · exact List.mem_range.mp
        (h.pool.mem_iff.mp (List.mem_of_mem_take hi))

variable (sh) in
/-- One turn of the loop of `getSubset`. -/
theorem Dealt.turn (hn : 0 < n) {out : List Nat} {s : Pool G}
    (h : Dealt n out s) (left : Nat) {step : Nat}
    (hstep : step = min (s.pool.length - s.poolIter) (left + 1)) :
    Dealt n (out ++ (s.pool.drop s.poolIter).take step)
        (refill sh { s with poolIter := s.poolIter + step })
      ∧ (refill sh { s with poolIter := s.poolIter + step }).poolIter < n
      ∧ ((s.pool.drop s.poolIter).take step).length = step
      ∧ (s.poolIter < n → 0 < step) := by
  have hlen := h.length
  have hpart : ((s.pool.drop s.poolIter).take step).length = step := by
    rw [List.length_take, List.length_drop]
    omega
  have hshuffled := (sh.perm s.prng s.pool).trans h.pool
  rcases h.dealt with ⟨hnil, hiter⟩ | ⟨rounds, hrounds, hiter, hout⟩
  · -- the iterator is at the end from the start on
    have hzero : step = 0 := by omega
    subst hzero
    have hend : s.poolIter + 0 = s.pool.length := by omega
    rw [refill, if_pos hend, hnil]
    exact ⟨⟨hshuffled, Or.inr ⟨[], fun _ hr => absurd hr List.not_mem_nil, hn,
      rfl⟩⟩, hn, hpart, fun hlt => by omega⟩
  · by_cases hend : s.poolIter + step = s.pool.length
    · -- the rest of the pool completes a round
      rw [refill, if_pos hend]
      refine ⟨⟨hshuffled, Or.inr ⟨rounds ++ [s.pool], ?_, hn, ?_⟩⟩, hn, hpart,
        fun hlt => by omega⟩
      · intro r hr
        rcases List.mem_append.mp hr with hr | hr
        · exact hrounds r hr
        · rw [List.mem_singleton.mp hr]
          exact h.pool
      · have hrest : (s.pool.drop s.poolIter).take step
            = s.pool.drop s.poolIter :=
          List.take_of_length_le (by rw [List.length_drop]; omega)
        rw [hout, hrest, List.flatten_append, List.append_assoc,
          List.take_append_drop]
        simp
    · rw [refill, if_neg hend]
      refine ⟨⟨h.pool, Or.inr ⟨rounds, hrounds, ?_, ?_⟩⟩, ?_, hpart,
        fun hlt => by omega⟩
      · show s.poolIter + step < n
        omega
      · rw [hout, List.append_assoc, ← List.take_add]
      · show s.poolIter + step < n
        omega

variable (sh) in
/-- A call deals what it is asked for. -/
theorem getSubset_dealt (hn : 0 < n) (fuel left : Nat) {out : List Nat}
    {s : Pool G} (h : Dealt n out s)
    (hfuel : left < fuel ∨ (left = fuel ∧ s.poolIter < n)) :
    ∃ part s', getSubset sh fuel left s = .ok (part, s')
      ∧ part.length = left ∧ Dealt n (out ++ part) s' := by
  induction fuel generalizing left out s with
  | zero =>
      have hleft : left = 0 := by omega
      subst hleft
      exact ⟨[], s, by rw [getSubset], rfl, by rwa [List.append_nil]⟩
  | succ fuel ih =>
      cases left with
      | zero => exact ⟨[], s, by rw [getSubset], rfl, by rwa [List.append_nil]⟩
      | succ left =>
          obtain ⟨hturn, hiter, hlen, hpos⟩ := h.turn sh hn left rfl
          obtain ⟨part, s', hok, hpart, hdealt⟩ := @ih (left + 1
            - min (s.pool.length - s.poolIter) (left + 1)) _ _ hturn (by omega)
          refine ⟨(s.pool.drop s.poolIter).take
            (min (s.pool.length - s.poolIter) (left + 1)) ++ part, s', ?_, ?_,
            by rwa [← List.append_assoc]⟩
          · rw [getSubset]
            simp only [hok]
            rfl
          · rw [List.length_append, hlen, hpart]
            omega

/-- From an empty pool nothing can be dealt, however long it is tried. -/
theorem getSubset_running (fuel left : Nat) (prng : G) :
    getSubset sh fuel (left + 1) ⟨[], 0, prng⟩ = .error .running := by
  induction fuel generalizing prng with
  | zero => rfl
  | succ fuel ih =>
      have hnil : (sh.shuffle prng []).1 = [] :=
        List.perm_nil.mp (sh.perm prng [])
      have hrefill : refill sh ⟨[], 0, prng⟩
          = ⟨[], 0, (sh.shuffle prng []).2⟩ := by
        show (⟨(sh.shuffle prng []).1, 0, _⟩ : Pool G) = _
        rw [hnil]
      rw [getSubset]
      show (getSubset sh fuel (left + 1) (refill sh ⟨[], 0, prng⟩) >>= _) = _
      rw [hrefill, ih]
      rfl

-- ============================================================== the batches

theorem extractBatch_ok {X Y : Grid S} {indices : List Nat}
    (hX : ∀ i ∈ indices, i < X.rows) (hY : Y.rows = X.rows) :
    ∃ b, extractBatch indices.length X Y indices = .ok b := by
  have hall : (indices.all fun i => i < X.rows ∧ i < Y.rows) = true := by
    rw [List.all_eq_true]
    intro i hi
    rw [hY]
    simpa using hX i hi
  rw [extractBatch, if_neg (not_not_intro rfl), if_pos hall]
  exact ⟨_, rfl⟩

variable (sh) in
/-- The loop over the iterations. -/
theorem sampleBatches_dealt {X Y : Grid S} (hn : 0 < X.rows)
    (hY : Y.rows = X.rows) (mBatchSize iterations : Nat) :
    ∀ (out : List Nat) (s : Pool G), Dealt X.rows out s →
      ∃ batches s',
        sampleBatches sh (mBatchSize + 1) mBatchSize X Y iterations s
            = .ok batches
          ∧ batches.length = iterations
          ∧ (∀ b ∈ batches, b.indices.length = mBatchSize)
          ∧ Dealt (G := G) X.rows (out ++ batches.flatMap Batch.indices)
            s' := by
  induction iterations with
  | zero =>
      intro out s h
      exact ⟨[], s, rfl, rfl, fun _ hb => absurd hb List.not_mem_nil,
        by rwa [List.flatMap_nil, List.append_nil]⟩
  | succ iterations ih =>
      intro out s h
      obtain ⟨part, s₁, hpart, hlen, h₁⟩ := getSubset_dealt sh hn
        (mBatchSize + 1) mBatchSize h
        (Or.inl (Nat.lt_succ_self _))
      obtain ⟨b, hb⟩ := extractBatch_ok (X := X)
        (fun i hi => h₁.lt (List.mem_append_right out hi)) hY
      obtain ⟨batches, s₂, hok, hcount, hsizes, h₂⟩ := ih (out ++ part) s₁ h₁
      rw [hlen] at hb
      refine ⟨⟨part, b.1, b.2⟩ :: batches, s₂, ?_, ?_, ?_, ?_⟩
      · rw [sampleBatches, hpart]
        show (extractBatch mBatchSize X Y part >>= _) = _
        rw [hb]
        show (sampleBatches sh (mBatchSize + 1) mBatchSize X Y iterations s₁
          >>= _) = _
        rw [hok]
        rfl
      · rw [List.length_cons, hcount]
      · intro c hc
        rcases List.mem_cons.mp hc with rfl | hc
        · exact hlen
        · exact hsizes c hc
      · rwa [List.flatMap_cons, ← List.append_assoc]

variable (sh) in
/-- Batches of size 0 need no pool. -/
theorem sampleBatches_empty (X Y : Grid S) (fuel iterations : Nat)
    (s : Pool G) :
    ∃ batches, sampleBatches sh fuel 0 X Y iterations s = .ok batches
      ∧ batches.length = iterations ∧ ∀ b ∈ batches, b.indices = [] := by
  induction iterations with
  | zero => exact ⟨[], rfl, rfl, fun _ hb => absurd hb List.not_mem_nil⟩
  | succ iterations ih =>
      obtain ⟨batches, hok, hcount, hnil⟩ := ih
      have hget : getSubset sh fuel 0 s = .ok ([], s) := by
        rw [getSubset]
      obtain ⟨b, hb⟩ : ∃ b, extractBatch 0 X Y [] = .ok b := ⟨_, rfl⟩
      refine ⟨⟨[], b.1, b.2⟩ :: batches, ?_, by rw [List.length_cons, hcount],
        ?_⟩
      · exact bind_eq_ok_iff.mpr ⟨([], s), hget, bind_eq_ok_iff.mpr
          ⟨b, hb, bind_eq_ok_iff.mpr ⟨batches, hok, rfl⟩⟩⟩
      · intro b hb
        rcases List.mem_cons.mp hb with rfl | hb
        · rfl
        · exact hnil b hb

/-- Complete rounds and a beginning of one, in blocks. -/
theorem rounds_of_flatten (rounds : List (List Nat)) {current : List Nat}
    (hrounds : ∀ r ∈ rounds, r.Perm (List.range n))
    (hcurrent : ∃ rest, (current ++ rest).Perm (List.range n)) :
    Rounds n (rounds.flatten ++ current) := by
  induction rounds with
  | nil =>
      intro q
      obtain ⟨rest, hrest⟩ := hcurrent
      have hlen := hrest.length_eq
      rw [List.length_append, List.length_range] at hlen
      rw [List.flatten_nil, List.nil_append]
      cases q with
      | zero =>
          refine ⟨rest, ?_⟩
          rw [Nat.zero_mul, List.drop_zero, List.take_of_length_le (by omega)]
          exact hrest
      | succ q =>
          refine ⟨List.range n, ?_⟩
          rw [List.drop_of_length_le (by rw [Nat.succ_mul]; omega),
            List.take_nil, List.nil_append]
  | cons r rounds ih =>
      intro q
      have hr := hrounds r List.mem_cons_self
      have hlen : r.length = n := by
        rw [hr.length_eq, List.length_range]
      rw [List.flatten_cons, List.append_assoc]
      cases q with
      | zero =>
          refine ⟨[], ?_⟩
          rw [Nat.zero_mul, List.drop_zero, ← hlen, List.take_left,
            List.append_nil, hlen]
          exact hr
      | succ q =>
          obtain ⟨rest, hrest⟩ :=
            ih (fun r' hr' => hrounds r' (List.mem_cons_of_mem r hr')) q
          refine ⟨rest, ?_⟩
          rw [Nat.succ_mul, Nat.add_comm (q * n) n, ← List.drop_drop,
            ← hlen, List.drop_left, hlen]
          exact hrest

theorem Dealt.rounds {out : List Nat} {s : Pool G} (h : Dealt n out s) :
    Rounds n out := by
  rcases h.dealt with ⟨hnil, -⟩ | ⟨rounds, hrounds, -, hout⟩
  · rw [hnil]
    exact rounds_of_flatten [] (fun _ hr => absurd hr
      List.not_mem_nil) ⟨List.range n, List.Perm.refl _⟩
  · rw [hout]
    refine rounds_of_flatten rounds hrounds ⟨s.pool.drop s.poolIter, ?_⟩
    rw [List.take_append_drop]
    exact h.pool

/-- Where the sampling of `SGD_Logistic` is right. -/
theorem samplesRight_iff {X Y : Grid S} (hY : Y.rows = X.rows)
    (hcols : Y.cols = 1) (seed : G) (mIterations mBatchSize : Nat) :
    SamplesRight sh seed mIterations mBatchSize X Y
      ↔ 0 < X.rows ∨ mBatchSize = 0 ∨ mIterations = 0 := by
  have hrun : ∀ fuel, sgdLogistic sh seed fuel mIterations mBatchSize X Y
      = sampleBatches sh fuel mBatchSize X Y mIterations
        ⟨List.range X.rows, X.rows, seed⟩ := by
    intro fuel
    rw [sgdLogistic, if_neg]
    intro h
    rcases h with h | h
    · exact h hY.symm
    · exact h hcols
  constructor
  · intro h
    by_contra hnot
    obtain ⟨hrows, hbatch, hiter⟩ : ¬0 < X.rows ∧ mBatchSize ≠ 0
        ∧ mIterations ≠ 0 := by tauto
    obtain ⟨fuel, batches, hok, -⟩ := h
    obtain ⟨left, rfl⟩ := Nat.exists_eq_succ_of_ne_zero hbatch
    obtain ⟨iterations, rfl⟩ := Nat.exists_eq_succ_of_ne_zero hiter
    have hzero : X.rows = 0 := by omega
    rw [hrun, hzero, sampleBatches] at hok
    have hloop : getSubset sh fuel (left + 1) ⟨List.range 0, 0, seed⟩
        = .error .running := getSubset_running fuel left seed
    rw [hloop] at hok
    cases hok
  · intro h
    by_cases hpos : 0 < X.rows
    · have hstart : Dealt X.rows []
          (⟨List.range X.rows, X.rows, seed⟩ : Pool G) :=
        ⟨List.Perm.refl _, Or.inl ⟨rfl, rfl⟩⟩
      obtain ⟨batches, s', hok, hcount, hsizes, hdealt⟩ :=
        sampleBatches_dealt sh hpos hY mBatchSize mIterations [] _
          hstart
      exact ⟨mBatchSize + 1, batches, (hrun _).trans hok, hcount, hsizes,
        hdealt.rounds⟩
    · rcases h.resolve_left hpos with rfl | rfl
      · obtain ⟨batches, hok, hcount, hnil⟩ := sampleBatches_empty sh
          X Y 0 mIterations ⟨List.range X.rows, X.rows, seed⟩
        refine ⟨0, batches, (hrun 0).trans hok, hcount, fun b hb => ?_, ?_⟩
        · rw [hnil b hb]
          rfl
        · rw [List.flatMap_eq_nil_iff.mpr hnil]
          intro q
          exact ⟨List.range X.rows, by
            rw [List.drop_nil, List.take_nil, List.nil_append]⟩
      · refine ⟨0, [], hrun 0, rfl, fun _ hb => absurd hb List.not_mem_nil,
          fun q => ⟨List.range X.rows, ?_⟩⟩
        rw [List.flatMap_nil, List.drop_nil, List.take_nil, List.nil_append]

-- ============================================================ the datasets

variable {dbl : Doubles D} {share : Sharing D E S} {memory : Nat → Nat → D}
  {memory' : Nat → Nat → S} {columnsExclude : List Str}
  {tables : Fin 3 → Option (List (TableColumn D))}

/-- A dataset that is accepted has training rows where a chunk has two. -/
theorem loadDataset_rows {table : Option (List (TableColumn D))}
    {s : LogisticRegressionExecutor.Inputs D}
    (h : loadDataset dbl memory columnsExclude table = .ok s) :
    0 < s.train.rows ↔ HasTrainingRow columnsExclude table := by
  obtain ⟨r, hr, h⟩ := bind_eq_ok_iff.mp h
  obtain ⟨ret, s'⟩ := r
  simp only at h
  split at h
  · cases h
  next hret =>
    split at h
    · cases h
    · cases h
      cases table with
      | none =>
          cases hr
          exact absurd (by decide : (-1 : Int) ≤ 0) hret
      | some columns =>
          obtain ⟨label, -, hlast, -, hrows, hpos⟩ := (loadColumns_ok hr).label
          constructor
          · intro hlt
            rw [hrows] at hlt
            refine ⟨columns, label, rfl, hlast, ?_⟩
            by_contra hnone
            have hzero : label.chunks.lengths.map trainLength
                = label.chunks.lengths.map fun _ => 0 := by
              refine List.map_congr_left fun L hL => ?_
              refine Nat.eq_zero_of_not_pos fun hp => hnone ⟨L, hL, ?_⟩
              exact trainLength_pos_iff.mp hp
            have hsum : (label.chunks.lengths.map trainLength).sum = 0 := by
              rw [hzero]
              simp
            rw [hsum] at hlt
            exact absurd hlt (by decide)
          · intro hrow
            obtain ⟨columns', label', heq, hlast', L, hL, htwo⟩ := hrow
            cases heq
            rw [hlast] at hlast'
            cases hlast'
            exact hpos ⟨L, hL, trainLength_pos_iff.mpr htwo⟩

/-- The number of training rows is positive where a party has one. -/
theorem rows_pos_iff {sets : DataSets S}
    (h : loadAndShare dbl share memory memory' columnsExclude tables
      = .ok sets) :
    (0 < sets.train.data.rows
        ↔ ∃ p, HasTrainingRow columnsExclude (tables p))
      ∧ sets.train.label.rows = sets.train.data.rows
      ∧ sets.train.label.cols = 1 := by
  have hparty : ∀ p, ∃ s, loadDataset dbl memory columnsExclude (tables p)
      = .ok s := by
    intro p
    cases hp : loadDataset dbl memory columnsExclude (tables p) with
    | ok s => exact ⟨s, rfl⟩
    | error e =>
        obtain ⟨e', he'⟩ := Lib.traverseFin_error (f := fun p =>
          loadDataset dbl memory columnsExclude (tables p)) hp
        rw [loadAndShare, he'] at h
        cases h
  choose inputs hinputs using hparty
  rw [loadAndShare, Lib.traverseFin_ok hinputs] at h
  have hsizes := (constructShares_ok (show constructShares share memory' inputs
    = .ok sets from h)).1
  refine ⟨⟨fun hpos => ?_, fun hex => ?_⟩, hsizes.labelRows, hsizes.labelCols⟩
  · by_contra hnone
    have hzero : ∀ p, (inputs p).train.rows = 0 := fun p =>
      Nat.eq_zero_of_not_pos fun hp =>
        hnone ⟨p, (loadDataset_rows (hinputs p)).mp hp⟩
    rw [hsizes.dataRows] at hpos
    have hsum : (share.input (0 : Fin 3).val (inputs 0).train).rows
        + (share.input (1 : Fin 3).val (inputs 1).train).rows
        + (share.input (2 : Fin 3).val (inputs 2).train).rows = 0 := by
      show (inputs 0).train.rows + (inputs 1).train.rows
        + (inputs 2).train.rows = 0
      rw [hzero, hzero, hzero]
    rw [hsum] at hpos
    exact absurd hpos (by decide)
  · obtain ⟨p, hp⟩ := hex
    exact hsizes.pos ⟨p, (loadDataset_rows (hinputs p)).mpr hp⟩

/-- On the training set of datasets that are accepted, sampling is right
where a party has a training row, or where nothing is sampled. -/
theorem sgdLogistic_samples_iff (sh : Shuffle G) (seed : G)
    (mIterations mBatchSize : Nat) {sets : DataSets S}
    (h : loadAndShare dbl share memory memory' columnsExclude tables
      = .ok sets) :
    SamplesRight sh seed mIterations mBatchSize sets.train.data
        sets.train.label
      ↔ (∃ p, HasTrainingRow columnsExclude (tables p))
        ∨ mBatchSize = 0 ∨ mIterations = 0 := by
  obtain ⟨hpos, hrows, hcols⟩ := rows_pos_iff h
  rw [samplesRight_iff hrows hcols, hpos]

variable (dbl share memory memory') in
/-- Tables that can be split and are not empty are accepted. -/
theorem loadAndShare_ok {tables : Fin 3 → LogisticRegressionExecutor.Table D}
    (h : LogisticRegressionExecutor.Splittable columnsExclude tables)
    (hrows : ∀ p, 0 < toInt32 (tables p).layout.sum) :
    ∃ sets, loadAndShare dbl share memory memory' columnsExclude
      (fun p => some (tables p).columns) = .ok sets := by
  choose inputs hload hfilled using fun p => h.load dbl p memory
  have hparty : ∀ p, loadDataset dbl memory columnsExclude
      (some (tables p).columns) = .ok (inputs p) := by
    intro p
    rw [loadDataset, hload p]
    show (if toInt32 (tables p).layout.sum ≤ 0 then _ else _) = _
    rw [if_neg (not_le.mpr (hrows p)), if_neg]
    rw [(hfilled p).train.cols_eq, (hfilled p).test.cols_eq]
    exact not_not_intro rfl
  have hinputs : traverseFin (fun p => do
      let r ← LogisticRegressionExecutor.loadDatasetById dbl memory
        columnsExclude (some (tables p).columns)
      Except.ok (ε := Fault) r.2) = .ok inputs :=
    Lib.traverseFin_ok fun p => by
      rw [hload p]
      rfl
  obtain ⟨sets, hok, -⟩ := LogisticRegressionExecutor.loadAndConstruct_right
    dbl share memory memory' h
  refine ⟨sets, ?_⟩
  rw [LogisticRegressionExecutor.loadAndConstruct, hinputs] at hok
  rw [loadAndShare, Lib.traverseFin_ok hparty]
  exact hok

open LogisticRegressionExecutor (zeros intDoubles clearSharing)

/-- A shuffle that leaves everything in its place. -/
def keepOrder : Shuffle Unit := ⟨fun g xs => (xs, g), fun _ _ => .refl _⟩

theorem zeros_splittable {n : Nat} (hn : n < 2 ^ 20) :
    LogisticRegressionExecutor.Splittable [] (fun _ => zeros n) where
  ne_nil _ := List.cons_ne_nil _ _
  nodup _ := List.nodup_singleton _
  readable _ col hcol := by
    rw [List.mem_singleton.mp hcol]
    trivial
  width _ _ := rfl
  train := by
    rw [Fin.sum_univ_three]
    show 4 * n / 5 + 0 + (4 * n / 5 + 0) + (4 * n / 5 + 0) < 2 ^ 31
    omega
  test := by
    rw [Fin.sum_univ_three]
    show n - 4 * n / 5 + 0 + (n - 4 * n / 5 + 0) + (n - 4 * n / 5 + 0)
      < 2 ^ 31
    omega

/-- Two rows at each party, batches of two and three iterations. -/
theorem sgdLogistic_samples_two :
    ∃ sets, loadAndShare intDoubles clearSharing (fun _ _ => 0)
        (fun _ _ => 0) [] (fun _ => some (zeros 2).columns) = .ok sets
      ∧ SamplesRight keepOrder () 3 2 sets.train.data sets.train.label := by
  obtain ⟨sets, hok⟩ := loadAndShare_ok intDoubles clearSharing
    (fun _ _ => 0) (fun _ _ => 0)
    (zeros_splittable (n := 2) (by decide)) (fun _ => by decide)
  refine ⟨sets, hok, (sgdLogistic_samples_iff keepOrder () 3 2 hok).mpr ?_⟩
  exact Or.inl ⟨0, _, _, rfl, rfl, 2, List.mem_singleton.mpr rfl, by decide⟩

/-- One row at each party: all three are accepted, none has a training row,
and the first batch is never full. -/
theorem not_sgdLogistic_samples_single :
    ∃ sets, loadAndShare intDoubles clearSharing (fun _ _ => 0)
        (fun _ _ => 0) [] (fun _ => some (zeros 1).columns) = .ok sets
      ∧ (∀ fuel, sgdLogistic keepOrder () fuel 1 1 sets.train.data
          sets.train.label = .error .running)
      ∧ ¬SamplesRight keepOrder () 1 1 sets.train.data sets.train.label := by
  obtain ⟨sets, hok⟩ := loadAndShare_ok intDoubles clearSharing
    (fun _ _ => 0) (fun _ _ => 0)
    (zeros_splittable (n := 1) (by decide)) (fun _ => by decide)
  obtain ⟨hpos, hrows, hcols⟩ := rows_pos_iff hok
  have hzero : sets.train.data.rows = 0 := by
    refine Nat.eq_zero_of_not_pos fun hlt => ?_
    obtain ⟨p, columns, label, hcolumns, hlast, L, hL, htwo⟩ := hpos.mp hlt
    cases hcolumns
    cases hlast
    rw [List.mem_singleton.mp hL] at htwo
    exact absurd htwo (by decide)
  have hrun : ∀ fuel, sgdLogistic keepOrder () fuel 1 1 sets.train.data
      sets.train.label = .error .running := by
    intro fuel
    rw [sgdLogistic, if_neg (by
      intro hor
      rcases hor with hne | hne
      · exact hne hrows.symm
      · exact hne hcols), sampleBatches, hzero]
    have hloop : getSubset keepOrder fuel (0 + 1) ⟨List.range 0, 0, ()⟩
        = .error .running := getSubset_running fuel 0 ()
    rw [hloop]
    rfl
  refine ⟨sets, hok, hrun, ?_⟩
  intro h
  obtain ⟨fuel, batches, hbatches, -⟩ := h
  rw [hrun fuel] at hbatches
  cases hbatches

end PrimiHub.Algorithm.Regression
