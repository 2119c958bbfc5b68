/-
The split of secure logistic regression is right where the counts of rows
fit an `int` (`loadAndConstruct_split_iff`).

# The loops

`Filled` is the invariant of the loops of `_LoadDataset`: the columns up
to one are complete and of the next one the rows before the two running
offsets. An entry is right if it is the value, in its own column, of the
place its row stands for (`Wanted`); the offsets are the numbers of places
in the chunks that are done (`placesFrom_getElem?`), so every column puts
a row's value in the same row.

`_ConstructShares` goes over the rows of the three parties in the order of
`pooled`, once for the features and once for the labels.
-/
import Mathlib.Algebra.BigOperators.Group.Finset.Basic
import Mathlib.Data.List.Nodup
import PrimiHub.Algorithm.LogisticRegression
import PrimiHub.Lib.Grid

namespace PrimiHub.Algorithm.LogisticRegressionExecutor

open Executor (I64 Str text Fault)
open Lib (Grid traverseFin bind_eq_ok_iff foldlM_total foldlM_invariant
  placesFrom placesFrom_getElem? length_placesFrom)

variable {D E S T : Type}

-- ============================================================ the percentage

/-- Four fifths, rounded down, for every count an `int` can add up to. -/
theorem trainLength_eq {L : Nat} (h : L < 2 ^ 33) :
    trainLength L = 4 * L / 5 := by
  have hcast : Lib.castDouble L = (L : ℚ) := by
    rw [Lib.castDouble_of_lt (by omega)]
    rfl
  have hL : (L : ℚ) < 2 ^ 33 := by exact_mod_cast h
  have hdiv := Nat.div_add_mod (4 * L) 5
  have hmod : 4 * L % 5 < 5 := Nat.mod_lt _ (by decide)
  -- the product lies between the quotient and the next number, and so does
  -- what it is rounded to
  have hlo : ((5 * (4 * L / 5) : Nat) : ℚ) ≤ (4 * L : Nat) := by
    exact_mod_cast (by omega : 5 * (4 * L / 5) ≤ 4 * L)
  have hhi : ((4 * L : Nat) : ℚ) ≤ (5 * (4 * L / 5) + 4 : Nat) := by
    exact_mod_cast (by omega : 4 * L ≤ 5 * (4 * L / 5) + 4)
  push_cast at hlo hhi
  have hnonneg : (0 : ℚ) ≤ L := Nat.cast_nonneg L
  have hfloor : ⌊Lib.roundToDouble (Lib.castDouble L * trainingSetPercentage)⌋
      = (4 * L / 5 : Nat) := by
    rw [hcast]
    unfold trainingSetPercentage
    apply Lib.floor_roundToDouble
    · linarith
    · linarith
    · linarith
  rw [trainLength, hfloor, Int.toNat_natCast]

/-- A chunk has training rows where it has two rows. -/
theorem trainLength_pos_iff {L : Nat} : 0 < trainLength L ↔ 2 ≤ L := by
  rcases Nat.lt_or_ge L (2 ^ 33) with hL | hL
  · rw [trainLength_eq hL]
    omega
  · refine ⟨fun _ => by omega, fun _ => ?_⟩
    -- from here on the double may be another, but rounding keeps the power of
    -- two below it
    have hlog : 33 ≤ Nat.log 2 L := Nat.le_log_of_pow_le (by decide) hL
    have hcast : (2 : ℚ) ^ 33 ≤ Lib.castDouble L := by
      have hround := le_trans (Nat.pow_le_pow_right two_pos hlog)
        (Lib.pow_log_le_roundDouble (n := L) (by omega))
      have hsign : (L : Int).sign = 1 :=
        Int.sign_eq_one_of_pos (by omega)
      unfold Lib.castDouble
      rw [hsign, Int.cast_one, one_mul]
      exact_mod_cast hround
    have hone : 1 ≤ Lib.castDouble L * trainingSetPercentage := by
      unfold trainingSetPercentage
      linarith
    have hfloor : (1 : Int) ≤ ⌊Lib.roundToDouble
        (Lib.castDouble L * trainingSetPercentage)⌋ := by
      rw [Int.le_floor, Int.cast_one]
      refine le_trans ?_ (Lib.zpow_log_le_roundToDouble hone)
      have hnonneg := (Int.zpow_le_iff_le_log (b := 2) (by decide)
        (lt_of_lt_of_le one_pos hone) (x := 0)).mp (by exact_mod_cast hone)
      exact one_le_zpow₀ one_le_two hnonneg
    unfold trainLength
    omega

/-- A count that fits an `int` is kept. -/
theorem toInt32_of_lt {n : Nat} (h : n < 2 ^ 31) : toInt32 n = n := by
  rw [toInt32, BitVec.toInt_eq_toNat_of_lt, BitVec.toNat_ofNat,
    Nat.mod_eq_of_lt (by omega)]
  rw [BitVec.toNat_ofNat, Nat.mod_eq_of_lt (by omega)]
  omega

/-- An `int` is below 2^31. -/
theorem toInt32_lt (n : Nat) : toInt32 n < 2 ^ 31 :=
  BitVec.toInt_lt

-- ================================================================ the parts

/-- The training rows of a chunk are its first rows. -/
def trainPart (L : Nat) : List Nat := List.range (trainLength L)

/-- The test rows of a chunk are the others. -/
def testPart (L : Nat) : List Nat :=
  List.range' (trainLength L) (L - trainLength L)

-- =============================================================== the loops

/-- The entry at row `i` and column `j` is right for the row at place `i`. -/
def Wanted (dbl : Doubles D) (columns : List (TableColumn D))
    (places : List (Nat × Nat)) (i : Nat) : Nat → D → Prop
  | 0, v => v = dbl.ofInt32 1
  | c + 1, v => ∃ col k o, columns[c]? = some col ∧ places[i]? = some (k, o)
      ∧ col.valueAt dbl k o = some v

/-- The columns up to `c` are complete, and of the next one the rows before
`i`. -/
def Before (n c i : Nat) (a b : Nat) : Prop :=
  a < n ∧ (b ≤ c ∨ (b = c + 1 ∧ a < i))

/-- How far both matrices have been filled. -/
structure Filled (dbl : Doubles D) (columns : List (TableColumn D))
    (layout : List Nat) (c i j : Nat) (s : Inputs D) : Prop where
  train : s.train.Shows (placesFrom trainPart 0 layout).length
    (columns.length + 1)
    (Wanted dbl columns (placesFrom trainPart 0 layout))
    (Before (placesFrom trainPart 0 layout).length c i)
  test : s.test.Shows (placesFrom testPart 0 layout).length
    (columns.length + 1)
    (Wanted dbl columns (placesFrom testPart 0 layout))
    (Before (placesFrom testPart 0 layout).length c j)

variable {dbl : Doubles D} {columns : List (TableColumn D)}
  {layout : List Nat}

/-- A stretch of a column behind what is there. -/
theorem shows_fill {places : List (Nat × Nat)} {g : Grid D} {c i : Nat}
    {vs : List D}
    (h : g.Shows places.length (columns.length + 1)
      (Wanted dbl columns places) (Before places.length c i))
    (hc : c < columns.length) (hi : i + vs.length ≤ places.length)
    (hv : ∀ k v, vs[k]? = some v → Wanted dbl columns places (i + k) (c + 1) v) :
    ∃ g', g.fill Fault.undefined (c + 1) i vs = .ok g'
      ∧ g'.Shows places.length (columns.length + 1)
        (Wanted dbl columns places)
        (Before places.length c (i + vs.length)) := by
  obtain ⟨g', hok, hg'⟩ := h.fill hi (Nat.succ_lt_succ hc) hv
  refine ⟨g', hok, hg'.mono fun a b hab => ?_⟩
  -- an entry is one of before or one of the stretch
  rcases hab with ⟨ha, hb | ⟨hb, hlt⟩⟩
  · exact Or.inl ⟨ha, Or.inl hb⟩
  · rcases Nat.lt_or_ge a i with hai | hai
    · exact Or.inl ⟨ha, Or.inr ⟨hb, hai⟩⟩
    · exact Or.inr ⟨hai, hlt, hb⟩

/-- The number of places in the parts of the chunks. -/
def partCount (part : Nat → List Nat) (chunks : List (List T)) : Nat :=
  (chunks.map fun chunk => (part chunk.length).length).sum

/-- The chunks one after the other, and their parts. -/
theorem partCount_append (part : Nat → List Nat) (xs ys : List (List T)) :
    partCount part (xs ++ ys) = partCount part xs + partCount part ys := by
  unfold partCount
  rw [List.map_append, List.sum_append]

/-- One chunk and those after it. -/
theorem partCount_cons (part : Nat → List Nat) (chunk : List T)
    (chunks : List (List T)) :
    partCount part (chunk :: chunks)
      = (part chunk.length).length + partCount part chunks :=
  List.sum_cons

/-- The places of a part, counted on the chunks of one column. -/
theorem length_placesFrom_lengths (part : Nat → List Nat)
    (chunks : List (List T)) :
    (placesFrom part 0 (chunks.map List.length)).length
      = partCount part chunks := by
  rw [length_placesFrom, List.map_map]
  rfl

/-- The values of a chunk's part are wanted behind the chunks before. -/
theorem wanted_of_part {part : Nat → List Nat} {col : TableColumn D}
    {c : Nat} (hcol : columns[c]? = some col) {value : T → D}
    {done rest : List (List T)} {chunk : List T}
    (hvals : col.chunks.values dbl
      = (done ++ chunk :: rest).map (List.map value))
    {n o : Nat} {x : T} (ho : (part chunk.length)[n]? = some o)
    (hx : chunk[o]? = some x) :
    Wanted dbl columns
      (placesFrom part 0 ((done ++ chunk :: rest).map List.length))
      (partCount part done + n) (c + 1) (value x) := by
  refine ⟨col, done.length, o, hcol, ?_, ?_⟩
  · have hplace := placesFrom_getElem? part (done.map List.length)
      (rest.map List.length) ho
    rw [List.map_map, List.length_map] at hplace
    rw [List.map_append]
    exact hplace
  · rw [TableColumn.valueAt, hvals, List.getElem?_map,
      List.getElem?_append_right (Nat.le_refl _), Nat.sub_self]
    show (chunk.map value)[o]? = some (value x)
    rw [List.getElem?_map, hx]
    rfl

/-- One chunk, at both places. -/
theorem fillTrainAndTestData_filled {col : TableColumn D} {c : Nat}
    (hcol : columns[c]? = some col) {value : T → D}
    {done rest : List (List T)} {chunk : List T}
    (hvals : col.chunks.values dbl
      = (done ++ chunk :: rest).map (List.map value))
    (hlayout : (done ++ chunk :: rest).map List.length = layout)
    (hle : trainLength chunk.length ≤ chunk.length) {s : Inputs D}
    (h : Filled dbl columns layout c (partCount trainPart done)
      (partCount testPart done) s) :
    ∃ s', fillTrainAndTestData value chunk (partCount trainPart done)
        (partCount testPart done) (c + 1) (trainLength chunk.length) s = .ok s'
      ∧ Filled dbl columns layout c (partCount trainPart (done ++ [chunk]))
        (partCount testPart (done ++ [chunk])) s' := by
  subst hlayout
  obtain ⟨hc, -⟩ := List.getElem?_eq_some_iff.mp hcol
  have htrainLen : ((chunk.take (trainLength chunk.length)).map value).length
      = (trainPart chunk.length).length := by
    rw [List.length_map, List.length_take, trainPart, List.length_range,
      Nat.min_eq_left hle]
  have htestLen : ((chunk.drop (trainLength chunk.length)).map value).length
      = (testPart chunk.length).length := by
    rw [List.length_map, List.length_drop, testPart, List.length_range']
  have hlast : ∀ part, partCount part (done ++ [chunk])
      = partCount part done + (part chunk.length).length := by
    intro part
    rw [partCount_append, partCount_cons]
    rfl
  have hroom : ∀ part, partCount part done + (part chunk.length).length
      ≤ (placesFrom part 0
          ((done ++ chunk :: rest).map List.length)).length := by
    intro part
    rw [length_placesFrom_lengths, partCount_append, partCount_cons]
    omega
  -- the two stretches go to matrices of their own, each at its own offset
  obtain ⟨train, htrain, htrain'⟩ := shows_fill h.train hc
      (by rw [htrainLen]; exact hroom trainPart) fun n v hn => by
    rw [List.getElem?_map, List.getElem?_take] at hn
    split at hn
    next hlt =>
      obtain ⟨x, hx, rfl⟩ := Option.map_eq_some_iff.mp hn
      refine wanted_of_part hcol hvals (o := n) ?_ hx
      rw [trainPart, List.getElem?_range hlt]
    next => cases hn
  obtain ⟨test, htest, htest'⟩ := shows_fill h.test hc
      (by rw [htestLen]; exact hroom testPart) fun n v hn => by
    rw [List.getElem?_map, List.getElem?_drop] at hn
    obtain ⟨x, hx, rfl⟩ := Option.map_eq_some_iff.mp hn
    refine wanted_of_part hcol hvals ?_ hx
    obtain ⟨hlt, -⟩ := List.getElem?_eq_some_iff.mp hx
    rw [testPart, List.getElem?_range' (by omega), Nat.one_mul]
  rw [htrainLen] at htrain'
  rw [htestLen] at htest'
  refine ⟨⟨train, test⟩, ?_, ?_⟩
  · rw [fillTrainAndTestData, if_neg (Nat.not_lt.mpr hle), htrain]
    show (s.test.fill Fault.undefined _ _ _ >>= _) = _
    rw [htest]
    rfl
  · rw [hlast, hlast]
    exact ⟨htrain', htest'⟩

/-- The chunks of a column, from those that are done on. -/
theorem fillChunks_filled {col : TableColumn D} {c : Nat}
    (hcol : columns[c]? = some col) {value : T → D}
    (hle : ∀ L ∈ layout, trainLength L ≤ L) (rest : List (List T)) :
    ∀ (done : List (List T)) (s : Inputs D),
      col.chunks.values dbl = (done ++ rest).map (List.map value) →
      (done ++ rest).map List.length = layout →
      Filled dbl columns layout c (partCount trainPart done)
        (partCount testPart done) s →
      ∃ s', fillChunks value (c + 1) (partCount trainPart done)
          (partCount testPart done) rest
          (rest.map fun chunk => trainLength chunk.length) s = .ok s'
        ∧ Filled dbl columns layout c (partCount trainPart (done ++ rest))
          (partCount testPart (done ++ rest)) s' := by
  induction rest with
  | nil =>
      intro done s _ _ h
      rw [List.append_nil]
      exact ⟨s, rfl, h⟩
  | cons chunk rest ih =>
      intro done s hvals hlayout h
      have hchunk : trainLength chunk.length ≤ chunk.length := by
        refine hle _ ?_
        rw [← hlayout]
        exact List.mem_map_of_mem (List.mem_append_right done
          List.mem_cons_self)
      obtain ⟨s₁, hs₁, hfilled⟩ :=
        fillTrainAndTestData_filled hcol hvals hlayout hchunk h
      -- the chunk joins those that are done, and both offsets move by its
      -- parts
      have happend : done ++ chunk :: rest = (done ++ [chunk]) ++ rest := by
        rw [List.append_assoc]
        rfl
      rw [happend] at hvals hlayout ⊢
      obtain ⟨s₂, hs₂, hfilled₂⟩ := ih (done ++ [chunk]) s₁ hvals hlayout hfilled
      refine ⟨s₂, ?_, hfilled₂⟩
      have htrain : partCount trainPart (done ++ [chunk])
          = partCount trainPart done + trainLength chunk.length := by
        rw [partCount_append, partCount_cons, trainPart, List.length_range]
        rfl
      have htest : partCount testPart (done ++ [chunk])
          = partCount testPart done
            + (chunk.length - trainLength chunk.length) := by
        rw [partCount_append, partCount_cons, testPart, List.length_range']
        rfl
      rw [htrain, htest] at hs₂
      rw [List.map_cons, fillChunks, hs₁]
      exact hs₂

/-- A complete column is the last of the complete ones. -/
theorem Filled.next {c : Nat} {s : Inputs D}
    (h : Filled dbl columns layout c (placesFrom trainPart 0 layout).length
      (placesFrom testPart 0 layout).length s) :
    Filled dbl columns layout (c + 1) 0 0 s := by
  have hbefore : ∀ n a b, Before n (c + 1) 0 a b → Before n c n a b := by
    intro n a b hab
    obtain ⟨ha, hb | ⟨-, hlt⟩⟩ := hab
    · exact ⟨ha, by omega⟩
    · exact absurd hlt (Nat.not_lt_zero a)
  exact ⟨h.train.mono (hbefore _), h.test.mono (hbefore _)⟩

/-- All chunks of a column whose values are known. -/
theorem fillChunks_all {col : TableColumn D} {c : Nat}
    (hcol : columns[c]? = some col) {value : T → D}
    (hle : ∀ L ∈ layout, trainLength L ≤ L) {chunks : List (List T)}
    (hvals : col.chunks.values dbl = chunks.map (List.map value))
    (hlayout : chunks.map List.length = layout) {s : Inputs D}
    (h : Filled dbl columns layout c 0 0 s) :
    ∃ s', fillChunks value (c + 1) 0 0 chunks (layout.map trainLength) s
        = .ok s'
      ∧ Filled dbl columns layout (c + 1) 0 0 s' := by
  obtain ⟨s', hs', hfilled⟩ := fillChunks_filled hcol hle chunks [] s hvals
    hlayout h
  rw [List.nil_append, ← length_placesFrom_lengths,
    ← length_placesFrom_lengths, hlayout] at hfilled
  refine ⟨s', ?_, hfilled.next⟩
  rw [← hlayout, List.map_map]
  exact hs'

/-- A column, whatever type its chunks have; one of another type has no
chunk. -/
theorem fillColumn_filled {col : TableColumn D} {c : Nat}
    (hcol : columns[c]? = some col) (hlengths : col.chunks.lengths = layout)
    (hread : col.chunks.Readable)
    (hle : ∀ L ∈ layout, trainLength L ≤ L) {s : Inputs D}
    (h : Filled dbl columns layout c 0 0 s) :
    ∃ s', fillColumn dbl (layout.map trainLength) (c + 1) col s = .ok s'
      ∧ Filled dbl columns layout (c + 1) 0 0 s' := by
  obtain ⟨name, chunks⟩ := col
  cases chunks with
  | int64 chunks => exact fillChunks_all hcol hle rfl hlengths h
  | int32 chunks => exact fillChunks_all hcol hle rfl hlengths h
  | double chunks =>
      refine fillChunks_all hcol hle ?_ hlengths h
      show chunks = chunks.map (List.map id)
      rw [List.map_id_fun, List.map_id]
  | other typeName lengths =>
      have hnil : layout = [] := hlengths.symm.trans hread
      subst hnil
      refine ⟨s, ?_, Filled.next h⟩
      have hlen : lengths = [] := hread
      subst hlen
      rfl

/-- The columns one after the other. -/
theorem fillColumns_filled (hlayout : ∀ col ∈ columns,
      col.chunks.lengths = layout)
    (hread : ∀ col ∈ columns, col.chunks.Readable)
    (hfield : ∀ col ∈ columns, hasField columns col.name)
    (hle : ∀ L ∈ layout, trainLength L ≤ L) (rest : List (TableColumn D)) :
    ∀ (done : List (TableColumn D)) (s : Inputs D), columns = done ++ rest →
      Filled dbl columns layout done.length 0 0 s →
      ∃ s', fillColumns dbl columns (layout.map trainLength)
          (done.length + 1) rest s = .ok s'
        ∧ Filled dbl columns layout columns.length 0 0 s' := by
  induction rest with
  | nil =>
      intro done s hcols h
      rw [List.append_nil] at hcols
      exact ⟨s, rfl, hcols ▸ h⟩
  | cons col rest ih =>
      intro done s hcols h
      have hmem : col ∈ columns := by
        rw [hcols]
        exact List.mem_append_right done List.mem_cons_self
      have hcol : columns[done.length]? = some col := by
        rw [hcols, List.getElem?_append_right (Nat.le_refl _), Nat.sub_self]
        rfl
      obtain ⟨s₁, hs₁, h₁⟩ := fillColumn_filled hcol (hlayout col hmem)
        (hread col hmem) hle h
      have hnext : (done ++ [col]).length = done.length + 1 :=
        List.length_append
      obtain ⟨s₂, hs₂, h₂⟩ := ih (done ++ [col]) s₁
        (by rw [List.append_assoc]; exact hcols) (hnext ▸ h₁)
      refine ⟨s₂, ?_, h₂⟩
      rw [fillColumns, if_pos (hfield col hmem), hs₁]
      rw [hnext] at hs₂
      exact hs₂

/-- The places of the two parts are those of all rows. -/
theorem length_parts (hle : ∀ L ∈ layout, trainLength L ≤ L) :
    (placesFrom trainPart 0 layout).length
      + (placesFrom testPart 0 layout).length = layout.sum := by
  rw [length_placesFrom, length_placesFrom]
  induction layout with
  | nil => rfl
  | cons L layout ih =>
      have hL := hle L List.mem_cons_self
      have hrest := ih fun L' hL' => hle L' (List.mem_cons_of_mem L hL')
      rw [List.map_cons, List.map_cons, List.sum_cons, List.sum_cons,
        List.sum_cons, trainPart, List.length_range, testPart,
        List.length_range']
      omega

/-- How far the loop of column 0 has come. -/
structure Begun (dbl : Doubles D) (columns : List (TableColumn D))
    (layout : List Nat) (j : Nat) (s : Inputs D) : Prop where
  train : s.train.Shows (placesFrom trainPart 0 layout).length
    (columns.length + 1)
    (Wanted dbl columns (placesFrom trainPart 0 layout))
    (fun a b => b = 0 ∧ a < (placesFrom trainPart 0 layout).length ∧ a < j)
  test : s.test.Shows (placesFrom testPart 0 layout).length
    (columns.length + 1)
    (Wanted dbl columns (placesFrom testPart 0 layout))
    (fun a b => b = 0 ∧ (placesFrom trainPart 0 layout).length + a < j)

/-- One turn of the loop of column 0: the row is one of the training rows or
one of the test rows. -/
theorem Begun.step (hle : ∀ L ∈ layout, trainLength L ≤ L) {j : Nat}
    {s : Inputs D} (hj : j < layout.sum)
    (h : Begun dbl columns layout j s) :
    ∃ s', fillOne dbl (placesFrom trainPart 0 layout).length s j = .ok s'
      ∧ Begun dbl columns layout (j + 1) s' := by
  have hsum := length_parts hle
  -- the row index is compared with the training rows of the whole table
  by_cases hjn : j < (placesFrom trainPart 0 layout).length
  · obtain ⟨g, hg, hshows⟩ := h.train.set (e := Fault.undefined)
      (v := dbl.ofInt32 1) hjn (Nat.succ_pos _) rfl
    refine ⟨{ s with train := g }, ?_, hshows.mono ?_, h.test.mono ?_⟩
    · rw [fillOne, if_pos hjn, hg]
      rfl
    · intro a b hab
      obtain ⟨hb, ha, hlt⟩ := hab
      rcases Nat.lt_succ_iff_lt_or_eq.mp hlt with hlt | heq
      · exact Or.inl ⟨hb, ha, hlt⟩
      · exact Or.inr ⟨heq, hb⟩
    · intro a b hab
      exact absurd hab.2 (by omega)
  -- a test row: its index starts after the training rows
  · have hrow : j - (placesFrom trainPart 0 layout).length
        < (placesFrom testPart 0 layout).length := by omega
    obtain ⟨g, hg, hshows⟩ := h.test.set (e := Fault.undefined)
      (v := dbl.ofInt32 1) hrow (Nat.succ_pos _) rfl
    refine ⟨{ s with test := g }, ?_, h.train.mono ?_, hshows.mono ?_⟩
    · rw [fillOne, if_neg hjn, hg]
      rfl
    · intro a b hab
      exact ⟨hab.1, hab.2.1, by omega⟩
    · intro a b hab
      obtain ⟨hb, hlt⟩ := hab
      rcases Nat.lt_succ_iff_lt_or_eq.mp hlt with hlt | heq
      · exact Or.inl ⟨hb, hlt⟩
      · exact Or.inr ⟨by omega, hb⟩

variable (dbl columns) in
/-- Column 0. -/
theorem fillOnes_filled (hle : ∀ L ∈ layout, trainLength L ≤ L)
    (memory : Nat → Nat → D) :
    ∃ s, fillOnes dbl layout.sum (placesFrom trainPart 0 layout).length
        ⟨⟨(placesFrom trainPart 0 layout).length, columns.length + 1, memory⟩,
          ⟨(placesFrom testPart 0 layout).length, columns.length + 1, memory⟩⟩
        = .ok s
      ∧ Filled dbl columns layout 0 0 0 s := by
  have hsum := length_parts hle
  have hstart : Begun dbl columns layout 0
      ⟨⟨(placesFrom trainPart 0 layout).length, columns.length + 1, memory⟩,
        ⟨(placesFrom testPart 0 layout).length, columns.length + 1, memory⟩⟩ :=
    ⟨(Grid.Shows.start memory).mono fun a _ hab =>
        absurd hab.2.2 (Nat.not_lt_zero a),
      (Grid.Shows.start memory).mono fun _ _ hab =>
        absurd hab.2 (Nat.not_lt_zero _)⟩
  -- at the end of the loop both matrices have the whole of column 0
  obtain ⟨s, hok, h⟩ := Lib.foldlM_range_total
    (I := Begun dbl columns layout) (fun j s hj h => h.step hle hj) hstart
  refine ⟨s, hok, ?_, ?_⟩
  · refine h.train.mono fun a b hab => ?_
    obtain ⟨ha, hb | ⟨-, hlt⟩⟩ := hab
    · exact ⟨Nat.le_zero.mp hb, ha, by omega⟩
    · exact absurd hlt (Nat.not_lt_zero a)
  · refine h.test.mono fun a b hab => ?_
    obtain ⟨ha, hb | ⟨-, hlt⟩⟩ := hab
    · exact ⟨Nat.le_zero.mp hb, by omega⟩
    · exact absurd hlt (Nat.not_lt_zero a)

/-- A table that can be read is loaded completely. -/
theorem loadColumns_filled (hne : columns ≠ [])
    (hlayout : ∀ col ∈ columns, col.chunks.lengths = layout)
    (hread : ∀ col ∈ columns, col.chunks.Readable)
    (hfield : ∀ col ∈ columns, hasField columns col.name)
    (hle : ∀ L ∈ layout, trainLength L ≤ L)
    (hcount : (placesFrom trainPart 0 layout).length < 2 ^ 31)
    (memory : Nat → Nat → D) :
    ∃ s, loadColumns dbl memory columns = .ok (toInt32 layout.sum, s)
      ∧ Filled dbl columns layout columns.length 0 0 s := by
  have hsum := length_parts hle
  have htrain : (layout.map trainLength).sum
      = (placesFrom trainPart 0 layout).length := by
    rw [length_placesFrom]
    simp only [trainPart, List.length_range]
  -- the layout is read off the last column, and the others are compared with
  -- it
  have hlabel : (columns.getLast hne).chunks.lengths = layout :=
    hlayout _ (List.getLast_mem hne)
  have hfind : (columns.dropLast.find? fun col =>
      col.chunks.lengths.sum != layout.sum) = none := by
    rw [List.find?_eq_none]
    intro col hcol
    rw [hlayout col (List.mem_of_mem_dropLast hcol)]
    simp
  obtain ⟨s₀, hones, h₀⟩ := fillOnes_filled dbl columns hle memory
  obtain ⟨s, hcols, h⟩ := fillColumns_filled hlayout hread hfield hle columns
    [] s₀ rfl h₀
  refine ⟨s, ?_, h⟩
  rw [loadColumns, List.getLast?_eq_some_getLast hne]
  simp only [hlabel, hfind]
  rw [htrain, toInt32_of_lt hcount]
  have htest : (layout.sum : Int) - (placesFrom trainPart 0 layout).length
      = (placesFrom testPart 0 layout).length := by omega
  have hresize : ∀ n : Nat, resize memory n (columns.length + 1)
      = .ok ⟨n, columns.length + 1, memory⟩ := by
    intro n
    rw [resize, if_neg (by omega)]
    rfl
  rw [htest, hresize, hresize]
  show (fillOnes dbl layout.sum _ _ >>= _) = _
  rw [Int.toNat_natCast, hones]
  show (fillColumns dbl columns (layout.map trainLength) 1 columns s₀ >>= _)
    = _
  rw [show fillColumns dbl columns (layout.map trainLength) 1 columns s₀
      = .ok s from hcols]
  rfl

-- ============================================================ all parties

/-- The rows of the three parties, below each other. -/
def pooled (rows : Fin 3 → Nat) : List (Fin 3 × Nat) :=
  (List.finRange 3).flatMap fun h => (List.range (rows h)).map fun i => (h, i)

/-- The rows of the three parties, in number. -/
theorem length_pooled (rows : Fin 3 → Nat) :
    (pooled rows).length = rows 0 + rows 1 + rows 2 := by
  unfold pooled
  rw [List.length_flatMap]
  simp [List.finRange, Nat.add_assoc]

/-- A loop over the rows, by what it does for one. -/
theorem copyRows_shows (shares : Fin 3 → Grid S)
    (copy : Nat → Fin 3 → Nat → Grid S → Except Fault (Grid S))
    (rows : Nat) {cols w : Nat} {R : Nat → Nat → S → Prop}
    (hstep : ∀ n h i m, (pooled fun h => (shares h).rows)[n]? = some (h, i) →
      Grid.Shows rows cols R (fun a b => a < n ∧ b < w) m →
      ∃ m', copy n h i m = .ok m'
        ∧ m'.Shows rows cols R fun a b => a < n + 1 ∧ b < w)
    {m : Grid S} (hrows : m.rows = rows) (hcols : m.cols = cols) :
    ∃ m', copyRows shares copy m = .ok m'
      ∧ m'.Shows rows cols R fun a b =>
          a < (pooled fun h => (shares h).rows).length ∧ b < w := by
  -- the nested loops are one loop over the rows, whose counter is the number
  -- of rows done
  obtain ⟨r, hok, -, hr⟩ := foldlM_total
    (f := fun (acc : Nat × Grid S) (p : Fin 3 × Nat) => do
      let m ← copy acc.1 p.1 p.2 acc.2
      .ok (acc.1 + 1, m))
    (I := fun done acc => acc.1 = done.length
      ∧ acc.2.Shows rows cols R fun a b => a < done.length ∧ b < w)
    (pooled fun h => (shares h).rows) (0, m)
    (by
      intro done x rest acc hxs hI
      obtain ⟨n, m⟩ := acc
      obtain ⟨hn, hm⟩ := hI
      have hget : (pooled fun h => (shares h).rows)[done.length]?
          = some (x.1, x.2) := by
        rw [hxs, List.getElem?_append_right (Nat.le_refl _), Nat.sub_self]
        rfl
      obtain ⟨m', hm', hshows⟩ := hstep done.length x.1 x.2 m hget hm
      have hn' : n = done.length := hn
      subst hn'
      refine ⟨(done.length + 1, m'), ?_, ?_, ?_⟩
      · show (copy done.length x.1 x.2 m >>= _) = _
        rw [hm']
        rfl
      · rw [List.length_append]
        rfl
      · rw [List.length_append]
        exact hshows)
    ⟨rfl, hrows, hcols, fun a b hab => absurd hab.1 (Nat.not_lt_zero a)⟩
  refine ⟨r.2, ?_, hr⟩
  rw [copyRows, Lib.foldlM_nested (fun (acc : Nat × Grid S) h i => do
    let m ← copy acc.1 h i acc.2
    .ok (acc.1 + 1, m))]
  show ((pooled fun h => (shares h).rows).foldlM _ _ >>= _) = _
  rw [hok]
  rfl

/-- The features of one row are copied from the share of its party. -/
theorem copyFeatures_shows {shares : Fin 3 → Grid S} {w rows : Nat}
    (hcols : ∀ h, (shares h).cols = w + 1)
    {n : Nat} {h : Fin 3} {i : Nat} (hn : n < rows)
    (hget : (pooled fun h => (shares h).rows)[n]? = some (h, i)) {m : Grid S}
    (hm : m.Shows rows w (fun n j v => ∃ h i,
        (pooled fun h => (shares h).rows)[n]? = some (h, i)
          ∧ v = (shares h).entry i j) fun a b => a < n ∧ b < w) :
    ∃ m', copyFeatures shares n h i m = .ok m'
      ∧ m'.Shows rows w (fun n j v => ∃ h i,
        (pooled fun h => (shares h).rows)[n]? = some (h, i)
          ∧ v = (shares h).entry i j) fun a b => a < n + 1 ∧ b < w := by
  -- inside a row: the rows before it, and of the row the columns so far
  obtain ⟨m', hok, hm'⟩ := Lib.foldlM_range_total
    (f := fun m j => m.set Fault.undefined n j ((shares h).entry i j))
    (I := fun j m => Grid.Shows rows w (fun n j v => ∃ h i,
        (pooled fun h => (shares h).rows)[n]? = some (h, i)
          ∧ v = (shares h).entry i j)
      (fun a b => (a < n ∧ b < w) ∨ (a = n ∧ b < j)) m)
    (n := w) (s := m)
    (by
      intro j m hj hI
      obtain ⟨m', hset, hshows⟩ := hI.set (e := Fault.undefined) hn hj
        ⟨h, i, hget, rfl⟩
      refine ⟨m', hset, hshows.mono fun a b hab => ?_⟩
      rcases hab with hab | ⟨ha, hb⟩
      · exact Or.inl (Or.inl hab)
      · rcases Nat.lt_succ_iff_lt_or_eq.mp hb with hb | hb
        · exact Or.inl (Or.inr ⟨ha, hb⟩)
        · exact Or.inr ⟨ha, hb⟩)
    (hm.mono fun a b hab => hab.resolve_right fun h =>
      absurd h.2 (Nat.not_lt_zero b))
  refine ⟨m', ?_, hm'.mono fun a b hab => ?_⟩
  · rw [copyFeatures, hcols h, Nat.add_sub_cancel]
    exact hok
  · rcases Nat.lt_succ_iff_lt_or_eq.mp hab.1 with ha | ha
    · exact Or.inl ⟨ha, hab.2⟩
    · exact Or.inr ⟨ha, hab.2⟩

/-- The rows of the inputs, each with its label. -/
structure Pooled (shares : Fin 3 → Grid S) (w : Nat) (set : Samples S) :
    Prop where
  dataRows : set.data.rows = (pooled fun h => (shares h).rows).length
  labelRows : set.label.rows = (pooled fun h => (shares h).rows).length
  dataCols : set.data.cols = w
  labelCols : set.label.cols = 1
  data : ∀ n h i j, (pooled fun h => (shares h).rows)[n]? = some (h, i) →
    j < w → set.data.entry n j = (shares h).entry i j
  label : ∀ n h i, (pooled fun h => (shares h).rows)[n]? = some (h, i) →
    set.label.entry n 0 = (shares h).entry i w

/-- Both matrices of a set have the rows of the three inputs. -/
theorem constructSamples_pooled (shares : Fin 3 → Grid S) {w : Nat}
    (hcols : ∀ h, (shares h).cols = w + 1)
    (hrows : (pooled fun h => (shares h).rows).length < 2 ^ 31)
    (memory : Nat → Nat → S) :
    ∃ set, constructSamples memory shares = .ok set
      ∧ Pooled shares w set := by
  generalize hN : (pooled fun h => (shares h).rows).length = N at hrows
  have hlt : ∀ {n h i}, (pooled fun h => (shares h).rows)[n]? = some (h, i) →
      n < N := by
    intro n h i hget
    obtain ⟨hn, -⟩ := List.getElem?_eq_some_iff.mp hget
    exact hN ▸ hn
  -- the features are the columns but the last, the label is the last
  obtain ⟨data, hdata, hd⟩ := copyRows_shows shares
    (copyFeatures shares) N (m := ⟨N, w, memory⟩)
    (fun n h i m hget hm => copyFeatures_shows hcols (hlt hget) hget hm)
    rfl rfl
  obtain ⟨label, hlabel, hl⟩ := copyRows_shows shares
    (copyLabel shares w) N (m := ⟨N, 1, memory⟩) (w := 1)
    (R := fun n _ v => ∃ h i,
      (pooled fun h => (shares h).rows)[n]? = some (h, i)
        ∧ v = (shares h).entry i w)
    (fun n h i m hget hm => by
      obtain ⟨m', hset, hshows⟩ := hm.set (e := Fault.undefined) (hlt hget)
        Nat.one_pos ⟨h, i, hget, rfl⟩
      refine ⟨m', hset, hshows.mono fun a b hab => ?_⟩
      rcases Nat.lt_succ_iff_lt_or_eq.mp hab.1 with ha | ha
      · exact Or.inl ⟨ha, hab.2⟩
      · exact Or.inr ⟨ha, by omega⟩) rfl rfl
  have hresize : ∀ n : Nat, resize memory N n = .ok ⟨N, n, memory⟩ := by
    intro n
    rw [resize, if_neg (by omega)]
    rfl
  have hwidth : (((shares 0).cols : Int) - 1) = (w : Nat) := by
    rw [hcols 0]
    omega
  rw [hN] at hd hl
  refine ⟨⟨data, label⟩, ?_, ?_⟩
  · rw [constructSamples, ← length_pooled fun h => (shares h).rows, hN,
      toInt32_of_lt hrows, hwidth, hresize, ← Nat.cast_one, hresize]
    show (copyRows shares (copyFeatures shares) ⟨N, w, memory⟩ >>= _) = _
    rw [hdata]
    show (copyRows shares (copyLabel shares w) ⟨N, 1, memory⟩ >>= _) = _
    rw [hlabel]
    rfl
  · refine ⟨hd.rows_eq.trans hN.symm, hl.rows_eq.trans hN.symm, hd.cols_eq,
      hl.cols_eq, ?_, ?_⟩
    · intro n h i j hget hj
      obtain ⟨h', i', hget', hv⟩ := hd.entry n j ⟨hlt hget, hj⟩
      rw [hget] at hget'
      cases hget'
      exact hv
    · intro n h i hget
      obtain ⟨h', i', hget', hv⟩ := hl.entry n 0 ⟨hlt hget, Nat.one_pos⟩
      rw [hget] at hget'
      cases hget'
      exact hv

-- ================================================================ the rows

/-- An input that has been filled, as the rows of the table. -/
theorem row_of_shows {places : List (Nat × Nat)} {g : Grid D} {w : Nat}
    (hw : columns.length = w + 1)
    (h : g.Shows places.length (columns.length + 1)
      (Wanted dbl columns places) (Before places.length columns.length 0))
    {i k o : Nat} (hi : places[i]? = some (k, o)) :
    List.Forall₂ (fun col v => col.valueAt dbl k o = some v) columns
        ((List.range w).map (fun c => g.entry i (c + 1))
          ++ [g.entry i (w + 1)])
      ∧ g.entry i 0 = dbl.ofInt32 1 := by
  obtain ⟨hlt, -⟩ := List.getElem?_eq_some_iff.mp hi
  have hcell : ∀ c col, columns[c]? = some col →
      col.valueAt dbl k o = some (g.entry i (c + 1)) := by
    intro c col hcol
    obtain ⟨hc, -⟩ := List.getElem?_eq_some_iff.mp hcol
    obtain ⟨col', k', o', hcol', hplace, hv⟩ :=
      h.entry i (c + 1) ⟨hlt, Or.inl hc⟩
    rw [hcol] at hcol'
    rw [hi] at hplace
    cases hcol'
    cases hplace
    exact hv
  refine ⟨?_, h.entry i 0 ⟨hlt, Or.inl (Nat.zero_le _)⟩⟩
  -- the columns are numbered from 1, for column 0 is the constant
  have hrow : (List.range w).map (fun c => g.entry i (c + 1))
      ++ [g.entry i (w + 1)]
      = (List.range columns.length).map fun c => g.entry i (c + 1) := by
    rw [hw, List.range_succ, List.map_append]
    rfl
  rw [hrow, List.forall₂_iff_get]
  refine ⟨by rw [List.length_map, List.length_range], fun c hc hc' => ?_⟩
  have hval := hcell c _ (List.getElem?_eq_getElem hc)
  simpa using hval

/-- The rows at the places of each party, behind those of the parties
before it. -/
theorem pooled_places {α : Type} (g : Fin 3 → List α) :
    List.Forall₂ (fun a b => a.1 = b.1 ∧ (g a.1)[b.2]? = some a.2)
      ((List.finRange 3).flatMap fun p => (g p).map fun x => (p, x))
      (pooled fun p => (g p).length) := by
  refine List.rel_flatMap (R := Eq) (List.forall₂_same.mpr fun _ _ => rfl) ?_
  intro p p' hp
  subst hp
  rw [List.forall₂_iff_get]
  refine ⟨by simp, fun i hi hi' => ?_⟩
  have hlt : i < (g p).length := by simpa using hi
  simp [hlt]

/-- A row in the list of all rows, at its party. -/
theorem exists_pooled {α : Type} {g : Fin 3 → List α} {n : Nat} {p : Fin 3}
    {x : α}
    (h : ((List.finRange 3).flatMap fun p => (g p).map fun x => (p, x))[n]?
      = some (p, x)) :
    ∃ i, (pooled fun p => (g p).length)[n]? = some (p, i)
      ∧ (g p)[i]? = some x := by
  have hrel := pooled_places g
  obtain ⟨hlt, hget⟩ := List.getElem?_eq_some_iff.mp h
  have hlt' := hrel.length_eq ▸ hlt
  obtain ⟨hp, hplace⟩ := (List.forall₂_iff_get.mp hrel).2 n hlt hlt'
  rw [List.get_eq_getElem, hget] at hp hplace
  refine ⟨((pooled fun p => (g p).length)[n]).2, ?_, hplace⟩
  rw [List.getElem?_eq_getElem hlt']
  exact congrArg some (Prod.ext hp.symm rfl)

variable {sh : Sharing D E S}

/-- The rows of one set, from the inputs that have been filled. -/
theorem holds_of_pooled {columns : Fin 3 → List (TableColumn D)} {w : Nat}
    (hw : ∀ p, (columns p).length = w + 1)
    {places : Fin 3 → List (Nat × Nat)} {inputs : Fin 3 → Grid D}
    (hinputs : ∀ p, (inputs p).Shows (places p).length
      ((columns p).length + 1) (Wanted dbl (columns p) (places p))
      (Before (places p).length (columns p).length 0))
    {number : Fin 3 → Nat} {set : Samples S}
    (hset : Pooled (fun p => sh.input (number p) (inputs p)) (w + 1) set) :
    set.Holds dbl sh columns
      ((List.finRange 3).flatMap fun p => (places p).map fun x => (p, x)) := by
  have hrows : (fun p => (sh.input (number p) (inputs p)).rows)
      = fun p => (places p).length :=
    funext fun p => (hinputs p).rows_eq
  obtain ⟨hdr, hlr, hdc, hlc, hdata, hlabel⟩ := hset
  rw [hrows] at hdr hlr hdata hlabel
  rw [← (pooled_places places).length_eq] at hdr hlr
  refine ⟨hdr, hlr, fun p => hdc.trans (hw p).symm, hlc, ?_⟩
  intro n p k o hn
  -- the row is the one its party has at this place
  obtain ⟨i, hpool, hplace⟩ := exists_pooled hn
  obtain ⟨hvals, hone⟩ := row_of_shows (hw p) (hinputs p) hplace
  refine ⟨_, _, hvals, ?_, ?_⟩
  · have hentry : ∀ j ∈ List.range (w + 1),
        (sh.reveal ∘ set.data.entry n) j
          = (sh.encode ∘ (inputs p).entry i) j := by
      intro j hj
      show sh.reveal (set.data.entry n j) = _
      rw [hdata n p i j hpool (List.mem_range.mp hj)]
      exact sh.reveal_share _ _ _ _
    rw [Grid.row, hdc, List.map_map, List.map_congr_left hentry,
      List.range_succ_eq_map, List.map_cons, List.map_cons, List.map_map,
      List.map_map]
    show sh.encode ((inputs p).entry i 0) :: _ = _
    rw [hone]
    rfl
  · rw [hlabel n p i hpool]
    exact sh.reveal_share _ _ _ _

-- ============================================================ the split

/-- No column appears by taking columns away. -/
theorem mem_of_mem_kept {columnsExclude : List Str}
    {table : List (TableColumn D)} {col : TableColumn D}
    (h : col ∈ keptColumns columnsExclude table) : col ∈ table := by
  induction columnsExclude generalizing table with
  | nil => exact h
  | cons name names ih =>
      have hmem : col ∈ removeField table name := ih h
      unfold removeField at hmem
      split at hmem
      · exact List.mem_of_mem_filter hmem
      · exact hmem

/-- Every name is found where no two columns share one. -/
theorem hasField_iff_nodup :
    (∀ col ∈ columns, hasField columns col.name = true)
      ↔ (columns.map TableColumn.name).Nodup := by
  rw [List.nodup_iff_count_eq_one]
  have hcount : ∀ name, (columns.map TableColumn.name).count name
      = columns.countP fun col => col.name == name := by
    intro name
    rw [List.count_eq_countP, List.countP_map]
    rfl
  simp [hasField, hcount]

/-- The training rows of a table, where every chunk gives four fifths. -/
theorem length_trainPlaces (h : ∀ L ∈ layout, trainLength L = 4 * L / 5) :
    (placesFrom trainPart 0 layout).length
      = (layout.map fun L => 4 * L / 5).sum := by
  rw [length_placesFrom]
  refine congrArg List.sum (List.map_congr_left fun L hL => ?_)
  rw [trainPart, List.length_range, h L hL]

/-- The test rows of a table. -/
theorem length_testPlaces (h : ∀ L ∈ layout, trainLength L = 4 * L / 5) :
    (placesFrom testPart 0 layout).length
      = (layout.map fun L => L - 4 * L / 5).sum := by
  rw [length_placesFrom]
  refine congrArg List.sum (List.map_congr_left fun L hL => ?_)
  rw [testPart, List.length_range', h L hL]

variable {columnsExclude : List Str} {tables : Fin 3 → Table D}

/-- The chunks are small enough for the percentage to be exact. -/
theorem Splittable.trainLength_eq (h : Splittable columnsExclude tables)
    (p : Fin 3) : ∀ L ∈ (tables p).layout, trainLength L = 4 * L / 5 := by
  intro L hL
  -- a chunk's training rows are at most those of all parties
  have hsum : 4 * L / 5 ≤ ((tables p).layout.map fun L => 4 * L / 5).sum :=
    List.single_le_sum (fun _ _ => Nat.zero_le _) _
      (List.mem_map_of_mem hL)
  have hparty := Finset.single_le_sum
    (f := fun p => ((tables p).layout.map fun L => 4 * L / 5).sum)
    (fun _ _ => Nat.zero_le _) (Finset.mem_univ p)
  have htotal := h.train
  exact LogisticRegressionExecutor.trainLength_eq (by omega)

variable (dbl) in
/-- The input of a party is filled with its rows. -/
theorem Splittable.load (h : Splittable columnsExclude tables) (p : Fin 3)
    (memory : Nat → Nat → D) :
    ∃ s, loadDatasetById dbl memory columnsExclude (some (tables p).columns)
        = .ok (toInt32 (tables p).layout.sum, s)
      ∧ Filled dbl (keptColumns columnsExclude (tables p).columns)
        (tables p).layout
        (keptColumns columnsExclude (tables p).columns).length 0 0 s := by
  have heq := h.trainLength_eq p
  have hparty := Finset.single_le_sum
    (f := fun p => ((tables p).layout.map fun L => 4 * L / 5).sum)
    (fun _ _ => Nat.zero_le _) (Finset.mem_univ p)
  have hread : readColumns columnsExclude (tables p).columns
      = keptColumns columnsExclude (tables p).columns := by
    rw [readColumns, if_neg]
    rw [List.isEmpty_iff]
    exact h.ne_nil p
  rw [loadDatasetById, hread]
  refine loadColumns_filled (h.ne_nil p)
    (fun col hcol => (tables p).common col (mem_of_mem_kept hcol))
    (h.readable p) (hasField_iff_nodup.mpr (h.nodup p)) ?_ ?_ memory
  · intro L hL
    rw [heq L hL]
    omega
  · rw [length_trainPlaces heq]
    exact lt_of_le_of_lt hparty h.train

/-- The two parts share the rows of the tables. -/
theorem parts_perm (hle : ∀ p, ∀ L ∈ (tables p).layout, trainLength L ≤ L) :
    (((List.finRange 3).flatMap fun p =>
        (placesFrom trainPart 0 (tables p).layout).map fun x => (p, x))
      ++ (List.finRange 3).flatMap fun p =>
        (placesFrom testPart 0 (tables p).layout).map fun x => (p, x)).Perm
      (allPlaces tables) := by
  refine (List.flatMap_append_perm _ _ _).trans
    (List.Perm.flatMap_left _ fun p _ => ?_)
  rw [← List.map_append]
  -- the first rows of a chunk and its other rows are its rows
  refine List.Perm.map _ (Lib.placesFrom_perm 0 fun L hL => ?_)
  have hL' := hle p L hL
  rw [trainPart, testPart, List.range_eq_range', List.range_eq_range']
  have happend := @List.range'_append 0 (trainLength L) (L - trainLength L) 1
  rw [Nat.one_mul, Nat.zero_add, Nat.add_sub_of_le hL'] at happend
  exact List.Perm.of_eq happend

/-- The training rows of one chunk. -/
theorem countP_trainPlaces {p : Fin 3} {k L : Nat}
    (h : (tables p).layout[k]? = some L) :
    (((List.finRange 3).flatMap fun p =>
        (placesFrom trainPart 0 (tables p).layout).map fun x => (p, x)).countP
      fun i => decide ((i.1, i.2.1) = (p, k))) = trainLength L := by
  have hnodup : ((List.finRange 3).map id).Nodup := by
    rw [List.map_id]
    exact List.nodup_finRange 3
  have hcount := Lib.countP_tagged hnodup
    (fun p => placesFrom trainPart 0 (tables p).layout)
    (fun place => decide (place.1 = k)) (List.mem_finRange p)
  rw [Lib.countP_placesFrom trainPart h, trainPart, List.length_range] at hcount
  rw [← hcount]
  refine List.countP_congr fun i _ => ?_
  simp [Prod.ext_iff]

variable (dbl) in
/-- Where the condition holds, the run ends and the split is right. -/
theorem loadAndConstruct_right (sh : Sharing D E S) (memory : Nat → Nat → D)
    (memory' : Nat → Nat → S) (h : Splittable columnsExclude tables) :
    ∃ sets, loadAndConstruct dbl sh memory memory' columnsExclude
        (fun p => (tables p).columns) = .ok sets
      ∧ sets.SplitRight dbl sh columnsExclude tables := by
  choose inputs hload hfilled using fun p => h.load dbl p memory
  obtain ⟨w, hw⟩ : ∃ w, ∀ p,
      (keptColumns columnsExclude (tables p).columns).length = w + 1 := by
    obtain ⟨col, rest, hcols⟩ := List.exists_cons_of_ne_nil (h.ne_nil 0)
    refine ⟨rest.length, fun p => ?_⟩
    rw [h.width p 0, hcols]
    rfl
  -- every party loads its table
  have hinputs : traverseFin (fun p => do
      let r ← loadDatasetById dbl memory columnsExclude
        (some (tables p).columns)
      Except.ok (ε := Fault) r.2) = .ok inputs :=
    Lib.traverseFin_ok fun p => by
      rw [hload p]
      rfl
  have htrainCols : ∀ p, (inputs p).train.cols = w + 1 + 1 := fun p => by
    rw [(hfilled p).train.cols_eq, hw p]
  have htestCols : ∀ p, (inputs p).test.cols = w + 1 + 1 := fun p => by
    rw [(hfilled p).test.cols_eq, hw p]
  -- the three parties together still fit an int
  have htrainRows : (pooled fun p =>
      (sh.input p.val (inputs p).train).rows).length < 2 ^ 31 := by
    rw [length_pooled]
    show (inputs 0).train.rows + (inputs 1).train.rows + (inputs 2).train.rows
      < 2 ^ 31
    rw [(hfilled 0).train.rows_eq, (hfilled 1).train.rows_eq,
      (hfilled 2).train.rows_eq, length_trainPlaces (h.trainLength_eq 0),
      length_trainPlaces (h.trainLength_eq 1),
      length_trainPlaces (h.trainLength_eq 2)]
    have htotal := h.train
    rwa [Fin.sum_univ_three] at htotal
  have htestRows : (pooled fun p =>
      (sh.input (3 + p.val) (inputs p).test).rows).length < 2 ^ 31 := by
    rw [length_pooled]
    show (inputs 0).test.rows + (inputs 1).test.rows + (inputs 2).test.rows
      < 2 ^ 31
    rw [(hfilled 0).test.rows_eq, (hfilled 1).test.rows_eq,
      (hfilled 2).test.rows_eq, length_testPlaces (h.trainLength_eq 0),
      length_testPlaces (h.trainLength_eq 1),
      length_testPlaces (h.trainLength_eq 2)]
    have htotal := h.test
    rwa [Fin.sum_univ_three] at htotal
  -- the two sets are made of the shares in the same way
  obtain ⟨train, htrain, hptrain⟩ := constructSamples_pooled
    (fun p => sh.input p.val (inputs p).train) htrainCols htrainRows
    memory'
  obtain ⟨test, htest, hptest⟩ := constructSamples_pooled
    (fun p => sh.input (3 + p.val) (inputs p).test) htestCols
    htestRows memory'
  refine ⟨⟨train, test⟩, ?_, _, _, parts_perm ?_, ?_, ?_, ?_⟩
  -- all parties have the same columns, so no check of the widths fails
  · have hcheck : ∀ a message, checkCols a a message = .ok () :=
      fun a message => if_neg (not_not_intro rfl)
    rw [loadAndConstruct, hinputs]
    show constructShares sh memory' inputs = _
    rw [constructShares]
    simp only [Sharing.input, htrainCols, htestCols] at htrain htest ⊢
    rw [hcheck, hcheck, hcheck, hcheck, hcheck]
    show (constructSamples memory' _ >>= _) = _
    rw [htrain]
    show (constructSamples memory' _ >>= _) = _
    rw [htest]
    rfl
  · intro p L hL
    rw [h.trainLength_eq p L hL]
    omega
  · intro p k L hL
    rw [countP_trainPlaces hL]
    exact h.trainLength_eq p L (List.mem_of_getElem? hL)
  · exact holds_of_pooled hw (fun p => (hfilled p).train) hptrain
  · exact holds_of_pooled hw (fun p => (hfilled p).test) hptest

-- ================================================== what success has checked

/-- A matrix keeps its size. -/
def SameSize (g g' : Grid D) : Prop := g'.rows = g.rows ∧ g'.cols = g.cols

theorem SameSize.refl (g : Grid D) : SameSize g g := ⟨rfl, rfl⟩

theorem SameSize.trans {g₁ g₂ g₃ : Grid D} (h : SameSize g₁ g₂)
    (h' : SameSize g₂ g₃) : SameSize g₁ g₃ :=
  ⟨h'.1.trans h.1, h'.2.trans h.2⟩

/-- What is written to a chunk's rows does not change the size, and a row
had a place. -/
theorem fillTrainAndTestData_size {value : T → D} {array : List T}
    {i j c t : Nat} {s s' : Inputs D}
    (h : fillTrainAndTestData value array i j c t s = .ok s') :
    SameSize s.train s'.train ∧ (0 < t → 0 < s.train.rows) := by
  unfold fillTrainAndTestData at h
  split at h
  · cases h
  next hlen =>
    obtain ⟨train, htrain, h⟩ := bind_eq_ok_iff.mp h
    obtain ⟨test, -, h⟩ := bind_eq_ok_iff.mp h
    cases h
    refine ⟨Grid.fill_dims htrain, fun ht => Grid.rows_pos_of_fill ?_ htrain⟩
    refine List.ne_nil_of_length_pos ?_
    rw [List.length_map, List.length_take]
    omega

/-- The part of a chunk with training rows has been written. -/
theorem fillChunks_size {value : T → D} {c i j : Nat}
    {chunks : List (List T)} {each : List Nat} {s s' : Inputs D}
    (h : fillChunks value c i j chunks each s = .ok s') :
    SameSize s.train s'.train
      ∧ ((∃ t ∈ each.take chunks.length, 0 < t) → 0 < s.train.rows) := by
  induction chunks generalizing i j each s with
  | nil =>
      cases h
      refine ⟨SameSize.refl _, fun hpos => ?_⟩
      obtain ⟨t, ht, -⟩ := hpos
      exact absurd ht List.not_mem_nil
  | cons chunk chunks ih =>
      cases each with
      | nil => cases h
      | cons t each =>
          obtain ⟨s₁, hchunk, hrest⟩ := bind_eq_ok_iff.mp h
          obtain ⟨hsize, hpos⟩ := fillTrainAndTestData_size hchunk
          obtain ⟨hsize', hpos'⟩ := ih hrest
          refine ⟨hsize.trans hsize', fun hex => ?_⟩
          obtain ⟨u, hu, hupos⟩ := hex
          -- the first chunk wrote a row itself; a later one wrote to a matrix
          -- of the same size
          rcases List.mem_cons.mp hu with rfl | hu
          · exact hpos hupos
          · rw [← hsize.1]
            exact hpos' ⟨u, hu, hupos⟩

/-- A column that has been filled could be read. -/
theorem fillColumn_ok {each : List Nat} {c : Nat} {col : TableColumn D}
    {s s' : Inputs D} (h : fillColumn dbl each c col s = .ok s') :
    col.chunks.Readable ∧ SameSize s.train s'.train
      ∧ ((∃ t ∈ each.take col.chunks.lengths.length, 0 < t) →
          0 < s.train.rows) := by
  obtain ⟨name, chunks⟩ := col
  cases chunks with
  | int64 chunks =>
      obtain ⟨hsize, hpos⟩ := fillChunks_size h
      rw [← List.length_map List.length] at hpos
      exact ⟨trivial, hsize, hpos⟩
  | int32 chunks =>
      obtain ⟨hsize, hpos⟩ := fillChunks_size h
      rw [← List.length_map List.length] at hpos
      exact ⟨trivial, hsize, hpos⟩
  | double chunks =>
      obtain ⟨hsize, hpos⟩ := fillChunks_size h
      rw [← List.length_map List.length] at hpos
      exact ⟨trivial, hsize, hpos⟩
  | other typeName lengths =>
      cases lengths with
      | nil =>
          cases h
          refine ⟨rfl, SameSize.refl _, fun hpos => ?_⟩
          obtain ⟨t, ht, -⟩ := hpos
          exact absurd ht List.not_mem_nil
      | cons L lengths =>
          cases each with
          | nil => cases h
          | cons t each => cases h

/-- All columns that have been filled had unique names and could be read. -/
theorem fillColumns_ok {each : List Nat} {c : Nat}
    {rest : List (TableColumn D)} {s s' : Inputs D}
    (h : fillColumns dbl columns each c rest s = .ok s') :
    (∀ col ∈ rest, hasField columns col.name = true ∧ col.chunks.Readable
        ∧ ((∃ t ∈ each.take col.chunks.lengths.length, 0 < t) →
          0 < s.train.rows))
      ∧ SameSize s.train s'.train := by
  induction rest generalizing c s with
  | nil =>
      cases h
      exact ⟨fun _ hcol => absurd hcol List.not_mem_nil, SameSize.refl _⟩
  | cons col rest ih =>
      rw [fillColumns] at h
      split at h
      next hfield =>
        obtain ⟨s₁, hcol, hrest⟩ := bind_eq_ok_iff.mp h
        obtain ⟨hread, hsize, hpos⟩ := fillColumn_ok hcol
        obtain ⟨hall, hsize'⟩ := ih hrest
        refine ⟨fun col' hmem => ?_, hsize.trans hsize'⟩
        rcases List.mem_cons.mp hmem with rfl | hmem
        · exact ⟨hfield, hread, hpos⟩
        · obtain ⟨hfield', hread', hpos'⟩ := hall col' hmem
          exact ⟨hfield', hread', fun hex => hsize.1 ▸ hpos' hex⟩
      next => cases h

/-- An entry of column 0 does not change the size. -/
theorem fillOne_size {t j : Nat} {s s' : Inputs D}
    (h : fillOne dbl t s j = .ok s') : SameSize s.train s'.train := by
  unfold fillOne at h
  split at h
  · obtain ⟨train, htrain, h⟩ := bind_eq_ok_iff.mp h
    cases h
    exact Grid.set_dims htrain
  · obtain ⟨test, -, h⟩ := bind_eq_ok_iff.mp h
    cases h
    exact SameSize.refl _

/-- A matrix is resized to what is asked for, and never to a negative width.
-/
theorem resize_ok {memory : Nat → Nat → D} {rows cols : Int} {g : Grid D}
    (h : resize memory rows cols = .ok g) :
    g.rows = rows.toNat ∧ (g.cols : Int) = cols := by
  unfold resize at h
  split at h
  · cases h
  next hneg =>
    cases h
    exact ⟨rfl, Int.toNat_of_nonneg (by omega)⟩

/-- A table that has been loaded: its columns could be read, and its label
column has the training rows the matrix has. -/
structure Loaded (columns : List (TableColumn D)) (r : Int × Inputs D) :
    Prop where
  readable : ∀ col ∈ columns,
    hasField columns col.name = true ∧ col.chunks.Readable
  label : ∃ col ∈ columns, columns.getLast? = some col
    ∧ r.1 = toInt32 col.chunks.lengths.sum
    ∧ r.2.train.rows
      = (toInt32 (col.chunks.lengths.map trainLength).sum).toNat
    ∧ ((∃ L ∈ col.chunks.lengths, 0 < trainLength L) → 0 < r.2.train.rows)
  cols : r.2.train.cols = columns.length + 1

/-- What a successful load says of the table. -/
theorem loadColumns_ok {memory : Nat → Nat → D} {r : Int × Inputs D}
    (h : loadColumns dbl memory columns = .ok r) : Loaded columns r := by
  unfold loadColumns at h
  split at h
  · cases h
  next label hlabel =>
    have hmem : label ∈ columns := List.mem_of_getLast? hlabel
    simp only at h
    split at h
    · cases h
    · obtain ⟨train, htrain, h⟩ := bind_eq_ok_iff.mp h
      obtain ⟨test, -, h⟩ := bind_eq_ok_iff.mp h
      obtain ⟨s₀, hones, h⟩ := bind_eq_ok_iff.mp h
      obtain ⟨s, hcols, h⟩ := bind_eq_ok_iff.mp h
      cases h
      obtain ⟨hall, hsize⟩ := fillColumns_ok hcols
      -- column 0 and the others leave the sizes that resize gave
      have hones' : SameSize train s₀.train :=
        foldlM_invariant (I := fun _ s => SameSize train s.train)
          (fun _ _ _ _ _ _ hs hx => hs.trans (fillOne_size hx))
          (SameSize.refl _) hones
      obtain ⟨hrows₀, hcols₀⟩ := resize_ok htrain
      obtain ⟨hrows, hcols⟩ := hones'.trans hsize
      refine ⟨fun col hcol => ⟨(hall col hcol).1, (hall col hcol).2.1⟩,
        ⟨label, hmem, hlabel, rfl, hrows.trans hrows₀, fun hpos => ?_⟩, ?_⟩
      · obtain ⟨L, hL, hLpos⟩ := hpos
        rw [hsize.1]
        refine (hall label hmem).2.2 ⟨trainLength L, ?_, hLpos⟩
        rw [← List.length_map trainLength, List.take_length]
        exact List.mem_map_of_mem hL
      · show s.train.cols = columns.length + 1
        omega

/-- The copy of the rows does not change the size. -/
theorem copyRows_dims {shares : Fin 3 → Grid S}
    {copy : Nat → Fin 3 → Nat → Grid S → Except Fault (Grid S)}
    (hcopy : ∀ n h i m m', copy n h i m = .ok m' →
      m'.rows = m.rows ∧ m'.cols = m.cols) {m m' : Grid S}
    (h : copyRows shares copy m = .ok m') :
    m'.rows = m.rows ∧ m'.cols = m.cols := by
  obtain ⟨r, hr, h⟩ := bind_eq_ok_iff.mp h
  cases h
  refine foldlM_invariant
    (I := fun _ acc => acc.2.rows = m.rows ∧ acc.2.cols = m.cols)
    (fun _ h _ acc acc' _ hacc hinner => ?_) ⟨rfl, rfl⟩ hr
  refine foldlM_invariant
    (I := fun _ acc => acc.2.rows = m.rows ∧ acc.2.cols = m.cols)
    (fun _ i _ acc acc' _ hacc hx => ?_) hacc hinner
  obtain ⟨m₁, hm₁, hx⟩ := bind_eq_ok_iff.mp hx
  cases hx
  obtain ⟨hrows, hcols⟩ := hcopy _ _ _ _ _ hm₁
  exact ⟨hrows.trans hacc.1, hcols.trans hacc.2⟩

/-- A loop that has copied a row had a place for it. -/
theorem copyRows_pos {shares : Fin 3 → Grid S}
    {copy : Nat → Fin 3 → Nat → Grid S → Except Fault (Grid S)}
    (hcopy : ∀ n h i m m', copy n h i m = .ok m' → 0 < m.rows) {m m' : Grid S}
    (h : copyRows shares copy m = .ok m') (hrows : ∃ h, 0 < (shares h).rows) :
    0 < m.rows := by
  have hmem : ∃ x, x ∈ pooled fun h => (shares h).rows := by
    obtain ⟨p, hp⟩ := hrows
    exact ⟨(p, 0), List.mem_flatMap.mpr ⟨p, List.mem_finRange p,
      List.mem_map_of_mem (List.mem_range.mpr hp)⟩⟩
  obtain ⟨r, hr, -⟩ := bind_eq_ok_iff.mp h
  -- the first row in the order of the loop has been copied
  rw [Lib.foldlM_nested (fun (acc : Nat × Grid S) h i => do
    let m ← copy acc.1 h i acc.2
    .ok (acc.1 + 1, m))] at hr
  obtain ⟨x, hx⟩ := hmem
  have hne : (pooled fun h => (shares h).rows) ≠ [] :=
    List.ne_nil_of_mem hx
  unfold pooled at hne
  obtain ⟨y, rest, hcons⟩ := List.exists_cons_of_ne_nil hne
  rw [hcons, List.foldlM_cons] at hr
  obtain ⟨acc, hfirst, -⟩ := bind_eq_ok_iff.mp hr
  obtain ⟨m₁, hm₁, -⟩ := bind_eq_ok_iff.mp hfirst
  exact hcopy _ _ _ _ _ hm₁

/-- The sizes of one set. -/
structure SizesOf (shares : Fin 3 → Grid S) (set : Samples S) : Prop where
  dataRows : set.data.rows
    = (toInt32 ((shares 0).rows + (shares 1).rows + (shares 2).rows)).toNat
  labelRows : set.label.rows = set.data.rows
  dataCols : set.data.cols = (shares 0).cols - 1
  labelCols : set.label.cols = 1
  pos : (∃ h, 0 < (shares h).rows) → 0 < set.data.rows

/-- The number of rows went through an `int`. -/
theorem SizesOf.lt {shares : Fin 3 → Grid S} {set : Samples S}
    (h : SizesOf shares set) : set.data.rows < 2 ^ 31 := by
  have hlt := toInt32_lt
    ((shares 0).rows + (shares 1).rows + (shares 2).rows)
  rw [h.dataRows]
  omega

/-- The sizes of a set that has been made. -/
theorem constructSamples_sizes {memory : Nat → Nat → S}
    {shares : Fin 3 → Grid S} {set : Samples S}
    (h : constructSamples memory shares = .ok set) : SizesOf shares set := by
  obtain ⟨data, hdata, h⟩ := bind_eq_ok_iff.mp h
  obtain ⟨label, hlabel, h⟩ := bind_eq_ok_iff.mp h
  obtain ⟨data', hdata', h⟩ := bind_eq_ok_iff.mp h
  obtain ⟨label', hlabel', h⟩ := bind_eq_ok_iff.mp h
  cases h
  have hfeatures : ∀ n h i m m', copyFeatures shares n h i m = .ok m' →
      m'.rows = m.rows ∧ m'.cols = m.cols := by
    intro n h i m m' hm
    refine foldlM_invariant
      (I := fun _ (g : Grid S) => g.rows = m.rows ∧ g.cols = m.cols)
      (fun _ _ _ g g' _ hg hset => ?_) ⟨rfl, rfl⟩ hm
    obtain ⟨hrows, hcols⟩ := Grid.set_dims hset
    exact ⟨hrows.trans hg.1, hcols.trans hg.2⟩
  obtain ⟨hrows, hcols⟩ := copyRows_dims hfeatures hdata'
  obtain ⟨hlrows, hlcols⟩ :=
    copyRows_dims (fun _ _ _ _ _ hset => Grid.set_dims hset) hlabel'
  obtain ⟨hrows₀, hcols₀⟩ := resize_ok hdata
  obtain ⟨hlrows₀, hlcols₀⟩ := resize_ok hlabel
  refine ⟨hrows.trans hrows₀, ?_, ?_, ?_, fun hpos => ?_⟩
  · show label'.rows = data'.rows
    rw [hlrows, hlrows₀, hrows, hrows₀]
  · show data'.cols = _
    omega
  · show label'.cols = 1
    omega
  · have hlabelPos := copyRows_pos
      (fun _ _ _ _ _ hset => Grid.rows_pos_of_set hset) hlabel' hpos
    show 0 < data'.rows
    rwa [hrows, hrows₀, ← hlrows₀]

/-- The sizes of both sets. -/
theorem constructShares_ok {memory : Nat → Nat → S} {inputs : Fin 3 → Inputs D}
    {sets : DataSets S} (h : constructShares sh memory inputs = .ok sets) :
    SizesOf (fun p => sh.input p.val (inputs p).train) sets.train
      ∧ SizesOf (fun p => sh.input (3 + p.val) (inputs p).test) sets.test := by
  obtain ⟨_, -, h⟩ := bind_eq_ok_iff.mp h
  obtain ⟨_, -, h⟩ := bind_eq_ok_iff.mp h
  obtain ⟨train, htrain, h⟩ := bind_eq_ok_iff.mp h
  obtain ⟨_, -, h⟩ := bind_eq_ok_iff.mp h
  obtain ⟨_, -, h⟩ := bind_eq_ok_iff.mp h
  obtain ⟨_, -, h⟩ := bind_eq_ok_iff.mp h
  obtain ⟨test, htest, h⟩ := bind_eq_ok_iff.mp h
  cases h
  exact ⟨constructSamples_sizes htrain, constructSamples_sizes htest⟩

-- ============================================================ the counts

/-- The chunks of all parties. -/
theorem sum_chunks (f : Fin 3 × Nat → Nat) (g : Nat → Nat)
    (h : ∀ p k L, (tables p).layout[k]? = some L → f (p, k) = g L) :
    ((pooled fun p => (tables p).layout.length).map f).sum
      = ∑ p, ((tables p).layout.map g).sum := by
  -- party by party, the chunks are numbered in the order of the layout
  have hparty : ∀ p, ((List.range (tables p).layout.length).map
      fun k => f (p, k)) = (tables p).layout.map g := by
    intro p
    refine List.ext_getElem (by simp) fun k hk _ => ?_
    rw [List.length_map, List.length_range] at hk
    rw [List.getElem_map, List.getElem_map, List.getElem_range]
    exact h p k _ (List.getElem?_eq_getElem hk)
  unfold pooled
  rw [List.map_flatMap, List.flatMap_def, List.sum_flatten, List.map_map,
    ← List.sum_ofFn, List.ofFn_eq_map]
  refine congrArg List.sum (List.map_congr_left fun p _ => ?_)
  rw [← hparty p]
  show (((List.range _).map fun i => (p, i)).map f).sum = _
  rw [List.map_map]
  rfl

/-- No row twice. -/
theorem nodup_pooled (rows : Fin 3 → Nat) : (pooled rows).Nodup := by
  unfold pooled
  rw [List.nodup_flatMap]
  refine ⟨fun p _ => List.nodup_range.map fun i j hij => (Prod.ext_iff.mp hij).2,
    (List.nodup_finRange 3).imp fun hpq => ?_⟩
  intro x hx hx'
  obtain ⟨i, -, rfl⟩ := List.mem_map.mp hx
  obtain ⟨j, -, hj⟩ := List.mem_map.mp hx'
  exact hpq (Prod.ext_iff.mp hj).1.symm

/-- A place lies in one of its party's chunks. -/
theorem mem_allPlaces {p : Fin 3} {k o : Nat}
    (h : (p, k, o) ∈ allPlaces tables) : k < (tables p).layout.length := by
  obtain ⟨q, -, h⟩ := List.mem_flatMap.mp h
  obtain ⟨place, hplace, heq⟩ := List.mem_map.mp h
  cases heq
  obtain ⟨c, hc, hplace⟩ := List.mem_flatMap.mp hplace
  obtain ⟨o', -, heq⟩ := List.mem_map.mp hplace
  cases heq
  exact List.snd_lt_of_mem_zipIdx hc

/-- As many places as rows. -/
theorem length_allPlaces :
    (allPlaces tables).length = ∑ p, (tables p).layout.sum := by
  unfold allPlaces
  rw [List.length_flatMap, ← List.sum_ofFn, List.ofFn_eq_map]
  refine congrArg List.sum (List.map_congr_left fun p _ => ?_)
  rw [List.length_map]
  show (placesFrom List.range 0 (tables p).layout).length = _
  rw [length_placesFrom]
  simp

/-- A right split has four fifths of every chunk and the rest. -/
theorem DataSets.SplitRight.counts {sets : DataSets S}
    (h : sets.SplitRight dbl sh columnsExclude tables) :
    sets.train.data.rows
        = ∑ p, ((tables p).layout.map fun L => 4 * L / 5).sum
      ∧ sets.test.data.rows
        = ∑ p, ((tables p).layout.map fun L => L - 4 * L / 5).sum := by
  obtain ⟨trainPlaces, testPlaces, hperm, hcount, htrain, htest⟩ := h
  -- every training row lies in a chunk, so counting chunk by chunk misses none
  have hmem : ∀ i ∈ trainPlaces,
      (i.1, i.2.1) ∈ pooled fun p => (tables p).layout.length := by
    intro i hi
    have hall := hperm.mem_iff.mp (List.mem_append_left testPlaces hi)
    exact List.mem_flatMap.mpr ⟨i.1, List.mem_finRange _,
      List.mem_map_of_mem (List.mem_range.mpr (mem_allPlaces hall))⟩
  have htrainLen : trainPlaces.length
      = ∑ p, ((tables p).layout.map fun L => 4 * L / 5).sum := by
    rw [Lib.length_eq_sum_countP (nodup_pooled _) hmem]
    exact sum_chunks _ _ hcount
  have hsum : ∑ p, (tables p).layout.sum
      = ∑ p, ((tables p).layout.map fun L => 4 * L / 5).sum
        + ∑ p, ((tables p).layout.map fun L => L - 4 * L / 5).sum := by
    rw [← Finset.sum_add_distrib]
    refine Finset.sum_congr rfl fun p _ => ?_
    rw [← List.sum_map_add]
    have hid : (tables p).layout.map (fun L => 4 * L / 5 + (L - 4 * L / 5))
        = (tables p).layout := by
      refine (List.map_congr_left fun L _ => ?_).trans (List.map_id _)
      show _ = L
      omega
    rw [hid]
  -- the test rows are the rest
  have hlength := hperm.length_eq
  rw [List.length_append, length_allPlaces, hsum, htrainLen] at hlength
  exact ⟨htrain.dataRows.trans htrainLen,
    htest.dataRows.trans (Nat.add_left_cancel hlength)⟩

/-- A right split shows what the run has checked and what the counts are. -/
theorem splittable_of_right {memory : Nat → Nat → D} {memory' : Nat → Nat → S}
    {sets : DataSets S}
    (hok : loadAndConstruct dbl sh memory memory' columnsExclude
      (fun p => (tables p).columns) = .ok sets)
    (h : sets.SplitRight dbl sh columnsExclude tables) :
    Splittable columnsExclude tables := by
  -- no party failed, for the run did not
  have hrun : ∀ p, ∃ r, loadColumns dbl memory
      (readColumns columnsExclude (tables p).columns) = .ok r := by
    intro p
    cases hr : loadColumns dbl memory
      (readColumns columnsExclude (tables p).columns) with
    | ok r => exact ⟨r, rfl⟩
    | error e =>
        obtain ⟨e', he'⟩ := Lib.traverseFin_error (i := p) (e := e)
          (f := fun p => do
            let r ← loadDatasetById dbl memory columnsExclude
              (some (tables p).columns)
            Except.ok (ε := Fault) r.2) (by
              rw [loadDatasetById, hr]
              rfl)
        rw [loadAndConstruct, he'] at hok
        cases hok
  choose r hr using hrun
  have hinputs : traverseFin (fun p => do
      let r ← loadDatasetById dbl memory columnsExclude
        (some (tables p).columns)
      Except.ok (ε := Fault) r.2) = .ok fun p => (r p).2 :=
    Lib.traverseFin_ok fun p => by
      rw [loadDatasetById, hr p]
      rfl
  rw [loadAndConstruct, hinputs] at hok
  have hshares : constructShares sh memory' (fun p => (r p).2) = .ok sets :=
    hok
  obtain ⟨htrain, htest⟩ := constructShares_ok hshares
  obtain ⟨hcountTrain, hcountTest⟩ := h.counts
  obtain ⟨trainPlaces, testPlaces, -, -, hholds, -⟩ := h
  have hwidth := hholds.dataCols
  -- without a column the set would have no feature, but a table was loaded
  have hne : ∀ p, keptColumns columnsExclude (tables p).columns ≠ [] := by
    intro p hnil
    have hzero := hwidth p
    rw [hnil] at hzero
    obtain ⟨-, hlabel, hloaded⟩ := loadColumns_ok (hr 0)
    obtain ⟨label, hmem, -⟩ := hlabel
    have hpos := List.length_pos_of_mem hmem
    have hcols : sets.train.data.cols = (r 0).2.train.cols - 1 :=
      htrain.dataCols
    rw [hcols, hloaded, List.length_nil] at hzero
    omega
  have hread : ∀ p, readColumns columnsExclude (tables p).columns
      = keptColumns columnsExclude (tables p).columns := by
    intro p
    rw [readColumns, if_neg]
    rw [List.isEmpty_iff]
    exact hne p
  have hall := fun p => (loadColumns_ok (hr p)).readable
  simp only [hread] at hall
  exact {
    ne_nil := hne
    nodup := fun p =>
      hasField_iff_nodup.mp fun col hcol => (hall p col hcol).1
    readable := fun p col hcol => (hall p col hcol).2
    width := fun p q => (hwidth p).symm.trans (hwidth q)
    train := hcountTrain ▸ htrain.lt
    test := hcountTest ▸ htest.lt }

/-- The split is right where the columns can be read and the counts of
training and of test rows fit an `int`. -/
theorem loadAndConstruct_split_iff (dbl : Doubles D) (sh : Sharing D E S)
    (memory : Nat → Nat → D) (memory' : Nat → Nat → S)
    (columnsExclude : List Str) (tables : Fin 3 → Table D) :
    (∃ sets, loadAndConstruct dbl sh memory memory' columnsExclude
        (fun p => (tables p).columns) = .ok sets
      ∧ sets.SplitRight dbl sh columnsExclude tables)
      ↔ Splittable columnsExclude tables := by
  constructor
  · intro h
    obtain ⟨sets, hok, hright⟩ := h
    exact splittable_of_right hok hright
  · exact loadAndConstruct_right dbl sh memory memory'

/-- A table of one column of zeros in one chunk. -/
def zeros (n : Nat) : Table Int where
  columns := [⟨text "y", .int64 [List.replicate n 0]⟩]
  layout := [n]
  common := by
    intro col hcol
    rw [List.mem_singleton.mp hcol]
    show [(List.replicate n (0 : I64)).length] = [n]
    rw [List.length_replicate]

/-- Doubles and fixed-point numbers that are integers, shared in the clear. -/
def intDoubles : Doubles Int := ⟨BitVec.toInt, BitVec.toInt⟩

/-- The input itself is every party's share. -/
def clearSharing : Sharing Int Int Int :=
  ⟨id, id, fun _ _ _ d => d, fun _ _ _ _ => rfl⟩

/-- Three parties that have 2^30 rows each: their training rows are more
than an `int` counts. -/
theorem not_loadAndConstruct_split_large :
    ¬∃ sets, loadAndConstruct intDoubles clearSharing (fun _ _ => 0)
        (fun _ _ => 0) [] (fun _ => (zeros (2 ^ 30)).columns) = .ok sets
      ∧ sets.SplitRight intDoubles clearSharing []
        (fun _ => zeros (2 ^ 30)) := by
  intro h
  obtain ⟨sets, hok, hright⟩ := h
  have htrain := (splittable_of_right hok hright).train
  rw [Fin.sum_univ_three] at htrain
  exact absurd htrain (by decide)

end PrimiHub.Algorithm.LogisticRegressionExecutor
