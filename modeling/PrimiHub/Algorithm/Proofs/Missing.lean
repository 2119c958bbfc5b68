/-
The value that replaces missing cells.

# One comparison

Where the difference of the two compared values fits in int64, the larger
(smaller) one goes on; where it does not, the other one does
(`toInt_larger`, `toInt_smaller`). So the tournament is decided by which
of its two differences fit.

# What goes in

What a party brings is the extreme of what it counts, or the start value.
That is the extreme of its entries unless a placeholder 0 lies beyond all
of them (`acc_of_none`, `acc_of_placeholder`). With three such values the
rest is integer arithmetic.
-/
import Mathlib.Tactic.SplitIfs
import PrimiHub.Aby3.Proofs.Compare
import PrimiHub.Algorithm.Missing

namespace PrimiHub.Algorithm

open Aby3

-- =========================================================== one comparison

/-- What goes on to the next round of MAX, and of MIN. -/
def larger (x y : I64) : I64 := if mpcLess x y then y else x

def smaller (x y : I64) : I64 := if mpcLess x y then x else y

theorem toInt_larger (x y : I64) :
    (larger x y).toInt
      = if Fits x y then max x.toInt y.toInt else min x.toInt y.toInt := by
  unfold larger mpcLess
  by_cases h : Fits x y
  · rw [msb_of_fits h, if_pos h]
    by_cases hlt : x.toInt < y.toInt
    · rw [if_pos (by simpa using hlt)]
      omega
    · rw [if_neg (by simpa using hlt)]
      omega
  · rw [msb_of_not_fits h, if_neg h]
    by_cases hlt : y.toInt < x.toInt
    · rw [if_pos (by simpa using hlt)]
      omega
    · rw [if_neg (by simpa using hlt)]
      omega

theorem toInt_smaller (x y : I64) :
    (smaller x y).toInt
      = if Fits x y then min x.toInt y.toInt else max x.toInt y.toInt := by
  -- the one that does not go on in MAX
  have h := toInt_larger x y
  unfold larger at h
  unfold smaller
  by_cases hless : mpcLess x y = true
  · rw [if_pos hless] at h ⊢
    split_ifs at h ⊢ <;> omega
  · rw [if_neg hless] at h ⊢
    split_ifs at h ⊢ <;> omega

/-- The branches are two rounds. -/
theorem maxFlag_eq (m : Fin 3 → I64) :
    m (maxFlag m) = larger (larger (m 0) (m 1)) (m 2) := by
  unfold maxFlag larger
  by_cases h01 : mpcLess (m 0) (m 1) = true
  · by_cases h12 : mpcLess (m 1) (m 2) = true <;> simp [h01, h12]
  · by_cases h02 : mpcLess (m 0) (m 2) = true <;> simp [h01, h02]

theorem minFlag_eq (m : Fin 3 → I64) :
    m (minFlag m) = smaller (smaller (m 0) (m 1)) (m 2) := by
  unfold minFlag smaller
  by_cases h01 : mpcLess (m 0) (m 1) = true
  · by_cases h02 : mpcLess (m 0) (m 2) = true <;> simp [h01, h02]
  · by_cases h12 : mpcLess (m 1) (m 2) = true <;> simp [h01, h12]

/-- The bit is the one the three parties get from `MPC_Compare` on
matrices of one element, once they have each other's shapes. -/
theorem mpcLess_spec (lib : BinLib) {p q : Fin 3} (hpq : p < q) (x y : I64)
    {shapes : Fin 3 → List Shape}
    (hshapes : ∀ i, shapes i
      = [announced (twoValues p q (oneElement x) (oneElement y)) 0,
        announced (twoValues p q (oneElement x) (oneElement y)) 1,
        announced (twoValues p q (oneElement x) (oneElement y)) 2]) :
    mpcCompare lib (twoValues p q (oneElement x) (oneElement y)) shapes
      = .ok (jointPlan p q (oneElement x), [mpcLess x y]) := by
  have hshape : (oneElement x).shape = (oneElement y).shape := rfl
  exact mpcCompare_of_lt lib hpq hshape (by simp [oneElement]) hshapes
    (by simp [oneElement])

-- ============================================================ accumulators

/-- The best of some values by a measure: an entry none of them exceeds. -/
def IsBest (f : I64 → Int) (values : List I64) (v : I64) : Prop :=
  v ∈ values ∧ ∀ u ∈ values, f u ≤ f v

/-- What an accumulator has at the end: the best value, or its start. -/
structure Accumulated (f : I64 → Int) (start : I64) (values : List I64)
    (m : I64) : Prop where
  mem : m = start ∨ m ∈ values
  le : ∀ v ∈ values, f v ≤ f m

/-- The accumulator loop. -/
theorem foldl_accumulated (f : I64 → Int) (values : List I64) (start : I64) :
    let m := values.foldl (fun m v => if f m < f v then v else m) start
    f start ≤ f m ∧ Accumulated f start values m := by
  induction values generalizing start with
  | nil => exact ⟨Int.le_refl _, Or.inl rfl, by simp⟩
  | cons u values ih =>
      obtain ⟨hstart, hmem, hall⟩ := ih (if f start < f u then u else start)
      dsimp only [List.foldl_cons] at *
      refine ⟨?_, ?_, ?_⟩
      · split_ifs at hstart ⊢ <;> omega
      · rcases hmem with hmem | hmem
        · rw [hmem]
          split_ifs
          · exact Or.inr (List.mem_cons_self ..)
          · exact Or.inl rfl
        · exact Or.inr (List.mem_cons_of_mem _ hmem)
      · intro v hv
        rcases List.mem_cons.1 hv with rfl | hv
        · split_ifs at hstart ⊢ <;> omega
        · exact hall v hv

theorem accumulated_intMax (values : List I64) :
    Accumulated BitVec.toInt (BitVec.intMin 64) values (intMax values) :=
  (foldl_accumulated BitVec.toInt values (BitVec.intMin 64)).2

theorem accumulated_intMin (values : List I64) :
    Accumulated (fun v => -v.toInt) (BitVec.intMax 64) values
      (intMin values) := by
  have h := (foldl_accumulated (fun v => -v.toInt) values
    (BitVec.intMax 64)).2
  simp only [Int.neg_lt_neg_iff] at h
  exact h

/-- LONG_MIN and LONG_MAX are where nothing is worse. -/
theorem le_of_intMin (v : I64) : (BitVec.intMin 64).toInt ≤ v.toInt := by
  have hmin : (BitVec.intMin 64).toInt = -2 ^ 63 := by decide
  have := BitVec.le_toInt v
  omega

theorem le_of_intMax (v : I64) : -(BitVec.intMax 64).toInt ≤ -v.toInt := by
  have hmax : (BitVec.intMax 64).toInt = 2 ^ 63 - 1 := by decide
  have := BitVec.toInt_lt (x := v)
  omega

-- ================================================================ counting

theorem mem_present {c : MissingColumn} {v : I64} :
    v ∈ c.present ↔ .value v ∈ c.cells := by
  unfold MissingColumn.present
  rw [List.mem_filterMap]
  constructor
  · intro h
    obtain ⟨cell, hcell, hv⟩ := h
    cases cell <;> cases hv
    exact hcell
  · intro hcell
    exact ⟨.value v, hcell, rfl⟩

/-- Every entry is counted, and besides them only placeholders. -/
theorem mem_counted {dtype : IntDtype} {c : MissingColumn} {v : I64} :
    v ∈ c.counted dtype
      ↔ v ∈ c.present ∨ (v = 0 ∧ CountsPlaceholder dtype c) := by
  unfold MissingColumn.counted CountsPlaceholder
  by_cases hdb : c.useDb = true
  · rw [if_pos hdb, List.mem_filterMap, mem_present]
    constructor
    · intro h
      obtain ⟨cell, hcell, hv⟩ := h
      cases cell with
      | value u =>
          cases hv
          exact Or.inl hcell
      | abnormal =>
          cases hv
          exact Or.inr ⟨rfl, hdb, Or.inl hcell⟩
      | null =>
          cases dtype with
          | integer =>
              cases hv
              exact Or.inr ⟨rfl, hdb, Or.inr ⟨hcell, rfl⟩⟩
          | long => cases hv
    · intro h
      obtain hcell | ⟨rfl, -, hcell | ⟨hcell, rfl⟩⟩ := h
      · exact ⟨.value v, hcell, rfl⟩
      · exact ⟨.abnormal, hcell, rfl⟩
      · exact ⟨.null, hcell, rfl⟩
  · rw [if_neg hdb]
    simp [hdb]

theorem mem_allPresent {columns : Fin 3 → MissingColumn} {v : I64} :
    v ∈ allPresent columns ↔ ∃ i, v ∈ (columns i).present := by
  unfold allPresent
  rw [List.mem_append, List.mem_append]
  constructor
  · rintro ((h | h) | h)
    · exact ⟨0, h⟩
    · exact ⟨1, h⟩
    · exact ⟨2, h⟩
  · intro hc
    obtain ⟨i, h⟩ := hc
    match i with
    | 0 => exact Or.inl (Or.inl h)
    | 1 => exact Or.inl (Or.inr h)
    | 2 => exact Or.inr h

section Extremes

variable {f : I64 → Int} {start : I64} {dtype : IntDtype}
  {columns : Fin 3 → MissingColumn} {acc : Fin 3 → I64} {M : I64}

/-- A list that is not empty has a best value. -/
theorem exists_isBest {values : List I64} (f : I64 → Int) (h : values ≠ []) :
    ∃ v, IsBest f values v := by
  cases values with
  | nil => exact absurd rfl h
  | cons u values =>
      obtain ⟨hstart, hmem, hall⟩ := foldl_accumulated f values u
      generalize values.foldl _ u = m at hstart hmem hall
      refine ⟨m, ?_, ?_⟩
      · rcases hmem with hmem | hmem
        · rw [hmem]
          exact List.mem_cons_self ..
        · exact List.mem_cons_of_mem _ hmem
      · intro v hv
        rcases List.mem_cons.1 hv with rfl | hv
        · exact hstart
        · exact hall v hv

/-- A value is the best if it is as good as the best. -/
theorem isBest_iff (hinj : ∀ {u v}, f u = f v → u = v) {values : List I64}
    (hM : IsBest f values M) (v : I64) :
    IsBest f values v ↔ f v = f M := by
  constructor
  · intro h
    obtain ⟨hmem, hall⟩ := h
    have := hall M hM.1
    have := hM.2 v hmem
    omega
  · intro heq
    rw [hinj heq]
    exact hM

/-- The parties bring the best entry, and nothing better, unless a
placeholder is. -/
theorem acc_of_none (hstart : ∀ v, f start ≤ f v) (hzero : f 0 = 0)
    (hacc : ∀ i, Accumulated f start ((columns i).counted dtype) (acc i))
    (hM : IsBest f (allPresent columns) M)
    (hnone : (∀ i, ¬CountsPlaceholder dtype (columns i))
      ∨ ∃ v ∈ allPresent columns, 0 ≤ f v) :
    (∀ i, f (acc i) ≤ f M) ∧ ∃ i, f (acc i) = f M := by
  have hle : ∀ i, f (acc i) ≤ f M := by
    intro i
    rcases (hacc i).mem with heq | hmem
    · rw [heq]
      exact hstart M
    · rcases mem_counted.1 hmem with hmem | ⟨heq, hplace⟩
      · exact hM.2 _ (mem_allPresent.2 ⟨i, hmem⟩)
      · rcases hnone with hnone | ⟨v, hv, hge⟩
        · exact absurd hplace (hnone i)
        · have := hM.2 v hv
          rw [heq, hzero]
          exact Int.le_trans hge this
  refine ⟨hle, ?_⟩
  obtain ⟨i, hi⟩ := mem_allPresent.1 hM.1
  have hge := (hacc i).le M (mem_counted.2 (Or.inl hi))
  exact ⟨i, by have := hle i; omega⟩

/-- Otherwise the best value they bring is the placeholder. -/
theorem acc_of_placeholder (hstart : ∀ v, f start ≤ f v) (hzero : f 0 = 0)
    (hacc : ∀ i, Accumulated f start ((columns i).counted dtype) (acc i))
    (hM : IsBest f (allPresent columns) M)
    (hplace : ¬((∀ i, ¬CountsPlaceholder dtype (columns i))
      ∨ ∃ v ∈ allPresent columns, 0 ≤ f v)) :
    f M < 0 ∧ (∀ i, f (acc i) ≤ 0) ∧ ∃ i, f (acc i) = 0 := by
  have hneg : ∀ v ∈ allPresent columns, f v < 0 := by
    intro v hv
    by_contra hge
    exact hplace (Or.inr ⟨v, hv, by omega⟩)
  have hle : ∀ i, f (acc i) ≤ 0 := by
    intro i
    rcases (hacc i).mem with heq | hmem
    · rw [heq, ← hzero]
      exact hstart 0
    · rcases mem_counted.1 hmem with hmem | ⟨heq, -⟩
      · have := hneg _ (mem_allPresent.2 ⟨i, hmem⟩)
        omega
      · rw [heq, hzero]
  refine ⟨hneg M hM.1, hle, ?_⟩
  have hsome : ∃ i, CountsPlaceholder dtype (columns i) := by
    by_contra hnone
    exact hplace (Or.inl fun i h => hnone ⟨i, h⟩)
  obtain ⟨i, hi⟩ := hsome
  have hge := (hacc i).le 0 (mem_counted.2 (Or.inr ⟨rfl, hi⟩))
  exact ⟨i, by have := hle i; omega⟩

end Extremes

-- ================================================================ results

/-- One of three. -/
theorem exists_fin_three {P : Fin 3 → Prop} (h : ∃ i, P i) :
    P 0 ∨ P 1 ∨ P 2 := by
  obtain ⟨i, hi⟩ := h
  match i with
  | 0 => exact Or.inl hi
  | 1 => exact Or.inr (Or.inl hi)
  | 2 => exact Or.inr (Or.inr hi)

theorem toInt_zero : (0 : I64).toInt = 0 := by decide

theorem toInt_intMin : (BitVec.intMin 64).toInt = -2 ^ 63 := by decide

/-- The arithmetic of the MAX branch, with no placeholder above the
entries: the largest of the three values is `M`. -/
theorem larger_larger_iff {x y z : I64} {M : Int} (hx : x.toInt ≤ M)
    (hy : y.toInt ≤ M) (hz : z.toInt ≤ M)
    (hM : x.toInt = M ∨ y.toInt = M ∨ z.toInt = M) :
    (larger (larger x y) z).toInt = M
      ↔ (Fits x y ∧ Fits (if x.toInt < y.toInt then y else x) z)
        ∨ (x.toInt - y.toInt = 2 ^ 63 ∧ z = x) := by
  have hw := toInt_larger x y
  rw [toInt_larger, ← BitVec.toInt_inj]
  have hmax : (if x.toInt < y.toInt then y else x).toInt
      = max x.toInt y.toInt := by
    split_ifs <;> omega
  unfold Fits at *
  rw [hmax]
  split_ifs at hw ⊢ <;> omega

/-- The same with a placeholder above the entries. -/
theorem larger_larger_zero_iff {x y z : I64} {M : Int} (hx : x.toInt ≤ 0)
    (hy : y.toInt ≤ 0) (hz : z.toInt ≤ 0)
    (hzero : x.toInt = 0 ∨ y.toInt = 0 ∨ z.toInt = 0) (hM : M < 0) :
    (larger (larger x y) z).toInt = M
      ↔ (x = 0 ∧ y = BitVec.intMin 64 ∧ z.toInt = M)
        ∨ (¬(x = 0 ∧ y = BitVec.intMin 64) ∧ (x = 0 ∨ y = 0)
          ∧ z = BitVec.intMin 64 ∧ z.toInt = M) := by
  have hw := toInt_larger x y
  have hx' := BitVec.le_toInt x
  have hy' := BitVec.le_toInt y
  have hz' := BitVec.le_toInt z
  rw [toInt_larger]
  simp only [← BitVec.toInt_inj, toInt_zero, toInt_intMin]
  unfold Fits at *
  split_ifs at hw ⊢ <;> omega

theorem intColMax_iff {dtype : IntDtype} {columns : Fin 3 → MissingColumn}
    (hsome : allPresent columns ≠ []) :
    IsMaximum (allPresent columns) (intColMax dtype columns)
      ↔ MaxCondition dtype columns := by
  obtain ⟨M, hM⟩ := exists_isBest BitVec.toInt hsome
  have hmax : ∀ v, IsMaximum (allPresent columns) v ↔ v.toInt = M.toInt :=
    isBest_iff (fun h => BitVec.toInt_inj.1 h) hM
  have hacc := fun i => accumulated_intMax ((columns i).counted dtype)
  rw [hmax, intColMax]
  dsimp only
  rw [maxFlag_eq fun i => intMax ((columns i).counted dtype)]
  unfold MaxCondition
  by_cases hnone : NoneAbove dtype columns
  · obtain ⟨hle, hex⟩ := acc_of_none le_of_intMin toInt_zero hacc hM hnone
    rw [larger_larger_iff (hle 0) (hle 1) (hle 2) (exists_fin_three hex)]
    simp [hnone]
  · obtain ⟨hneg, hle, hex⟩ :=
      acc_of_placeholder le_of_intMin toInt_zero hacc hM hnone
    rw [larger_larger_zero_iff (hle 0) (hle 1) (hle 2) (exists_fin_three hex)
      hneg]
    simp [hnone, hmax]

/-- The arithmetic of the MIN branch. Here the wrong choice of the first
round always shows. -/
theorem smaller_smaller_iff {x y z : I64} {M : Int} (hx : M ≤ x.toInt)
    (hy : M ≤ y.toInt) (hz : M ≤ z.toInt)
    (hM : x.toInt = M ∨ y.toInt = M ∨ z.toInt = M) :
    (smaller (smaller x y) z).toInt = M
      ↔ Fits x y ∧ Fits (if x.toInt < y.toInt then x else y) z := by
  have hw := toInt_smaller x y
  rw [toInt_smaller]
  have hmin : (if x.toInt < y.toInt then x else y).toInt
      = min x.toInt y.toInt := by
    split_ifs <;> omega
  unfold Fits at *
  rw [hmin]
  split_ifs at hw ⊢ <;> omega

/-- And a placeholder below the entries always wins. -/
theorem smaller_smaller_zero {x y z : I64} (hx : 0 ≤ x.toInt)
    (hy : 0 ≤ y.toInt) (hz : 0 ≤ z.toInt)
    (hzero : x.toInt = 0 ∨ y.toInt = 0 ∨ z.toInt = 0) :
    (smaller (smaller x y) z).toInt = 0 := by
  have hw := toInt_smaller x y
  have hx' := BitVec.toInt_lt (x := x)
  have hy' := BitVec.toInt_lt (x := y)
  have hz' := BitVec.toInt_lt (x := z)
  rw [toInt_smaller]
  unfold Fits at *
  split_ifs at hw ⊢ <;> omega

theorem intColMin_iff {dtype : IntDtype} {columns : Fin 3 → MissingColumn}
    (hsome : allPresent columns ≠ []) :
    IsMinimum (allPresent columns) (intColMin dtype columns)
      ↔ MinCondition dtype columns := by
  obtain ⟨M, hM⟩ := exists_isBest (fun v => -v.toInt) hsome
  have hmin : IsMinimum (allPresent columns) (intColMin dtype columns)
      ↔ (intColMin dtype columns).toInt = M.toInt := by
    rw [← Int.neg_inj, ← isBest_iff (f := fun v => -v.toInt)
      (fun h => BitVec.toInt_inj.1 (Int.neg_inj.1 h)) hM]
    simp only [IsMinimum, IsBest, Int.neg_le_neg_iff]
  have hacc := fun i => accumulated_intMin ((columns i).counted dtype)
  have hzero : -(0 : I64).toInt = 0 := by decide
  have hbelow : NoneBelow dtype columns
      ↔ (∀ i, ¬CountsPlaceholder dtype (columns i))
        ∨ ∃ v ∈ allPresent columns, 0 ≤ -v.toInt := by
    simp only [NoneBelow, Int.neg_nonneg]
  rw [hmin, intColMin]
  dsimp only
  rw [minFlag_eq fun i => intMin ((columns i).counted dtype)]
  unfold MinCondition
  by_cases hnone : NoneBelow dtype columns
  · obtain ⟨hle, hex⟩ :=
      acc_of_none le_of_intMax hzero hacc hM (hbelow.1 hnone)
    simp only [Int.neg_le_neg_iff, Int.neg_inj] at hle hex
    rw [smaller_smaller_iff (hle 0) (hle 1) (hle 2) (exists_fin_three hex)]
    simp [hnone]
  · obtain ⟨hneg, hle, hex⟩ :=
      acc_of_placeholder le_of_intMax hzero hacc hM (hbelow.not.1 hnone)
    simp only [Int.neg_nonpos_iff, Int.neg_eq_zero] at hle hex
    rw [smaller_smaller_zero (hle 0) (hle 1) (hle 2) (exists_fin_three hex)]
    simp only [hnone, false_and, iff_false]
    omega

/-- The MAX branch selects the largest of all entries, and the MIN branch
the smallest, exactly under these conditions, whenever there is an entry
at all. -/
theorem missing_extremes_iff (dtype : IntDtype)
    {columns : Fin 3 → MissingColumn} (hsome : allPresent columns ≠ []) :
    (IsMaximum (allPresent columns) (intColMax dtype columns)
      ↔ MaxCondition dtype columns)
    ∧ (IsMinimum (allPresent columns) (intColMin dtype columns)
      ↔ MinCondition dtype columns) :=
  ⟨intColMax_iff hsome, intColMin_iff hsome⟩

/-- Three columns of CSV files. -/
def csvColumns : Fin 3 → MissingColumn
  | 0 => ⟨false, [.value (-7), .null, .value (-12)]⟩
  | 1 => ⟨false, [.abnormal, .value (-3)]⟩
  | 2 => ⟨false, [.value (-20), .null]⟩

theorem csvColumns_extremes :
    IsMaximum (allPresent csvColumns) (-3)
      ∧ IsMinimum (allPresent csvColumns) (-20) := by
  have hsome : allPresent csvColumns ≠ [] := by decide
  obtain ⟨hmax, hmin⟩ := missing_extremes_iff .integer hsome
  have hnone : ∀ i, ¬CountsPlaceholder .integer (csvColumns i) := by
    intro i
    match i with
    | 0 => decide
    | 1 => decide
    | 2 => decide
  refine ⟨?_, ?_⟩
  · exact hmax.2 (Or.inl ⟨Or.inl hnone, Or.inl (by decide)⟩)
  · exact hmin.2 ⟨Or.inl hnone, by decide⟩

/-- The second party has no entry. -/
def emptyColumn : Fin 3 → MissingColumn
  | 0 => ⟨false, [.value 5]⟩
  | 1 => ⟨false, [.null]⟩
  | 2 => ⟨false, [.value 3]⟩

/-- Its start value wins: the first difference does not fit. -/
theorem emptyColumn_selected :
    intColMax .integer emptyColumn = BitVec.intMin 64
      ∧ allPresent emptyColumn = [5, 3]
      ∧ ¬IsMaximum (allPresent emptyColumn) (intColMax .integer emptyColumn) := by
  refine ⟨by decide, by decide, ?_⟩
  intro h
  obtain ⟨hmem, -⟩ := h
  exact absurd hmem (by decide)

end PrimiHub.Algorithm
