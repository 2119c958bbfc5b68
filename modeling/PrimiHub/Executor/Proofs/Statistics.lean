/-
The extremes that `MPCMinOrMax` reports for integer columns.

A minimum starts from the largest double and is that of all entries. A
maximum starts from `std::numeric_limits<double>::min()`, which is the
smallest positive double, so a party without a positive entry hands in that
one (`intResult_max`); it is zero in fixed point, and what is reported is
the larger of zero and the maximum of all entries (`valueOfAllParty_eq`).
Entries under a null are entries like others, so a null counts as what its
entry is (`run_iff`).
-/
import Mathlib.Algebra.Order.Floor.Ring
import Mathlib.Data.Int.Order.Lemmas
import Mathlib.Data.Rat.Floor
import Mathlib.Order.Bounds.Basic
import Mathlib.Tactic.FinCases
import Mathlib.Tactic.IntervalCases
import Mathlib.Tactic.Linarith
import Mathlib.Tactic.NormNum
import Mathlib.Tactic.Positivity
import PrimiHub.Aby3.Proofs.Compare
import PrimiHub.Executor.Statistics
import PrimiHub.Lib.Descriptive
import PrimiHub.Lib.Traverse

namespace PrimiHub.Executor.Statistics

open Lib
open Aby3 (Fits intIntAddMsb msb_of_fits)

-- ===================================================================== folds

section Folds

variable {T : Type} [LinearOrder T]

/-- The loop over a chunk for MAX. -/
theorem minOrMax_max (val : T) (array : List T) :
    minOrMax .max val array = array.foldl max val := by
  unfold minOrMax
  congr 1
  funext a b
  exact (max_def a b).symm

/-- The loop over a chunk for MIN. -/
theorem minOrMax_min (val : T) (array : List T) :
    minOrMax .min val array = array.foldl min val := by
  unfold minOrMax
  congr 1
  funext a b
  exact ((min_comm a b).trans (min_def b a)).symm

/-- What lies above the maximum lies above the start and every entry. -/
theorem foldl_max_le {val x : T} {array : List T} :
    array.foldl max val ≤ x ↔ val ≤ x ∧ ∀ v ∈ array, v ≤ x := by
  induction array generalizing val with
  | nil => simp
  | cons v array ih =>
      rw [List.foldl_cons, ih, max_le_iff, List.forall_mem_cons, and_assoc]

/-- What lies below the minimum, dually. -/
theorem le_foldl_min {val x : T} {array : List T} :
    x ≤ array.foldl min val ↔ x ≤ val ∧ ∀ v ∈ array, x ≤ v :=
  foldl_max_le (T := Tᵒᵈ)

/-- The maximum is the start or an entry. -/
theorem foldl_max_mem (val : T) (array : List T) :
    array.foldl max val = val ∨ array.foldl max val ∈ array := by
  induction array generalizing val with
  | nil => exact Or.inl rfl
  | cons v array ih =>
      rw [List.foldl_cons]
      obtain h | h := ih (max val v)
      · rw [h]
        obtain hmax | hmax := max_choice val v
        · exact Or.inl hmax
        · rw [hmax]
          exact Or.inr List.mem_cons_self
      · exact Or.inr (List.mem_cons_of_mem _ h)

/-- From a start that no member is below, the fold of a list that has
members is its greatest one. -/
theorem isGreatest_foldl_max {val : T} {array : List T}
    (hval : ∀ v ∈ array, val ≤ v) (hne : array ≠ []) :
    IsGreatest {v | v ∈ array} (array.foldl max val) := by
  obtain ⟨hle, hall⟩ := foldl_max_le.mp (le_refl (array.foldl max val))
  refine ⟨?_, hall⟩
  obtain h | h := foldl_max_mem val array
  · obtain ⟨v, hv⟩ := List.exists_mem_of_ne_nil array hne
    have heq : v = array.foldl max val := by
      refine le_antisymm (hall v hv) ?_
      rw [h]
      exact hval v hv
    exact heq ▸ hv
  · exact h

/-- A start above all entries leaves their minimum. -/
theorem isLeast_foldl_min {val : T} {array : List T}
    (hval : ∀ v ∈ array, v ≤ val) (hne : array ≠ []) :
    IsLeast {v | v ∈ array} (array.foldl min val) :=
  isGreatest_foldl_max (T := Tᵒᵈ) hval hne

end Folds

/-- The chunks are joined by the larger of their results. -/
theorem fillChunkResult_max (curVal newVal : ℚ) :
    fillChunkResult .max curVal newVal = max curVal newVal :=
  (max_def_lt curVal newVal).symm

/-- The chunks are joined by the smaller. -/
theorem fillChunkResult_min (curVal newVal : ℚ) :
    fillChunkResult .min curVal newVal = min curVal newVal :=
  ((min_comm curVal newVal).trans (min_def_lt newVal curVal)).symm

-- ================================================================ one party

/-- The entries of a column, those under a null included. -/
def entries {width : Nat} (chunks : List (List (Slot (BitVec width)))) :
    List Int :=
  chunks.flatten.map (·.value.toInt)

/-- The extreme of a list. -/
def IsExtreme (type : Extreme) (vs : List Int) (v : Int) : Prop :=
  match type with
  | .max => IsGreatest {u | u ∈ vs} v
  | .min => IsLeast {u | u ∈ vs} v

section OneParty

variable {width : Nat} {chunks : List (List (Slot (BitVec width)))} {M : Int}

/-- The entries of a chunk are entries of the column. -/
theorem mem_entries {chunk : List (Slot (BitVec width))} (hchunk : chunk ∈ chunks)
    {v : Int} (hv : v ∈ chunk.map (·.value.toInt)) : v ∈ entries chunks := by
  obtain ⟨x, hx, rfl⟩ := List.mem_map.mp hv
  exact List.mem_map.mpr ⟨x, List.mem_flatten.mpr ⟨chunk, hchunk, hx⟩, rfl⟩

/-- Every entry lies in a chunk. -/
theorem exists_chunk {v : Int} (hv : v ∈ entries chunks) :
    ∃ chunk ∈ chunks, v ∈ chunk.map (·.value.toInt) := by
  obtain ⟨x, hx, rfl⟩ := List.mem_map.mp hv
  obtain ⟨chunk, hchunk, hx⟩ := List.mem_flatten.mp hx
  exact ⟨chunk, hchunk, List.mem_map.mpr ⟨x, hx, rfl⟩⟩

/-- The start of a maximum lies below every entry of its type. -/
theorem intMin_le {chunk : List (Slot (BitVec width))} :
    ∀ v ∈ chunk.map (·.value.toInt), (BitVec.intMin width).toInt ≤ v := by
  intro v hv
  obtain ⟨x, -, rfl⟩ := List.mem_map.mp hv
  exact BitVec.toInt_intMin_le x.value

/-- The start of a minimum lies above every entry of its type. -/
theorem le_intMax {chunk : List (Slot (BitVec width))} :
    ∀ v ∈ chunk.map (·.value.toInt), v ≤ (BitVec.intMax width).toInt := by
  intro v hv
  obtain ⟨x, -, rfl⟩ := List.mem_map.mp hv
  rw [BitVec.toInt_intMax]
  exact Int.le_sub_one_of_lt BitVec.toInt_lt

/-- A party's maximum, but for the start of the loop. -/
theorem intResult_max (hM : IsGreatest {v | v ∈ entries chunks} M)
    (hsmall : ∀ v ∈ entries chunks, v.natAbs < 2 ^ 53) :
    intResult .max chunks = max doubleMin (M : ℚ) := by
  have hfold : intResult .max chunks
      = (chunks.map fun chunk => castDouble ((chunk.map (·.value.toInt)).foldl
        max (BitVec.intMin width).toInt)).foldl max doubleMin := by
    unfold intResult
    rw [List.foldl_map]
    congr 1
    funext colResult chunk
    rw [fillChunkResult_max, minOrMax_max]
    rfl
  have hchunk : ∀ chunk ∈ chunks, chunk ≠ [] →
      IsGreatest {v | v ∈ chunk.map (·.value.toInt)}
        ((chunk.map (·.value.toInt)).foldl max (BitVec.intMin width).toInt) :=
    fun chunk _ hne => isGreatest_foldl_max intMin_le
      (mt List.map_eq_nil_iff.mp hne)
  rw [hfold]
  apply le_antisymm
  · refine foldl_max_le.mpr ⟨le_max_left _ _, fun x hx => ?_⟩
    obtain ⟨chunk, hmem, rfl⟩ := List.mem_map.mp hx
    by_cases hne : chunk = []
    · -- an empty chunk keeps the start, which is negative
      subst hne
      have hnonpos : (BitVec.intMin width).toInt ≤ 0 :=
        le_trans (BitVec.toInt_intMin_le 0) (by simp)
      exact le_max_of_le_left
        ((castDouble_nonpos hnonpos).trans doubleMin_pos.le)
    · have hgreatest := hchunk chunk hmem hne
      have hvalue := mem_entries hmem hgreatest.1
      rw [castDouble_of_lt (hsmall _ hvalue)]
      exact le_max_of_le_right (by exact_mod_cast hM.2 hvalue)
  · obtain ⟨hstart, hall⟩ := foldl_max_le.mp (le_refl
      ((chunks.map fun chunk => castDouble ((chunk.map (·.value.toInt)).foldl
        max (BitVec.intMin width).toInt)).foldl max doubleMin))
    refine max_le hstart ?_
    obtain ⟨chunk, hmem, hv⟩ := exists_chunk hM.1
    have hne : chunk ≠ [] := by
      rintro rfl
      cases hv
    have hgreatest := hchunk chunk hmem hne
    have hvalue := mem_entries hmem hgreatest.1
    have heq : (chunk.map (·.value.toInt)).foldl max
        (BitVec.intMin width).toInt = M :=
      le_antisymm (hM.2 hvalue) (hgreatest.2 hv)
    have hle := hall _ (List.mem_map.mpr ⟨chunk, hmem, rfl⟩)
    rwa [heq, castDouble_of_lt (hsmall M hM.1)] at hle

/-- A party's minimum. -/
theorem intResult_min (hM : IsLeast {v | v ∈ entries chunks} M)
    (hsmall : ∀ v ∈ entries chunks, v.natAbs < 2 ^ 53)
    (hmax : (M : ℚ) ≤ doubleMax)
    (hempty : (M : ℚ) ≤ castDouble (BitVec.intMax width).toInt) :
    intResult .min chunks = M := by
  have hfold : intResult .min chunks
      = (chunks.map fun chunk => castDouble ((chunk.map (·.value.toInt)).foldl
        min (BitVec.intMax width).toInt)).foldl min doubleMax := by
    unfold intResult
    rw [List.foldl_map]
    congr 1
    funext colResult chunk
    rw [fillChunkResult_min, minOrMax_min]
    rfl
  have hchunk : ∀ chunk ∈ chunks, chunk ≠ [] →
      IsLeast {v | v ∈ chunk.map (·.value.toInt)}
        ((chunk.map (·.value.toInt)).foldl min (BitVec.intMax width).toInt) :=
    fun chunk _ hne => isLeast_foldl_min le_intMax
      (mt List.map_eq_nil_iff.mp hne)
  rw [hfold]
  apply le_antisymm
  · obtain ⟨-, hall⟩ := le_foldl_min.mp (le_refl
      ((chunks.map fun chunk => castDouble ((chunk.map (·.value.toInt)).foldl
        min (BitVec.intMax width).toInt)).foldl min doubleMax))
    obtain ⟨chunk, hmem, hv⟩ := exists_chunk hM.1
    have hne : chunk ≠ [] := by
      rintro rfl
      cases hv
    have hleast := hchunk chunk hmem hne
    have hvalue := mem_entries hmem hleast.1
    have heq : (chunk.map (·.value.toInt)).foldl min
        (BitVec.intMax width).toInt = M :=
      le_antisymm (hleast.2 hv) (hM.2 hvalue)
    have hle := hall _ (List.mem_map.mpr ⟨chunk, hmem, rfl⟩)
    rwa [heq, castDouble_of_lt (hsmall M hM.1)] at hle
  · refine le_foldl_min.mpr ⟨hmax, fun x hx => ?_⟩
    obtain ⟨chunk, hmem, rfl⟩ := List.mem_map.mp hx
    by_cases hne : chunk = []
    · subst hne
      exact hempty
    · have hleast := hchunk chunk hmem hne
      have hvalue := mem_entries hmem hleast.1
      rw [castDouble_of_lt (hsmall _ hvalue)]
      exact_mod_cast hM.2 hvalue

end OneParty

-- ============================================================ three parties

section ThreeParties

/-- The values that a comparison of two of them gets right. -/
def Comparable (m : Fin 3 → Int) : Prop :=
  ∀ i, -2 ^ 63 ≤ m i ∧ m i < 2 ^ 63
    ∧ ∀ j, -2 ^ 63 ≤ m i - m j ∧ m i - m j < 2 ^ 63

variable (op : MpcOperator)

/-- The two rounds find the smallest. -/
theorem smallestParty_le {m : Fin 3 → Int} (hm : Comparable m) (i : Fin 3) :
    m (op.smallestParty m) ≤ m i := by
  have hcompare : ∀ lo hi : Fin 3, lo < hi →
      op.mpcCompare (twoParties lo hi (m lo) (m hi))
        = decide (m lo < m hi) := by
    intro lo hi hlt
    obtain ⟨hlo, hlo', hdiff⟩ := hm lo
    obtain ⟨hhi, hhi', -⟩ := hm hi
    exact op.mpcCompare_eq lo hi _ _ hlt hlo hlo' hhi hhi' (hdiff hi).1
      (hdiff hi).2
  unfold MpcOperator.smallestParty
  rw [hcompare 0 1 (by decide), hcompare 0 2 (by decide),
    hcompare 1 2 (by decide)]
  have hcases : i = 0 ∨ i = 1 ∨ i = 2 := by omega
  simp only [decide_eq_true_eq]
  obtain rfl | rfl | rfl := hcases <;> split_ifs <;> omega

variable {op}

/-- The three comparisons leave the smallest of the parties' values. -/
theorem minValueOfAllParty_eq {data : Fin 3 → ℚ} {v : Fin 3 → Int} {M : Int}
    (hdata : ∀ i, op.toFixed (data i) = v i * 2 ^ 16)
    (hv : Comparable fun i => v i * 2 ^ 16) (hle : ∀ i, M ≤ v i)
    (hM : ∃ i, v i = M) : op.minValueOfAllParty data = M := by
  have hm : (fun party => op.toFixed (data party)) = fun i => v i * 2 ^ 16 :=
    funext hdata
  obtain ⟨i, hi⟩ := hM
  have hsmallest := smallestParty_le op hv i
  have hvalue : v (op.smallestParty fun i => v i * 2 ^ 16) = M := by
    have := hle (op.smallestParty fun i => v i * 2 ^ 16)
    omega
  show op.toDouble (op.reveal (oneParty _ _)) = M
  rw [op.reveal_eq, op.toDouble_eq, hm]
  dsimp only
  rw [hvalue]
  push_cast
  exact mul_div_cancel_right₀ _ (by norm_num)

/-- The comparisons are on the negated values, and what is revealed is not
negated. -/
theorem maxValueOfAllParty_eq {data : Fin 3 → ℚ} {v : Fin 3 → Int} {M : Int}
    (hdata : ∀ i, op.toFixed (data i) = v i * 2 ^ 16)
    (hneg : ∀ i, op.toFixed (-1 * data i) = -v i * 2 ^ 16)
    (hv : Comparable fun i => -v i * 2 ^ 16) (hle : ∀ i, v i ≤ M)
    (hM : ∃ i, v i = M) : op.maxValueOfAllParty data = M := by
  have hm : (fun party => op.toFixed (-1 * data party))
      = fun i => -v i * 2 ^ 16 := funext hneg
  obtain ⟨i, hi⟩ := hM
  have hsmallest := smallestParty_le op hv i
  have hvalue : v (op.smallestParty fun i => -v i * 2 ^ 16) = M := by
    have := hle (op.smallestParty fun i => -v i * 2 ^ 16)
    omega
  show op.toDouble (op.reveal (oneParty _ _)) = M
  rw [op.reveal_eq, op.toDouble_eq, hm]
  dsimp only
  rw [hdata, hvalue]
  push_cast
  exact mul_div_cancel_right₀ _ (by norm_num)

/-- The fixed-point format has no other zero than that of the smallest
positive double and its negation. -/
theorem toFixed_max {v : Int} (hv : FitsD16 v) :
    op.toFixed (max doubleMin (v : ℚ)) = max 0 v * 2 ^ 16
      ∧ op.toFixed (-1 * max doubleMin (v : ℚ)) = -max 0 v * 2 ^ 16 := by
  have hsmall : doubleMin < 1 / 2 ^ 17 := by
    unfold doubleMin
    exact one_div_lt_one_div_of_lt (by positivity)
      (pow_lt_pow_right₀ one_lt_two (by norm_num))
  by_cases hpos : 0 < v
  · have hone : (1 : ℚ) ≤ v := by exact_mod_cast hpos
    have hmin : doubleMin ≤ (v : ℚ) := by
      refine hsmall.le.trans (le_trans ?_ hone)
      norm_num
    have hneg : FitsD16 (-v) := by
      unfold FitsD16 at *
      omega
    have hcast : -1 * (v : ℚ) = ((-v : Int) : ℚ) := by
      rw [neg_one_mul, Int.cast_neg]
    rw [max_eq_right hmin, max_eq_right hpos.le, hcast,
      op.toFixed_int v hv, op.toFixed_int (-v) hneg]
    exact ⟨rfl, rfl⟩
  · have hle : (v : ℚ) ≤ doubleMin := by
      refine le_trans ?_ doubleMin_pos.le
      exact_mod_cast not_lt.mp hpos
    have habs : |doubleMin| < 1 / 2 ^ 17 := by
      rwa [abs_of_pos doubleMin_pos]
    have habs' : |(-1 : ℚ) * doubleMin| < 1 / 2 ^ 17 := by
      rwa [neg_one_mul, abs_neg]
    rw [max_eq_left hle, max_eq_left (not_lt.mp hpos),
      op.toFixed_small _ habs, op.toFixed_small _ habs']
    exact ⟨rfl, rfl⟩

end ThreeParties

-- ==================================================================== a run

/-- The entries of an integer column, as integers. -/
def ChunkedArray.ints : ChunkedArray → Option (List (Slot Int))
  | int32 chunks =>
      some (chunks.flatten.map fun s => ⟨s.value.toInt, s.valid⟩)
  | int64 chunks =>
      some (chunks.flatten.map fun s => ⟨s.value.toInt, s.valid⟩)
  | _ => none

/-- The values: the entries that are not null. -/
def values (slots : List (Slot Int)) : List Int :=
  (slots.filter (·.valid)).map (·.value)

/-- A column that all parties have, as integers of either width: a row at
least, and entries and differences of entries that fixed point
represents. -/
structure IntColumn (dtype : String → ColumnDtype) (tables : Fin 3 → Table)
    (name : String) (slots : Fin 3 → List (Slot Int)) : Prop where
  dtype : dtype name = .integer ∨ dtype name = .long
  column : ∀ i, ∃ column, getColumnByName (tables i) name = some column
    ∧ column.ints = some (slots i)
  nonempty : ∀ i, slots i ≠ []
  fits : ∀ i, ∀ s ∈ slots i, FitsD16 s.value
  fits_sub : ∀ i j, ∀ s ∈ slots i, ∀ t ∈ slots j, FitsD16 (s.value - t.value)

/-- What a party with this extreme hands in. -/
def handedIn (type : Extreme) (v : Int) : ℚ :=
  match type with
  | .max => max doubleMin v
  | .min => v

/-- What is reported for this extreme of all parties. -/
def reported (type : Extreme) (v : Int) : Int :=
  match type with
  | .max => max 0 v
  | .min => v

section Run

variable {type : Extreme} {dtype : String → ColumnDtype}
  {columns : List String} {tables : Fin 3 → Table} {name : String}
  {slots : Fin 3 → List (Slot Int)}

/-- An integer that fits the fixed point is exact as a double. -/
theorem FitsD16.natAbs_lt {v : Int} (h : FitsD16 v) : v.natAbs < 2 ^ 53 := by
  unfold FitsD16 at h
  omega

/-- It lies below the largest double. -/
theorem FitsD16.le_doubleMax {v : Int} (h : FitsD16 v) :
    (v : ℚ) ≤ doubleMax := by
  have hv : (v : ℚ) ≤ 2 ^ 47 := by
    unfold FitsD16 at h
    exact_mod_cast (by omega : v ≤ 2 ^ 47)
  have hpow : (2 : ℚ) ^ 47 ≤ 2 ^ 971 :=
    pow_le_pow_right₀ one_le_two (by decide)
  have hsplit : (2 : ℚ) ^ 1024 = 2 ^ 971 * 2 ^ 53 := (pow_add 2 971 53)
  have hle : (2 : ℚ) ^ 971 ≤ 2 ^ 971 * 2 ^ 53 - 2 ^ 971 := by
    rw [← mul_sub_one]
    exact le_mul_of_one_le_right (by positivity) (by norm_num)
  unfold doubleMax
  rw [hsplit]
  exact hv.trans (hpow.trans hle)

/-- A list of entries has a maximum and a minimum. -/
theorem exists_isExtreme (type : Extreme) {vs : List Int} (h : vs ≠ []) :
    ∃ v, IsExtreme type vs v := by
  cases type with
  | max =>
      obtain ⟨v, hv⟩ := Option.ne_none_iff_exists'.mp
        (mt List.max?_eq_none_iff.mp h)
      exact ⟨v, max?_eq_some_iff_isGreatest.mp hv⟩
  | min =>
      obtain ⟨v, hv⟩ := Option.ne_none_iff_exists'.mp
        (mt List.min?_eq_none_iff.mp h)
      exact ⟨v, min?_eq_some_iff_isLeast.mp hv⟩

/-- The loop over the chunks, for either width of the integers. -/
theorem intResult_eq {width : Nat} (hwidth : width = 32 ∨ width = 64)
    {chunks : List (List (Slot (BitVec width)))} {v : Int}
    (hv : IsExtreme type (entries chunks) v)
    (hfits : ∀ u ∈ entries chunks, FitsD16 u) :
    intResult type chunks = handedIn type v := by
  have hsmall : ∀ u ∈ entries chunks, u.natAbs < 2 ^ 53 :=
    fun u hu => (hfits u hu).natAbs_lt
  cases type with
  | max => exact intResult_max hv hsmall
  | min =>
      have hfits' := hfits v hv.1
      refine intResult_min hv hsmall hfits'.le_doubleMax ?_
      -- what an empty chunk keeps
      obtain ⟨chunk, -, hmem⟩ := exists_chunk hv.1
      have hle := le_intMax v hmem
      obtain rfl | rfl := hwidth
      · have hcast : castDouble (BitVec.intMax 32).toInt
            = ((BitVec.intMax 32).toInt : ℚ) :=
          castDouble_of_lt (by decide)
        rw [hcast]
        exact_mod_cast hle
      · have hcast : castDouble (BitVec.intMax 64).toInt
            = ((2 ^ 63 : Int) : ℚ) := by
          decide +kernel
        rw [hcast]
        unfold FitsD16 at hfits'
        exact_mod_cast (by omega : v ≤ 2 ^ 63)

theorem IntColumn.fits_entry (h : IntColumn dtype tables name slots)
    (i : Fin 3) : ∀ u ∈ (slots i).map (·.value), FitsD16 u := by
  intro u hu
  obtain ⟨s, hs, rfl⟩ := List.mem_map.mp hu
  exact h.fits i s hs

/-- Two entries of the three columns differ by what the comparison takes
without wrapping. -/
theorem IntColumn.fits_sub_entry (h : IntColumn dtype tables name slots)
    (i j : Fin 3) {u v : Int} (hu : u ∈ (slots i).map (·.value))
    (hv : v ∈ (slots j).map (·.value)) : FitsD16 (u - v) := by
  obtain ⟨s, hs, rfl⟩ := List.mem_map.mp hu
  obtain ⟨t, ht, rfl⟩ := List.mem_map.mp hv
  exact h.fits_sub i j s hs t ht

/-- A party's part of a column. -/
theorem columnResult_eq (h : IntColumn dtype tables name slots) (i : Fin 3)
    {v : Int} (hv : IsExtreme type ((slots i).map (·.value)) v) :
    (getColumnByName (tables i) name >>= columnResult type (dtype name))
      = some (handedIn type v) := by
  obtain ⟨column, hcolumn, hints⟩ := h.column i
  have hfits := h.fits_entry i
  rw [hcolumn]
  show columnResult type (dtype name) column = _
  cases column with
  | int32 chunks =>
      rw [← Option.some.inj hints, List.map_map] at hv hfits
      obtain hdtype | hdtype := h.dtype <;>
      · rw [hdtype]
        exact congrArg some (intResult_eq (.inl rfl) hv hfits)
  | int64 chunks =>
      rw [← Option.some.inj hints, List.map_map] at hv hfits
      obtain hdtype | hdtype := h.dtype <;>
      · rw [hdtype]
        exact congrArg some (intResult_eq (.inr rfl) hv hfits)
  | double chunks => cases hints
  | other chunks => cases hints

/-- The extreme of all parties is that of one of them. -/
theorem IsExtreme.of_parties {c : Fin 3 → List Int} {v : Fin 3 → Int}
    {w : Int}
    (hv : ∀ i, IsExtreme type (c i) (v i))
    (hw : IsExtreme type (c 0 ++ c 1 ++ c 2) w) :
    (∃ i, v i = w) ∧ ∀ i, match type with
      | .max => v i ≤ w
      | .min => w ≤ v i := by
  have hmem : ∀ i, ∀ u ∈ c i, u ∈ c 0 ++ c 1 ++ c 2 := by
    intro i u hu
    have hcases : i = 0 ∨ i = 1 ∨ i = 2 := by omega
    obtain rfl | rfl | rfl := hcases <;> simp [hu]
  have hsome : ∀ u ∈ c 0 ++ c 1 ++ c 2, ∃ i, u ∈ c i := by
    intro u hu
    obtain hu | hu := List.mem_append.mp hu
    · obtain hu | hu := List.mem_append.mp hu
      · exact ⟨0, hu⟩
      · exact ⟨1, hu⟩
    · exact ⟨2, hu⟩
  cases type with
  | max =>
      obtain ⟨i, hi⟩ := hsome w hw.1
      exact ⟨⟨i, le_antisymm (hw.2 (hmem i _ (hv i).1)) ((hv i).2 hi)⟩,
        fun j => hw.2 (hmem j _ (hv j).1)⟩
  | min =>
      obtain ⟨i, hi⟩ := hsome w hw.1
      exact ⟨⟨i, le_antisymm ((hv i).2 hi) (hw.2 (hmem i _ (hv i).1))⟩,
        fun j => hw.2 (hmem j _ (hv j).1)⟩

/-- The entries of all parties. -/
def allSlots (slots : Fin 3 → List (Slot Int)) : List (Slot Int) :=
  slots 0 ++ slots 1 ++ slots 2

/-- What the parties find in a column. -/
theorem valueOfAllParty_eq (op : MpcOperator)
    (h : IntColumn dtype tables name slots) {v : Fin 3 → Int}
    (hv : ∀ i, IsExtreme type ((slots i).map (·.value)) (v i)) {w : Int}
    (hw : IsExtreme type ((allSlots slots).map (·.value)) w) :
    op.valueOfAllParty type (fun i => handedIn type (v i))
      = reported type w := by
  rw [allSlots, List.map_append, List.map_append] at hw
  obtain ⟨hsome, hall⟩ :=
    IsExtreme.of_parties (c := fun i => (slots i).map (·.value)) hv hw
  cases type with
  | min =>
      have hfits : ∀ i, FitsD16 (v i) := fun i => h.fits_entry i _ (hv i).1
      refine minValueOfAllParty_eq (v := v)
        (fun i => op.toFixed_int _ (hfits i)) (fun i => ?_) hall hsome
      obtain ⟨hlo, hhi⟩ := hfits i
      refine ⟨hlo, hhi, fun j => ?_⟩
      have hsub := h.fits_sub_entry i j (hv i).1 (hv j).1
      unfold FitsD16 at hsub
      dsimp only
      constructor <;> omega
  | max =>
      have hfits : ∀ i, FitsD16 (v i) := fun i => h.fits_entry i _ (hv i).1
      refine maxValueOfAllParty_eq (v := fun i => max 0 (v i))
        (fun i => (toFixed_max (hfits i)).1)
        (fun i => (toFixed_max (hfits i)).2) (fun i => ?_)
        (fun i => max_le_max_left 0 (hall i)) ?_
      · have hi := hfits i
        unfold FitsD16 at hi
        dsimp only
        refine ⟨by omega, by omega, fun j => ?_⟩
        have hj := hfits j
        unfold FitsD16 at hj
        constructor <;> omega
      · obtain ⟨i, hi⟩ := hsome
        exact ⟨i, congrArg (max 0) hi⟩

/-- A run on integer columns, whose entries have these extremes. -/
theorem run_eq (op : MpcOperator) (type : Extreme)
    (slots : String → Fin 3 → List (Slot Int)) (extreme : String → Int)
    (hcolumns : ∀ name ∈ columns, IntColumn dtype tables name (slots name))
    (hextreme : ∀ name ∈ columns, IsExtreme type
      ((allSlots (slots name)).map (·.value)) (extreme name)) :
    op.run type dtype columns tables
      = some (columns.map fun name =>
        (reported type (extreme name) : ℚ)) := by
  -- the extreme of each party
  have hparties : ∀ name, ∃ v : Fin 3 → Int, name ∈ columns →
      ∀ i, IsExtreme type ((slots name i).map (·.value)) (v i) := by
    intro name
    by_cases hname : name ∈ columns
    · choose v hv using fun i => exists_isExtreme type
        (mt List.map_eq_nil_iff.mp ((hcolumns name hname).nonempty i))
      exact ⟨v, fun _ => hv⟩
    · exact ⟨fun _ => 0, fun h => absurd h hname⟩
  choose v hv using hparties
  have hplain : ∀ i, plainTextDataCompute type dtype columns (tables i)
      = some (columns.map fun name => handedIn type (v name i)) :=
    fun i => mapM_some fun name hname =>
      columnResult_eq (hcolumns name hname) i (hv name hname i)
  unfold MpcOperator.run
  rw [hplain 0, hplain 1, hplain 2]
  refine congrArg some ?_
  show (((columns.map _).zip ((columns.map _).zip (columns.map _))).map _) = _
  rw [List.zip_map', List.zip_map', List.map_map]
  refine List.map_congr_left fun name hname => ?_
  rw [← valueOfAllParty_eq op (hcolumns name hname) (hv name hname)
    (hextreme name hname)]
  refine congrArg (op.valueOfAllParty type) (funext fun i => ?_)
  fin_cases i <;> rfl

/-- It is not beyond the extreme. -/
def Within (type : Extreme) (u v : Int) : Prop :=
  match type with
  | .max => u ≤ v
  | .min => v ≤ u

/-- No null stands over an entry beyond the extreme, and a maximum is not
negative. -/
def ExtremeShows (type : Extreme) (slots : List (Slot Int)) (v : Int) :
    Prop :=
  (type = .max → 0 ≤ v)
    ∧ ∀ s ∈ slots, s.valid = false → Within type s.value v

/-- An extreme is an entry within which all entries lie. -/
theorem isExtreme_iff {vs : List Int} {v : Int} :
    IsExtreme type vs v ↔ v ∈ vs ∧ ∀ u ∈ vs, Within type u v := by
  cases type <;> exact Iff.rfl

/-- Two values each within the other are one. -/
theorem Within.antisymm {u v : Int} (h : Within type u v)
    (h' : Within type v u) : u = v := by
  cases type with
  | max => exact le_antisymm h h'
  | min => exact le_antisymm h' h

/-- What is reported for an extreme of the entries is an extreme of the
values exactly under this condition. -/
theorem reported_eq_iff {slots : List (Slot Int)} {e v : Int}
    (he : IsExtreme type (slots.map (·.value)) e)
    (hv : IsExtreme type (values slots) v) :
    reported type e = v ↔ ExtremeShows type slots v := by
  obtain ⟨hemem, hentries⟩ := isExtreme_iff.mp he
  obtain ⟨hvmem, hvalues⟩ := isExtreme_iff.mp hv
  obtain ⟨s, hs, rfl⟩ := List.mem_map.mp hvmem
  have hvalue : s.value ∈ slots.map (·.value) :=
    List.mem_map_of_mem (List.mem_filter.mp hs).1
  have hwithin : (∀ t ∈ slots, t.valid = false → Within type t.value s.value)
      ↔ e = s.value := by
    constructor
    · intro hnull
      refine Within.antisymm ?_ (hentries _ hvalue)
      obtain ⟨t, ht, rfl⟩ := List.mem_map.mp hemem
      cases hvalid : t.valid with
      | false => exact hnull t ht hvalid
      | true =>
          exact hvalues _ (List.mem_map_of_mem
            (List.mem_filter.mpr ⟨ht, hvalid⟩))
    · rintro rfl t ht -
      exact hentries _ (List.mem_map_of_mem ht)
  unfold ExtremeShows
  rw [hwithin]
  cases type with
  | min => exact (and_iff_right nofun).symm
  | max =>
      have hle : s.value ≤ e := hentries _ hvalue
      simp only [reported, forall_const]
      omega

/-- The extremes of the values are reported exactly where no null hides a
more extreme entry and a maximum is not negative. -/
theorem run_iff (op : MpcOperator) (type : Extreme)
    (dtype : String → ColumnDtype) (columns : List String)
    (tables : Fin 3 → Table) (slots : String → Fin 3 → List (Slot Int))
    (extreme : String → Int)
    (hcolumns : ∀ name ∈ columns, IntColumn dtype tables name (slots name))
    (hextreme : ∀ name ∈ columns, IsExtreme type
      (values (allSlots (slots name))) (extreme name)) :
    op.run type dtype columns tables
        = some (columns.map fun name => (extreme name : ℚ))
      ↔ ∀ name ∈ columns,
        ExtremeShows type (allSlots (slots name)) (extreme name) := by
  have hentries : ∀ name, ∃ e, name ∈ columns →
      IsExtreme type ((allSlots (slots name)).map (·.value)) e := by
    intro name
    by_cases hname : name ∈ columns
    · obtain ⟨s, hs, -⟩ :=
        List.mem_map.mp (isExtreme_iff.mp (hextreme name hname)).1
      have hmem := (List.mem_filter.mp hs).1
      obtain ⟨e, he⟩ := exists_isExtreme type
        (mt List.map_eq_nil_iff.mp (List.ne_nil_of_mem hmem))
      exact ⟨e, fun _ => he⟩
    · exact ⟨0, fun h => absurd h hname⟩
  choose e he using hentries
  rw [run_eq op type slots e hcolumns he, Option.some.injEq,
    List.map_inj_left]
  refine forall₂_congr fun name hname => ?_
  rw [Int.cast_inj]
  exact reported_eq_iff (he name hname) (hextreme name hname)

/-- Rounding towards zero is exact on an integer and takes a small number to
zero. -/
theorem truncate_int (v : Int) :
    (if 0 ≤ (v : ℚ) then ⌊(v : ℚ) * 2 ^ 16⌋ else -⌊-(v : ℚ) * 2 ^ 16⌋)
      = v * 2 ^ 16 := by
  have hcast : (v : ℚ) * 2 ^ 16 = ((v * 2 ^ 16 : Int) : ℚ) := by
    push_cast
    rfl
  have hcast' : -(v : ℚ) * 2 ^ 16 = ((-(v * 2 ^ 16) : Int) : ℚ) := by
    push_cast
    exact neg_mul _ _
  split
  · rw [hcast, Int.floor_intCast]
  · rw [hcast', Int.floor_intCast, neg_neg]

/-- The smallest positive double is zero in fixed point. -/
theorem truncate_small {x : ℚ} (hx : |x| < 1 / 2 ^ 17) :
    (if 0 ≤ x then ⌊x * 2 ^ 16⌋ else -⌊-x * 2 ^ 16⌋) = 0 := by
  obtain ⟨hlo, hhi⟩ := abs_lt.mp hx
  split
  · exact Int.floor_eq_zero_iff.mpr ⟨by positivity, by linarith⟩
  · rw [neg_eq_zero]
    exact Int.floor_eq_zero_iff.mpr ⟨by linarith, by linarith⟩

/-- Of the three parties two hand in a value. -/
theorem filterMap_twoParties {lo hi : Fin 3} (h : lo < hi) (a b : Int) :
    (List.finRange 3).filterMap (twoParties lo hi a b) = [a, b] := by
  have hcases : lo = 0 ∧ hi = 1 ∨ lo = 0 ∧ hi = 2 ∨ lo = 1 ∧ hi = 2 := by
    omega
  obtain ⟨rfl, rfl⟩ | ⟨rfl, rfl⟩ | ⟨rfl, rfl⟩ := hcases <;> rfl

/-- Of the three parties one hands in a value. -/
theorem filterMap_oneParty (owner : Fin 3) (a : Int) :
    (List.finRange 3).filterMap (oneParty owner a) = [a] := by
  fin_cases owner <;> rfl

/-- The top bit of a difference that fits. -/
theorem msb_ofInt {a b : Int} (ha : -2 ^ 63 ≤ a) (ha' : a < 2 ^ 63)
    (hb : -2 ^ 63 ≤ b) (hb' : b < 2 ^ 63) (hsub : -2 ^ 63 ≤ a - b)
    (hsub' : a - b < 2 ^ 63) :
    intIntAddMsb (BitVec.ofInt 64 a) (-BitVec.ofInt 64 b)
      = decide (a < b) := by
  have hto : (BitVec.ofInt 64 a).toInt = a :=
    BitVec.toInt_ofInt_eq_self (by decide) ha ha'
  have hto' : (BitVec.ofInt 64 b).toInt = b :=
    BitVec.toInt_ofInt_eq_self (by decide) hb hb'
  have hfits : Fits (BitVec.ofInt 64 a) (BitVec.ofInt 64 b) := by
    unfold Fits
    rw [hto, hto']
    exact ⟨hsub, hsub'⟩
  rw [msb_of_fits hfits, hto, hto']

/-- The comparison of the circuit: the top bit of a difference modulo
2^64. -/
theorem circuitCompare_eq {lo hi : Fin 3} (h : lo < hi) {a b : Int}
    (hmsb : intIntAddMsb (BitVec.ofInt 64 a) (-BitVec.ofInt 64 b)
      = decide (a < b)) :
    (match (List.finRange 3).filterMap (twoParties lo hi a b) with
      | [a, b] => intIntAddMsb (BitVec.ofInt 64 a) (-BitVec.ofInt 64 b)
      | _ => false) = decide (a < b) := by
  rw [filterMap_twoParties h]
  exact hmsb

/-- What is revealed is the value of the one that has it. -/
theorem circuitReveal_eq (owner : Fin 3) (a : Int) :
    ((List.finRange 3).filterMap (oneParty owner a)).headD 0 = a := by
  rw [filterMap_oneParty]
  rfl

/-- The operators, with the comparison of the circuit: the top bit of a
difference modulo 2^64. -/
def circuitOperator : MpcOperator where
  toFixed x := if 0 ≤ x then ⌊x * 2 ^ 16⌋ else -⌊-x * 2 ^ 16⌋
  toDouble k := k / 2 ^ 16
  mpcCompare offers :=
    match (List.finRange 3).filterMap offers with
    | [a, b] => intIntAddMsb (BitVec.ofInt 64 a) (-BitVec.ofInt 64 b)
    | _ => false
  reveal offers := ((List.finRange 3).filterMap offers).headD 0
  toFixed_int v _ := truncate_int v
  toFixed_small _ hx := truncate_small hx
  toDouble_eq _ := rfl
  mpcCompare_eq _ _ _ _ hlt ha ha' hb hb' hsub hsub' :=
    circuitCompare_eq hlt (msb_ofInt ha ha' hb hb' hsub hsub')
  reveal_eq := circuitReveal_eq

/-- Tables with one chunk each. -/
def ages (slots : Fin 3 → List (Slot Int)) (i : Fin 3) : Table :=
  [("age", .int64 [(slots i).map fun s => ⟨BitVec.ofInt 64 s.value, s.valid⟩])]

/-- Ages below 2^40 are such a column. -/
theorem intColumn_ages (hne : ∀ i, slots i ≠ [])
    (hslots : ∀ i, ∀ s ∈ slots i, -2 ^ 40 ≤ s.value ∧ s.value < 2 ^ 40) :
    IntColumn (fun _ => .long) (ages slots) "age" slots where
  dtype := Or.inr rfl
  column i := by
    refine ⟨_, rfl, congrArg some ?_⟩
    rw [List.flatten_singleton, List.map_map]
    refine (List.map_congr_left fun s hs => ?_).trans (List.map_id _)
    obtain ⟨hlo, hhi⟩ := hslots i s hs
    have hto : (BitVec.ofInt 64 s.value).toInt = s.value :=
      BitVec.toInt_ofInt_eq_self (by decide) (by omega) (by omega)
    exact congrArg (Slot.mk · s.valid) hto
  nonempty := hne
  fits i s hs := by
    obtain ⟨hlo, hhi⟩ := hslots i s hs
    unfold FitsD16
    omega
  fits_sub i j s hs t ht := by
    obtain ⟨hlo, hhi⟩ := hslots i s hs
    obtain ⟨hlo', hhi'⟩ := hslots j t ht
    unfold FitsD16
    omega

/-- Ages of three parties, one of them unknown. -/
def someAges : Fin 3 → List (Slot Int) :=
  ![[⟨5, true⟩, ⟨0, false⟩, ⟨7, true⟩], [⟨8, true⟩], [⟨9, true⟩]]

/-- The largest of some ages. -/
theorem run_ages : circuitOperator.run .max (fun _ => .long) ["age"]
    (ages someAges) = some [9] :=
  (run_iff circuitOperator .max (fun _ => .long) ["age"] (ages someAges)
    (fun _ => someAges) (fun _ => 9)
    (fun name hname => List.mem_singleton.mp hname ▸
      intColumn_ages (by decide) (by decide))
    (fun _ _ => ⟨by decide, fun v hv =>
      (by decide : ∀ v ∈ [5, 7, 8, 9], v ≤ (9 : Int)) v hv⟩)).mpr
    fun _ _ => ⟨fun _ => by decide, by
      show ∀ s ∈ allSlots someAges, s.valid = false → s.value ≤ 9
      decide⟩

/-- The maximum of negative values is reported as zero, and so is the
minimum of positive values beside a null. -/
theorem not_run_extremes :
    (IntColumn (fun _ => .long) (ages ![[⟨-3, true⟩], [⟨-2, true⟩],
          [⟨-4, true⟩]]) "age" ![[⟨-3, true⟩], [⟨-2, true⟩], [⟨-4, true⟩]]
        ∧ IsExtreme .max [-3, -2, -4] (-2)
        ∧ circuitOperator.run .max (fun _ => .long) ["age"]
          (ages ![[⟨-3, true⟩], [⟨-2, true⟩], [⟨-4, true⟩]]) ≠ some [-2])
      ∧ IntColumn (fun _ => .long) (ages someAges) "age" someAges
        ∧ IsExtreme .min (values (allSlots someAges)) 5
        ∧ circuitOperator.run .min (fun _ => .long) ["age"] (ages someAges)
          ≠ some [5] := by
  have hnegative : IntColumn (fun _ => .long) (ages ![[⟨-3, true⟩],
      [⟨-2, true⟩], [⟨-4, true⟩]]) "age"
      ![[⟨-3, true⟩], [⟨-2, true⟩], [⟨-4, true⟩]] :=
    intColumn_ages (by decide) (by decide)
  have hmax : IsExtreme .max [-3, -2, -4] (-2) :=
    ⟨by decide, fun v hv =>
      (by decide : ∀ v ∈ [-3, -2, -4], v ≤ (-2 : Int)) v hv⟩
  have hages : IntColumn (fun _ => .long) (ages someAges) "age" someAges :=
    intColumn_ages (by decide) (by decide)
  have hmin : IsExtreme .min (values (allSlots someAges)) 5 :=
    ⟨by decide, fun v hv =>
      (by decide : ∀ v ∈ [5, 7, 8, 9], (5 : Int) ≤ v) v hv⟩
  have hrun : circuitOperator.run .max (fun _ => .long) ["age"]
      (ages ![[⟨-3, true⟩], [⟨-2, true⟩], [⟨-4, true⟩]]) = some [0] :=
    run_eq circuitOperator .max
      (fun _ => ![[⟨-3, true⟩], [⟨-2, true⟩], [⟨-4, true⟩]]) (fun _ => -2)
      (fun name hname => List.mem_singleton.mp hname ▸ hnegative)
      fun _ _ => hmax
  have hzero : IsExtreme .min ((allSlots someAges).map (·.value)) 0 :=
    ⟨by decide, fun v hv =>
      (by decide : ∀ v ∈ [5, 0, 7, 8, 9], (0 : Int) ≤ v) v hv⟩
  have hrun' : circuitOperator.run .min (fun _ => .long) ["age"]
      (ages someAges) = some [0] :=
    run_eq circuitOperator .min (fun _ => someAges) (fun _ => 0)
      (fun name hname => List.mem_singleton.mp hname ▸ hages)
      fun _ _ => hzero
  refine ⟨⟨hnegative, hmax, ?_⟩, hages, hmin, ?_⟩
  · rw [hrun]
    norm_num
  · rw [hrun']
    norm_num

end Run

end PrimiHub.Executor.Statistics
