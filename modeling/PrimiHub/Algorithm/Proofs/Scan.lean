/-
One column of `MissingProcess::execute`: what the scan of all its chunks
feeds into the MPC step, and what `replaceValue` makes of it.

The loop over the chunks is one loop over the cells (`foldl_cell`). The
count, and for integers the sum, are those of the parsable cells as long
as they fit (`statsOf_allStats`). The rebuild goes through when the scan
has been over every chunk and there is one, and only then
(`processColumn_iff`).
-/
import Mathlib.Data.List.Zip
import PrimiHub.Algorithm.Proofs.Missing
import PrimiHub.Algorithm.Replace
import PrimiHub.Lib.Traverse

namespace PrimiHub.Algorithm

open Aby3 (I64)
open Lib

variable {V D : Type} {num : Numbers V}

-- =================================================================== the scan

/-- The loop over cells, by what they are. -/
theorem foldl_cell (cells : List TextCell) (a : Accumulators V) :
    cells.foldl (Accumulators.cell num) a =
      ⟨(cells.filterMap (parsedCell num)).foldl num.add a.sum,
        (cells.filterMap (parsedCell num)).foldl
          (fun m v => if num.less m v then v else m) a.max,
        (cells.filterMap (parsedCell num)).foldl
          (fun m v => if num.less v m then v else m) a.min,
        a.nullNum + cells.countP Option.isNone,
        a.abnormalNum + cells.countP (abnormal num)⟩ := by
  induction cells generalizing a with
  | nil => rfl
  | cons cell cells ih =>
      rw [List.foldl_cons, ih]
      cases cell with
      | none =>
          have hcell : parsedCell num none = none := rfl
          simp only [Accumulators.cell, List.filterMap_cons, hcell,
            List.countP_cons, abnormal]
          simp [Nat.add_assoc, Nat.add_comm 1]
      | some str =>
          cases hstr : num.convert str with
          | none =>
              have hcell : parsedCell num (some str) = none := hstr
              simp only [Accumulators.cell, List.filterMap_cons, hcell,
                List.countP_cons, abnormal, hstr]
              simp [Nat.add_assoc, Nat.add_comm 1]
          | some v =>
              have hcell : parsedCell num (some str) = some v := hstr
              simp only [Accumulators.cell, List.filterMap_cons, hcell,
                List.countP_cons, abnormal, hstr, List.foldl_cons]
              simp

/-- A cell is null, abnormal or parsable. -/
theorem count_cells (num : Numbers V) (cells : List TextCell) :
    cells.countP Option.isNone + cells.countP (abnormal num)
      + (cells.filterMap (parsedCell num)).length = cells.length := by
  induction cells with
  | nil => rfl
  | cons cell cells ih =>
      rw [List.countP_cons, List.countP_cons, List.length_cons]
      cases cell with
      | none =>
          have hcell : parsedCell num none = none := rfl
          simp only [List.filterMap_cons, hcell, abnormal, Option.isNone_none]
          simp only [if_true, Bool.false_eq_true, if_false]
          omega
      | some str =>
          cases hstr : num.convert str with
          | none =>
              have hcell : parsedCell num (some str) = none := hstr
              simp only [List.filterMap_cons, hcell, abnormal, hstr,
                Option.isNone_some, Option.isNone_none]
              simp only [if_true, Bool.false_eq_true, if_false]
              omega
          | some v =>
              have hcell : parsedCell num (some str) = some v := hstr
              simp only [List.filterMap_cons, hcell, abnormal, hstr,
                Option.isNone_some, List.length_cons]
              simp only [Bool.false_eq_true, if_false]
              omega

/-- What a party feeds in after a scan of all chunks. -/
def allStats (num : Numbers V) (chunks : List (List TextCell)) :
    LocalStats V where
  sum := (parsable num chunks).foldl num.add num.zero
  count := BitVec.ofNat 32 (parsable num chunks).length
  max := (parsable num chunks).foldl
    (fun m v => if num.less m v then v else m) num.maxStart
  min := (parsable num chunks).foldl
    (fun m v => if num.less v m then v else m) num.minStart

theorem accumulate_all (num : Numbers V) (chunks : List (List TextCell)) :
    ∃ a : Accumulators V,
      accumulate num chunks.length chunks
        = some (a, chunks.map (positions (abnormal num)))
      ∧ a.stats chunks.flatten.length = allStats num chunks := by
  refine ⟨chunks.flatten.foldl (Accumulators.cell num)
    (Accumulators.start num), ?_, ?_⟩
  · rw [List.foldl_flatten]
    simp only [accumulate, Nat.le_refl, if_true, List.take_length]
  · rw [foldl_cell]
    have hcount := count_cells num chunks.flatten
    have hlength : (parsable num chunks).length
        = (chunks.flatten.filterMap (parsedCell num)).length := rfl
    simp only [Accumulators.stats, allStats, Accumulators.start]
    have hnat : (chunks.flatten.length : Int)
        - ((0 + chunks.flatten.countP Option.isNone : Nat) : Int)
        - ((0 + chunks.flatten.countP (abnormal num) : Nat) : Int)
        = ((parsable num chunks).length : Int) := by
      rw [hlength]
      omega
    rw [hnat, BitVec.ofInt_natCast]
    rfl

theorem length_accumulate {chunkNum : Nat} {chunks : List (List TextCell)}
    {a : Accumulators V} {abnormalIndex : List (List Nat)}
    (h : accumulate num chunkNum chunks = some (a, abnormalIndex)) :
    chunkNum ≤ chunks.length ∧ abnormalIndex.length = chunkNum := by
  unfold accumulate at h
  split at h
  case isTrue hle =>
    cases h
    refine ⟨hle, ?_⟩
    rw [List.length_map, List.length_take, Nat.min_eq_left hle]
  case isFalse => cases h

-- ================================================================ the values

theorem foldl_add_int64 (values : List I64) (start : I64) :
    values.foldl int64.add start
      = BitVec.ofInt 64 (start.toInt + (values.map BitVec.toInt).sum) := by
  induction values generalizing start with
  | nil => simp
  | cons v values ih =>
      have hadd : int64.add start v = start + v := rfl
      rw [List.foldl_cons, ih, hadd, List.map_cons, List.sum_cons,
        ← Int.add_assoc, BitVec.ofInt_add, BitVec.ofInt_add,
        BitVec.ofInt_toInt, BitVec.ofInt_add, BitVec.ofInt_toInt,
        BitVec.ofInt_toInt]

theorem toInt_sum_int64_iff (values : List I64) :
    (values.foldl int64.add int64.zero).toInt = (values.map BitVec.toInt).sum
      ↔ -2 ^ 63 ≤ (values.map BitVec.toInt).sum
        ∧ (values.map BitVec.toInt).sum < 2 ^ 63 := by
  have hzero : int64.zero.toInt = 0 := toInt_zero
  rw [foldl_add_int64, hzero, Int.zero_add]
  constructor
  · intro h
    rw [← h]
    exact ⟨BitVec.le_toInt _, BitVec.toInt_lt⟩
  · intro h
    rw [BitVec.toInt_ofInt]
    exact Int.bmod_eq_of_le (by omega) (by omega)

theorem isMaximum_intMax {values : List I64} (h : values ≠ []) :
    IsMaximum values (intMax values) := by
  obtain ⟨M, hM⟩ := exists_isBest BitVec.toInt h
  refine (isBest_iff BitVec.toInt_inj.mp hM _).mpr ?_
  have hacc := accumulated_intMax values
  have hle := hacc.le M hM.1
  rcases hacc.mem with hstart | hmem
  · have := le_of_intMin M
    rw [hstart] at hle ⊢
    omega
  · have := hM.2 _ hmem
    omega

theorem isMinimum_intMin {values : List I64} (h : values ≠ []) :
    IsMinimum values (intMin values) := by
  obtain ⟨M, hM⟩ := exists_isBest (fun v => -v.toInt) h
  have hbest : IsBest (fun v => -v.toInt) values (intMin values) := by
    refine (isBest_iff (fun heq => BitVec.toInt_inj.mp (by omega)) hM _).mpr
      ?_
    have hacc := accumulated_intMin values
    have hle : -M.toInt ≤ -(intMin values).toInt := hacc.le M hM.1
    rcases hacc.mem with hstart | hmem
    · have := le_of_intMax M
      rw [hstart] at hle ⊢
      omega
    · have : -(intMin values).toInt ≤ -M.toInt := hM.2 _ hmem
      omega
  refine ⟨hbest.1, fun u hu => ?_⟩
  exact Int.neg_le_neg_iff.mp (hbest.2 u hu)

/-- When a full scan feeds in the values of the parsable cells. -/
theorem statsOf_allStats (chunks : List (List TextCell)) :
    StatsOf (allStats int64 chunks) (parsable int64 chunks)
      ↔ (parsable int64 chunks).length < 2 ^ 32
        ∧ -2 ^ 63 ≤ ((parsable int64 chunks).map BitVec.toInt).sum
        ∧ ((parsable int64 chunks).map BitVec.toInt).sum < 2 ^ 63 := by
  have hmax : (allStats int64 chunks).max = intMax (parsable int64 chunks) := by
    simp only [allStats, int64, intMax, decide_eq_true_eq]
  have hmin : (allStats int64 chunks).min = intMin (parsable int64 chunks) := by
    simp only [allStats, int64, intMin, decide_eq_true_eq]
  have hsum := toInt_sum_int64_iff (parsable int64 chunks)
  constructor
  · intro h
    refine ⟨?_, hsum.mp h.sum⟩
    rw [← h.count]
    exact BitVec.isLt _
  · intro h
    obtain ⟨hcount, hrange⟩ := h
    refine ⟨?_, hsum.mpr hrange, ?_, ?_⟩
    · exact Nat.mod_eq_of_lt hcount
    · intro hne
      rw [hmax]
      exact isMaximum_intMax hne
    · intro hne
      rw [hmin]
      exact isMinimum_intMin hne

-- ================================================================ the rebuild

/-- The text that ends up in the place of a cell. -/
def newText (num : Numbers V) (replace : List Char) (cell : TextCell) :
    List Char :=
  if abnormal num cell then replace else cell.getD replace

theorem read_newText (v : V) (cell : TextCell) :
    (num.read (newText num (num.print v) cell)).map Prod.fst
      = some ((parsedCell num cell).getD (num.printed v)) := by
  have hprinted : (num.read (num.print v)).map Prod.fst
      = some (num.printed v) := by
    unfold Numbers.printed
    obtain ⟨r, hr⟩ := Option.isSome_iff_exists.mp (num.read_print v)
    simp only [hr, Option.map_some, Option.get_some]
  cases cell with
  | none => exact hprinted
  | some str =>
      cases hstr : num.convert str with
      | none =>
          have habnormal : abnormal num (some str) = true := by
            simp only [abnormal, hstr, Option.isNone_none]
          have hcell : parsedCell num (some str) = none := hstr
          rw [newText, if_pos habnormal, hcell, hprinted, Option.getD_none]
      | some w =>
          have habnormal : ¬abnormal num (some str) = true := by
            simp only [abnormal, hstr, Option.isNone_some]
            exact Bool.false_ne_true
          have hcell : parsedCell num (some str) = some w := hstr
          rw [newText, if_neg habnormal, hcell, Option.getD_some,
            Option.getD_some]
          unfold Numbers.convert at hstr
          split at hstr
          case h_1 u hread =>
            rw [hread, Option.map_some, ← Option.some.inj hstr]
          case h_2 => cases hstr

theorem buildNewColumn_all {chunks : List (List TextCell)} (v : V)
    (h : chunks ≠ []) :
    buildNewColumn num chunks (num.print v)
        (chunks.map (positions (abnormal num)))
      = some (replaced num (num.printed v) chunks) := by
  have hguard : chunks.length
      ≤ (chunks.map (positions (abnormal num))).length ∧ chunks ≠ [] :=
    ⟨(List.length_map _).ge, h⟩
  have hchunk : List.zipWith (newColVal (num.print v)) chunks
      (chunks.map (positions (abnormal num)))
      = chunks.map (List.map (newText num (num.print v))) := by
    rw [List.zipWith_map_right, List.zipWith_self]
    refine List.map_congr_left fun chunk _ => ?_
    exact overwrite_positions (abnormal num) (·.getD (num.print v))
      (num.print v) chunk
  rw [buildNewColumn, if_pos hguard, hchunk, ← List.map_flatten,
    List.mapM_map, replaced]
  exact mapM_some fun cell _ => read_newText v cell

theorem length_replaced (v : V) (chunks : List (List TextCell)) :
    (replaced num v chunks).length = chunks.flatten.length :=
  List.length_map _

/-- The printed form of an integer is the integer. -/
theorem printed_int64 (v : I64) : int64.printed v = v := by
  have hread : int64.read (int64.print v)
      = some (BitVec.ofInt 64 v.toInt, []) := by
    have hrange : -2 ^ 63 ≤ v.toInt ∧ v.toInt < 2 ^ 63 :=
      ⟨BitVec.le_toInt v, BitVec.toInt_lt⟩
    simp only [int64, stoll_printInt hrange, Option.map_some]
  simp only [Numbers.printed, hread, Option.get_some, BitVec.ofInt_toInt]

-- ================================================================== the column

theorem exists_setColumn {t : Table D} {c : Column D}
    (h : c.length = t.numRows) (i : Nat) (name : String) :
    ∃ t', t.setColumn i name c = some t' ∧ t'.numRows = t.numRows
      ∧ t'.columns = t.columns.set i (name, c) :=
  ⟨_, dif_pos h, rfl, rfl⟩

/-- A string column is replaced when the scan is over each of its chunks,
and there is one. -/
theorem processColumn_iff {toColumn : List V → Column D}
    (hlength : ∀ values, (toColumn values).length = values.length)
    {reveal : LocalStats V → V} {chunkNum i : Nat} {name name' : String}
    {t : Table D} {chunks : List (List TextCell)}
    (hcolumn : t.columns[i]? = some (name', .strings chunks))
    {stats : LocalStats V} {t' : Table D} :
    processColumn num toColumn reveal chunkNum name i t = some (stats, t')
      ↔ chunks ≠ [] ∧ chunkNum = chunks.length
        ∧ stats = allStats num chunks
        ∧ t'.numRows = t.numRows
        ∧ t'.columns = t.columns.set i (name, toColumn
          (replaced num (num.printed (reveal stats)) chunks)) := by
  have hrows : t.numRows = chunks.flatten.length :=
    (t.length_eq _ (List.mem_of_getElem? hcolumn)).symm
  have hall : chunks ≠ [] → ∀ t' : Table D, t'.numRows = t.numRows →
      t'.columns = t.columns.set i (name, toColumn
        (replaced num (num.printed (reveal (allStats num chunks))) chunks)) →
      processColumn num toColumn reveal chunks.length name i t
        = some (allStats num chunks, t') := by
    intro hne t' hnum hset
    -- the scan is over every chunk, and the column built from it has the
    -- table's rows
    obtain ⟨a, hscan, hstats⟩ := accumulate_all num chunks
    have hsize : (toColumn (replaced num
        (num.printed (reveal (allStats num chunks))) chunks)).length
        = t.numRows := by
      rw [hlength, length_replaced, hrows]
    simp only [processColumn, hcolumn, hscan, Option.bind_eq_bind,
      Option.bind_some]
    rw [hrows, hstats, buildNewColumn_all _ hne, Option.bind_some,
      Table.setColumn, dif_pos hsize, Option.bind_some]
    congr 2
    cases t'
    cases hnum
    cases hset
    rfl
  constructor
  · intro h
    -- the guard of the new column compares the chunks with the index, which
    -- the scan left
    have hparts : chunks ≠ [] ∧ chunkNum = chunks.length := by
      simp only [processColumn, hcolumn, Option.bind_eq_bind] at h
      obtain ⟨⟨a, abnormalIndex⟩, hscan, h⟩ := Option.bind_eq_some_iff.mp h
      obtain ⟨newArray, hbuild, -⟩ := Option.bind_eq_some_iff.mp h
      obtain ⟨hle, hindex⟩ := length_accumulate hscan
      unfold buildNewColumn at hbuild
      split at hbuild
      case isTrue hguard =>
        exact ⟨hguard.2, Nat.le_antisymm hle (hindex ▸ hguard.1)⟩
      case isFalse => cases hbuild
    obtain ⟨hne, hchunk⟩ := hparts
    refine ⟨hne, hchunk, ?_⟩
    have hsize : (toColumn (replaced num
        (num.printed (reveal (allStats num chunks))) chunks)).length
        = t.numRows := by
      rw [hlength, length_replaced, hrows]
    obtain ⟨t'', -, hnum, hset⟩ := exists_setColumn hsize i name
    rw [hchunk, hall hne t'' hnum hset] at h
    cases h
    exact ⟨rfl, hnum, hset⟩
  · intro h
    obtain ⟨hne, rfl, rfl, hnum, hset⟩ := h
    exact hall hne t' hnum hset

end PrimiHub.Algorithm
