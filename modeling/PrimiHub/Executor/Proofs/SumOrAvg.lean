/-
The sums of a party: which columns they are right for.

The number of entries is the number of slots, so it is right only where
none of them is null. Then the sum is that of the signed readings, and
each entry of an unsigned type with its top bit set is read too small by
the same power of two (`toInt_eq_number`): nothing makes up for it.
-/
import Mathlib.Algebra.Order.BigOperators.Group.List
import Mathlib.Tactic.Conv
import PrimiHub.Executor.SumOrAvg
import PrimiHub.Lib.Traverse

namespace PrimiHub.Executor.SumOrAvg

open Lib
open Statistics (ColumnDtype Slot)

-- ============================================================= exact additions

/-- Adding doubles one by one, where every partial sum is one. -/
theorem foldl_addDouble {values : List Int} (h : Representable values) :
    values.foldl (fun sum v => addDouble sum (castDouble v)) 0
      = (values.sum : Int) := by
  have htake : ∀ k ≤ values.length,
      (values.take k).foldl (fun sum v => addDouble sum (castDouble v)) 0
        = ((values.take k).sum : Int) := by
    intro k
    induction k with
    | zero =>
        intro _
        rw [List.take_zero]
        exact Int.cast_zero.symm
    | succ k ih =>
        intro hk
        obtain ⟨v, hv⟩ : ∃ v, values[k]? = some v :=
          ⟨_, List.getElem?_eq_getElem (by omega)⟩
        have hsum : (values.take (k + 1)).sum = (values.take k).sum + v := by
          rw [List.take_add_one, hv, List.sum_append]
          simp
        have hexact := h.2 (k + 1) hk
        rw [hsum] at hexact ⊢
        rw [List.take_add_one, hv, List.foldl_append, ih (by omega)]
        show addDouble _ (castDouble v) = _
        rw [addDouble, h.1 v (List.mem_of_getElem? hv), ← Int.cast_add, hexact]
  have hall := htake values.length (Nat.le_refl _)
  rwa [List.take_length] at hall

/-- Integers whose absolute values add up to a small number. -/
theorem representable_of_small {values : List Int}
    (h : (values.map Int.natAbs).sum < 2 ^ 53) : Representable values := by
  have hle : ∀ k, ((values.take k).sum).natAbs
      ≤ ((values.take k).map Int.natAbs).sum := by
    intro k
    induction values.take k with
    | nil => exact Nat.le_refl 0
    | cons v rest ih =>
        rw [List.sum_cons, List.map_cons, List.sum_cons]
        omega
  have htake : ∀ k, ((values.take k).map Int.natAbs).sum
      ≤ (values.map Int.natAbs).sum := by
    intro k
    conv_rhs => rw [← List.take_append_drop k values]
    rw [List.map_append, List.sum_append]
    omega
  refine ⟨fun v hv => ?_, fun k _ => ?_⟩
  · have hsingle : v.natAbs ≤ (values.map Int.natAbs).sum :=
      List.le_sum_of_mem (List.mem_map_of_mem hv)
    exact castDouble_of_lt (Nat.lt_of_le_of_lt hsingle h)
  · refine roundToDouble_of_lt ?_
    have hk := hle k
    have hk' := htake k
    omega

/-- The two loops, one after the other. -/
theorem sumChunks_eq {α : Type} (toDouble : α → ℚ)
    (chunks : List (List (Slot α))) :
    sumChunks toDouble chunks
      = (chunks.flatten.foldl
          (fun sum s => addDouble sum (toDouble s.value)) 0,
        chunks.foldl
          (fun count chunk => addDouble count (castDouble chunk.length))
          0) := by
  have hacc : ∀ acc : ℚ × ℚ, chunks.foldl (fun acc chunk =>
        (sumChunk toDouble acc.1 chunk,
          addDouble acc.2 (castDouble chunk.length))) acc
      = (chunks.flatten.foldl
          (fun sum s => addDouble sum (toDouble s.value)) acc.1,
        chunks.foldl
          (fun count chunk => addDouble count (castDouble chunk.length))
          acc.2) := by
    induction chunks with
    | nil => exact fun _ => rfl
    | cons chunk rest ih =>
        intro acc
        rw [List.foldl_cons, ih, List.flatten_cons, List.foldl_append,
          List.foldl_cons]
        rfl
  exact hacc (0, 0)

theorem sum_lengths {α : Type} (chunks : List (List α)) :
    (chunks.map fun chunk => (chunk.length : Int)).sum
      = (chunks.flatten.length : Int) := by
  induction chunks with
  | nil => rfl
  | cons chunk rest ih =>
      rw [List.map_cons, List.sum_cons, ih, List.flatten_cons,
        List.length_append, Int.natCast_add]

/-- What an integer column gives where no addition rounds. -/
theorem sumChunks_exact {type : IntType} {chunks : IntChunks type}
    (h : Summable chunks) :
    sumChunks (fun v => castDouble v.toInt) chunks
      = ((((chunks.flatten.map fun s => s.value.toInt).sum : Int) : ℚ),
        (chunks.flatten.length : ℚ)) := by
  have hsum := foldl_addDouble h.1
  have hcount := foldl_addDouble h.2
  rw [List.foldl_map] at hsum hcount
  rw [sum_lengths, Int.cast_natCast] at hcount
  rw [sumChunks_eq, hsum, hcount]

-- ================================================================ the readings

/-- A reading falls short by a power of two where an unsigned number has its
top bit set. -/
theorem number_eq (type : IntType) (v : BitVec type.width) :
    type.number v = v.toInt
      + if type.signed = false ∧ v.msb = true then 2 ^ type.width else 0 := by
  unfold IntType.number
  cases hsigned : type.signed with
  | true =>
      rw [if_pos rfl, if_neg (by rintro ⟨h, -⟩; cases h), Int.add_zero]
  | false =>
      rw [if_neg Bool.false_ne_true, BitVec.toInt_eq_msb_cond]
      cases v.msb with
      | true =>
          rw [if_pos rfl, if_pos ⟨rfl, rfl⟩]
          push_cast
          omega
      | false =>
          rw [if_neg Bool.false_ne_true,
            if_neg (by rintro ⟨-, h⟩; cases h), Int.add_zero]

theorem toInt_le_number (type : IntType) (v : BitVec type.width) :
    v.toInt ≤ type.number v := by
  have hpow : (0 : Int) < 2 ^ type.width := Int.pow_pos (by decide)
  rw [number_eq]
  split
  · omega
  · omega

theorem toInt_eq_number_iff (type : IntType) (v : BitVec type.width) :
    v.toInt = type.number v ↔ (type.signed = false → v.msb = false) := by
  have hpow : (0 : Int) < 2 ^ type.width := Int.pow_pos (by decide)
  rw [number_eq]
  by_cases htop : type.signed = false ∧ v.msb = true
  · rw [if_pos htop]
    refine iff_of_false (by omega) fun h => ?_
    rw [h htop.1] at htop
    exact Bool.false_ne_true htop.2
  · rw [if_neg htop]
    refine iff_of_true (by omega) fun hsigned => ?_
    exact Bool.eq_false_iff.mpr fun hmsb => htop ⟨hsigned, hmsb⟩

/-- Where no term is larger, the sums are equal only if the terms are. -/
theorem sum_map_eq_iff {α : Type} {f g : α → Int} {xs : List α}
    (hle : ∀ x, f x ≤ g x) :
    (xs.map f).sum = (xs.map g).sum ↔ ∀ x ∈ xs, f x = g x := by
  have hsum : ∀ ys : List α, (ys.map f).sum ≤ (ys.map g).sum := by
    intro ys
    induction ys with
    | nil => exact Int.le_refl 0
    | cons y ys ih =>
        have hy := hle y
        rw [List.map_cons, List.sum_cons, List.map_cons, List.sum_cons]
        omega
  induction xs with
  | nil => exact iff_of_true rfl fun _ hx => nomatch hx
  | cons x xs ih =>
      have hx := hle x
      have hxs := hsum xs
      rw [List.map_cons, List.sum_cons, List.map_cons, List.sum_cons,
        List.forall_mem_cons]
      constructor
      · intro h
        exact ⟨by omega, ih.mp (by omega)⟩
      · rintro ⟨hhead, htail⟩
        rw [hhead, ih.mpr htail]

/-- The row of a column is right exactly if the column is plain. -/
theorem column_exact_iff {type : IntType} (chunks : IntChunks type) :
    (chunks.flatten.map fun s => s.value.toInt).sum = exactSum chunks
        ∧ chunks.flatten.length = nonNull chunks
      ↔ Plain chunks := by
  have hcount : chunks.flatten.length = nonNull chunks
      ↔ ∀ s ∈ chunks.flatten, s.valid = true := by
    rw [eq_comm, nonNull, List.countP_eq_length]
  have hplain : Plain chunks ↔ (∀ s ∈ chunks.flatten, s.valid = true)
      ∧ ∀ s ∈ chunks.flatten, s.value.toInt = type.number s.value := by
    unfold Plain
    simp only [toInt_eq_number_iff]
    exact forall₂_and
  rw [hcount, hplain, and_comm]
  refine and_congr_right fun hvalid => ?_
  have hfilter : chunks.flatten.filter (·.valid) = chunks.flatten :=
    List.filter_eq_self.mpr hvalid
  rw [exactSum, hfilter]
  exact sum_map_eq_iff fun s => toInt_le_number type s.value

-- ================================================================ main result

/-- The row of a requested column. -/
def rowOf (dtype : String → ColumnDtype) (table : Table) (name : String) :
    Option (ℚ × ℚ) := do
  let column ← getColumnByName table name
  columnResult (dtype name) column

theorem rowOf_isSome {dtype : String → ColumnDtype} {table : Table}
    {name : String} {column : ChunkedArray}
    (hcolumn : getColumnByName table name = some column)
    (hreadable : Readable (dtype name) column) :
    ∃ row, rowOf dtype table name = some row := by
  unfold rowOf
  rw [hcolumn]
  cases column with
  | int type chunks =>
      obtain hdtype | hdtype := hreadable
      · exact ⟨_, by rw [hdtype]; rfl⟩
      · exact ⟨_, by rw [hdtype]; rfl⟩
  | double chunks =>
      have hdtype : dtype name = .double := hreadable
      exact ⟨_, by rw [hdtype]; rfl⟩
  | other chunks => cases hreadable

theorem rowOf_int {dtype : String → ColumnDtype} {table : Table}
    {name : String} {type : IntType} {chunks : IntChunks type}
    (hcolumn : getColumnByName table name = some (.int type chunks))
    (hreadable : Readable (dtype name) (.int type chunks))
    (hsummable : Summable chunks) :
    rowOf dtype table name
      = some ((((chunks.flatten.map fun s => s.value.toInt).sum : Int) : ℚ),
        (chunks.flatten.length : ℚ)) := by
  have hresult : columnResult (dtype name) (.int type chunks)
      = some (sumChunks (fun v => castDouble v.toInt) chunks) := by
    obtain hdtype | hdtype := hreadable
    · rw [hdtype]
      rfl
    · rw [hdtype]
      rfl
  rw [rowOf, hcolumn, ← sumChunks_exact hsummable]
  exact hresult

/-- The requested columns are all of the types that are asked for. -/
def AllReadable (dtype : String → ColumnDtype) (columns : List String)
    (table : Table) : Prop :=
  ∀ name ∈ columns, ∃ column,
    getColumnByName table name = some column ∧ Readable (dtype name) column

variable {dtype : String → ColumnDtype} {columns : List String} {table : Table}

theorem plainTextDataCompute_eq (h : AllReadable dtype columns table) :
    plainTextDataCompute dtype columns table
      = some (columns.map fun name =>
        (rowOf dtype table name).getD (0, 0)) := by
  refine mapM_some fun name hname => ?_
  obtain ⟨column, hcolumn, hread⟩ := h name hname
  obtain ⟨row, hrow⟩ := rowOf_isSome hcolumn hread
  show rowOf dtype table name = _
  rw [hrow, Option.getD_some]

theorem row_exact_iff (h : AllReadable dtype columns table) {name : String}
    (hname : name ∈ columns) {type : IntType} {chunks : IntChunks type}
    (hcolumn : getColumnByName table name = some (.int type chunks))
    (hsummable : Summable chunks) :
    (rowOf dtype table name).getD (0, 0)
        = ((exactSum chunks : ℚ), (nonNull chunks : ℚ))
      ↔ Plain chunks := by
  obtain ⟨column, hcolumn', hread⟩ := h name hname
  rw [hcolumn] at hcolumn'
  cases hcolumn'
  rw [rowOf_int hcolumn hread hsummable, Option.getD_some, Prod.mk.injEq,
    Int.cast_inj, Nat.cast_inj, column_exact_iff]

/-- A row that is right is that of a plain column. -/
theorem Exact.plain (hexact : Exact dtype columns table)
    (h : AllReadable dtype columns table) {name : String}
    (hname : name ∈ columns) {type : IntType} {chunks : IntChunks type}
    (hcolumn : getColumnByName table name = some (.int type chunks))
    (hsummable : Summable chunks) : Plain chunks := by
  obtain ⟨rows, hcompute, -, hrows⟩ := hexact
  rw [plainTextDataCompute_eq h] at hcompute
  cases hcompute
  obtain ⟨i, hi⟩ := List.mem_iff_getElem?.mp hname
  have hrow := hrows i name type chunks hi hcolumn
  rw [List.getElem?_map, hi, Option.map_some, Option.some.injEq] at hrow
  exact (row_exact_iff h hname hcolumn hsummable).mp hrow

/-- The sums and numbers of a party's columns are right exactly if its
integer columns are plain, provided that no addition rounds. -/
theorem plainTextDataCompute_exact_iff
    (hreadable : AllReadable dtype columns table)
    (hsummable : ∀ name ∈ columns, ∀ (type : IntType)
      (chunks : IntChunks type),
      getColumnByName table name = some (.int type chunks) →
        Summable chunks) :
    Exact dtype columns table
      ↔ ∀ name ∈ columns, ∀ (type : IntType) (chunks : IntChunks type),
        getColumnByName table name = some (.int type chunks) →
          Plain chunks := by
  constructor
  · intro hexact name hname type chunks hcolumn
    exact hexact.plain hreadable hname hcolumn
      (hsummable name hname type chunks hcolumn)
  · intro hplain
    refine ⟨_, plainTextDataCompute_eq hreadable, List.length_map _, ?_⟩
    intro i name type chunks hi hcolumn
    have hname := List.mem_of_getElem? hi
    rw [List.getElem?_map, hi, Option.map_some,
      (row_exact_iff hreadable hname hcolumn
        (hsummable name hname type chunks hcolumn)).mpr
        (hplain name hname type chunks hcolumn)]

-- ================================================================== one column

/-- A column of unsigned bytes in two chunks. -/
def bytes (a b : BitVec 8) : IntChunks .uint8 := [[⟨a, true⟩], [⟨b, true⟩]]

theorem bytes_summable : Summable (bytes 1 127) ∧ Summable (bytes 1 200) :=
  ⟨⟨representable_of_small (by decide), representable_of_small (by decide)⟩,
    ⟨representable_of_small (by decide), representable_of_small (by decide)⟩⟩

/-- A table with one column of bytes, which is asked for. -/
theorem readable_bytes (a b : BitVec 8) :
    AllReadable (fun _ => .integer) ["A"] [("A", .int .uint8 (bytes a b))] := by
  intro name hname
  obtain rfl := List.mem_singleton.mp hname
  exact ⟨_, rfl, Or.inl rfl⟩

theorem getColumnByName_bytes {a b : BitVec 8} {type : IntType}
    {chunks : IntChunks type} {name : String} (hname : name ∈ ["A"])
    (h : getColumnByName [("A", .int .uint8 (bytes a b))] name
      = some (.int type chunks)) :
    (⟨type, chunks⟩ : (type : IntType) × IntChunks type)
      = ⟨.uint8, bytes a b⟩ := by
  obtain rfl := List.mem_singleton.mp hname
  cases h
  rfl

/-- The bytes 1 and 127. -/
theorem plainTextDataCompute_exact_bytes :
    Exact (fun _ => .integer) ["A"]
      [("A", .int .uint8 (bytes 1 127))] := by
  refine (plainTextDataCompute_exact_iff (readable_bytes 1 127) ?_).mpr ?_
  · intro name hname type chunks hcolumn
    cases getColumnByName_bytes hname hcolumn
    exact bytes_summable.1
  · intro name hname type chunks hcolumn
    cases getColumnByName_bytes hname hcolumn
    unfold Plain
    decide

/-- The bytes 1 and 200: the second is read as -56. -/
theorem not_plainTextDataCompute_exact_unsigned :
    ¬ ∀ (dtype : String → ColumnDtype) (columns : List String)
      (table : Table), AllReadable dtype columns table →
        Exact dtype columns table := by
  intro h
  have hreadable := readable_bytes 1 200
  have hplain : Plain (bytes 1 200) :=
    (h _ _ _ hreadable).plain hreadable List.mem_cons_self rfl
      bytes_summable.2
  have hmem : (⟨200, true⟩ : Slot (BitVec 8)) ∈ (bytes 1 200).flatten :=
    List.mem_cons_of_mem _ List.mem_cons_self
  exact absurd ((hplain _ hmem).2 rfl) (by decide)

end PrimiHub.Executor.SumOrAvg
