/-
Importing column values: `FeedDict::importColumnValues` of
`executor/express.cc`, called in any order.

# What a call can do

`setOrCheckValueCount` writes `val_count_` before the checks behind it.
Where a count is there already, writing it again changes nothing; where
none is, nothing is stored, so that a name cannot be there twice. What
remains is the check of the run mode in the double overload, which stands
behind the count, while the integer overload asks for the column's type
before it (`importColumnValues_cases`). The invariant `Consistent` does
not depend on it.
-/
import PrimiHub.Executor.Columns
import PrimiHub.Lib.Run

namespace PrimiHub.Executor

open Lib (run Along)

namespace FeedDict

variable {D : Type} {cast : I64 → D} {cfg : ColumnConfig}
  {feed feed' : FeedDict D}

-- ================================================================ the count

/-- `val_count_` is free or has this value. -/
def Fits (feed : FeedDict D) (n : Int) : Prop :=
  feed.valCount = -1 ∨ feed.valCount = n

theorem setOrCheckValueCount_of_fits {n : Int} (h : feed.Fits n) :
    feed.setOrCheckValueCount n = (0, { feed with valCount := n }) := by
  unfold setOrCheckValueCount
  obtain hfree | hset := h
  · rw [if_pos hfree]
    exact if_neg (not_not.mpr rfl)
  · by_cases hfree : feed.valCount = -1
    · rw [if_pos hfree]
      exact if_neg (not_not.mpr rfl)
    · rw [if_neg hfree, ← hset]
      exact if_neg (not_not.mpr rfl)

theorem setOrCheckValueCount_of_not_fits {n : Int} (h : ¬ feed.Fits n) :
    feed.setOrCheckValueCount n = (-1, feed) := by
  obtain ⟨hfree, hset⟩ := not_or.mp h
  unfold setOrCheckValueCount
  rw [if_neg hfree]
  exact if_pos hset

/-- Counting again what has been counted. -/
theorem with_valCount {n : Int} (h : feed.valCount = n) :
    { feed with valCount := n } = feed := by
  subst h
  rfl

theorem castCount_of_lt {n : Nat} (h : n < 2 ^ 63) : castCount n = n := by
  have htoNat : (BitVec.ofNat 64 n).toNat = n := by
    rw [BitVec.toNat_ofNat]
    exact Nat.mod_eq_of_lt (by omega)
  unfold castCount
  rw [BitVec.toInt_eq_toNat_of_lt (by omega), htoNat]

-- ============================================================ what a call does

/-- The double overload on a column of the party. -/
theorem importColumnValuesFP64_local {name : Str} {vec : List D}
    (hlocal : cfg.localCol.lookup name = some true)
    (hfits : feed.Fits (castCount vec.length)) :
    importColumnValuesFP64 cfg name vec feed
      = .ok (if feed.floatRun = false then
          (-1, { feed with valCount := castCount vec.length })
        else if (feed.fp64Col.lookup name).isSome then
          (-2, { feed with valCount := castCount vec.length })
        else (0, { feed with
          valCount := castCount vec.length
          fp64Col := (name, vec) :: feed.fp64Col })) := by
  unfold importColumnValuesFP64 ColumnConfig.getColumnLocality
  simp only [hlocal, bind, Except.bind, Bool.true_eq_false, if_false,
    setOrCheckValueCount_of_fits hfits, ne_eq, not_true_eq_false]
  split
  · rfl
  · split <;> rfl

/-- The integer overload on a column of the party of integer type. -/
theorem importColumnValuesI64_local {name : Str} {vec : List I64}
    (hlocal : cfg.localCol.lookup name = some true)
    (hdtype : cfg.colDtype.lookup name = some .int64)
    (hfits : feed.Fits (castCount vec.length)) :
    importColumnValuesI64 cast cfg name vec feed
      = .ok (if feed.floatRun = true then
          if (feed.fp64Col.lookup name).isSome then
            (-3, { feed with valCount := castCount vec.length })
          else (0, { feed with
            valCount := castCount vec.length
            fp64Col := (name, vec.map cast) :: feed.fp64Col })
        else if (feed.int64Col.lookup name).isSome then
          (-4, { feed with valCount := castCount vec.length })
        else (0, { feed with
          valCount := castCount vec.length
          int64Col := (name, vec) :: feed.int64Col })) := by
  have hinner : ({ feed with valCount := castCount vec.length }
      : FeedDict D).Fits (castCount (vec.map cast).length) := by
    rw [List.length_map]
    exact Or.inr rfl
  unfold importColumnValuesI64 ColumnConfig.getColumnLocality
    ColumnConfig.getColumnDtype
  simp only [hlocal, hdtype, bind, Except.bind, Bool.true_eq_false, if_false,
    setOrCheckValueCount_of_fits hfits, ne_eq, not_true_eq_false,
    importColumnValuesFP64_local hlocal hinner, List.length_map]
  cases feed.floatRun with
  | false =>
      simp only [Bool.false_eq_true, if_false]
      split <;> rfl
  | true =>
      simp only [if_true, Bool.true_eq_false, if_false]
      split <;> rfl

/-- The double overload fails and changes nothing. -/
theorem importColumnValuesFP64_kept {name : Str} {vec : List D} {code : Int}
    (h : importColumnValuesFP64 cfg name vec feed = .ok (code, feed'))
    (hkept : ¬ (cfg.localCol.lookup name = some true
      ∧ feed.Fits (castCount vec.length))) : code ≠ 0 ∧ feed' = feed := by
  unfold importColumnValuesFP64 ColumnConfig.getColumnLocality at h
  cases hlocal : cfg.localCol.lookup name with
  | none =>
      rw [hlocal] at h
      cases h
  | some isLocal =>
      rw [hlocal] at h
      cases isLocal with
      | false =>
          cases h
          exact ⟨by decide, rfl⟩
      | true =>
          have hfits : ¬ feed.Fits (castCount vec.length) :=
            fun hfits => hkept ⟨hlocal, hfits⟩
          simp only [bind, Except.bind, Bool.true_eq_false, if_false,
            setOrCheckValueCount_of_not_fits hfits] at h
          cases h
          exact ⟨by decide, rfl⟩

/-- The integer overload fails and changes nothing. -/
theorem importColumnValuesI64_kept {name : Str} {vec : List I64} {code : Int}
    (h : importColumnValuesI64 cast cfg name vec feed = .ok (code, feed'))
    (hkept : ¬ (cfg.localCol.lookup name = some true
      ∧ cfg.colDtype.lookup name = some .int64
      ∧ feed.Fits (castCount vec.length))) : code ≠ 0 ∧ feed' = feed := by
  unfold importColumnValuesI64 ColumnConfig.getColumnLocality
    ColumnConfig.getColumnDtype at h
  cases hlocal : cfg.localCol.lookup name with
  | none =>
      rw [hlocal] at h
      cases h
  | some isLocal =>
      rw [hlocal] at h
      cases isLocal with
      | false =>
          cases h
          exact ⟨by decide, rfl⟩
      | true =>
          cases hdtype : cfg.colDtype.lookup name with
          | none =>
              rw [hdtype] at h
              cases h
          | some dtype =>
              rw [hdtype] at h
              cases dtype with
              | fp64 =>
                  cases h
                  exact ⟨by decide, rfl⟩
              | int64 =>
                  have hfits : ¬ feed.Fits (castCount vec.length) :=
                    fun hfits => hkept ⟨hlocal, hdtype, hfits⟩
                  simp only [bind, Except.bind, Bool.true_eq_false, if_false,
                    ne_eq, not_true_eq_false,
                    setOrCheckValueCount_of_not_fits hfits] at h
                  cases h
                  exact ⟨by decide, rfl⟩

theorem ne_nil_of_lookup {V : Type} {map : Map V} {name : Str}
    (h : (map.lookup name).isSome) : map ≠ [] := by
  rintro rfl
  cases h

theorem lookup_eq_none {V : Type} {map : Map V} {name : Str}
    (h : ¬ (map.lookup name).isSome) : map.lookup name = none :=
  Option.not_isSome_iff_eq_none.mp h

/-- What a call that returns can do: nothing, count and then fail, or
store the column. -/
theorem importColumnValues_cases {c : Import D} {code : Int}
    (h : importColumnValues cast cfg c feed = .ok (code, feed')) :
    (code ≠ 0 ∧ feed' = feed)
    ∨ feed.Fits c.values.length ∧
      ((code ≠ 0 ∧ feed' = { feed with valCount := c.values.length }
          ∧ ((∃ vec, c.values = .fp64 vec
              ∧ cfg.localCol.lookup c.colName = some true
              ∧ feed.floatRun = false)
            ∨ feed.fp64Col ≠ [] ∨ feed.int64Col ≠ []))
        ∨ (∃ vec : List D, vec.length = c.values.length
          ∧ code = 0 ∧ feed.floatRun = true
          ∧ feed.fp64Col.lookup c.colName = none
          ∧ feed' = { feed with
            valCount := c.values.length
            fp64Col := (c.colName, vec) :: feed.fp64Col })
        ∨ (∃ vec : List I64, vec.length = c.values.length
          ∧ code = 0 ∧ feed.floatRun = false
          ∧ feed.int64Col.lookup c.colName = none
          ∧ feed' = { feed with
            valCount := c.values.length
            int64Col := (c.colName, vec) :: feed.int64Col })) := by
  obtain ⟨name, values, hlength⟩ := c
  cases values with
  | fp64 vec =>
      have hcast : castCount vec.length = vec.length := castCount_of_lt hlength
      -- only a local column of the right length is counted
      by_cases hpass : cfg.localCol.lookup name = some true
          ∧ feed.Fits (castCount vec.length)
      case neg => exact Or.inl (importColumnValuesFP64_kept h hpass)
      obtain ⟨hlocal, hfits⟩ := hpass
      have hcall := h.symm.trans (importColumnValuesFP64_local hlocal hfits)
      rw [hcast] at hcall hfits
      refine Or.inr ⟨hfits, ?_⟩
      split at hcall
      · cases hcall
        exact Or.inl ⟨by decide, rfl, Or.inl ⟨vec, rfl, hlocal, ‹_›⟩⟩
      · split at hcall
        · cases hcall
          exact Or.inl ⟨by decide, rfl,
            Or.inr (Or.inl (ne_nil_of_lookup ‹_›))⟩
        · cases hcall
          exact Or.inr (Or.inl ⟨vec, rfl, rfl,
            Bool.not_eq_false _ ▸ ‹_›, lookup_eq_none ‹_›, rfl⟩)
  | int64 vec =>
      have hcast : castCount vec.length = vec.length := castCount_of_lt hlength
      by_cases hpass : cfg.localCol.lookup name = some true
          ∧ cfg.colDtype.lookup name = some .int64
          ∧ feed.Fits (castCount vec.length)
      case neg => exact Or.inl (importColumnValuesI64_kept h hpass)
      obtain ⟨hlocal, hdtype, hfits⟩ := hpass
      have hcall := h.symm.trans
        (importColumnValuesI64_local hlocal hdtype hfits)
      rw [hcast] at hcall hfits
      refine Or.inr ⟨hfits, ?_⟩
      split at hcall
      · split at hcall
        · cases hcall
          exact Or.inl ⟨by decide, rfl,
            Or.inr (Or.inl (ne_nil_of_lookup ‹_›))⟩
        · cases hcall
          exact Or.inr (Or.inl ⟨vec.map cast, List.length_map _, rfl, ‹_›,
            lookup_eq_none ‹_›, rfl⟩)
      · split at hcall
        · cases hcall
          exact Or.inl ⟨by decide, rfl,
            Or.inr (Or.inr (ne_nil_of_lookup ‹_›))⟩
        · cases hcall
          exact Or.inr (Or.inr ⟨vec, rfl, rfl,
            Bool.eq_false_of_not_eq_true ‹_›, lookup_eq_none ‹_›, rfl⟩)

-- ============================================================ the invariant

theorem Consistent.init (floatRun : Bool) :
    (FeedDict.init floatRun : FeedDict D).Consistent where
  length_fp64 _ hc := by cases hc
  length_int64 _ hc := by cases hc
  nodup_fp64 := List.nodup_nil
  nodup_int64 := List.nodup_nil
  fp64_nil _ := rfl
  int64_nil _ := rfl

/-- Where a column is stored, the count is its length. -/
theorem Consistent.valCount_nonneg (h : feed.Consistent)
    (hstored : feed.fp64Col ≠ [] ∨ feed.int64Col ≠ []) :
    0 ≤ feed.valCount := by
  obtain hfp64 | hint64 := hstored
  · obtain ⟨c, hc⟩ := List.exists_mem_of_ne_nil _ hfp64
    have hlength := h.length_fp64 c hc
    omega
  · obtain ⟨c, hc⟩ := List.exists_mem_of_ne_nil _ hint64
    have hlength := h.length_int64 c hc
    omega

/-- A count that fits, where a column is stored, is there. -/
theorem Consistent.valCount_eq (h : feed.Consistent) {n : Nat}
    (hfits : feed.Fits n)
    (hstored : feed.fp64Col ≠ [] ∨ feed.int64Col ≠ []) :
    feed.valCount = n := by
  have hnonneg := h.valCount_nonneg hstored
  obtain hfree | hset := hfits
  · omega
  · exact hset

/-- The lengths after counting. -/
theorem Consistent.length_of_fits (h : feed.Consistent) {n : Nat}
    (hfits : feed.Fits n) :
    (∀ c ∈ feed.fp64Col, c.2.length = n)
      ∧ ∀ c ∈ feed.int64Col, c.2.length = n := by
  refine ⟨fun c hc => ?_, fun c hc => ?_⟩
  · have hcount := h.valCount_eq hfits (Or.inl (List.ne_nil_of_mem hc))
    have hlength := h.length_fp64 c hc
    omega
  · have hcount := h.valCount_eq hfits (Or.inr (List.ne_nil_of_mem hc))
    have hlength := h.length_int64 c hc
    omega

theorem not_mem_of_lookup {V : Type} {map : Map V} {name : Str}
    (h : map.lookup name = none) : name ∉ map.map Prod.fst := by
  intro hmem
  obtain ⟨c, hc, rfl⟩ := List.mem_map.mp hmem
  have hne := List.lookup_eq_none_iff.mp h c hc
  rw [bne_iff_ne] at hne
  exact hne rfl

/-- Every call keeps the stored columns in order, failing or not. -/
theorem Consistent.step {c : Import D} (h : feed.Consistent)
    (hafter : afterImport cast cfg feed c = some feed') :
    feed'.Consistent := by
  unfold afterImport at hafter
  cases hcall : importColumnValues cast cfg c feed with
  | error fault =>
      rw [hcall] at hafter
      cases hafter
      exact h
  | ok r =>
      rw [hcall] at hafter
      cases hafter
      obtain ⟨-, hkept⟩ | ⟨hfits, hcases⟩ := importColumnValues_cases hcall
      · rw [hkept]
        exact h
      obtain ⟨hfp64, hint64⟩ := h.length_of_fits hfits
      obtain ⟨-, hr, -⟩ | ⟨vec, hvec, -, hmode, hnew, hr⟩
        | ⟨vec, hvec, -, hmode, hnew, hr⟩ := hcases
      · rw [hr]
        exact ⟨fun c hc => by rw [hfp64 c hc], fun c hc => by rw [hint64 c hc],
          h.nodup_fp64, h.nodup_int64, h.fp64_nil, h.int64_nil⟩
      · rw [hr]
        refine ⟨?_, fun c hc => by rw [hint64 c hc], ?_, h.nodup_int64, ?_,
          h.int64_nil⟩
        · intro d hd
          obtain rfl | hd := List.mem_cons.mp hd
          · exact congrArg Nat.cast hvec
          · rw [hfp64 d hd]
        · exact List.nodup_cons.mpr ⟨not_mem_of_lookup hnew, h.nodup_fp64⟩
        · intro hfalse
          exact absurd (hfalse.symm.trans hmode) Bool.false_ne_true
      · rw [hr]
        refine ⟨fun c hc => by rw [hfp64 c hc], ?_, h.nodup_fp64, ?_,
          h.fp64_nil, ?_⟩
        · intro d hd
          obtain rfl | hd := List.mem_cons.mp hd
          · exact congrArg Nat.cast hvec
          · rw [hint64 d hd]
        · exact List.nodup_cons.mpr ⟨not_mem_of_lookup hnew, h.nodup_int64⟩
        · intro htrue
          exact absurd (hmode.symm.trans htrue) Bool.false_ne_true

-- ============================================================= failing calls

/-- A call keeps the feed on failure exactly if it is admissible. -/
theorem Consistent.atomic_iff (h : feed.Consistent) (c : Import D) :
    Atomic cast cfg feed c ↔ Admissible cfg feed c := by
  refine ⟨fun hatomic => ?_, fun hadmissible => ?_⟩
  · obtain ⟨name, values, hlength⟩ := c
    cases values with
    | int64 vec => trivial
    | fp64 vec =>
        intro hlocal hmode hfree
        have hfits : feed.Fits (castCount vec.length) := Or.inl hfree
        have hcall := importColumnValuesFP64_local hlocal hfits
        rw [if_pos hmode] at hcall
        have hcast : castCount vec.length = vec.length :=
          castCount_of_lt hlength
        have hkept := congrArg FeedDict.valCount
          (hatomic _ _ hcall (by decide))
        rw [hfree] at hkept
        dsimp only at hkept
        omega
  · intro code feed' hcall hcode
    obtain ⟨-, hkept⟩ | ⟨hfits, hcases⟩ := importColumnValues_cases hcall
    · exact hkept
    obtain ⟨-, hr, hwhy⟩ | ⟨_, _, hzero, -⟩ | ⟨_, _, hzero, -⟩ := hcases
    · rw [hr]
      obtain ⟨vec, hvec, hlocal, hmode⟩ | hstored := hwhy
      · have hset : feed.valCount ≠ -1 := by
          unfold Admissible at hadmissible
          rw [hvec] at hadmissible
          exact hadmissible hlocal hmode
        exact with_valCount (hfits.resolve_left hset)
      · exact with_valCount (h.valCount_eq hfits hstored)
    · exact absurd hzero hcode
    · exact absurd hzero hcode

-- ============================================================== main result

/-- Whatever the calls, they all come to an end. -/
theorem run_afterImport (cast : I64 → D) (cfg : ColumnConfig)
    (feed : FeedDict D) (calls : List (Import D)) :
    ∃ feed', run (afterImport cast cfg) feed calls = some feed' := by
  induction calls generalizing feed with
  | nil => exact ⟨feed, rfl⟩
  | cons c rest ih =>
      have hstep : ∃ feed', afterImport cast cfg feed c = some feed' := by
        unfold afterImport
        cases importColumnValues cast cfg c feed with
        | ok r => exact ⟨r.2, rfl⟩
        | error fault => exact ⟨feed, rfl⟩
      obtain ⟨feed', hfeed'⟩ := hstep
      rw [Lib.run_cons hfeed']
      exact ih feed'

/-- After every sequence of imports the columns are in order, and its
failing calls change nothing exactly if all are admissible. -/
theorem imports_atomic_iff (cast : I64 → D) (cfg : ColumnConfig)
    (floatRun : Bool) (calls : List (Import D)) :
    (Along (afterImport cast cfg) (Atomic cast cfg) (.init floatRun) calls
        ∧ ∃ feed, run (afterImport cast cfg) (.init floatRun) calls
            = some feed ∧ feed.Consistent)
      ↔ Along (afterImport cast cfg) (Admissible cfg) (.init floatRun)
          calls := by
  have hstep : ∀ feed c feed', feed.Consistent →
      afterImport cast cfg feed c = some feed' → feed'.Consistent :=
    fun _ _ _ h hafter => h.step hafter
  have halong : Along (afterImport cast cfg) (Atomic cast cfg)
      (.init floatRun) calls
        ↔ Along (afterImport cast cfg) (Admissible cfg) (.init floatRun)
          calls :=
    Lib.along_congr_of_invariant hstep (fun _ c h => h.atomic_iff c)
      (.init floatRun)
  obtain ⟨feed, hrun⟩ := run_afterImport cast cfg (.init floatRun) calls
  have hconsistent : feed.Consistent :=
    Lib.run_invariant hstep (.init floatRun) hrun
  rw [halong]
  exact and_iff_left ⟨feed, hrun, hconsistent⟩

-- ================================================================ two columns

/-- A party's configuration with two columns of its own. -/
def twoLocal : ColumnConfig :=
  ⟨0, [(['A'], 0), (['B'], 0)], [(['A'], .int64), (['B'], .int64)],
    [(['A'], true), (['B'], true)]⟩

/-- Integer mode: a double vector handed over first is refused, but its
length is kept as the count. -/
theorem not_imports_atomic_double :
    ¬ ∀ (D : Type) (cast : I64 → D) (cfg : ColumnConfig) (floatRun : Bool)
      (calls : List (Import D)),
      Along (afterImport cast cfg) (Atomic cast cfg) (.init floatRun) calls
        ∧ ∃ feed, run (afterImport cast cfg) (.init floatRun) calls
            = some feed ∧ feed.Consistent := by
  intro h
  obtain ⟨⟨hatomic, -⟩, -⟩ := h I64 id twoLocal false
    [⟨['A'], .fp64 [1, 2], by decide⟩]
  have hkept := congrArg FeedDict.valCount (hatomic (-1) _ rfl (by decide))
  exact absurd hkept (by decide)

end FeedDict

end PrimiHub.Executor
