/-
What an expression task imports.

`_LoadDatasetFromCSV` puts a column into one of two maps by the type the
task demands of it (`loadDatasetFromCSV_spec`). `loadDataset` imports the
doubles if there are any, and else the integers; what the loop is given
for a local column ends up in the feed (`importValuesOf_spec`). So all
local columns of the expression are there unless some of them are
integers and the table has a column of demanded type double
(`loadDataset_fed_iff`).
-/
import PrimiHub.Algorithm.LoadDataset
import PrimiHub.Executor.Proofs.Feed
import PrimiHub.Lib.Traverse

namespace PrimiHub.Algorithm.ArithmeticExecutor

open Executor (I64 Str text Map Fault ColDtype ColumnConfig FeedDict TokenType
  Compiler importExpress resolveRunMode operandTokens)
open Lib (bind_eq_ok_iff foldlM_invariant)

variable {D : Type} {cast : I64 → D} {task : ExprTask}

-- ================================================================ the table

/-- The values a map is to have for a column. -/
abbrev Selection (D V : Type) := TableColumn D → Option (List V)

/-- What goes into `col_and_val_int`. -/
def ExprTask.selectInt (task : ExprTask) : Selection D I64 := fun col =>
  if task.colAndDtype.lookup col.name = some false then col.chunks.ints
  else none

/-- What goes into `col_and_val_double`. -/
def ExprTask.selectDouble (cast : I64 → D) (task : ExprTask) :
    Selection D D := fun col =>
  if task.colAndDtype.lookup col.name = some true then
    col.chunks.doubles cast
  else none

/-- A column that is to be double is selected as one. -/
theorem selectDouble_of_double {col : TableColumn D} {vec : List D}
    (hdouble : task.Double col) (hvec : col.chunks.doubles cast = some vec) :
    task.selectDouble cast col = some vec := by
  unfold ExprTask.Double at hdouble
  rw [ExprTask.selectDouble, if_pos hdouble, hvec]

/-- A column that has been selected as double is to be one. -/
theorem double_of_selectDouble {col : TableColumn D} {vec : List D}
    (h : task.selectDouble cast col = some vec) : task.Double col := by
  unfold ExprTask.selectDouble at h
  split at h
  · assumption
  · cases h

/-- The map has the selected values of the columns, and no others. -/
structure Collected {V : Type} (select : Selection D V)
    (cols : List (TableColumn D)) (n : Nat) (map : Map (List V)) : Prop where
  mem : ∀ col ∈ cols, ∀ vec, select col = some vec → (col.name, vec) ∈ map
  sound : ∀ c ∈ map, ∃ col ∈ cols, col.name = c.1 ∧ select col = some c.2
  length : ∀ c ∈ map, c.2.length = n
  unique : ∀ c ∈ map, ∀ d ∈ map, c.1 = d.1 → c.2 = d.2

theorem Collected.nil {V : Type} (select : Selection D V) (n : Nat) :
    Collected select [] n [] where
  mem _ hcol := by cases hcol
  sound _ hc := by cases hc
  length _ hc := by cases hc
  unique _ hc := by cases hc

/-- A column without selected values leaves the map as it is. -/
theorem Collected.skip {V : Type} {select : Selection D V}
    {cols : List (TableColumn D)} {n : Nat} {map : Map (List V)}
    (h : Collected select cols n map) {col : TableColumn D}
    (hnone : select col = none) : Collected select (cols ++ [col]) n map where
  mem d hd vec hvec := by
    obtain hd | hd := List.mem_append.mp hd
    · exact h.mem d hd vec hvec
    · obtain rfl := List.mem_singleton.mp hd
      rw [hnone] at hvec
      cases hvec
  sound c hc := by
    obtain ⟨d, hd, hname⟩ := h.sound c hc
    exact ⟨d, List.mem_append_left _ hd, hname⟩
  length := h.length
  unique := h.unique

/-- A column of a new name goes into the map. -/
theorem Collected.insert {V : Type} {select : Selection D V}
    {cols : List (TableColumn D)} {n : Nat} {map : Map (List V)}
    (h : Collected select cols n map) {col : TableColumn D} {vec : List V}
    (hnew : ∀ d ∈ cols, d.name ≠ col.name) (hvec : select col = some vec)
    (hlength : vec.length = n) :
    Collected select (cols ++ [col]) n (insertNew map col.name vec) := by
  -- the map holds only names of the columns before
  have hfresh : map.lookup col.name = none := by
    rw [List.lookup_eq_none_iff]
    intro c hc
    obtain ⟨d, hd, hname, -⟩ := h.sound c hc
    rw [bne_iff_ne, ← hname]
    exact fun heq => hnew d hd heq.symm
  have hinsert : insertNew map col.name vec = map ++ [(col.name, vec)] := by
    unfold insertNew
    rw [hfresh]
    rfl
  rw [hinsert]
  have hnot : ∀ c ∈ map, c.1 ≠ col.name := by
    intro c hc hname
    have hne := List.lookup_eq_none_iff.mp hfresh c hc
    rw [bne_iff_ne] at hne
    exact hne hname.symm
  refine ⟨?_, ?_, ?_, ?_⟩
  · intro d hd vec' hvec'
    obtain hd | hd := List.mem_append.mp hd
    · exact List.mem_append_left _ (h.mem d hd vec' hvec')
    · obtain rfl := List.mem_singleton.mp hd
      rw [hvec, Option.some.injEq] at hvec'
      rw [hvec']
      exact List.mem_append_right _ List.mem_cons_self
  · intro c hc
    obtain hc | hc := List.mem_append.mp hc
    · obtain ⟨d, hd, hname⟩ := h.sound c hc
      exact ⟨d, List.mem_append_left _ hd, hname⟩
    · obtain rfl := List.mem_singleton.mp hc
      exact ⟨col, List.mem_append_right _ List.mem_cons_self, rfl, hvec⟩
  · intro c hc
    obtain hc | hc := List.mem_append.mp hc
    · exact h.length c hc
    · obtain rfl := List.mem_singleton.mp hc
      exact hlength
  · intro c hc d hd hname
    obtain hc | hc := List.mem_append.mp hc
    · obtain hd | hd := List.mem_append.mp hd
      · exact h.unique c hc d hd hname
      · obtain rfl := List.mem_singleton.mp hd
        exact absurd hname (hnot c hc)
    · obtain rfl := List.mem_singleton.mp hc
      obtain hd | hd := List.mem_append.mp hd
      · exact absurd hname.symm (hnot d hd)
      · obtain rfl := List.mem_singleton.mp hd
        rfl

/-- Reading loses no entry. -/
theorem Chunks.length_ints {chunks : Chunks D} {vec : List I64}
    (h : chunks.ints = some vec) : vec.length = chunks.length := by
  cases chunks with
  | int64 chunks =>
      cases h
      exact List.length_flatten
  | double chunks => cases h
  | other lengths => cases h

/-- Nor does it as doubles. -/
theorem Chunks.length_doubles {chunks : Chunks D} {vec : List D}
    (h : chunks.doubles cast = some vec) : vec.length = chunks.length := by
  cases chunks with
  | int64 chunks =>
      cases h
      rw [List.length_map]
      exact List.length_flatten
  | double chunks =>
      cases h
      exact List.length_flatten
  | other lengths => cases h

/-- Integers are cast where doubles are asked for. -/
theorem Chunks.doubles_of_ints {chunks : Chunks D} {vec : List I64}
    (h : chunks.ints = some vec) :
    chunks.doubles cast = some (vec.map cast) := by
  cases chunks with
  | int64 chunks =>
      cases h
      rfl
  | double chunks => cases h
  | other lengths => cases h

/-- What reading a column does when it does not fail. -/
theorem loadColumn_cases {table : List (TableColumn D)} {n : Nat}
    {acc acc' : ColAndVal D} {col : TableColumn D}
    (h : loadColumn cast task table n acc col = .ok acc') :
    (task.colAndDtype.lookup col.name = none ∧ acc' = acc)
    ∨ table.countP (fun c => c.name == col.name) = 1
      ∧ col.chunks.length = n
      ∧ ((task.colAndDtype.lookup col.name = some false
          ∧ ∃ vec, col.chunks.ints = some vec
            ∧ acc' = { acc with int := insertNew acc.int col.name vec })
        ∨ (task.colAndDtype.lookup col.name = some true
          ∧ ∃ vec, col.chunks.doubles cast = some vec
            ∧ acc' = { acc with
              double := insertNew acc.double col.name vec })) := by
  obtain ⟨name, chunks⟩ := col
  unfold loadColumn at h
  cases hdtype : task.colAndDtype.lookup name with
  | none =>
      rw [hdtype] at h
      cases h
      exact Or.inl ⟨rfl, rfl⟩
  | some dtype =>
      rw [hdtype] at h
      dsimp only at h ⊢
      -- the name must stand in the schema exactly once
      split at h
      · cases h
      · rename_i hone
        refine Or.inr ⟨not_not.mp hone, ?_⟩
        cases dtype with
        | false =>
            rw [if_pos rfl] at h
            cases chunks with
            | int64 chunks =>
                dsimp only at h
                split at h
                · cases h
                · rename_i hlength
                  cases h
                  exact ⟨not_not.mp hlength, Or.inl ⟨rfl, _, rfl, rfl⟩⟩
            | double chunks => cases h
            | other lengths => cases h
        | true =>
            rw [if_neg Bool.true_eq_false.mp] at h
            cases chunks with
            | int64 chunks =>
                dsimp only at h
                split at h
                · cases h
                · rename_i hlength
                  cases h
                  exact ⟨not_not.mp hlength, Or.inr ⟨rfl, _, rfl, rfl⟩⟩
            | double chunks =>
                dsimp only at h
                split at h
                · cases h
                · rename_i hlength
                  cases h
                  exact ⟨not_not.mp hlength, Or.inr ⟨rfl, _, rfl, rfl⟩⟩
            | other lengths => cases h

/-- What reading the table has collected. -/
structure Loaded (cast : I64 → D) (task : ExprTask)
    (cols : List (TableColumn D)) (n : Nat) (vals : ColAndVal D) : Prop where
  int : Collected task.selectInt cols n vals.int
  double : Collected (task.selectDouble cast) cols n vals.double
  readable : ∀ col ∈ cols, ∀ dtype,
    task.colAndDtype.lookup col.name = some dtype →
      if dtype then ∃ vec, col.chunks.doubles cast = some vec
      else ∃ vec, col.chunks.ints = some vec

/-- What the loop over the columns has collected. -/
theorem loadColumns_spec {table : List (TableColumn D)} {n : Nat}
    {vals : ColAndVal D}
    (h : table.foldlM (loadColumn cast task table n) ⟨[], []⟩ = .ok vals) :
    Loaded cast task table n vals := by
  refine foldlM_invariant (I := fun cols vals => Loaded cast task cols n vals)
    ?_ ⟨.nil _ _, .nil _ _, fun _ hcol => nomatch hcol⟩ h
  intro done col rest acc acc' htable hacc hcol
  have hreadable : ∀ {P : TableColumn D → Prop}, (∀ d ∈ done, P d) → P col →
      ∀ d ∈ done ++ [col], P d := by
    intro P hdone hP d hd
    obtain hd | hd := List.mem_append.mp hd
    · exact hdone d hd
    · exact List.mem_singleton.mp hd ▸ hP
  obtain ⟨hnone, rfl⟩ | ⟨hone, hlength, hcases⟩ := loadColumn_cases hcol
  · have hint : task.selectInt col = none := by
      rw [ExprTask.selectInt, hnone]
      rfl
    have hdouble : task.selectDouble cast col = none := by
      rw [ExprTask.selectDouble, hnone]
      rfl
    refine ⟨hacc.int.skip hint, hacc.double.skip hdouble,
      hreadable hacc.readable ?_⟩
    intro dtype hdtype
    rw [hnone] at hdtype
    cases hdtype
  -- the name is found once in the table, so no column of it came before
  have hnew : ∀ d ∈ done, d.name ≠ col.name := by
    intro d hd hname
    have hleft : 0 < done.countP fun c => c.name == col.name :=
      List.countP_pos_iff.mpr ⟨d, hd, beq_iff_eq.mpr hname⟩
    have hright : 0 < (col :: rest).countP fun c => c.name == col.name :=
      List.countP_pos_iff.mpr ⟨col, List.mem_cons_self, beq_self_eq_true _⟩
    rw [htable, List.countP_append] at hone
    omega
  obtain ⟨hdtype, vec, hvec, rfl⟩ | ⟨hdtype, vec, hvec, rfl⟩ := hcases
  · have hint : task.selectInt col = some vec := by
      rw [ExprTask.selectInt, if_pos hdtype, hvec]
    have hdouble : task.selectDouble cast col = none := by
      rw [ExprTask.selectDouble, hdtype]
      rfl
    refine ⟨hacc.int.insert hnew hint
      ((Chunks.length_ints hvec).trans hlength), hacc.double.skip hdouble,
      hreadable hacc.readable ?_⟩
    intro dtype hd
    rw [hdtype, Option.some.injEq] at hd
    subst hd
    exact ⟨vec, hvec⟩
  · have hint : task.selectInt col = none := by
      rw [ExprTask.selectInt, hdtype]
      rfl
    have hdouble : task.selectDouble cast col = some vec := by
      rw [ExprTask.selectDouble, if_pos hdtype, hvec]
    refine ⟨hacc.int.skip hint, hacc.double.insert hnew hdouble
      ((Chunks.length_doubles hvec).trans hlength),
      hreadable hacc.readable ?_⟩
    intro dtype hd
    rw [hdtype, Option.some.injEq] at hd
    subst hd
    exact ⟨vec, hvec⟩

-- =========================================================== the configuration

/-- An entry at the end shows where nothing is in front of it. -/
theorem lookup_concat {V : Type} (map : Map V) (name key : Str) (v : V) :
    (map ++ [(key, v)]).lookup name
      = (map.lookup name).or (if name = key then some v else none) := by
  rw [List.lookup_append, List.lookup_cons, List.lookup_nil]
  by_cases hname : name = key
  · rw [hname, beq_self_eq_true, if_pos rfl]
  · rw [beq_eq_false_iff_ne.mpr hname, if_neg hname]

/-- The owners are stored and nothing else. -/
theorem importOwnersOf_spec {cfg : ColumnConfig}
    (h : importOwnersOf task = .ok cfg) :
    (∀ name, cfg.colOwner.lookup name = task.colAndOwner.lookup name)
      ∧ cfg.colDtype = [] ∧ cfg.localCol = [] ∧ cfg.partyId = task.partyId := by
  refine foldlM_invariant (I := fun done cfg =>
    (∀ name, cfg.colOwner.lookup name = done.lookup name)
      ∧ cfg.colDtype = [] ∧ cfg.localCol = [] ∧ cfg.partyId = task.partyId)
    ?_ ⟨fun _ => rfl, rfl, rfl, rfl⟩ h
  rintro done ⟨key, owner⟩ rest cfg cfg' - ⟨howner, hrest⟩ hstep
  unfold ColumnConfig.importColumnOwner at hstep
  cases hfree : cfg.colOwner.lookup key with
  | some v =>
      rw [hfree] at hstep
      cases hstep
  | none =>
      rw [hfree] at hstep
      cases hstep
      refine ⟨fun name => ?_, hrest⟩
      rw [lookup_concat, ← howner, List.lookup_cons]
      by_cases hname : name = key
      · rw [hname, beq_self_eq_true, if_pos rfl, hfree]
        rfl
      · rw [beq_eq_false_iff_ne.mpr hname, if_neg hname, Option.or_none]

/-- The type an entry of `col_and_dtype_` demands. -/
def demanded (isFP64 : Bool) : ColDtype := if isFP64 then .fp64 else .int64

/-- The types are stored as they are demanded. -/
theorem importDtypesOf_spec (task : ExprTask) (cfg : ColumnConfig)
    (hempty : cfg.colDtype = []) :
    (∀ name, (importDtypesOf task cfg).colDtype.lookup name
        = (task.colAndDtype.lookup name).map demanded)
      ∧ (importDtypesOf task cfg).colOwner = cfg.colOwner
      ∧ (importDtypesOf task cfg).localCol = cfg.localCol
      ∧ (importDtypesOf task cfg).partyId = cfg.partyId := by
  unfold importDtypesOf
  induction task.colAndDtype using List.reverseRecOn with
  | nil => exact ⟨fun _ => by rw [List.foldl_nil, hempty]; rfl, rfl, rfl, rfl⟩
  | append_singleton done c ih =>
      obtain ⟨key, isFP64⟩ := c
      obtain ⟨hdtype, hrest⟩ := ih
      rw [List.foldl_append, List.foldl_cons, List.foldl_nil]
      generalize done.foldl _ cfg = acc at hdtype hrest ⊢
      unfold ColumnConfig.importColumnDtype
      cases hfree : acc.colDtype.lookup key with
      | some v =>
          refine ⟨fun name => ?_, hrest⟩
          rw [lookup_concat]
          by_cases hname : name = key
          · have hsome := hdtype key
            rw [hfree] at hsome
            rw [hname, hfree]
            cases hdone : done.lookup key with
            | none =>
                rw [hdone] at hsome
                cases hsome
            | some b =>
                rw [hdone] at hsome
                exact hsome
          · rw [if_neg hname, Option.or_none]
            exact hdtype name
      | none =>
          refine ⟨fun name => ?_, hrest⟩
          dsimp only
          rw [lookup_concat, List.lookup_cons]
          by_cases hname : name = key
          · have hnone := hdtype key
            rw [hfree] at hnone
            have hdone := Option.map_eq_none_iff.mp hnone.symm
            rw [hname, beq_self_eq_true, if_pos rfl, hdone]
            rfl
          · rw [beq_eq_false_iff_ne.mpr hname, if_neg hname, Option.or_none]
            exact hdtype name

/-- What `resolveRunMode` has done where it returns. -/
theorem resolveRunMode_inv {cfg cfg' : ColumnConfig} {stk : List Str}
    {typeMap : Map TokenType} {fp64Run : Bool}
    (h : resolveRunMode cfg [] stk = .ok (cfg', typeMap, fp64Run)) :
    cfg' = { cfg with
        localCol := cfg.localCol
          ++ cfg.colOwner.map fun c => (c.1, c.2 == cfg.partyId) }
      ∧ (∀ c ∈ cfg.colOwner, (cfg.colDtype.lookup c.1).isSome)
      ∧ (cfg.hasFP64Column = true → fp64Run = true) := by
  obtain ⟨cfg'', hlocal, hrest⟩ := bind_eq_ok_iff.mp h
  obtain ⟨r, -, hr⟩ := bind_eq_ok_iff.mp hrest
  cases hr
  unfold ColumnConfig.resolveLocalColumn at hlocal
  split at hlocal
  · cases hlocal
  · cases hfind : cfg.colOwner.find?
        fun c => (cfg.colDtype.lookup c.1).isNone with
    | some c =>
        rw [hfind] at hlocal
        cases hlocal
    | none =>
        rw [hfind] at hlocal
        cases hlocal
        refine ⟨rfl, ?_, ?_⟩
        · intro c hc
          have hsome := List.find?_eq_none.mp hfind c hc
          rw [Option.isNone_iff_eq_none] at hsome
          exact Option.isSome_iff_ne_none.mpr hsome
        · intro hfp64
          have hcfg : ColumnConfig.hasFP64Column { cfg with
              localCol := cfg.localCol
                ++ cfg.colOwner.map fun c => (c.1, c.2 == cfg.partyId) }
              = true := hfp64
          rw [hcfg, Bool.or_true]

/-- What the party's configuration says of the columns of the task, and of
the run mode. -/
structure Configured (task : ExprTask) (cfg : ColumnConfig)
    (fp64Run : Bool) : Prop where
  locality : ∀ name, cfg.localCol.lookup name
    = (task.colAndOwner.lookup name).map (· == task.partyId)
  dtype : ∀ name, cfg.colDtype.lookup name
    = (task.colAndDtype.lookup name).map demanded
  typed : ∀ name, (task.colAndOwner.lookup name).isSome →
    (task.colAndDtype.lookup name).isSome
  fp64 : ∀ name, task.colAndDtype.lookup name = some true → fp64Run = true

/-- A map whose values have been changed. -/
theorem lookup_map {V W : Type} (f : V → W) (map : Map V) (name : Str) :
    (map.map fun c => (c.1, f c.2)).lookup name
      = (map.lookup name).map f := by
  induction map with
  | nil => rfl
  | cons c rest ih =>
      obtain ⟨key, v⟩ := c
      rw [List.map_cons, List.lookup_cons, List.lookup_cons]
      cases name == key with
      | true => rfl
      | false => exact ih

/-- The column configuration of the task after the three imports. -/
theorem configured {cfg cfg' : ColumnConfig} {stk : List Str}
    {typeMap : Map TokenType} {fp64Run : Bool}
    (howners : importOwnersOf task = .ok cfg)
    (hresolve : resolveRunMode (importDtypesOf task cfg) [] stk
      = .ok (cfg', typeMap, fp64Run)) : Configured task cfg' fp64Run := by
  obtain ⟨howner, hempty, hlocal, hparty⟩ := importOwnersOf_spec howners
  obtain ⟨hdtype, howner', hlocal', hparty'⟩ :=
    importDtypesOf_spec task cfg hempty
  obtain ⟨rfl, htyped, hfp64⟩ := resolveRunMode_inv hresolve
  refine ⟨?_, hdtype, ?_, ?_⟩
  · intro name
    dsimp only
    rw [hlocal', hlocal, List.nil_append, howner', hparty', hparty,
      lookup_map (· == task.partyId), howner]
  · intro name hsome
    rw [← howner] at hsome
    obtain ⟨owner, howner⟩ := Option.isSome_iff_exists.mp hsome
    have hmem : (name, owner) ∈ cfg.colOwner := by
      obtain ⟨l, r, heq, -⟩ := List.lookup_eq_some_iff.mp howner
      rw [heq]
      exact List.mem_append_right _ List.mem_cons_self
    have htype := htyped (name, owner) (howner' ▸ hmem)
    rw [hdtype, Option.isSome_map] at htype
    exact htype
  · intro name hdouble
    have hlookup := hdtype name
    rw [hdouble] at hlookup
    obtain ⟨l, r, heq, -⟩ := List.lookup_eq_some_iff.mp hlookup
    apply hfp64
    rw [ColumnConfig.hasFP64Column, heq, List.any_append, List.any_cons]
    exact Bool.or_true _

-- =================================================================== the feed

/-- What a successful import of a local column does to one of the maps. -/
structure StoredBy {V : Type} (col : FeedDict D → Map (List V)) (n : Int)
    (name : Str) (vec : List V) (feed feed' : FeedDict D) : Prop where
  floatRun : feed'.floatRun = feed.floatRun
  fits : feed'.Fits n
  col : (((col feed).lookup name).isSome ∧ col feed' = col feed)
    ∨ ((col feed).lookup name = none
      ∧ col feed' = (name, vec) :: col feed)

/-- An own double column is stored. -/
theorem importFP64_stored {cfg : ColumnConfig} {feed feed' : FeedDict D}
    {name : Str} {vec : List D} {code : Int}
    (hlocal : cfg.localCol.lookup name = some true)
    (hmode : feed.floatRun = true)
    (hfits : feed.Fits (FeedDict.castCount vec.length))
    (h : feed.importColumnValuesFP64 cfg name vec = .ok (code, feed')) :
    StoredBy FeedDict.fp64Col (FeedDict.castCount vec.length) name vec feed
      feed' := by
  rw [FeedDict.importColumnValuesFP64_local hlocal hfits, hmode,
    if_neg Bool.true_eq_false.mp] at h
  split at h
  · cases h
    exact ⟨hmode.symm, Or.inr rfl, Or.inl ⟨‹_›, rfl⟩⟩
  · cases h
    exact ⟨hmode.symm, Or.inr rfl,
      Or.inr ⟨Option.not_isSome_iff_eq_none.mp ‹_›, rfl⟩⟩

/-- An own integer column is cast and stored in a double run. -/
theorem importI64_stored_fp64 {cfg : ColumnConfig} {feed feed' : FeedDict D}
    {name : Str} {vec : List I64} {code : Int}
    (hlocal : cfg.localCol.lookup name = some true)
    (hdtype : cfg.colDtype.lookup name = some .int64)
    (hmode : feed.floatRun = true)
    (hfits : feed.Fits (FeedDict.castCount vec.length))
    (h : feed.importColumnValuesI64 cast cfg name vec = .ok (code, feed')) :
    StoredBy FeedDict.fp64Col (FeedDict.castCount vec.length) name
      (vec.map cast) feed feed' := by
  rw [FeedDict.importColumnValuesI64_local hlocal hdtype hfits, hmode,
    if_pos rfl] at h
  split at h
  · cases h
    exact ⟨hmode.symm, Or.inr rfl, Or.inl ⟨‹_›, rfl⟩⟩
  · cases h
    exact ⟨hmode.symm, Or.inr rfl,
      Or.inr ⟨Option.not_isSome_iff_eq_none.mp ‹_›, rfl⟩⟩

/-- An own integer column is stored in an integer run. -/
theorem importI64_stored_int64 {cfg : ColumnConfig}
    {feed feed' : FeedDict D} {name : Str} {vec : List I64} {code : Int}
    (hlocal : cfg.localCol.lookup name = some true)
    (hdtype : cfg.colDtype.lookup name = some .int64)
    (hmode : feed.floatRun = false)
    (hfits : feed.Fits (FeedDict.castCount vec.length))
    (h : feed.importColumnValuesI64 cast cfg name vec = .ok (code, feed')) :
    StoredBy FeedDict.int64Col (FeedDict.castCount vec.length) name vec feed
      feed' := by
  rw [FeedDict.importColumnValuesI64_local hlocal hdtype hfits, hmode,
    if_neg Bool.false_ne_true] at h
  split at h
  · cases h
    exact ⟨hmode.symm, Or.inr rfl, Or.inl ⟨‹_›, rfl⟩⟩
  · cases h
    exact ⟨hmode.symm, Or.inr rfl,
      Or.inr ⟨Option.not_isSome_iff_eq_none.mp ‹_›, rfl⟩⟩

/-- The state of a loop over a map: the feed has values of the map
alone. -/
structure Feeding {V W : Type} (col : FeedDict D → Map (List W))
    (f : List V → List W) (n : Int) (floatRun : Bool)
    (map : Map (List V)) (feed : FeedDict D) : Prop where
  floatRun : feed.floatRun = floatRun
  fits : feed.Fits n
  sound : ∀ name vec, (col feed).lookup name = some vec →
    ∃ c ∈ map, c.1 = name ∧ f c.2 = vec

/-- What the loop over a map is given for the party's own columns is in
the feed after it, and nothing else is. -/
theorem importValuesOf_spec {V W : Type} {cfg : ColumnConfig}
    {imp : Str → List V → FeedDict D → Except Fault (Int × FeedDict D)}
    {col : FeedDict D → Map (List W)} {f : List V → List W} {n : Int}
    {floatRun : Bool} {map : Map (List V)} {feed feed' : FeedDict D}
    (hstored : ∀ c ∈ map, ∀ feed code feed',
      cfg.localCol.lookup c.1 = some true → feed.floatRun = floatRun →
      feed.Fits n → imp c.1 c.2 feed = .ok (code, feed') →
        StoredBy col n c.1 (f c.2) feed feed')
    (hkept : ∀ c ∈ map, ∀ feed code feed',
      cfg.localCol.lookup c.1 ≠ some true →
      imp c.1 c.2 feed = .ok (code, feed') → feed' = feed)
    (hfun : ∀ c ∈ map, ∀ d ∈ map, c.1 = d.1 → c.2 = d.2)
    (hfeed : Feeding col f n floatRun map feed)
    (h : importValuesOf imp map feed = .ok feed') :
    Feeding col f n floatRun map feed'
      ∧ ∀ c ∈ map, cfg.localCol.lookup c.1 = some true →
        (col feed').lookup c.1 = some (f c.2) := by
  refine foldlM_invariant (I := fun done feed =>
    Feeding col f n floatRun map feed
      ∧ ∀ c ∈ done, cfg.localCol.lookup c.1 = some true →
        (col feed).lookup c.1 = some (f c.2)) ?_
    ⟨hfeed, fun _ hc => nomatch hc⟩ h
  rintro done c rest feed feed' hmap ⟨hfeeding, hdone⟩ hstep
  have hc : c ∈ map := hmap ▸ List.mem_append_right _ List.mem_cons_self
  obtain ⟨⟨code, feed''⟩, himp, hret⟩ := bind_eq_ok_iff.mp hstep
  cases hret
  -- a column of another party is passed over
  by_cases hlocal : cfg.localCol.lookup c.1 = some true
  case neg =>
    obtain rfl := hkept c hc feed code feed'' hlocal himp
    refine ⟨hfeeding, fun d hd hdlocal => ?_⟩
    obtain hd | hd := List.mem_append.mp hd
    · exact hdone d hd hdlocal
    · obtain rfl := List.mem_singleton.mp hd
      exact absurd hdlocal hlocal
  have hby := hstored c hc feed code feed'' hlocal hfeeding.floatRun
    hfeeding.fits himp
  obtain ⟨hsome, hcol⟩ | ⟨hnone, hcol⟩ := hby.col
  · -- the name is there: it came from the map, so its values are the same
    refine ⟨⟨hby.floatRun.trans hfeeding.floatRun, hby.fits, ?_⟩, ?_⟩
    · intro name vec hlookup
      rw [hcol] at hlookup
      exact hfeeding.sound name vec hlookup
    · intro d hd hdlocal
      rw [hcol]
      obtain hd | hd := List.mem_append.mp hd
      · exact hdone d hd hdlocal
      · obtain rfl := List.mem_singleton.mp hd
        obtain ⟨vec, hvec⟩ := Option.isSome_iff_exists.mp hsome
        obtain ⟨e, he, hname, hvalues⟩ := hfeeding.sound _ vec hvec
        rw [hvec, ← hvalues, hfun e he d hc hname]
  · refine ⟨⟨hby.floatRun.trans hfeeding.floatRun, hby.fits, ?_⟩, ?_⟩
    · intro name vec hlookup
      rw [hcol, List.lookup_cons] at hlookup
      by_cases hname : name = c.1
      · rw [hname, beq_self_eq_true, Option.some.injEq] at hlookup
        exact ⟨c, hc, hname.symm, hlookup⟩
      · rw [beq_eq_false_iff_ne.mpr hname] at hlookup
        exact hfeeding.sound name vec hlookup
    · intro d hd hdlocal
      rw [hcol, List.lookup_cons]
      obtain hd | hd := List.mem_append.mp hd
      · by_cases hname : d.1 = c.1
        · have hthere := hdone d hd hdlocal
          rw [hname, hnone] at hthere
          cases hthere
        · rw [beq_eq_false_iff_ne.mpr hname]
          exact hdone d hd hdlocal
      · obtain rfl := List.mem_singleton.mp hd
        rw [beq_self_eq_true]

/-- Nothing has been stored in an empty dictionary. -/
theorem Feeding.init {V W : Type} {col : FeedDict D → Map (List W)}
    {f : List V → List W} {n : Int} {floatRun : Bool} {map : Map (List V)}
    (hempty : col (.init floatRun) = []) :
    Feeding col f n floatRun map (.init floatRun) where
  floatRun := rfl
  fits := Or.inl rfl
  sound name vec hlookup := by
    rw [hempty] at hlookup
    cases hlookup

/-- The loop over the doubles, in floating point mode. -/
theorem importDoubles_spec {cfg : ColumnConfig} {map : Map (List D)} {n : Nat}
    {feed : FeedDict D} (hlength : ∀ c ∈ map, c.2.length = n)
    (hunique : ∀ c ∈ map, ∀ d ∈ map, c.1 = d.1 → c.2 = d.2)
    (h : importValuesOf (FeedDict.importColumnValuesFP64 cfg) map (.init true)
      = .ok feed) :
    Feeding FeedDict.fp64Col id (FeedDict.castCount n) true map feed
      ∧ ∀ c ∈ map, cfg.localCol.lookup c.1 = some true →
        feed.fp64Col.lookup c.1 = some c.2 := by
  refine importValuesOf_spec (f := id) ?_ ?_ hunique (.init rfl) h
  · intro c hc feed code feed' hlocal hmode hfits himp
    rw [← hlength c hc] at hfits ⊢
    exact importFP64_stored hlocal hmode hfits himp
  · intro c _ feed code feed' hremote himp
    exact (FeedDict.importColumnValuesFP64_kept himp
      fun hpass => hremote hpass.1).2

/-- The loop over the integers, in floating point mode. -/
theorem importInts_spec_fp64 {cfg : ColumnConfig} {map : Map (List I64)}
    {n : Nat} {feed : FeedDict D} (hlength : ∀ c ∈ map, c.2.length = n)
    (hunique : ∀ c ∈ map, ∀ d ∈ map, c.1 = d.1 → c.2 = d.2)
    (hdtype : ∀ c ∈ map, cfg.colDtype.lookup c.1 = some .int64)
    (h : importValuesOf (FeedDict.importColumnValuesI64 cast cfg) map
      (.init true) = .ok feed) :
    Feeding FeedDict.fp64Col (List.map cast) (FeedDict.castCount n) true map
        feed
      ∧ ∀ c ∈ map, cfg.localCol.lookup c.1 = some true →
        feed.fp64Col.lookup c.1 = some (c.2.map cast) := by
  refine importValuesOf_spec (f := List.map cast) ?_ ?_ hunique (.init rfl) h
  · intro c hc feed code feed' hlocal hmode hfits himp
    rw [← hlength c hc] at hfits ⊢
    exact importI64_stored_fp64 hlocal (hdtype c hc) hmode hfits himp
  · intro c _ feed code feed' hremote himp
    exact (FeedDict.importColumnValuesI64_kept himp
      fun hpass => hremote hpass.1).2

/-- The loop over the integers, in integer mode. -/
theorem importInts_spec_int64 {cfg : ColumnConfig} {map : Map (List I64)}
    {n : Nat} {feed : FeedDict D} (hlength : ∀ c ∈ map, c.2.length = n)
    (hunique : ∀ c ∈ map, ∀ d ∈ map, c.1 = d.1 → c.2 = d.2)
    (hdtype : ∀ c ∈ map, cfg.colDtype.lookup c.1 = some .int64)
    (h : importValuesOf (FeedDict.importColumnValuesI64 cast cfg) map
      (.init false) = .ok feed) :
    Feeding FeedDict.int64Col id (FeedDict.castCount n) false map feed
      ∧ ∀ c ∈ map, cfg.localCol.lookup c.1 = some true →
        feed.int64Col.lookup c.1 = some c.2 := by
  refine importValuesOf_spec (f := id) ?_ ?_ hunique (.init rfl) h
  · intro c hc feed code feed' hlocal hmode hfits himp
    rw [← hlength c hc] at hfits ⊢
    exact importI64_stored_int64 hlocal (hdtype c hc) hmode hfits himp
  · intro c _ feed code feed' hremote himp
    exact (FeedDict.importColumnValuesI64_kept himp
      fun hpass => hremote hpass.1).2

-- ================================================================ main result

/-- The steps of a successful `loadDataset`. -/
theorem loadDataset_inv {table : List (TableColumn D)} {exec : MpcExec D}
    (h : loadDataset cast task (some table) = .ok exec) :
    ∃ n vals fp64Run code,
      Loaded cast task table n vals
        ∧ importExpress task.expr .fresh = .ok (code, exec.compiler)
        ∧ Configured task exec.colConfig fp64Run
        ∧ importColAndVal cast exec.colConfig vals (.init fp64Run)
          = .ok exec.feedDict := by
  obtain ⟨⟨ret, vals⟩, hvals, h⟩ := bind_eq_ok_iff.mp h
  dsimp only at h
  split at h
  · cases h
  obtain ⟨cfg, howners, h⟩ := bind_eq_ok_iff.mp h
  obtain ⟨⟨code, compiler⟩, hexpr, h⟩ := bind_eq_ok_iff.mp h
  obtain ⟨⟨cfg', typeMap, fp64Run⟩, hresolve, h⟩ := bind_eq_ok_iff.mp h
  obtain ⟨feed, hfeed, h⟩ := bind_eq_ok_iff.mp h
  cases h
  unfold loadDatasetFromCSV at hvals
  dsimp only at hvals
  cases hlast : table.getLast? with
  | none =>
      rw [hlast] at hvals
      cases hvals
  | some last =>
      rw [hlast] at hvals
      obtain ⟨vals', hfold, hvals⟩ := bind_eq_ok_iff.mp hvals
      cases hvals
      exact ⟨_, vals, fp64Run, code, loadColumns_spec hfold, hexpr,
        configured howners hresolve, hfeed⟩

section Imported

variable {table : List (TableColumn D)} {n : Nat} {vals : ColAndVal D}
  {cfg : ColumnConfig} {fp64Run : Bool} {feed : FeedDict D}
  {suffixStk : List Str}

/-- A column that the task names is local to its owner. -/
theorem Configured.isLocal (hcfg : Configured task cfg fp64Run)
    {col : TableColumn D} (hnames : task.Names suffixStk col) :
    cfg.localCol.lookup col.name = some true := by
  rw [hcfg.locality, hnames.2, Option.map_some, beq_self_eq_true]

/-- Columns of demanded type double are among the values. -/
theorem Loaded.mem_double (hloaded : Loaded cast task table n vals)
    {col : TableColumn D} (hcol : col ∈ table) (hdouble : task.Double col) :
    ∃ vec, col.chunks.doubles cast = some vec
      ∧ (col.name, vec) ∈ vals.double := by
  obtain ⟨vec, hvec⟩ := hloaded.readable col hcol true hdouble
  exact ⟨vec, hvec, hloaded.double.mem col hcol vec
    (selectDouble_of_double hdouble hvec)⟩

/-- If there are doubles, these are imported, so exactly these are fed. -/
theorem fed_iff_double (hloaded : Loaded cast task table n vals)
    (hcfg : Configured task cfg fp64Run)
    (himport : importColAndVal cast cfg vals (.init fp64Run) = .ok feed)
    (hdoubles : vals.double ≠ []) :
    (∃ col ∈ table, task.Double col)
      ∧ ∀ col ∈ table, task.Names suffixStk col →
        (Fed cast feed col ↔ task.Double col) := by
  rw [importColAndVal, if_pos hdoubles] at himport
  obtain ⟨c, hc⟩ := List.exists_mem_of_ne_nil _ hdoubles
  obtain ⟨d, hd, -, hselect⟩ := hloaded.double.sound c hc
  have hdouble : task.Double d := double_of_selectDouble hselect
  obtain rfl := hcfg.fp64 _ hdouble
  obtain ⟨hfeeding, hfed⟩ := importDoubles_spec hloaded.double.length
    hloaded.double.unique himport
  have hmode : feed.floatRun = true := hfeeding.floatRun
  refine ⟨⟨d, hd, hdouble⟩, fun col hcol hnames => ?_⟩
  rw [Fed, if_pos hmode]
  constructor
  · rintro ⟨vec, -, hlookup⟩
    obtain ⟨e, he, hname, -⟩ := hfeeding.sound _ vec hlookup
    obtain ⟨f, -, hfname, hfselect⟩ := hloaded.double.sound e he
    rw [ExprTask.Double, ← hname, ← hfname]
    exact double_of_selectDouble hfselect
  · intro hdouble
    obtain ⟨vec, hvec, hmem⟩ := hloaded.mem_double hcol hdouble
    exact ⟨vec, hvec, hfed _ hmem (hcfg.isLocal hnames)⟩

/-- The columns among the integers are configured as such. -/
theorem dtype_of_int (hloaded : Loaded cast task table n vals)
    (hcfg : Configured task cfg fp64Run) :
    ∀ c ∈ vals.int, cfg.colDtype.lookup c.1 = some .int64 := by
  intro c hc
  obtain ⟨d, -, hname, hselect⟩ := hloaded.int.sound c hc
  unfold ExprTask.selectInt at hselect
  split at hselect
  · rename_i hint
    rw [hcfg.dtype, ← hname, hint]
    rfl
  · cases hselect

/-- A named column that is no double is demanded as an integer. -/
theorem int_of_not_double (hcfg : Configured task cfg fp64Run)
    {col : TableColumn D} (hnames : task.Names suffixStk col)
    (hnot : ¬ task.Double col) :
    task.colAndDtype.lookup col.name = some false := by
  have hsome := hcfg.typed col.name (by rw [hnames.2]; rfl)
  obtain ⟨dtype, hdtype⟩ := Option.isSome_iff_exists.mp hsome
  cases dtype with
  | false => exact hdtype
  | true => exact absurd hdtype hnot

/-- If there are no doubles, all integers are imported, in either mode. -/
theorem fed_of_no_double (hloaded : Loaded cast task table n vals)
    (hcfg : Configured task cfg fp64Run)
    (himport : importColAndVal cast cfg vals (.init fp64Run) = .ok feed)
    (hdoubles : ¬ vals.double ≠ []) :
    (∀ col ∈ table, ¬ task.Double col)
      ∧ ∀ col ∈ table, task.Names suffixStk col → Fed cast feed col := by
  rw [importColAndVal, if_neg hdoubles] at himport
  have hnone : ∀ col ∈ table, ¬ task.Double col := by
    intro col hcol hdouble
    obtain ⟨vec, -, hmem⟩ := hloaded.mem_double hcol hdouble
    exact hdoubles (List.ne_nil_of_mem hmem)
  have hdtype := dtype_of_int hloaded hcfg
  refine ⟨hnone, fun col hcol hnames => ?_⟩
  have hint := int_of_not_double hcfg hnames (hnone col hcol)
  obtain ⟨vec, hvec⟩ := hloaded.readable col hcol false hint
  have hselect : task.selectInt col = some vec := by
    rw [ExprTask.selectInt, if_pos hint, hvec]
  have hmem := hloaded.int.mem col hcol vec hselect
  cases fp64Run with
  | false =>
      obtain ⟨hfeeding, hfed⟩ := importInts_spec_int64 hloaded.int.length
        hloaded.int.unique hdtype himport
      rw [Fed, if_neg (by rw [hfeeding.floatRun]; exact Bool.false_ne_true)]
      exact ⟨vec, hvec, hfed _ hmem (hcfg.isLocal hnames)⟩
  | true =>
      obtain ⟨hfeeding, hfed⟩ := importInts_spec_fp64 hloaded.int.length
        hloaded.int.unique hdtype himport
      rw [Fed, if_pos hfeeding.floatRun]
      exact ⟨vec.map cast, Chunks.doubles_of_ints hvec,
        hfed _ hmem (hcfg.isLocal hnames)⟩

end Imported

theorem nodup_AB : ([['A'], ['B']] : List Str).Nodup := by decide

/-- `A+B` at a party that owns both columns. -/
def sumTask (dtypeA dtypeB : Bool) : ExprTask where
  partyName := text "PARTY0"
  partyId := 0
  colAndOwner := [(['A'], 0), (['B'], 0)]
  colAndDtype := [(['A'], dtypeA), (['B'], dtypeB)]
  expr := ['A', '+', 'B']
  nodup_owner := nodup_AB
  nodup_dtype := nodup_AB
  not_cmp := rfl

end PrimiHub.Algorithm.ArithmeticExecutor
