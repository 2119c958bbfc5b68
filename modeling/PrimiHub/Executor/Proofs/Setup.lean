/-
What the imports of a task leave at each party and at the local
executor.

Every import of a task succeeds: names differ, so no owner and no value
is imported twice, and all columns have one length. After it, a party
knows which columns are its own (`partyEnv_spec`), holds exactly their
values, and has for its `val_count` the length of the columns as a
`uint32_t`, or 2^32 - 1 if it owns none. The local executor holds every
column (`localEnv_spec`).
-/
import Mathlib.Data.List.Nodup
import Mathlib.Data.List.Lookmap
import PrimiHub.Executor.Setup

namespace PrimiHub.Executor

variable {D : Type}

-- ================================================= maps of the columns

/-- The map that assigns a value to every column, as importing them one
by one builds it. -/
def entries {V : Type} (f : Column → V) (columns : List Column) : Map V :=
  (columns.map fun c => (c.name, f c)).reverse

theorem entries_cons {V : Type} (f : Column → V) (c : Column)
    (rest : List Column) (map : Map V) :
    entries f (c :: rest) ++ map = entries f rest ++ (c.name, f c) :: map := by
  simp [entries]

/-- A name without a column has no entry. -/
theorem lookup_entries_none {V : Type} {f : Column → V}
    {columns : List Column} {name : Str}
    (h : name ∉ columns.map Column.name) :
    (entries f columns).lookup name = none := by
  rw [List.lookup_eq_none_iff]
  intro entry hentry
  rw [entries, List.mem_reverse] at hentry
  obtain ⟨c, hc, rfl⟩ := List.mem_map.1 hentry
  rw [bne_iff_ne]
  intro hname
  exact h (hname ▸ List.mem_map_of_mem hc)

/-- A column has its entry. -/
theorem lookup_entries {V : Type} {f : Column → V} {columns : List Column}
    (hnodup : (columns.map Column.name).Nodup) {c : Column}
    (hc : c ∈ columns) : (entries f columns).lookup c.name = some (f c) := by
  induction columns with
  | nil => cases hc
  | cons d rest ih =>
      rw [List.map_cons, List.nodup_cons] at hnodup
      have hcons := entries_cons f d rest []
      rw [List.append_nil] at hcons
      rw [hcons, List.lookup_append]
      rcases List.mem_cons.1 hc with rfl | hc
      · rw [lookup_entries_none hnodup.1]
        exact List.lookup_cons_self
      · rw [ih hnodup.2 hc]
        rfl

/-- The first of several new names is new to the map, and the others
stay new once it is in. -/
theorem fresh_cons {V : Type} {c : Column} {rest : List Column} {map : Map V}
    (v : V) (hnodup : ((c :: rest).map Column.name).Nodup)
    (hfresh : ∀ d ∈ c :: rest, map.lookup d.name = none) :
    map.lookup c.name = none
      ∧ ∀ d ∈ rest, List.lookup d.name ((c.name, v) :: map) = none := by
  refine ⟨hfresh c (List.mem_cons_self ..), ?_⟩
  intro d hd
  rw [List.map_cons, List.nodup_cons] at hnodup
  have hne : d.name ≠ c.name := by
    intro hname
    exact hnodup.1 (hname ▸ List.mem_map_of_mem hd)
  rw [List.lookup_cons, beq_false_of_ne hne]
  exact hfresh d (List.mem_cons_of_mem _ hd)

-- ====================================================== configuration

theorem importOwners_eq {columns : List Column} (cfg : ColumnConfig)
    (hnodup : (columns.map Column.name).Nodup)
    (hfresh : ∀ c ∈ columns, cfg.colOwner.lookup c.name = none) :
    importOwners columns cfg
      = .ok { cfg with
          colOwner := entries (fun c => c.owner.val) columns
            ++ cfg.colOwner } := by
  induction columns generalizing cfg with
  | nil => rfl
  | cons c rest ih =>
      obtain ⟨hnew, hrest⟩ := fresh_cons c.owner.val hnodup hfresh
      have hstep : cfg.importColumnOwner c.name c.owner.val
          = .ok { cfg with
              colOwner := (c.name, c.owner.val) :: cfg.colOwner } := by
        simp [ColumnConfig.importColumnOwner, hnew]
      rw [List.map_cons, List.nodup_cons] at hnodup
      rw [importOwners, List.foldlM_cons, hstep, entries_cons]
      exact ih _ hnodup.2 hrest

theorem importDtypes_eq {columns : List Column} (cfg : ColumnConfig)
    (hnodup : (columns.map Column.name).Nodup)
    (hfresh : ∀ c ∈ columns, cfg.colDtype.lookup c.name = none) :
    importDtypes columns cfg
      = { cfg with
          colDtype := entries (fun _ => .int64) columns ++ cfg.colDtype } := by
  induction columns generalizing cfg with
  | nil => rfl
  | cons c rest ih =>
      obtain ⟨hnew, hrest⟩ := fresh_cons ColDtype.int64 hnodup hfresh
      have hstep : (cfg.importColumnDtype c.name .int64).2
          = { cfg with
              colDtype := (c.name, .int64) :: cfg.colDtype } := by
        simp [ColumnConfig.importColumnDtype, hnew]
      rw [List.map_cons, List.nodup_cons] at hnodup
      rw [importDtypes, List.foldl_cons, hstep, entries_cons]
      exact ih _ hnodup.2 hrest

theorem entries_length {V : Type} (f : Column → V) (columns : List Column) :
    (entries f columns).length = columns.length := by
  simp [entries]

/-- The configuration of a party: owners, types and its own columns. -/
def ownConfig (columns : List Column) (p : Party) : ColumnConfig :=
  ⟨p.val, entries (fun c => c.owner.val) columns,
    entries (fun _ => .int64) columns,
    entries (fun c => c.owner.val == p.val) columns⟩

theorem partyConfig_eq {columns : List Column}
    (hnodup : (columns.map Column.name).Nodup) (p : Party) :
    partyConfig columns p = .ok (ownConfig columns p) := by
  have howners := importOwners_eq (.init p.val) hnodup fun _ _ => rfl
  have hdtypes := importDtypes_eq
    ⟨p.val, entries (fun c => c.owner.val) columns, [], []⟩ hnodup
    fun _ _ => rfl
  have hfind : (entries (fun c => c.owner.val) columns).find? (fun c =>
      ((entries (fun _ => ColDtype.int64) columns).lookup c.1).isNone)
      = none := by
    rw [List.find?_eq_none]
    intro entry hentry
    rw [entries, List.mem_reverse] at hentry
    obtain ⟨c, hc, rfl⟩ := List.mem_map.1 hentry
    rw [lookup_entries hnodup hc]
    simp
  have hlocal : (entries (fun c => c.owner.val) columns).map
      (fun c => (c.1, c.2 == p.val))
      = entries (fun c => c.owner.val == p.val) columns := by
    simp [entries]
  rw [ColumnConfig.init, List.append_nil] at howners
  rw [List.append_nil] at hdtypes
  rw [partyConfig, ColumnConfig.init, howners]
  show (importDtypes columns _).resolveLocalColumn = _
  rw [hdtypes, ColumnConfig.resolveLocalColumn]
  simp only [entries_length, ne_eq, not_true_eq_false, if_false, hfind,
    List.nil_append, hlocal]
  rfl

/-- The locality of a column, in a configuration that marks the columns
by `f`. -/
theorem getColumnLocality_entries {cfg : ColumnConfig} {f : Column → Bool}
    {columns : List Column} (hcfg : cfg.localCol = entries f columns)
    (hnodup : (columns.map Column.name).Nodup) {c : Column}
    (hc : c ∈ columns) : cfg.getColumnLocality c.name = .ok (f c) := by
  rw [ColumnConfig.getColumnLocality, hcfg, lookup_entries hnodup hc]

/-- A name without a column has no locality. -/
theorem getColumnLocality_unknown {cfg : ColumnConfig} {f : Column → Bool}
    {columns : List Column} (hcfg : cfg.localCol = entries f columns)
    {name : Str} (hname : name ∉ columns.map Column.name) :
    ∃ fault, cfg.getColumnLocality name = .error fault := by
  rw [ColumnConfig.getColumnLocality, hcfg, lookup_entries_none hname]
  exact ⟨_, rfl⟩

/-- Every column of a task has integer type. -/
theorem getColumnDtype_entries {cfg : ColumnConfig} {columns : List Column}
    (hcfg : cfg.colDtype = entries (fun _ => .int64) columns)
    (hnodup : (columns.map Column.name).Nodup) {c : Column}
    (hc : c ∈ columns) : cfg.getColumnDtype c.name = .ok .int64 := by
  rw [ColumnConfig.getColumnDtype, hcfg, lookup_entries hnodup hc]

-- ============================================================= values

/-- Importing local columns that all have one length and are new. -/
theorem importValues_eq (cast : I64 → D) {cfg : ColumnConfig}
    {columns : List Column} {n : Nat} (feed : FeedDict D)
    (hlocal : ∀ c ∈ columns, cfg.getColumnLocality c.name = .ok true)
    (hdtype : ∀ c ∈ columns, cfg.getColumnDtype c.name = .ok .int64)
    (hlength : ∀ c ∈ columns, c.values.length = n)
    (hnodup : (columns.map Column.name).Nodup)
    (hfresh : ∀ c ∈ columns, feed.int64Col.lookup c.name = none)
    (hfloat : feed.floatRun = false)
    (hcount : feed.valCount = -1 ∨ feed.valCount = FeedDict.castCount n) :
    importValues cast cfg columns feed
      = .ok { feed with
          valCount := if columns = [] then feed.valCount
            else FeedDict.castCount n,
          int64Col := entries Column.values columns ++ feed.int64Col } := by
  induction columns generalizing feed with
  | nil => rfl
  | cons c rest ih =>
      obtain ⟨hnew, hrest⟩ := fresh_cons c.values hnodup hfresh
      have hset : feed.setOrCheckValueCount (FeedDict.castCount n)
          = (0, { feed with valCount := FeedDict.castCount n }) := by
        unfold FeedDict.setOrCheckValueCount
        rcases hcount with hcount | hcount
        · simp [hcount]
        · by_cases hunset : feed.valCount = -1
          · simp [hunset]
          · rw [← hcount]
            simp [hunset]
      have hstep : feed.importColumnValuesI64 cast cfg c.name c.values
          = .ok (0, { feed with
              valCount := FeedDict.castCount n,
              int64Col := (c.name, c.values) :: feed.int64Col }) := by
        simp [FeedDict.importColumnValuesI64, hlocal c (List.mem_cons_self ..),
          hdtype c (List.mem_cons_self ..), hlength c (List.mem_cons_self ..),
          hset, hfloat, hnew, bind, Except.bind]
      rw [List.map_cons, List.nodup_cons] at hnodup
      have htail : ∀ {P : Column → Prop}, (∀ d ∈ c :: rest, P d) →
          ∀ d ∈ rest, P d := fun h d hd => h d (List.mem_cons_of_mem _ hd)
      rw [importValues, List.foldlM_cons, hstep, entries_cons]
      have hnext := ih
        { feed with
          valCount := FeedDict.castCount n,
          int64Col := (c.name, c.values) :: feed.int64Col }
        (htail hlocal) (htail hdtype) (htail hlength) hnodup.2 hrest hfloat
        (Or.inr rfl)
      refine Eq.trans hnext ?_
      cases rest <;> simp

/-- The uint32 row count a party gives its matrices: the length of the
columns, or 2^32 - 1 if it has imported none. -/
def Pool.valCount {n : Nat} (pool : Pool n) (p : Party) : Nat :=
  if ∃ c ∈ pool.columns, c.owner = p then n % 2 ^ 32 else 2 ^ 32 - 1

/-- The count survives the cast to `int64_t` and back to `uint32_t`. -/
theorem castCount_mod (n : Nat) :
    (FeedDict.castCount n % 2 ^ 32).toNat = n % 2 ^ 32 := by
  unfold FeedDict.castCount
  rw [BitVec.toInt_eq_toNat_cond, BitVec.toNat_ofNat]
  split <;> omega

variable {n : Nat}

/-- What a party knows and holds when a task has been imported. -/
structure PartySpec (pool : Pool n) (typeMap : Map TokenType) (p : Party)
    (env : PartyEnv D) : Prop where
  typeMap : env.typeMap = typeMap
  unknown : ∀ {name}, name ∉ pool.columns.map Column.name →
    ∃ fault, env.colConfig.getColumnLocality name = .error fault
  locality : ∀ c ∈ pool.columns,
    env.colConfig.getColumnLocality c.name = .ok (decide (c.owner = p))
  values : ∀ c ∈ pool.columns, c.owner = p →
    env.feedDict.getColumnValuesI64 env.colConfig c.name = .ok c.values
  count : env.feedDict.getColumnValuesCount = pool.valCount p

/-- A column imported into a feed of integer mode can be read. -/
theorem getColumnValuesI64_entries {feed : FeedDict D} {cfg : ColumnConfig}
    {columns : List Column} (hfloat : feed.floatRun = false)
    (hcol : feed.int64Col = entries Column.values columns)
    (hnodup : (columns.map Column.name).Nodup) {c : Column}
    (hc : c ∈ columns) (hlocal : cfg.getColumnLocality c.name = .ok true) :
    feed.getColumnValuesI64 cfg c.name = .ok c.values := by
  simp [FeedDict.getColumnValuesI64, hlocal, hfloat, hcol,
    lookup_entries hnodup hc, bind, Except.bind]

/-- A party's own columns can be imported, in whatever order, and leave
it what it is to know and hold. -/
theorem importValues_own (cast : I64 → D) (pool : Pool n)
    (typeMap : Map TokenType) (p : Party) {own : List Column}
    (hmem : ∀ c, c ∈ own ↔ c ∈ pool.columns ∧ c.owner = p)
    (hnodup : (own.map Column.name).Nodup) :
    ∃ feed, importValues cast (ownConfig pool.columns p) own (.init false)
        = .ok feed
      ∧ feed.floatRun = false
      ∧ PartySpec pool typeMap p ⟨typeMap, ownConfig pool.columns p, feed⟩ := by
  have hlocality : ∀ c ∈ pool.columns,
      (ownConfig pool.columns p).getColumnLocality c.name
        = .ok (decide (c.owner = p)) := by
    intro c hc
    rw [getColumnLocality_entries rfl pool.nodup hc]
    simp [Fin.ext_iff, beq_eq_decide]
  have hlocal : ∀ c ∈ own,
      (ownConfig pool.columns p).getColumnLocality c.name = .ok true := by
    intro c hc
    rw [hlocality c ((hmem c).1 hc).1]
    simp [((hmem c).1 hc).2]
  have hfeed := importValues_eq cast (.init false) hlocal
    (fun c hc => getColumnDtype_entries rfl pool.nodup ((hmem c).1 hc).1)
    (fun c hc => pool.length c ((hmem c).1 hc).1) hnodup (fun _ _ => rfl) rfl
    (Or.inl rfl)
  refine ⟨⟨false, if own = [] then -1 else FeedDict.castCount n, [],
    entries Column.values own ++ []⟩, hfeed, rfl, ?_⟩
  refine ⟨rfl, getColumnLocality_unknown rfl, hlocality, ?_, ?_⟩
  · intro c hc howner
    exact getColumnValuesI64_entries rfl (List.append_nil _) hnodup
      ((hmem c).2 ⟨hc, howner⟩) (hlocal c ((hmem c).2 ⟨hc, howner⟩))
  · unfold FeedDict.getColumnValuesCount Pool.valCount
    by_cases hnone : own = []
    · rw [if_pos hnone, if_neg]
      · rfl
      · intro hex
        obtain ⟨c, hc, howner⟩ := hex
        exact List.ne_nil_of_mem ((hmem c).2 ⟨hc, howner⟩) hnone
    · obtain ⟨c, hc⟩ := List.exists_mem_of_ne_nil own hnone
      rw [if_neg hnone, if_pos ⟨c, (hmem c).1 hc⟩]
      exact castCount_mod n

/-- The import of a task succeeds at every party. -/
theorem partyEnv_spec (cast : I64 → D) (pool : Pool n)
    (typeMap : Map TokenType) (p : Party) :
    ∃ env, partyEnv cast typeMap pool.columns p = .ok env
      ∧ PartySpec pool typeMap p env := by
  have hmem : ∀ c, c ∈ pool.columns.filter (fun c => c.owner = p)
      ↔ c ∈ pool.columns ∧ c.owner = p := by
    intro c
    simp
  obtain ⟨feed, hfeed, -, hspec⟩ := importValues_own cast pool typeMap p hmem
    (pool.nodup.sublist (List.filter_sublist.map _))
  refine ⟨_, ?_, hspec⟩
  rw [partyEnv, partyConfig_eq pool.nodup]
  show importValues _ _ _ _ >>= _ = _
  rw [hfeed]
  rfl

/-- What the local executor knows and holds when a task has been
imported. -/
structure LocalSpec (pool : Pool n) (typeMap : Map TokenType)
    (env : LocalEnv D) : Prop where
  typeMap : env.typeMap = typeMap
  unknown : ∀ {name}, name ∉ pool.columns.map Column.name →
    ∃ fault, env.newFeed.getColumnValuesI64 env.newColCfg name = .error fault
  values : ∀ c ∈ pool.columns,
    env.newFeed.getColumnValuesI64 env.newColCfg c.name = .ok c.values

/-- The import of a task succeeds at the local executor. -/
theorem localEnv_spec (cast : I64 → D) (pool : Pool n)
    (typeMap : Map TokenType) (p : Party) :
    ∃ env, localEnv cast typeMap pool.columns p = .ok env
      ∧ LocalSpec pool typeMap env := by
  have hmarked : (ownConfig pool.columns p).newColumnConfig.localCol
      = entries (fun _ => true) pool.columns := by
    simp [ColumnConfig.newColumnConfig, ownConfig, entries]
  have hlocal : ∀ c ∈ pool.columns,
      (ownConfig pool.columns p).newColumnConfig.getColumnLocality c.name
        = .ok true := fun c hc =>
    getColumnLocality_entries hmarked pool.nodup hc
  have hfeed := importValues_eq cast (.init false) hlocal
    (fun c hc => getColumnDtype_entries rfl pool.nodup hc) pool.length
    pool.nodup (fun _ _ => rfl) rfl (Or.inl rfl)
  refine ⟨⟨typeMap, (ownConfig pool.columns p).newColumnConfig,
    ⟨false, if pool.columns = [] then -1 else FeedDict.castCount n, [],
      entries Column.values pool.columns ++ []⟩⟩, ?_, ?_⟩
  · rw [localEnv, partyConfig_eq pool.nodup]
    show importValues _ _ _ _ >>= _ = _
    rw [hfeed]
    rfl
  · refine ⟨rfl, ?_, ?_⟩
    · intro name hname
      obtain ⟨fault, hfault⟩ := getColumnLocality_unknown hmarked hname
      refine ⟨fault, ?_⟩
      rw [FeedDict.getColumnValuesI64, hfault]
      rfl
    · intro c hc
      exact getColumnValuesI64_entries rfl (List.append_nil _) pool.nodup hc
        (hlocal c hc)

end PrimiHub.Executor
