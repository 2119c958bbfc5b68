/-
The saved pipeline against the training run: which pipelines `transform`
applies as `fit_transform` trained them.

Where a module overwrites its columns, both runs do the same with the
saved parameter, and they do it row by row (`applyEntry_reindex`). The
modules that `fit_transform` lets add columns are a different matter:
`transform` fits some of them again on the rows at hand, and lets the
others overwrite the columns they were fitted on. So a pipeline is
consistent, whatever its columns and its modules do, exactly if it has no
module that adds columns (`consistent_iff`).
-/
import Mathlib.Data.List.Basic
import PrimiHub.FL.Pipeline

namespace PrimiHub.FL.Pipeline

variable {V P : Type} {m n : Nat}

/-- What is asked of a run that has saved a pipeline: on the table of the
run the pipeline makes the same table, and of any table it makes the rows
of a block from the rows of the block. -/
structure Replays (table out : Frame V n) (saved : Saved V P) : Prop where
  same : ∃ out', transform saved table = .ok out'
    ∧ out'.content = out.content
  blocks : ∀ {m : Nat} (other : Frame V m) (start len : Nat)
    (h : start + len ≤ m), 0 < len →
    (transform saved (other.reindex (block h))).map Frame.content
      = (transform saved other).map
        fun out => (out.reindex (block h)).content

/-- Whatever the columns, the table and the modules are, a run with these
modules saves a pipeline that replays it. -/
def Consistent (names : List String) : Prop :=
  ∀ (V P : Type) (env : Env V P) (config : Config) (steps : List Step)
    (n : Nat) (table out : Frame V n) (saved : Saved V P),
    steps.map Step.moduleName = names →
    fitTransform env config steps table = .ok (out, saved) →
    Replays table out saved

/-- A module that the configuration admits; `TargetEncoder` is another
matter, its training output is not that of its transform. -/
def Admitted (name : String) : Prop :=
  supported name ∧ name ≠ "TargetEncoder"

instance (name : String) : Decidable (Admitted name) :=
  inferInstanceAs (Decidable (_ ∧ _))

-- ====================================================== rows one by one

section Rows

variable (g : Fin m → Fin n) (data : Frame V n)

@[simp] theorem Frame.names_reindex :
    (data.reindex g).names = data.names := by
  unfold Frame.names Frame.reindex
  rw [List.map_map]
  rfl

@[simp] theorem Frame.length_reindex :
    (data.reindex g).length = data.length :=
  List.length_map _

@[simp] theorem Frame.indices_reindex (column : Selection) :
    (data.reindex g).indices column = data.indices column := by
  unfold Frame.indices
  rw [Frame.names_reindex, Frame.length_reindex]

/-- A row of the rearranged table. -/
theorem Frame.row_reindex (i : Fin m) :
    (data.reindex g).row i = data.row (g i) := by
  unfold Frame.row Frame.reindex
  rw [List.map_map]
  rfl

/-- Selecting columns and rearranging rows, in either order. -/
theorem Frame.select_reindex (column : Selection) :
    (data.reindex g).select column
      = (data.select column).map fun selected => selected.reindex g := by
  unfold Frame.select
  rw [Frame.names_reindex, Frame.indices_reindex]
  split_ifs
  · refine congrArg Except.ok ?_
    show _ = List.map _ (List.filterMap _ _)
    rw [List.map_filterMap]
    refine List.filterMap_congr fun k _ => ?_
    exact List.getElem?_map
  · rfl

/-- A module works row by row. -/
theorem Module.transform_reindex (module : Module V P) (p : P) :
    module.transform p (data.reindex g)
      = (module.transform p data).reindex g := by
  unfold Module.transform Module.columns Frame.reindex
  rw [List.map_map]
  refine List.map_congr_left fun j _ => ?_
  refine congrArg (Column.mk _ _) (funext fun i => ?_)
  exact congrArg (fun row => module.apply p row j) (data.row_reindex g i)

/-- One column after another. -/
theorem foldl_modify_reindex (pairs : List (Nat × Column V n)) :
    (pairs.map fun pair => (pair.1, (⟨pair.2.name, pair.2.numeric,
        pair.2.data ∘ g⟩ : Column V m))).foldl
      (fun data pair => data.modify pair.1 (Frame.overwrite pair.2))
      (data.reindex g)
    = (pairs.foldl (fun data pair =>
        data.modify pair.1 (Frame.overwrite pair.2)) data).reindex g := by
  induction pairs generalizing data with
  | nil => rfl
  | cons pair pairs ih =>
      rw [List.map_cons, List.foldl_cons, List.foldl_cons, ← ih]
      refine congrArg (List.foldl _ · _) ?_
      refine List.ext_getElem? fun k => ?_
      unfold Frame.reindex
      rw [List.getElem?_modify, List.getElem?_map, List.getElem?_map,
        List.getElem?_modify]
      cases data[k]? with
      | none => rfl
      | some c =>
          by_cases hk : pair.1 = k
          · simp [hk, Frame.overwrite]
          · simp [hk]

/-- Assigning columns and rearranging rows, in either order. -/
theorem Frame.assign_reindex (column : Selection) (out : Frame V n) :
    (data.reindex g).assign column (out.reindex g)
      = (data.assign column out).map fun data => data.reindex g := by
  unfold Frame.assign
  rw [Frame.indices_reindex, Frame.length_reindex]
  split_ifs
  · refine congrArg Except.ok ?_
    show _ = Frame.reindex (List.foldl _ data _) g
    rw [← foldl_modify_reindex]
    refine congrArg (List.foldl _ _) ?_
    exact List.zip_map_right
  · rfl

/-- So with the columns that are read. -/
theorem readData_reindex (columns : Option (List String)) :
    readData (data.reindex g) columns
      = (readData data columns).map fun data => data.reindex g := by
  cases columns with
  | none => rfl
  | some names =>
      cases names with
      | nil => rfl
      | cons name names => exact data.select_reindex g _

/-- A module that is not fitted again works row by row. -/
theorem applyEntry_reindex {entry : Entry V P}
    (h : refits entry.moduleName = false) :
    applyEntry (data.reindex g) entry
      = (applyEntry data entry).map fun out => out.reindex g := by
  unfold applyEntry
  rw [Frame.select_reindex, h]
  cases data.select entry.column with
  | error e => rfl
  | ok selected =>
      show (data.reindex g).assign entry.column
        (entry.module.transform entry.param (selected.reindex g)) = _
      rw [Module.transform_reindex, Frame.assign_reindex]
      rfl

/-- A saved pipeline without a refit works row by row. -/
theorem foldlM_reindex {entries : List (Entry V P)}
    (h : ∀ entry ∈ entries, refits entry.moduleName = false) :
    entries.foldlM applyEntry (data.reindex g)
      = (entries.foldlM applyEntry data).map fun out => out.reindex g := by
  induction entries generalizing data with
  | nil => rfl
  | cons entry entries ih =>
      have hentry := applyEntry_reindex g data (h entry List.mem_cons_self)
      rw [List.foldlM_cons, List.foldlM_cons, hentry]
      cases applyEntry data entry with
      | error e => rfl
      | ok out =>
          exact ih out fun other hother =>
            h other (List.mem_cons_of_mem _ hother)

/-- A pipeline without such modules works row by row. -/
theorem transform_reindex {saved : Saved V P}
    (h : ∀ entry ∈ saved.preprocess, refits entry.moduleName = false) :
    transform saved (data.reindex g)
      = (transform saved data).map fun out => out.reindex g := by
  unfold transform
  rw [readData_reindex]
  cases readData data saved.selectedColumn with
  | error e => rfl
  | ok data => exact foldlM_reindex g data h

end Rows

-- ================================================== training and replaying

/-- A module that is fitted again is one that may add columns. -/
theorem refits_of_joins {name : String} (h : joins name = false) :
    refits name = false := by
  unfold joins at h
  unfold refits
  simp only [Bool.or_eq_false_iff] at h ⊢
  exact ⟨h.1.1, h.2⟩

section Train

variable {env : Env V P} {config : Config} {columns : List String}

/-- What a module that overwrites its columns leaves behind. -/
theorem fitModule_replays {name : String} {column : Selection}
    {s s' : Progress V P n} (hjoins : joins name = false)
    (hname : name ≠ "TargetEncoder")
    (h : fitModule env config name column s = .ok s') :
    ∃ entry : Entry V P, entry.moduleName = name
      ∧ s'.preprocess = s.preprocess ++ [entry]
      ∧ applyEntry s.data entry = .ok s'.data := by
  unfold fitModule at h
  split at h
  case isFalse => cases h
  case isTrue =>
    cases hselect : s.data.select column with
    | error e =>
        rw [hselect] at h
        cases h
    | ok selected =>
        rw [hselect] at h
        simp only [hjoins, Bool.false_eq_true, if_false] at h
        cases hassign : s.data.assign column ((env.modules name).transform
            ((env.modules name).fit selected.rows) selected) with
        | error e =>
            simp [hassign, bind, Except.bind] at h
        | ok data =>
            simp [hassign, bind, Except.bind] at h
            refine ⟨⟨name, env.modules name,
              (env.modules name).fit selected.rows, column⟩, rfl, ?_, ?_⟩
            · rw [← h]
            · rw [← h]
              unfold applyEntry
              rw [hselect, refits_of_joins hjoins]
              exact hassign

/-- A step does nothing or is saved as what it has done. -/
theorem trainStep_replays {step : Step} {s s' : Progress V P n}
    (hjoins : joins step.moduleName = false)
    (hname : step.moduleName ≠ "TargetEncoder")
    (h : trainStep env config columns s step = .ok s') :
    s' = s ∨ ∃ entry : Entry V P, entry.moduleName = step.moduleName
      ∧ s'.preprocess = s.preprocess ++ [entry]
      ∧ applyEntry s.data entry = .ok s'.data := by
  unfold trainStep at h
  cases hlabel : checkLabel config step.moduleName with
  | error e =>
      rw [hlabel] at h
      cases h
  | ok _ =>
      rw [hlabel] at h
      cases hresolve : resolve env config.role columns s.data step with
      | error e =>
          rw [hresolve] at h
          cases h
      | ok column =>
          rw [hresolve] at h
          change (if column.isEmpty then Except.ok s
            else fitModule env config step.moduleName column s) = _ at h
          split at h
          · exact Or.inl (Except.ok.inj h).symm
          · exact Or.inr (fitModule_replays hjoins hname h)

/-- What the modules have left behind replays what they did. -/
theorem train_replays {steps : List Step} {s s' : Progress V P n}
    (hsteps : ∀ step ∈ steps, joins step.moduleName = false
      ∧ step.moduleName ≠ "TargetEncoder")
    (h : steps.foldlM (trainStep env config columns) s = .ok s') :
    ∃ entries : List (Entry V P), s'.preprocess = s.preprocess ++ entries
      ∧ entries.foldlM applyEntry s.data = .ok s'.data
      ∧ ∀ entry ∈ entries, refits entry.moduleName = false := by
  induction steps generalizing s with
  | nil =>
      cases h
      exact ⟨[], (List.append_nil _).symm, rfl, nofun⟩
  | cons step steps ih =>
      obtain ⟨hjoins, hname⟩ := hsteps step List.mem_cons_self
      rw [List.foldlM_cons] at h
      cases hstep : trainStep env config columns s step with
      | error e =>
          rw [hstep] at h
          cases h
      | ok t =>
          rw [hstep] at h
          obtain ⟨entries, hsaved, hreplay, hrefits⟩ :=
            ih (fun other hother =>
              hsteps other (List.mem_cons_of_mem _ hother)) h
          obtain rfl | ⟨entry, hentry, hsaved', happly⟩ :=
            trainStep_replays hjoins hname hstep
          · exact ⟨entries, hsaved, hreplay, hrefits⟩
          · refine ⟨entry :: entries, ?_, ?_, ?_⟩
            · rw [hsaved, hsaved', List.append_assoc]
              rfl
            · rw [List.foldlM_cons, happly]
              exact hreplay
            · exact List.forall_mem_cons.mpr
                ⟨hentry ▸ refits_of_joins hjoins, hrefits⟩

end Train

/-- A pipeline of modules that overwrite their columns. -/
theorem consistent_of_overwriting {names : List String}
    (h : ∀ name ∈ names, joins name = false ∧ name ≠ "TargetEncoder") :
    Consistent names := by
  intro V P env config steps n table out saved hnames htrain
  have hsteps : ∀ step ∈ steps, joins step.moduleName = false
      ∧ step.moduleName ≠ "TargetEncoder" := fun step hstep =>
    h _ (hnames ▸ List.mem_map_of_mem hstep)
  unfold fitTransform at htrain
  cases hread : readData table config.selectedColumn with
  | error e =>
      rw [hread] at htrain
      cases htrain
  | ok data =>
      rw [hread] at htrain
      cases hrun : steps.foldlM (trainStep env config
          (config.preprocess data)) ⟨data, []⟩ with
      | error e =>
          simp [hrun, bind, Except.bind] at htrain
      | ok s =>
          simp [hrun, bind, Except.bind] at htrain
          obtain ⟨hout, hsaved⟩ := htrain
          obtain ⟨entries, hentries, hreplay, hrefits⟩ :=
            train_replays hsteps hrun
          rw [List.nil_append] at hentries
          rw [hentries] at hsaved
          subst hsaved hout
          refine ⟨⟨s.data, ?_, rfl⟩, fun other start len hle _ => ?_⟩
          · unfold transform
            rw [hread]
            exact hreplay
          · rw [transform_reindex _ _ hrefits]
            cases transform _ other with
            | error e => rfl
            | ok out => rfl

-- ===================================================== modules that add columns

/-- A module that learns how many rows there are, and makes one column of
that number. -/
def countRows : Module Nat Nat where
  fit := List.length
  refit := List.length
  width _ := 1
  apply p _ _ := p
  numeric _ := true
  featureNamesOut _ _ := "b"
  crossFit p _ _ _ _ := p

/-- Every module counts. -/
def countEnv : Env Nat Nat where
  modules _ := countRows
  negotiate _ names := names

/-- A column of zeros. -/
def zeros (n : Nat) : Frame Nat n := [⟨"a", true, fun _ => 0⟩]

/-- A classification task of a party with labels. -/
def hostConfig : Config where
  role := .host
  task := "classification"
  selectedColumn := none
  id := none
  label := none
  preprocessColumn := none

/-- A module with no columns to work on. -/
def idle (name : String) : Step := ⟨name, some (.many [])⟩

/-- Modules without columns change nothing. -/
theorem foldlM_idle (columns names : List String) (s : Progress Nat Nat n) :
    (names.map idle).foldlM (trainStep countEnv hostConfig columns) s
      = .ok s := by
  induction names with
  | nil => rfl
  | cons name names ih =>
      have hstep : trainStep countEnv hostConfig columns s (idle name)
          = .ok s := by
        have hlabel : checkLabel hostConfig name = .ok () := by
          unfold checkLabel
          split
          · rfl
          · rfl
        unfold trainStep
        show (checkLabel hostConfig name >>= _) = _
        rw [hlabel]
        rfl
      rw [List.map_cons, List.foldlM_cons, hstep]
      exact ih

/-- The first column a module adds under one name. -/
theorem numbered_one (name : String) :
    numbered (.one name) 1 = .ok fun _ => name ++ "0" := by
  refine congrArg Except.ok (funext fun i => ?_)
  rw [Nat.lt_one_iff.mp i.isLt]
  rfl

/-- A column with another name can be joined. -/
theorem join_zeros {new : String} (hne : new ≠ "a") (data : Fin n → Nat) :
    Frame.join (zeros n) [⟨new, true, data⟩]
      = .ok (zeros n ++ [⟨new, true, data⟩]) := by
  refine if_neg fun h => ?_
  obtain ⟨c, hc, hmem⟩ := h
  rw [List.mem_singleton.mp hc] at hmem
  exact hne (List.mem_singleton.mp hmem)

/-- The new column has another name than the one the module works on. -/
theorem trainNames_countRows (name : String) (p : Nat) :
    ∃ new, trainNames name countRows p (.one "a") = .ok (fun _ => new)
      ∧ new ≠ "a" := by
  unfold trainNames
  split_ifs
  · exact ⟨"a0", numbered_one "a", by decide⟩
  · exact ⟨"Bin_b", rfl, by decide⟩
  · exact ⟨"Quantile_b", rfl, by decide⟩
  · exact ⟨"Power_b", rfl, by decide⟩
  · exact ⟨"b", rfl, by decide⟩

/-- What a run has saved in which only this module does anything. -/
def onlySaved (name : String) : Saved Nat Nat where
  selectedColumn := none
  preprocess := [⟨name, countRows, 1, .one "a"⟩]

/-- A run in which one module adds a column, and the others do nothing. -/
theorem exists_train {names : List String} {name : String}
    (hname : name ∈ names) (hjoins : joins name = true)
    (hsupported : supported name = true) :
    ∃ steps new, steps.map Step.moduleName = names ∧ new ≠ "a"
      ∧ fitTransform countEnv hostConfig steps (zeros 1)
        = .ok (zeros 1 ++ [⟨new, true, fun _ => 1⟩], onlySaved name) := by
  obtain ⟨before, after, rfl⟩ := List.append_of_mem hname
  obtain ⟨new, hnew, hne⟩ := trainNames_countRows name 1
  refine ⟨before.map idle ++ ⟨name, some (.one "a")⟩ :: after.map idle, new,
    ?_, hne, ?_⟩
  -- idle modules before and behind it make up the names
  · have hidle : Step.moduleName ∘ idle = id := rfl
    rw [List.map_append, List.map_cons, List.map_map, List.map_map, hidle,
      List.map_id, List.map_id]
  · have hlabel : checkLabel hostConfig name = .ok () := by
      unfold checkLabel
      split
      · rfl
      · rfl
    have hfit : fitModule countEnv hostConfig name (.one "a")
        ⟨zeros 1, []⟩ = .ok ⟨zeros 1 ++ [⟨new, true, fun _ => 1⟩],
          [⟨name, countRows, 1, .one "a"⟩]⟩ := by
      unfold fitModule
      rw [if_pos hsupported]
      show (if joins name = true then
          trainNames name countRows 1 (.one "a") >>= _ else _) = _
      rw [if_pos hjoins, hnew]
      show Frame.join (zeros 1) [⟨new, true, fun _ => 1⟩] >>= _ = _
      rw [join_zeros hne]
      rfl
    have hstep : ∀ columns, trainStep countEnv hostConfig columns
        ⟨zeros 1, []⟩ ⟨name, some (.one "a")⟩
        = .ok ⟨zeros 1 ++ [⟨new, true, fun _ => 1⟩],
          [⟨name, countRows, 1, .one "a"⟩]⟩ := by
      intro columns
      unfold trainStep
      show (checkLabel hostConfig name >>= _) = _
      rw [hlabel]
      exact hfit
    have hrun : ∀ columns, (before.map idle
        ++ ⟨name, some (.one "a")⟩ :: after.map idle).foldlM
          (trainStep countEnv hostConfig columns) ⟨zeros 1, []⟩
        = .ok ⟨zeros 1 ++ [⟨new, true, fun _ => 1⟩],
          [⟨name, countRows, 1, .one "a"⟩]⟩ := by
      intro columns
      rw [List.foldlM_append, foldlM_idle]
      show List.foldlM (trainStep countEnv hostConfig columns) _
        (_ :: after.map idle) = _
      rw [List.foldlM_cons, hstep]
      exact foldlM_idle columns after _
    exact congrArg (· >>= fun s : Progress Nat Nat 1 =>
      Except.ok (s.data, Saved.mk none s.preprocess)) (hrun _)

/-- A module that is not fitted again overwrites what it was fitted on. -/
theorem not_same_of_joins {name new : String} (h : refits name = false) :
    ¬ ∃ out', transform (onlySaved name) (zeros 1) = .ok out'
      ∧ out'.content = (zeros 1 ++ [⟨new, true, fun _ => 1⟩] :
        Frame Nat 1).content := by
  have hout : transform (onlySaved name) (zeros 1)
      = .ok [⟨"a", true, fun _ => 1⟩] := by
    unfold transform
    show applyEntry (zeros 1) _ >>= _ = _
    unfold applyEntry
    rw [h]
    rfl
  intro hsame
  obtain ⟨out', hout', hcontent⟩ := hsame
  rw [hout, Except.ok.injEq] at hout'
  subst hout'
  have hlength : 1 = 2 := congrArg List.length hcontent
  cases hlength

/-- A module that is fitted again counts the rows at hand. -/
theorem transform_refits {name : String} (h : refits name = true) (n : Nat) :
    ∃ new, transform (onlySaved name) (zeros n)
      = .ok (zeros n ++ [⟨new, true, fun _ => n⟩]) := by
  obtain ⟨new, hnew, hne⟩ : ∃ new, transformNames name countRows
      (countRows.refit (zeros n).rows) (.one "a") = .ok (fun _ => new)
      ∧ new ≠ "a" := by
    unfold transformNames
    split_ifs
    · exact ⟨"a0", numbered_one "a", by decide⟩
    · exact ⟨"Bin_b", rfl, by decide⟩
    · exact ⟨"b", rfl, by decide⟩
  have hrows : (zeros n).rows.length = n := by
    rw [Frame.rows, List.length_map, List.length_finRange]
  refine ⟨new, ?_⟩
  unfold transform
  show applyEntry (zeros n) _ >>= _ = _
  unfold applyEntry
  rw [h]
  show ((transformNames name countRows (countRows.refit (zeros n).rows)
    (.one "a") >>= _) >>= _) = _
  rw [hnew]
  show (Frame.join (zeros n) [⟨new, true, fun _ => (zeros n).rows.length⟩]
    >>= _) = _
  rw [hrows, join_zeros hne]
  rfl

/-- One module that may add columns spoils the replay of some table. -/
theorem not_consistent_of_joins {names : List String} {name : String}
    (hname : name ∈ names) (hjoins : joins name = true)
    (hsupported : supported name = true) : ¬ Consistent names := by
  obtain ⟨steps, new, hsteps, -, htrain⟩ :=
    exists_train hname hjoins hsupported
  intro h
  have hreplays := h _ _ _ _ _ _ _ _ _ hsteps htrain
  cases hrefits : refits name with
  | false => exact not_same_of_joins hrefits hreplays.same
  | true =>
      -- two rows, and the first one alone
      obtain ⟨new₂, htwo⟩ := transform_refits hrefits 2
      obtain ⟨new₁, hone⟩ := transform_refits hrefits 1
      have hblock := hreplays.blocks (zeros 2) 0 1 (by decide) (by decide)
      have hzeros : (zeros 2).reindex (block (by decide : 0 + 1 ≤ 2))
          = zeros 1 := rfl
      rw [hzeros, hone, htwo] at hblock
      have hcontent := Except.ok.inj hblock
      have hcolumn := (List.cons.inj (List.cons.inj hcontent).2).1
      have hcount : 1 = 2 := congrFun (Prod.mk.inj hcolumn).2 0
      cases hcount

/-- A pipeline is consistent exactly if no module adds columns. This is over
all selections of columns; a run in which the selection of such a module
comes out empty skips it. -/
theorem consistent_iff {names : List String}
    (h : ∀ name ∈ names, Admitted name) :
    Consistent names ↔ ∀ name ∈ names, joins name = false := by
  constructor
  · intro hconsistent name hname
    by_contra hjoins
    rw [Bool.not_eq_false] at hjoins
    exact not_consistent_of_joins hname hjoins (h name hname).1 hconsistent
  · intro hjoins
    exact consistent_of_overwriting fun name hname =>
      ⟨hjoins name hname, (h name hname).2⟩

/-- Imputing, encoding and scaling are replayed. -/
theorem consistent_impute_encode_scale :
    Consistent ["SimpleImputer_string", "OrdinalEncoder", "StandardScaler"] :=
  (consistent_iff (by decide)).mpr (by decide)

/-- The quantiles are new columns in the training run, and overwrite the
old ones in the other. -/
theorem not_consistent_quantileTransformer :
    ¬ Consistent ["QuantileTransformer"] :=
  not_consistent_of_joins (List.mem_singleton.mpr rfl) (by decide)
    (by decide)

end PrimiHub.FL.Pipeline
