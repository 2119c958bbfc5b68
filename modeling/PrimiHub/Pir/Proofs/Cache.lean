/-
When a cached database is the one a keyword PIR task asks for.

The path of a cached database names one id and one list of key columns as
long as the id is plain (`cachePath_inj`): the numbers at the end are the
key columns. Under the names of plain ids there is then only what the name
says (`Honest`), and a plain task that finds a file there finds its own.
-/
import Mathlib.Data.List.Basic
import Mathlib.Data.List.Induction
import PrimiHub.Lib.Run
import PrimiHub.Pir.Cache

namespace PrimiHub.Pir

open Lib

-- ================================================================== numbers

theorem isDigit_of_mem_repr {n : Nat} {c : Char} (h : c ∈ n.repr.toList) :
    c.isDigit = true := by
  rw [Nat.toList_repr] at h
  exact Nat.isDigit_of_mem_toDigits (by decide) (by decide) h

/-- A number is its text. -/
theorem natRepr_injective {m n : Nat} (h : m.repr = n.repr) : m = n := by
  have hdigits : Nat.toDigits 10 m = Nat.toDigits 10 n := by
    rw [← Nat.toList_repr, ← Nat.toList_repr, h]
  calc m = Nat.ofDigitChars 10 (Nat.toDigits 10 m) 0 :=
        Nat.ofDigitChars_ten_toDigits.symm
    _ = n := by rw [hdigits, Nat.ofDigitChars_ten_toDigits]

/-- No number without a sign has one. -/
theorem repr_ne_minus (m n : Nat) : m.repr ≠ "-" ++ n.repr := by
  intro h
  have hmem : '-' ∈ m.repr.toList := by
    rw [h, String.toList_append]
    exact List.mem_append_left _ (by decide)
  have hdigit := isDigit_of_mem_repr hmem
  revert hdigit
  decide

theorem toString_injective {a b : Int} (h : toString a = toString b) :
    a = b := by
  rw [Int.toString_eq_repr, Int.toString_eq_repr, Int.repr_eq_if,
    Int.repr_eq_if] at h
  split at h
  · split at h
    · have hnat := natRepr_injective h
      omega
    · exact absurd h (repr_ne_minus _ _)
  · split at h
    · exact absurd h.symm (repr_ne_minus _ _)
    · have hnat := natRepr_injective ((String.append_right_inj "-").mp h)
      omega

/-- A number has only digits, and perhaps a sign. -/
theorem not_mem_toString {c : Char} (hdigit : c.isDigit = false)
    (hsign : c ≠ '-') (number : Int) : c ∉ (toString number).toList := by
  have hnat : ∀ n : Nat, c ∉ n.repr.toList := by
    intro n hmem
    rw [isDigit_of_mem_repr hmem] at hdigit
    cases hdigit
  rw [Int.toString_eq_repr, Int.repr_eq_if]
  split
  · exact hnat _
  · rw [String.toList_append, List.mem_append, not_or]
    exact ⟨by simpa using hsign, hnat _⟩

theorem underscore_not_mem (number : Int) :
    '_' ∉ (toString number).toList :=
  not_mem_toString (by decide) (by decide) number

theorem slash_not_mem (number : Int) : '/' ∉ (toString number).toList :=
  not_mem_toString (by decide) (by decide) number

-- ==================================================================== names

/-- What stands in front of the first separator, and what behind it. -/
theorem front_unique {α : Type} {sep : α} {x y z w : List α}
    (hx : sep ∉ x) (hy : sep ∉ y) (h : x ++ sep :: z = y ++ sep :: w) :
    x = y ∧ z = w := by
  induction x generalizing y with
  | nil =>
      cases y with
      | nil => exact ⟨rfl, (List.cons_eq_cons.mp h).2⟩
      | cons b y =>
          have hhead := (List.cons_eq_cons.mp h).1
          rw [hhead] at hy
          exact absurd List.mem_cons_self hy
  | cons a x ih =>
      cases y with
      | nil =>
          have hhead := (List.cons_eq_cons.mp h).1
          rw [← hhead] at hx
          exact absurd List.mem_cons_self hx
      | cons b y =>
          obtain ⟨hhead, htail⟩ := List.cons_eq_cons.mp h
          obtain ⟨hxy, hzw⟩ := ih (fun hmem => hx (List.mem_cons_of_mem a hmem))
            (fun hmem => hy (List.mem_cons_of_mem b hmem)) htail
          exact ⟨by rw [hhead, hxy], hzw⟩

/-- The last number of a name. -/
theorem last_number {x y : String} {k l : Int}
    (h : x ++ "_" ++ toString k = y ++ "_" ++ toString l) : x = y ∧ k = l := by
  have hlist := congrArg (fun s => s.toList.reverse) h
  simp only [String.toList_append, List.reverse_append] at hlist
  have hunder : "_".toList.reverse = ['_'] := by decide
  rw [hunder, List.singleton_append, List.singleton_append] at hlist
  have hdigits : ∀ number : Int, '_' ∉ (toString number).toList.reverse := by
    intro number
    rw [List.mem_reverse]
    exact underscore_not_mem number
  obtain ⟨hnumber, hfront⟩ := front_unique (hdigits k) (hdigits l) hlist
  exact ⟨String.toList_injective (List.reverse_injective hfront),
    toString_injective
      (String.toList_injective (List.reverse_injective hnumber))⟩

theorem cachePath_concat (id : String) (keys : List Int) (key : Int) :
    cachePath id (keys ++ [key])
      = cachePath id keys ++ "_" ++ toString key :=
  List.foldl_append

/-- A path is the directory and a name. -/
theorem cachePath_name (id : String) (keys : List Int) :
    ∃ name, cachePath id keys = dbCacheDir ++ "/" ++ name := by
  induction keys using List.reverseRecOn with
  | nil => exact ⟨id, rfl⟩
  | append_singleton keys key ih =>
      obtain ⟨name, hname⟩ := ih
      refine ⟨name ++ "_" ++ toString key, ?_⟩
      rw [cachePath_concat, hname]
      simp only [String.append_assoc]

/-- An id that is the name of a file leads to a file in the directory. -/
theorem cachePath_fileName {id : String} (h : FileName id.toList)
    (keys : List Int) :
    ∃ name, (cachePath id keys).toList = (dbCacheDir ++ "/").toList ++ name
      ∧ FileName name := by
  induction keys using List.reverseRecOn with
  | nil => exact ⟨id.toList, String.toList_append, h⟩
  | append_singleton keys key ih =>
      obtain ⟨name, hname, hne, -, -, hslash⟩ := ih
      have hunder : '_' ∈ name ++ "_".toList ++ (toString key).toList :=
        List.mem_append_left _ (List.mem_append_right _ (by decide))
      refine ⟨name ++ "_".toList ++ (toString key).toList, ?_, ?_, ?_, ?_, ?_⟩
      · rw [cachePath_concat, String.toList_append, String.toList_append,
          hname, List.append_assoc, List.append_assoc, List.append_assoc]
      · exact List.ne_nil_of_mem hunder
      · intro heq
        rw [heq] at hunder
        revert hunder
        decide
      · intro heq
        rw [heq] at hunder
        revert hunder
        decide
      · rw [List.mem_append, List.mem_append, not_or, not_or]
        exact ⟨⟨hslash, by decide⟩, slash_not_mem key⟩

/-- A path of a plain id has no key columns but its own. -/
theorem cachePath_nil_ne {id id' : String} (h : PlainId id)
    (keys : List Int) (key : Int) :
    cachePath id [] ≠ cachePath id' (keys ++ [key]) := by
  intro heq
  obtain ⟨name, hname⟩ := cachePath_name id' keys
  rw [cachePath_concat, hname, String.append_assoc, String.append_assoc] at heq
  have hid := (String.append_right_inj (dbCacheDir ++ "/")).mp heq
  rw [← String.append_assoc] at hid
  exact h.unnumbered name key hid

/-- The path of a plain id says which id and which key columns it is for. -/
theorem cachePath_inj {id id' : String} {keys keys' : List Int}
    (hid : PlainId id) (hid' : PlainId id')
    (h : cachePath id keys = cachePath id' keys') :
    id = id' ∧ keys = keys' := by
  induction keys using List.reverseRecOn generalizing keys' with
  | nil =>
      induction keys' using List.reverseRecOn with
      | nil =>
          exact ⟨(String.append_right_inj (dbCacheDir ++ "/")).mp h, rfl⟩
      | append_singleton keys' key' _ =>
          exact absurd h (cachePath_nil_ne hid keys' key')
  | append_singleton keys key ih =>
      induction keys' using List.reverseRecOn with
      | nil => exact absurd h.symm (cachePath_nil_ne hid' keys key)
      | append_singleton keys' key' _ =>
          rw [cachePath_concat, cachePath_concat] at h
          obtain ⟨hfront, hkey⟩ := last_number h
          obtain ⟨hsame, hkeys⟩ := ih hfront
          exact ⟨hsame, by rw [hkeys, hkey]⟩

/-- An id that does end so shares its path with another. -/
theorem cachePath_shared (front : String) (number : Int) (keys : List Int) :
    cachePath (front ++ "_" ++ toString number) keys
      = cachePath front (number :: keys) := by
  unfold cachePath
  rw [List.foldl_cons, ← String.append_assoc, ← String.append_assoc]

-- ==================================================================== files

section Files

variable {φ : Type} {fs : FileSystem φ} {labelsOf : String → List Nat}
  {files : Files φ}

/-- Under the names of plain ids there is only what the name says. -/
def Honest (fs : FileSystem φ) (labelsOf : String → List Nat)
    (files : Files φ) : Prop :=
  ∀ id keys, PlainId id → ∀ entry,
    files (fs.resolve (cachePath id keys)) = some entry →
      entry = .database ⟨some id, keys, labelsOf id⟩

/-- The options of an offline task and those of an online task. -/
theorem loadParams_ok {exist : String → Bool} {task : ServerTask}
    {options : Options} (h : loadParams exist task = .ok options) :
    (∃ path, task.dbInfo = some path ∧ options = ⟨false, true, path⟩)
      ∨ task.dbInfo = none ∧ ∃ id, task.cacheId = some id
        ∧ options = ⟨exist (cachePath id task.keyColumns), false,
          cachePath id task.keyColumns⟩ := by
  unfold loadParams at h
  cases hparse : task.parseQueryConfig with
  | error e =>
      rw [hparse] at h
      cases h
  | ok _ =>
      rw [hparse] at h
      change buildOptions exist task = .ok options at h
      unfold buildOptions at h
      cases hinfo : task.dbInfo with
      | some path =>
          rw [hinfo] at h
          dsimp only at h
          split at h
          · cases h
          · exact Or.inl ⟨path, rfl, (Except.ok.inj h).symm⟩
      | none =>
          rw [hinfo] at h
          dsimp only at h
          split at h
          · cases h
          · cases hid : task.cacheId with
            | none =>
                rw [hid] at h
                cases h
            | some id =>
                rw [hid] at h
                exact Or.inr ⟨rfl, id, rfl, (Except.ok.inj h).symm⟩

/-- A task with a plain id uses what its name says. -/
theorem Honest.hit {run : Run} (h : Honest fs labelsOf files)
    (htask : Unambiguous fs labelsOf run.task) :
    HitMatches fs files run := by
  intro options hload huse
  obtain ⟨path, -, rfl⟩ | ⟨hinfo, id, hid, rfl⟩ := loadParams_ok hload
  · cases huse
  · obtain ⟨hplain, hlabels⟩ := htask.online hinfo id hid
    have hexists : (files (fs.resolve
        (cachePath id run.task.keyColumns))).isSome = true :=
      (Bool.and_eq_true_iff.mp huse).2
    obtain ⟨entry, hentry⟩ := Option.isSome_iff_exists.mp hexists
    have hsource := h id run.task.keyColumns hplain entry hentry
    rw [hentry, hsource, ServerTask.madeFrom, hid, hlabels]

variable [DecidableEq φ]

/-- `ValidateDir` changes directories only. -/
theorem validateDir_other {path : String} {file : φ}
    (h : file ∉ fs.directories path) :
    validateDir fs files path file = files file := by
  unfold validateDir
  generalize fs.directories path = dirs at h
  induction dirs generalizing files with
  | nil => rfl
  | cons dir dirs ih =>
      rw [List.mem_cons, not_or] at h
      rw [List.foldl_cons, ih h.2]
      split
      · exact Function.update_of_ne h.1 _ _
      · rfl

/-- A task either changes no file, or it is an offline task that makes
directories and may save its database. -/
theorem runTask_cases {run : Run} {files' : Files φ}
    (h : runTask fs files run = some files') :
    files' = files
      ∨ ∃ path, run.task.dbInfo = some path
        ∧ (files' = validateDir fs files path
          ∨ files' = Function.update (validateDir fs files path)
            (fs.resolve path) (some (.database run.task.madeFrom))) := by
  unfold runTask at h
  cases hload : loadParams (fileExists fs files) run.task with
  | error e =>
      rw [hload] at h
      exact Or.inl (Option.some.inj h).symm
  | ok options =>
      rw [hload] at h
      obtain ⟨path, hpath, rfl⟩ | ⟨-, id, -, rfl⟩ := loadParams_ok hload
      · dsimp only at h
        rw [if_pos rfl] at h
        refine Or.inr ⟨path, hpath, ?_⟩
        split at h
        · exact Or.inr (Option.some.inj h).symm
        · exact Or.inl (Option.some.inj h).symm
      · exact Or.inl (Option.some.inj h).symm

/-- An unambiguous task leaves the names of plain ids honest. -/
theorem Honest.step {run : Run} {files' : Files φ}
    (h : Honest fs labelsOf files)
    (htask : Unambiguous fs labelsOf run.task)
    (hrun : runTask fs files run = some files') :
    Honest fs labelsOf files' := by
  obtain rfl | ⟨path, hpath, hcase⟩ := runTask_cases hrun
  · exact h
  · have hdirs : ∀ id keys, PlainId id → ∀ entry,
        validateDir fs files path (fs.resolve (cachePath id keys))
            = some entry →
          entry = .database ⟨some id, keys, labelsOf id⟩ := by
      intro id keys hid entry hentry
      rw [validateDir_other (htask.offline path hpath id keys hid).1]
        at hentry
      exact h id keys hid entry hentry
    obtain rfl | rfl := hcase
    · exact hdirs
    · intro id keys hid entry hentry
      by_cases hsame : fs.resolve (cachePath id keys) = fs.resolve path
      · rw [hsame, Function.update_self, Option.some.injEq] at hentry
        rw [← hentry,
          (htask.offline path hpath id keys hid).2 hsame.symm]
      · rw [Function.update_of_ne hsame] at hentry
        exact hdirs id keys hid entry hentry

end Files

/-- Where all tasks are unambiguous a cached database is only used for the
query it was built for. -/
theorem cache_hits_match {φ : Type} [DecidableEq φ] (fs : FileSystem φ)
    (labelsOf : String → List Nat) {runs : List Run}
    (h : Along (runTask fs) (fun _ run => Unambiguous fs labelsOf run.task)
      (fun _ => none) runs) :
    Along (runTask fs) (HitMatches fs) (fun _ => none) runs := by
  apply along_of_invariant (I := Honest fs labelsOf) _ _ _ h
  · intro files run files' hhonest htask hrun
    exact hhonest.step htask hrun
  · intro files run hhonest htask
    exact hhonest.hit htask
  · intro id keys _ entry hentry
    cases hentry

-- ====================================================== paths and their files

theorem enter_fileName {name : List Char} (h : FileName name)
    (dir : List (List Char)) : enter dir name = dir ++ [name] := by
  obtain ⟨hne, hdot, hup, -⟩ := h
  rw [enter, if_neg (not_or.mpr ⟨hne, hdot⟩), if_neg hup]

theorem splitOn_slash {name : List Char} (h : FileName name) :
    ((dbCacheDir ++ "/").toList ++ name).splitOn '/'
      = ["data".toList, "cache".toList, name] := by
  have hfront : (dbCacheDir ++ "/").toList ++ name
      = "data".toList ++ '/' :: ("cache".toList ++ '/' :: name) := rfl
  have hname : ∀ c ∈ name, (c == '/') = false := by
    intro c hc
    rw [beq_eq_false_iff_ne]
    rintro rfl
    exact h.2.2.2 hc
  have hdata : "data".toList.all (fun c => !(c == '/')) = true := rfl
  have hcache : "cache".toList.all (fun c => !(c == '/')) = true := rfl
  simp only [List.all_eq_true, Bool.not_eq_true'] at hdata hcache
  rw [hfront, List.splitOn_eq_splitOnP,
    List.splitOnP_append_cons_of_forall_mem hdata _ rfl,
    List.splitOnP_append_cons_of_forall_mem hcache _ rfl,
    List.splitOnP_eq_singleton hname]

/-- A plain id and some key columns have a file of their own. -/
theorem resolve_cachePath {id : String} (h : FileName id.toList)
    (keys : List Int) :
    ∃ name, (cachePath id keys).toList = (dbCacheDir ++ "/").toList ++ name
      ∧ pathFiles.resolve (cachePath id keys)
        = ["data".toList, "cache".toList, name] := by
  obtain ⟨name, hpath, hname⟩ := cachePath_fileName h keys
  refine ⟨name, hpath, ?_⟩
  show ((cachePath id keys).toList.splitOn '/').foldl enter [] = _
  rw [hpath, splitOn_slash hname]
  exact enter_fileName hname _

theorem directories_cachePath {id : String} (h : FileName id.toList)
    (keys : List Int) : pathFiles.directories (cachePath id keys)
      = [["data".toList], ["data".toList, "cache".toList]] := by
  obtain ⟨name, hpath, hname⟩ := cachePath_fileName h keys
  unfold pathFiles
  dsimp only
  rw [hpath, splitOn_slash hname]
  rfl

/-- A task with a plain id that keeps to the name of its own id and key
columns. -/
theorem Unambiguous.of_own_path {labelsOf : String → List Nat}
    {task : ServerTask} {id : String} (hplain : PlainId id)
    (hid : task.cacheId = some id) (hlabels : task.labelColumns = labelsOf id)
    (hpath : ∀ path, task.dbInfo = some path →
      path = cachePath id task.keyColumns) :
    Unambiguous pathFiles labelsOf task := by
  refine ⟨?_, ?_⟩
  · intro _ id' hid'
    rw [hid, Option.some.injEq] at hid'
    rw [← hid']
    exact ⟨hplain, hlabels⟩
  · intro path hinfo id' keys hplain'
    obtain rfl := hpath path hinfo
    obtain ⟨name, hname, hfile⟩ :=
      resolve_cachePath hplain.fileName task.keyColumns
    obtain ⟨name', hname', hfile'⟩ := resolve_cachePath hplain'.fileName keys
    rw [directories_cachePath hplain.fileName, hfile, hfile']
    refine ⟨by simp, fun hsame => ?_⟩
    obtain rfl : name = name' := by simpa using hsame
    obtain ⟨rfl, hkeys⟩ := cachePath_inj hplain hplain'
      (String.toList_injective (hname.trans hname'.symm))
    rw [ServerTask.madeFrom, hid, hlabels, hkeys]

-- ================================================================== examples

/-- A dataset with three columns. -/
def serverTask (dbInfo : Option String) (id : String) (keys : List Int) :
    ServerTask where
  dbInfo := dbInfo
  queryConfig := some (some ⟨some keys⟩)
  datasetId := id
  isDatasetDetail := false
  partyParam := none
  serverDatasetSchema := ["x", "y", "z"]

theorem plainId_a : PlainId "a" := by
  refine ⟨⟨by decide, by decide, by decide, by decide⟩, ?_⟩
  intro front number h
  have hmem : '_' ∈ "a".toList := by
    rw [h, String.toList_append, String.toList_append]
    exact List.mem_append_left _ (List.mem_append_right _ (by decide))
  revert hmem
  decide

theorem serverTask_unambiguous (keys : List Int) (dbInfo : Option String)
    (h : ∀ path, dbInfo = some path →
      path = cachePath "a" (withoutDup [] keys)) :
    Unambiguous pathFiles (fun _ => [0, 1, 2])
      (serverTask dbInfo "a" keys) :=
  Unambiguous.of_own_path plainId_a rfl rfl h

/-- An offline task and the online task that uses its database. -/
theorem cache_hits_match_a :
    Along (runTask pathFiles) (HitMatches pathFiles) (fun _ => none)
      [⟨serverTask (some "data/cache/a_0_1") "a" [0, 1], true⟩,
        ⟨serverTask none "a" [0, 1], true⟩] :=
  cache_hits_match pathFiles (fun _ => [0, 1, 2])
    ⟨serverTask_unambiguous _ _ (by decide), fun _ _ =>
      ⟨serverTask_unambiguous _ _ (by decide), fun _ _ => trivial⟩⟩

/-- The database of "a" with the key columns 1 and 2 has the name that "a_1"
with the key column 2 looks for. -/
theorem not_cache_hits_match_a :
    ¬ Along (runTask pathFiles) (HitMatches pathFiles) (fun _ => none)
      [⟨serverTask (some "data/cache/a_1_2") "a" [1, 2], true⟩,
        ⟨serverTask none "a_1" [2], true⟩] := by
  intro h
  have hhit := (h.2 _ rfl).1 ⟨true, false, "data/cache/a_1_2"⟩ (by decide) rfl
  revert hhit
  decide

end PrimiHub.Pir
