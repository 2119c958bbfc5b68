/-
When the MySQL alignment asks for every id exactly once.

The rounds always run, for a batch is whole thousands: the function is a
loop that sorts group after group (`generate_rounds`). The last group is
lost without a word where its last statement has one id (`generate_lost`).

What a group holds are the rows that the literals of its ids find. How often
a row of an id is among them is counted statement by statement
(`count_sorted`); where each literal finds the rows of its id and no others
they are one for each id (`groupRows_perm`).
-/
import Mathlib.Data.Nat.Basic
import PrimiHub.Align.Proofs.Ranges
import PrimiHub.Lib.Strtol
import PrimiHub.Lib.Traverse

namespace PrimiHub.Align

open Lib

variable {ρ κ : Type}

-- ============================================================ rows of a group

section Rows

/-- The rows returned for a list are those one of its literals finds. -/
theorem mem_select (db : Mysql ρ κ) {list : List String} {row : ρ} :
    row ∈ db.select list
      ↔ row ∈ db.table ∧ list.any (db.finds row) = true := by
  rw [Mysql.select, (db.answer_perm _).mem_iff, List.mem_filter,
    List.any_map]
  rfl

/-- A literal that is read as the id and that only the rows with the id are
equal to tells them apart. -/
theorem told_of_equal {db : Mysql ρ κ} {ids : List String}
    (hread : ∀ id ∈ ids, ∀ c ∈ id.toList, ¬ Numbered db.printable c)
    (hequal : ∀ row ∈ db.table, ∀ id ∈ ids,
      db.equal row id = decide (db.idOf row = id)) : Told db ids := by
  intro row hrow id hid
  rw [Mysql.finds, asRead_eq_self (hread id hid)]
  exact hequal row hrow id hid

variable {db : Mysql ρ κ} {ids : List String} (htold : Told db ids)
include htold

/-- A list finds the rows whose id it has. -/
theorem any_finds {list : List String} (hsub : list ⊆ ids) {row : ρ}
    (hrow : row ∈ db.table) :
    list.any (db.finds row) = decide (db.idOf row ∈ list) := by
  rw [Bool.eq_iff_iff, List.any_eq_true, decide_eq_true_iff]
  constructor
  · intro h
    obtain ⟨id, hid, hfinds⟩ := h
    rw [htold row hrow id (hsub hid), decide_eq_true_iff] at hfinds
    rwa [hfinds]
  · intro hid
    refine ⟨_, hid, ?_⟩
    rw [htold row hrow _ (hsub hid)]
    exact decide_eq_true rfl

/-- The rows a statement finds, where the collation tells the ids apart. -/
theorem mem_select_told {list : List String} (hsub : list ⊆ ids) {row : ρ} :
    row ∈ db.select list ↔ row ∈ db.table ∧ db.idOf row ∈ list := by
  rw [mem_select]
  refine and_congr_right fun hrow => ?_
  rw [any_finds htold hsub hrow, decide_eq_true_iff]

/-- The rows of a group are those of its ids. -/
theorem mem_groupRows {group : List (Nat × Nat)}
    (hgroup : ∀ range ∈ group, range.1 ≤ range.2) {row : ρ} :
    row ∈ groupRows db ids group
      ↔ row ∈ db.table
        ∧ db.idOf row ∈ group.flatMap fun range =>
            slice ids range.1 range.2 := by
  have hrange : ∀ range ∈ group,
      (row ∈ rangeRows db ids range
        ↔ row ∈ db.table ∧ db.idOf row ∈ slice ids range.1 range.2) := by
    intro range hmem
    have hsub : ∀ list ∈ threadLists ids range.1 range.2, list ⊆ ids :=
      fun list hlist => threadLists_subset (hgroup range hmem) hlist
    rw [← threadLists_flatten ids (hgroup range hmem), rangeRows,
      List.mem_flatMap, List.mem_flatten]
    constructor
    · intro h
      obtain ⟨list, hlist, hrow⟩ := h
      rw [mem_select_told htold (hsub list hlist)] at hrow
      exact ⟨hrow.1, list, hlist, hrow.2⟩
    · intro h
      obtain ⟨htable, list, hlist, hid⟩ := h
      exact ⟨list, hlist,
        (mem_select_told htold (hsub list hlist)).mpr ⟨htable, hid⟩⟩
  rw [groupRows, List.mem_flatMap, List.mem_flatMap]
  constructor
  · intro h
    obtain ⟨range, hmem, hrow⟩ := h
    obtain ⟨htable, hid⟩ := (hrange range hmem).mp hrow
    exact ⟨htable, range, hmem, hid⟩
  · intro h
    obtain ⟨htable, range, hmem, hid⟩ := h
    exact ⟨range, hmem, (hrange range hmem).mpr ⟨htable, hid⟩⟩

/-- Where all ids are asked for the groups hold all their rows. -/
theorem noNull_iff {numThread : Nat} (hthread : 1 ≤ numThread)
    (hperm : ((allRanges ids.length numThread).flatMap
      fun range => slice ids range.1 range.2).Perm ids) :
    (∀ group ∈ groupRanges ids.length numThread,
        ∀ row ∈ groupRows db ids group, db.last row ≠ none)
      ↔ NoNull db ids := by
  have hle := @groupRanges_le ids.length _ hthread
  constructor
  · intro hnull row hrow hid
    rw [← hperm.mem_iff, allRanges, List.flatten_eq_flatMap,
      List.flatMap_assoc, List.mem_flatMap] at hid
    obtain ⟨group, hgroup, hid⟩ := hid
    exact hnull group hgroup row
      ((mem_groupRows htold (hle group hgroup)).mpr ⟨hrow, hid⟩)
  · intro hnull group hgroup row hrow
    obtain ⟨htable, hid⟩ := (mem_groupRows htold (hle group hgroup)).mp hrow
    apply hnull row htable
    rw [← hperm.mem_iff, allRanges, List.flatten_eq_flatMap,
      List.flatMap_assoc, List.mem_flatMap]
    exact ⟨group, hgroup, hid⟩

/-- The ids of the rows a list returns, with those of the table. -/
theorem count_select {list : List String} (hsub : list ⊆ ids) {id : String}
    (hid : id ∈ list) :
    ((db.select list).map db.idOf).count id
      = (db.table.map db.idOf).count id := by
  have hfilter : (db.table.filter fun row =>
        (list.map (asRead db.printable)).any (db.equal row)).map db.idOf
      = (db.table.map db.idOf).filter fun id => decide (id ∈ list) := by
    rw [List.filter_map]
    congr 1
    apply List.filter_congr
    intro row hrow
    rw [List.any_map]
    exact any_finds htold hsub hrow
  rw [Mysql.select, ((db.answer_perm _).map db.idOf).count_eq, hfilter]
  exact List.count_filter (by simpa using hid)

variable (honce : PresentOnce db ids)
include honce

omit htold in
/-- The row of an id. -/
theorem row_unique {a b : ρ} (ha : a ∈ db.table) (hb : b ∈ db.table)
    (hid : db.idOf a ∈ ids) (hab : db.idOf a = db.idOf b) : a = b := by
  obtain ⟨front, back, htable⟩ := List.append_of_mem ha
  have hcount := honce.once (db.idOf a) hid
  rw [htable, List.map_append, List.map_cons, List.count_append,
    List.count_cons_self] at hcount
  have hother : ∀ rows : List ρ, (rows.map db.idOf).count (db.idOf a) = 0 →
      b ∉ rows := by
    intro rows hzero hmem
    rw [List.count_eq_zero, hab] at hzero
    exact hzero (List.mem_map_of_mem hmem)
  rw [htable, List.mem_append, List.mem_cons] at hb
  obtain hfront | hsame | hback := hb
  · exact absurd hfront (hother front (by omega))
  · exact hsame.symm
  · exact absurd hback (hother back (by omega))

/-- What the database returns for ids of the table. -/
theorem select_perm_ids {list : List String} (hnodup : list.Nodup)
    (hsub : list ⊆ ids) :
    ((db.select list).map db.idOf).Perm list := by
  rw [List.perm_iff_count]
  intro id
  by_cases hid : id ∈ list
  · rw [count_select htold hsub hid, honce.once id (hsub hid),
      List.count_eq_one_of_mem hnodup hid]
  · rw [List.count_eq_zero_of_not_mem hid, List.count_eq_zero]
    intro hmem
    obtain ⟨row, hrow, rfl⟩ := List.mem_map.mp hmem
    exact hid ((mem_select_told htold hsub).mp hrow).2

/-- The rows of a thread are one for each id of its range. -/
theorem rangeRows_perm {range : Nat × Nat} (hrange : range.1 ≤ range.2) :
    ((rangeRows db ids range).map db.idOf).Perm
      (slice ids range.1 range.2) := by
  have hslice : (slice ids range.1 range.2).Sublist ids :=
    (List.take_sublist _ _).trans (List.drop_sublist _ _)
  have hlists : ∀ list ∈ threadLists ids range.1 range.2,
      ((db.select list).map db.idOf).Perm list := by
    intro list hlist
    have hsub : list.Sublist ids := by
      rw [← threadLists_flatten ids hrange] at hslice
      exact (List.sublist_flatten_of_mem hlist).trans hslice
    exact select_perm_ids htold honce (honce.nodup.sublist hsub) hsub.subset
  rw [rangeRows, List.map_flatMap, ← threadLists_flatten ids hrange]
  have hperm := List.Perm.flatMap_left _ hlists
  rwa [List.flatMap_id'] at hperm

/-- The rows of a group are one for each id of its ranges. -/
theorem groupRows_perm {group : List (Nat × Nat)}
    (hgroup : ∀ range ∈ group, range.1 ≤ range.2) :
    ((groupRows db ids group).map db.idOf).Perm
      (group.flatMap fun range => slice ids range.1 range.2) := by
  rw [groupRows, List.map_flatMap]
  apply List.Perm.flatMap_left
  intro range hrange
  exact rangeRows_perm htold honce (hgroup range hrange)

/-- A group has several rows, unless one id is left over. -/
theorem two_le_groupRows {numThread : Nat} (hthread : 1 ≤ numThread)
    (hone : ids.length % 1000 ≠ 1) {group : List (Nat × Nat)}
    (hgroup : group ∈ groupRanges ids.length numThread) :
    2 ≤ (groupRows db ids group).length := by
  obtain ⟨range, hrange⟩ := List.exists_mem_of_ne_nil group
    (groupRanges_ne_nil hthread hgroup)
  obtain ⟨hle, hn, hwidth⟩ := mem_groupRanges hthread hgroup hrange
  have hlength := (rangeRows_perm htold honce hle).length_eq
  rw [List.length_map, length_slice hn] at hlength
  have hrow : (rangeRows db ids range).length
      ≤ (groupRows db ids group).length := by
    rw [groupRows, List.flatMap_def]
    exact (List.sublist_flatten_of_mem
      (List.mem_map_of_mem hrange)).length_le
  have hrest := rest_mod ids.length
  have hbatch := batchSizeFor_mod ids.length
  have hpos := batchSizeFor_pos ids.length
  have htwo : 2 ≤ range.2 - range.1 := by
    obtain hwidth | ⟨hzero, hwidth⟩ := hwidth
    · omega
    · omega
  omega

end Rows

-- ================================================================ the rounds

section Rounds

variable (db : Mysql ρ κ) {ids : List String}

/-- An accepted statement returns the rows its literals find. -/
theorem execute_of_accepted {list : List String}
    (h : (db.statement list).Accepted) :
    db.execute (db.statement list) = .ok (db.select list) := by
  have htwo := (statement_accepted_iff db list).mp h
  unfold Mysql.execute Mysql.statement
  rw [readInList_pyTuple, if_pos htwo]
  rfl

/-- MySQL has run no statement that it does not accept. -/
theorem accepted_of_execute {db : Mysql ρ κ} {stmt : Statement}
    {rows : List ρ} (h : db.execute stmt = .ok rows) : stmt.Accepted := by
  unfold Mysql.execute at h
  split at h
  · next hread =>
    rw [Statement.Accepted, hread]
    rfl
  · cases h

/-- A thread whose statements are accepted returns the rows of its range. -/
theorem mysqlThreadQuery_eq {start stop : Nat}
    (h : ∀ list ∈ threadLists ids start stop,
      (db.statement list).Accepted) :
    mysqlThreadQuery db ids start stop
      = .ok (rangeRows db ids (start, stop)) := by
  have hlists : (threadLists ids start stop).mapM
        (fun list => db.execute (db.statement list))
      = .ok ((threadLists ids start stop).map db.select) := by
    apply mapM_ok
    intro list hlist
    exact execute_of_accepted db (h list hlist)
  rw [mysqlThreadQuery, hlists]
  rfl

/-- A thread of which a statement is not accepted fails. -/
theorem mysqlThreadQuery_error {start stop : Nat}
    (h : ¬ ∀ list ∈ threadLists ids start stop,
      (db.statement list).Accepted) :
    ∃ e, mysqlThreadQuery db ids start stop = .error e := by
  rw [mysqlThreadQuery]
  cases hlists : (threadLists ids start stop).mapM
      fun list => db.execute (db.statement list) with
  | error e => exact ⟨e, rfl⟩
  | ok rows =>
      refine absurd ?_ h
      intro list hlist
      obtain ⟨row, hrow⟩ := ok_of_mapM_ok hlists hlist
      exact accepted_of_execute hrow

variable [LinearOrder κ]

/-- A round inside the ids sorts the rows of its threads. -/
theorem mysqlRunQueryMultithread_eq {i threads : Nat}
    (hfits : i * threads + threads ≤ ids.length / batchSizeFor ids.length) :
    mysqlRunQueryMultithread db i (batchSizeFor ids.length) threads ids
      = (db.sortByLast (groupRows db ids
          (roundRanges i (batchSizeFor ids.length) threads))).map some := by
  have hthreads : (roundRanges i (batchSizeFor ids.length) threads).mapM
        (fun range => mysqlThreadQuery db ids range.1 range.2)
      = .ok ((roundRanges i (batchSizeFor ids.length) threads).map
          (rangeRows db ids)) := by
    apply mapM_ok
    intro range hrange
    obtain ⟨hle, hn, hwidth⟩ := mem_roundRanges hfits hrange
    apply mysqlThreadQuery_eq
    rw [range_accepted_iff db hle
      (Nat.le_trans hn (Nat.div_mul_le_self _ _)), hwidth, batchSizeFor_mod]
    decide
  rw [mysqlRunQueryMultithread, hthreads]
  rfl

/-- The rows of each of these groups, sorted. -/
def sortGroups (ids : List String) (groups : List (List (Nat × Nat))) :
    Except AlignError (List (List ρ)) :=
  groups.mapM fun group => db.sortByLast (groupRows db ids group)

/-- The full rounds ask for their groups one after the other. -/
theorem fullRounds_eq {numThread : Nat} :
    fullRounds db (batchSizeFor ids.length) numThread
        (ids.length / batchSizeFor ids.length / numThread) ids
      = sortGroups db ids
          ((List.range (ids.length / batchSizeFor ids.length
              / numThread)).map
            fun i => roundRanges i (batchSizeFor ids.length) numThread) := by
  rw [fullRounds, sortGroups, List.mapM_map]
  apply mapM_congr
  intro i hi
  rw [mysqlRunQueryMultithread_eq db (full_fits (List.mem_range.mp hi)),
    Function.comp_apply]
  cases db.sortByLast _ <;> rfl

/-- The last round asks for the batches that are left. -/
theorem lastRound_eq {numThread : Nat} (hthread : 1 ≤ numThread) :
    lastRound db (batchSizeFor ids.length)
        (ids.length / batchSizeFor ids.length / numThread)
        (ids.length / batchSizeFor ids.length % numThread) ids
      = (sortGroups db ids
          (if ids.length / batchSizeFor ids.length % numThread ≠ 0 then
            [roundRanges (ids.length / batchSizeFor ids.length / numThread)
              (batchSizeFor ids.length)
              (ids.length / batchSizeFor ids.length % numThread)]
          else [])).map List.flatten := by
  unfold lastRound
  split
  · rw [mysqlRunQueryMultithread_eq db (last_fits hthread), sortGroups,
      List.mapM_cons, List.mapM_nil]
    cases db.sortByLast _ with
    | error e => rfl
    | ok rows =>
        show Except.ok rows = Except.ok (rows ++ [])
        rw [List.append_nil]
  · rfl

/-- The check at the end of the function. -/
def checkCount (numIntersect : Nat) (rows : List ρ) :
    Except AlignError (List ρ) :=
  if rows.length ≠ numIntersect then
    .error (.rowCount numIntersect rows.length)
  else .ok rows

/-- The rounds sort group after group, then comes the rest. -/
theorem generate_rounds {numThread : Nat} (hthread : 1 ≤ numThread)
    (hids : ids ≠ []) :
    generateFromMysql db numThread ids = (do
      let groups ← sortGroups db ids (roundGroups ids.length numThread)
      let rest ← reminderQuery db (batchSizeFor ids.length)
        (ids.length / batchSizeFor ids.length)
        (ids.length % batchSizeFor ids.length) ids
      checkCount ids.length (groups.flatten ++ rest)) := by
  have hlength : ids.length ≠ 0 := fun h =>
    hids (List.length_eq_zero_iff.mp h)
  have hsplit : sortGroups db ids (roundGroups ids.length numThread) = (do
      let full ← fullRounds db (batchSizeFor ids.length) numThread
        (ids.length / batchSizeFor ids.length / numThread) ids
      let last ← sortGroups db ids
        (if ids.length / batchSizeFor ids.length % numThread ≠ 0 then
          [roundRanges (ids.length / batchSizeFor ids.length / numThread)
            (batchSizeFor ids.length)
            (ids.length / batchSizeFor ids.length % numThread)]
        else [])
      pure (full ++ last)) := by
    rw [fullRounds_eq, sortGroups, sortGroups, sortGroups, roundGroups]
    exact List.mapM_append
  rw [hsplit]
  unfold generateFromMysql
  simp only [if_neg hlength, lastRound_eq db hthread]
  cases fullRounds db _ _ _ ids with
  | error e => rfl
  | ok full =>
      cases sortGroups db ids _ with
      | error e => rfl
      | ok last =>
          cases reminderQuery db _ _ _ ids with
          | error e => rfl
          | ok rest =>
              show (if _ then _ else _)
                = checkCount _ ((full ++ last).flatten ++ rest)
              rw [List.flatten_append, checkCount]
              rfl

/-- With accepted statements the function sorts group after group. -/
theorem generate_eq {numThread : Nat} (hthread : 1 ≤ numThread)
    (hids : ids ≠ []) (hone : ids.length % 1000 ≠ 1) :
    generateFromMysql db numThread ids = (do
      let groups ← sortGroups db ids (groupRanges ids.length numThread)
      checkCount ids.length groups.flatten) := by
  have hrest : reminderQuery db (batchSizeFor ids.length)
        (ids.length / batchSizeFor ids.length)
        (ids.length % batchSizeFor ids.length) ids
      = (sortGroups db ids (restGroups ids.length)).map List.flatten := by
    unfold reminderQuery restGroups
    dsimp only
    split
    · have haccepted := (rest_accepted_iff db ids).mpr hone
      rw [mysqlThreadQuery_eq db haccepted, sortGroups, List.mapM_cons,
        List.mapM_nil, groupRows, List.flatMap_singleton]
      show db.sortByLast (rangeRows db ids _) = _
      cases db.sortByLast (rangeRows db ids _) with
      | error e => rfl
      | ok rows =>
          show Except.ok rows = Except.ok (rows ++ [])
          rw [List.append_nil]
    · rfl
  have hsplit : sortGroups db ids (groupRanges ids.length numThread) = (do
      let groups ← sortGroups db ids (roundGroups ids.length numThread)
      let rest ← sortGroups db ids (restGroups ids.length)
      pure (groups ++ rest)) := List.mapM_append
  rw [generate_rounds db hthread hids, hrest, hsplit]
  cases sortGroups db ids (roundGroups ids.length numThread) with
  | error e => rfl
  | ok groups =>
      cases sortGroups db ids (restGroups ids.length) with
      | error e => rfl
      | ok rest =>
          show checkCount _ _ = checkCount _ (groups ++ rest).flatten
          rw [List.flatten_append]

/-- Where one id is left over after the thousands the last group is
lost. -/
theorem generate_lost {numThread : Nat} (hthread : 1 ≤ numThread)
    (hone : ids.length % 1000 = 1) :
    generateFromMysql db numThread ids = (do
      let groups ← sortGroups db ids (roundGroups ids.length numThread)
      checkCount ids.length groups.flatten) := by
  have hids : ids ≠ [] := by
    intro h
    rw [h] at hone
    cases hone
  have hrest : reminderQuery db (batchSizeFor ids.length)
        (ids.length / batchSizeFor ids.length)
        (ids.length % batchSizeFor ids.length) ids = .ok [] := by
    unfold reminderQuery
    dsimp only
    split
    · have hreject := mt (rest_accepted_iff db ids).mp (not_not.mpr hone)
      obtain ⟨e, he⟩ := mysqlThreadQuery_error db hreject
      rw [he]
    · rfl
  rw [generate_rounds db hthread hids, hrest]
  cases sortGroups db ids (roundGroups ids.length numThread) with
  | error e => rfl
  | ok groups =>
      show checkCount _ (groups.flatten ++ []) = checkCount _ groups.flatten
      rw [List.append_nil]

end Rounds

-- =================================================================== sorting

section Sorting

variable [LinearOrder κ] {db : Mysql ρ κ}

/-- Several rows are sorted where none has a NULL. -/
theorem sortByLast_eq_ok_iff {rows out : List ρ} :
    db.sortByLast rows = .ok out
      ↔ (rows.length ≤ 1 ∨ ∀ row ∈ rows, db.last row ≠ none)
        ∧ out = rows.mergeSort db.lastLe := by
  unfold Mysql.sortByLast
  split
  · next hshort =>
    have hsame : rows.mergeSort db.lastLe = rows := by
      match rows, hshort with
      | [], _ => exact List.mergeSort_nil
      | [row], _ => exact List.mergeSort_singleton row
    rw [hsame, Except.ok.injEq, eq_comm]
    exact (and_iff_right (Or.inl hshort)).symm
  · next hlong =>
    split
    · next hnull =>
      obtain ⟨row, hrow, hnone⟩ := List.any_eq_true.mp hnull
      rw [Option.isNone_iff_eq_none] at hnone
      constructor
      · intro h
        cases h
      · intro h
        obtain ⟨hshort | hall, -⟩ := h
        · exact absurd hshort hlong
        · exact absurd hnone (hall row hrow)
    · next hsome =>
      have hall : ∀ row ∈ rows, db.last row ≠ none := by
        intro row hrow hnone
        apply hsome
        exact List.any_eq_true.mpr
          ⟨row, hrow, Option.isNone_iff_eq_none.mpr hnone⟩
      rw [Except.ok.injEq, eq_comm]
      exact (and_iff_right (Or.inr hall)).symm

/-- The check passes where as many rows were found as ids are asked for. -/
theorem checkCount_eq_ok_iff {n : Nat} {rows out : List ρ} :
    checkCount n rows = .ok out ↔ rows.length = n ∧ out = rows := by
  unfold checkCount
  split
  · next h =>
    constructor
    · intro hok
      cases hok
    · intro hok
      exact absurd hok.1 h
  · next h =>
    rw [not_not] at h
    rw [Except.ok.injEq, and_iff_right h, eq_comm]

variable {ids : List String} {numThread : Nat}

/-- The function returns the rows of the groups if they are as many as the
ids. -/
theorem groups_eq_ok_iff {n : Nat} {groups : List (List (Nat × Nat))}
    {out : List ρ} :
    (do
      let rows ← sortGroups db ids groups
      checkCount n rows.flatten) = .ok out
      ↔ ∃ rows, sortGroups db ids groups = .ok rows
        ∧ rows.flatten.length = n ∧ out = rows.flatten := by
  cases sortGroups db ids groups with
  | error e =>
      constructor
      · intro h
        cases h
      · intro h
        obtain ⟨_, h, -⟩ := h
        cases h
  | ok rows =>
      constructor
      · intro h
        exact ⟨rows, rfl, checkCount_eq_ok_iff.mp h⟩
      · intro h
        obtain ⟨_, hrows, h⟩ := h
        cases hrows
        exact checkCount_eq_ok_iff.mpr h

/-- The groups can be sorted where no several rows have a NULL. -/
theorem sortGroups_eq_ok_iff {groups : List (List (Nat × Nat))}
    {out : List (List ρ)} :
    sortGroups db ids groups = .ok out
      ↔ Sortable db ids groups
        ∧ out = groups.map fun group =>
            (groupRows db ids group).mergeSort db.lastLe :=
  mapM_eq_ok_iff_of_check fun _ _ _ => sortByLast_eq_ok_iff

omit [LinearOrder κ] in
/-- They can where no row of the ids has one, and only there if all ids are
asked for in lists of several. -/
theorem sortable_iff_noNull (htold : Told db ids)
    (honce : PresentOnce db ids) (hthread : 1 ≤ numThread)
    (hone : ids.length % 1000 ≠ 1)
    (hperm : ((allRanges ids.length numThread).flatMap
      fun range => slice ids range.1 range.2).Perm ids) :
    Sortable db ids (groupRanges ids.length numThread)
      ↔ NoNull db ids := by
  rw [← noNull_iff htold hthread hperm]
  refine forall_congr' fun group => forall_congr' fun hgroup => ?_
  have htwo := two_le_groupRows htold honce hthread hone hgroup
  exact or_iff_right (by omega)

omit [LinearOrder κ] in
/-- How often the statements for these lists return a row of an id. -/
theorem count_lists (db : Mysql ρ κ) (lists : List (List String))
    (id : String) :
    ((lists.flatMap db.select).map db.idOf).count id
      = (lists.map fun list => db.table.countP fun row =>
          db.idOf row = id && list.any (db.finds row)).sum := by
  rw [List.map_flatMap, List.count_flatMap]
  congr 1
  apply List.map_congr_left
  intro list _
  rw [Function.comp_apply, Mysql.select,
    ((db.answer_perm _).map db.idOf).count_eq, List.count_eq_countP,
    List.countP_map, List.countP_filter]
  apply List.countP_congr
  intro row _
  rw [List.any_map]
  rfl

/-- So often it is in the file. -/
theorem count_sorted (db : Mysql ρ κ) (ids : List String)
    (groups : List (List (Nat × Nat))) (id : String) :
    (((groups.map fun group =>
        (groupRows db ids group).mergeSort db.lastLe).flatten).map
          db.idOf).count id
      = ((groupLists ids groups).map fun list => db.table.countP fun row =>
          db.idOf row = id && list.any (db.finds row)).sum := by
  have hperm : ((groups.map fun group =>
      (groupRows db ids group).mergeSort db.lastLe).flatten).Perm
        ((groupLists ids groups).flatMap db.select) := by
    rw [← List.flatMap_def, groupLists, List.flatten_eq_flatMap,
      List.flatMap_assoc, List.flatMap_assoc]
    apply List.Perm.flatMap_left
    intro group _
    exact List.mergeSort_perm _ _
  rw [(hperm.map db.idOf).count_eq, count_lists]

/-- The rows of the sorted groups are those of the ids where the statements
find as many of each. -/
theorem found_iff {groups : List (List (Nat × Nat))} :
    (((groups.map fun group =>
        (groupRows db ids group).mergeSort db.lastLe).flatten).map
          db.idOf).Perm ids ↔ Found db ids (groupLists ids groups) := by
  rw [List.perm_iff_count]
  refine forall_congr' fun id => ?_
  rw [count_sorted]

/-- The ids of the sorted groups are those of the groups. -/
theorem sorted_perm (htold : Told db ids) (honce : PresentOnce db ids)
    {groups : List (List (Nat × Nat))}
    (hgroups : ∀ group ∈ groups, ∀ range ∈ group, range.1 ≤ range.2) :
    (((groups.map fun group =>
        (groupRows db ids group).mergeSort db.lastLe).flatten).map
          db.idOf).Perm
      (groups.flatten.flatMap fun range => slice ids range.1 range.2) := by
  rw [← List.flatMap_def, List.map_flatMap, List.flatten_eq_flatMap,
    List.flatMap_assoc]
  apply List.Perm.flatMap_left
  intro group hgroup
  exact ((List.mergeSort_perm _ _).map _).trans
    (groupRows_perm htold honce (hgroups group hgroup))

/-- The statements find a row for each id of the table where its literal
does. -/
theorem found_of_told (htold : Told db ids) (honce : PresentOnce db ids)
    (hthread : 1 ≤ numThread) (hfit : RoundsFit ids.length numThread) :
    Found db ids (groupLists ids (groupRanges ids.length numThread)) := by
  rw [← found_iff]
  exact (sorted_perm htold honce (groupRanges_le hthread)).trans
    (flatMap_slice_perm ((ranges_perm_iff hthread).mpr hfit))

end Sorting

-- ================================================================== ids asked

section Asked

variable [LinearOrder κ] {numThread : Nat} {ids : List String}

/-- The MySQL alignment asks for every id once where the rounds fit, no
single id is left over after the thousands, and the rows that the statements
find for ids of the table are one for each and can be sorted. -/
theorem asksOnce_iff (db : Mysql ρ κ) (hthread : 1 ≤ numThread)
    (hids : ids ≠ []) :
    AsksOnce db numThread ids
      ↔ RoundsFit ids.length numThread ∧ ids.length % 1000 ≠ 1
        ∧ (PresentOnce db ids →
            Sortable db ids (groupRanges ids.length numThread)
              ∧ Found db ids
                (groupLists ids (groupRanges ids.length numThread))) := by
  constructor
  · intro hasks
    have hfit := (ranges_perm_iff hthread).mp hasks.ranges
    have hone := (statements_accepted_iff db hthread ids).mp hasks.statements
    refine ⟨hfit, hone, ?_⟩
    intro honce
    obtain ⟨out, hout, hperm⟩ := hasks.rows honce
    rw [generate_eq db hthread hids hone, groups_eq_ok_iff] at hout
    obtain ⟨groups, hgroups, -, rfl⟩ := hout
    obtain ⟨hsortable, rfl⟩ := sortGroups_eq_ok_iff.mp hgroups
    exact ⟨hsortable, found_iff.mp hperm⟩
  · intro hcond
    obtain ⟨hfit, hone, hrows⟩ := hcond
    refine ⟨(ranges_perm_iff hthread).mpr hfit,
      (statements_accepted_iff db hthread ids).mpr hone, ?_⟩
    intro honce
    obtain ⟨hsortable, hfound⟩ := hrows honce
    have hperm := found_iff.mpr hfound
    have hlength := hperm.length_eq
    rw [List.length_map] at hlength
    refine ⟨_, ?_, hperm⟩
    rw [generate_eq db hthread hids hone, groups_eq_ok_iff]
    exact ⟨_, sortGroups_eq_ok_iff.mpr ⟨hsortable, rfl⟩, hlength, rfl⟩

end Asked

-- ==================================================================== people

/-- A table of ids and ages that is returned in its own order, and whose ids
are compared by their characters. -/
def ages (table : List (String × Option Nat)) :
    Mysql (String × Option Nat) Nat where
  columns := ["id", "age"]
  tableName := "people"
  indexColumn := "id"
  table := table
  idOf := Prod.fst
  last := Prod.snd
  printable _ := false
  equal row literal := row.1 = literal
  answer literals :=
    table.filter fun row => literals.any fun literal => row.1 = literal
  answer_perm _ := List.Perm.refl _

/-- The first numbers, as ids. -/
def numerals (n : Nat) : List String := (List.range n).map toString

/-- The numbers with ages that grow. -/
def people (n : Nat) : List (String × Option Nat) :=
  (List.range n).map fun i => (toString i, some i)

/-- The characters of a number. -/
theorem toList_toString (i : Nat) : (toString i).toList = Nat.toDigits 10 i :=
  String.toList_ofList

/-- Different numbers are written differently. -/
theorem toString_inj {i j : Nat} (h : toString i = toString j) : i = j := by
  have hdigits := congrArg String.toList h
  rw [toList_toString, toList_toString] at hdigits
  rw [← decimal_toDigits i, hdigits, decimal_toDigits]

/-- As many numerals as numbers. -/
theorem length_numerals (n : Nat) : (numerals n).length = n := by
  rw [numerals, List.length_map, List.length_range]

/-- No numeral twice. -/
theorem numerals_nodup (n : Nat) : (numerals n).Nodup :=
  List.Nodup.map (fun _ _ => toString_inj) List.nodup_range

/-- The ids of the sample table. -/
theorem people_ids (n : Nat) : (people n).map Prod.fst = numerals n := by
  rw [people, List.map_map]
  rfl

/-- Digits are printable. -/
theorem told_numerals (table : List (String × Option Nat)) (n : Nat) :
    Told (ages table) (numerals n) := by
  apply told_of_equal
  · intro id hid c hc
    obtain ⟨i, -, rfl⟩ := List.mem_map.mp hid
    rw [toList_toString] at hc
    have hdigit := Nat.isDigit_of_mem_toDigits (by decide) (by decide) hc
    rw [Char.isDigit_iff_toNat] at hdigit
    apply not_numbered_ascii
    exact ⟨Nat.le_trans (by decide) hdigit.1,
      Nat.lt_of_le_of_lt hdigit.2 (by decide)⟩
  · intro row _ id _
    rfl

/-- Every id stands in one row of it. -/
theorem presentOnce_people (n : Nat) :
    PresentOnce (ages (people n)) (numerals n) := by
  refine ⟨numerals_nodup n, fun id hid => ?_⟩
  show ((people n).map Prod.fst).count id = 1
  rw [people_ids]
  exact List.count_eq_one_of_mem (numerals_nodup n) hid

/-- No row of it has a NULL in the last column. -/
theorem noNull_people (n : Nat) (ids : List String) :
    NoNull (ages (people n)) ids := by
  intro row hrow _
  obtain ⟨i, -, rfl⟩ := List.mem_map.mp hrow
  exact Option.some_ne_none i

/-- A full round and two ids that are left. -/
theorem numerals_fit : RoundsFit (numerals 1002).length 1
    ∧ (numerals 1002).length % 1000 ≠ 1 := by
  rw [length_numerals]
  decide

/-- So its groups can be sorted. -/
theorem sortable_people {n : Nat}
    (h : RoundsFit (numerals n).length 1 ∧ (numerals n).length % 1000 ≠ 1) :
    Sortable (ages (people n)) (numerals n)
      (groupRanges (numerals n).length 1) :=
  (sortable_iff_noNull (told_numerals _ n) (presentOnce_people n)
    (by decide) h.2 (flatMap_slice_perm
      ((ranges_perm_iff (by decide)).mpr h.1))).mpr (noNull_people n _)

/-- A sample of 1002 ids with one thread, so that there is a full round. -/
theorem asksOnce_ages :
    AsksOnce (ages (people 1002)) 1 (numerals 1002) :=
  (asksOnce_iff (ages (people 1002)) (by decide) (by
    rw [← List.length_pos_iff, length_numerals]
    decide)).mpr
    ⟨numerals_fit.1, numerals_fit.2, fun honce =>
      ⟨sortable_people numerals_fit,
        found_of_told (told_numerals _ 1002) honce (by decide)
          numerals_fit.1⟩⟩

/-- Three batches for two threads: the third is asked for from the index
where the second begins. A single id is asked for in a statement that is not
SQL. An id that ends in a no-break space is asked for as another. -/
theorem not_asksOnce_ages :
    ¬ AsksOnce (ages []) 2 (numerals 3000)
      ∧ ¬ AsksOnce (ages [("a", some 30)]) 1 ["a"]
      ∧ ¬ AsksOnce (ages [("7\u00a0", some 30), ("8", some 20)]) 1
          ["7\u00a0", "8"] := by
  refine ⟨?_, ?_, ?_⟩
  · intro hasks
    have hfit := (ranges_perm_iff (by decide)).mp hasks.ranges
    rw [length_numerals] at hfit
    revert hfit
    decide
  · intro hasks
    have hone := (statements_accepted_iff _ (by decide) _).mp
      hasks.statements
    exact hone rfl
  · intro hasks
    obtain ⟨out, hout, -⟩ := hasks.rows ⟨by decide, by decide⟩
    have hcount : generateFromMysql
        (ages [("7\u00a0", some 30), ("8", some 20)]) 1 ["7\u00a0", "8"]
          = .error (.rowCount 2 1) := by
      decide
    rw [hcount] at hout
    cases hout

end PrimiHub.Align
