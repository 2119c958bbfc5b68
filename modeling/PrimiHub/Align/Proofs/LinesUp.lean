/-
When the lines of a CSV alignment and of a MySQL alignment are those of one
list of ids.

The CSV alignment keeps to the list. The MySQL alignment sorts the rows of
a round by their last column, so its lines are in the order of the ids where
the rows are in that order already (`group_inIdOrder_iff`). An output of one
line for each id, on the other hand, leaves no room for a range that is
asked for twice, an id that is twice in the table or a group that is lost
(`mysql_lines_iff`). All this is for a database that tells the ids apart;
where it does not, the literal of one id may find the row of another.
-/
import PrimiHub.Align.Proofs.Csv
import PrimiHub.Align.Proofs.Mysql
import PrimiHub.Lib.Sorting

namespace PrimiHub.Align

open Lib

variable {ρ κ : Type} [LinearOrder κ] {db : Mysql ρ κ} {ids : List String}
  {numThread : Nat}

-- ============================================================== the last column

theorem lastLe_trans (db : Mysql ρ κ) (a b c : ρ) (hab : db.lastLe a b)
    (hbc : db.lastLe b c) : db.lastLe a c := by
  unfold Mysql.lastLe at *
  cases ha : db.last a with
  | none => rfl
  | some x =>
      cases hb : db.last b with
      | none =>
          rw [ha, hb] at hab
          cases hab
      | some y =>
          cases hc : db.last c with
          | none =>
              rw [hb, hc] at hbc
              cases hbc
          | some z =>
              rw [ha, hb] at hab
              rw [hb, hc] at hbc
              exact decide_eq_true
                (le_trans (of_decide_eq_true hab) (of_decide_eq_true hbc))

theorem lastLe_total (db : Mysql ρ κ) (a b : ρ) :
    db.lastLe a b || db.lastLe b a := by
  unfold Mysql.lastLe
  cases db.last a with
  | none => rfl
  | some x =>
      cases db.last b with
      | none => rfl
      | some y =>
          rw [Bool.or_eq_true, decide_eq_true_iff, decide_eq_true_iff]
          exact le_total x y

/-- The rows of the ids are in the order of a group. -/
def RowsBefore (db : Mysql ρ κ) (ids : List String)
    (group : List (Nat × Nat)) (x y : String) : Prop :=
  ∃ a ∈ db.table, ∃ b ∈ db.table, db.idOf a = x ∧ db.idOf b = y
    ∧ Before db.lastLe (groupRows db ids group) a b

/-- A group is in the order of its ids where its rows are. -/
theorem group_inIdOrder_iff (htold : Told db ids)
    (honce : PresentOnce db ids)
    {group : List (Nat × Nat)}
    (hgroup : ∀ range ∈ group, range.1 ≤ range.2)
    (hsub : (groupIds ids group).Sublist ids) :
    ((groupRows db ids group).mergeSort db.lastLe).map db.idOf
        = groupIds ids group
      ↔ InIdOrder db ids group := by
  have hperm : ((groupRows db ids group).map db.idOf).Perm
      (groupIds ids group) := groupRows_perm htold honce hgroup
  have hnodup : (groupIds ids group).Nodup := honce.nodup.sublist hsub
  have hrows : (groupRows db ids group).Nodup :=
    List.Nodup.of_map _ (hperm.nodup_iff.mpr hnodup)
  have htable : ∀ row ∈ groupRows db ids group, row ∈ db.table :=
    fun row hrow => ((mem_groupRows htold hgroup).mp hrow).1
  have hbefore := mergeSort_pairwise_before (lastLe_trans db)
    (lastLe_total db) hrows
  constructor
  · intro hsorted a ha b hb hab
    have hids : ∀ id ∈ [db.idOf a, db.idOf b], id ∈ ids :=
      fun id hid => hsub.subset (hab.subset hid)
    rw [← hsorted] at hab
    obtain ⟨a', b', hpair, ha', hb'⟩ := pair_sublist_map hab
    have hmem : ∀ row ∈ [a', b'], row ∈ db.table := fun row hrow =>
      htable row ((List.mergeSort_perm _ _).mem_iff.mp (hpair.subset hrow))
    have hrowA : a = a' := row_unique honce ha
      (hmem a' List.mem_cons_self) (hids _ List.mem_cons_self) ha'.symm
    have hrowB : b = b' := row_unique honce hb
      (hmem b' (List.mem_cons_of_mem _ List.mem_cons_self))
      (hids _ (List.mem_cons_of_mem _ List.mem_cons_self)) hb'.symm
    rw [hrowA, hrowB]
    exact List.pairwise_iff_forall_sublist.mp hbefore hpair
  · intro horder
    -- both are in the order their rows have to be in
    have hsorted : (((groupRows db ids group).mergeSort db.lastLe).map
        db.idOf).Pairwise (RowsBefore db ids group) := by
      rw [List.pairwise_map, List.pairwise_iff_forall_sublist]
      intro a b hab
      have hmem : ∀ row ∈ [a, b], row ∈ db.table := fun row hrow =>
        htable row ((List.mergeSort_perm _ _).mem_iff.mp (hab.subset hrow))
      exact ⟨a, hmem a List.mem_cons_self, b,
        hmem b (List.mem_cons_of_mem _ List.mem_cons_self), rfl, rfl,
        List.pairwise_iff_forall_sublist.mp hbefore hab⟩
    have hids : (groupIds ids group).Pairwise (RowsBefore db ids group) := by
      rw [List.pairwise_iff_forall_sublist]
      intro x y hxy
      have hrow : ∀ id ∈ [x, y], ∃ row ∈ db.table, db.idOf row = id := by
        intro id hid
        obtain ⟨row, hrow, hrowId⟩ := List.mem_map.mp
          (hperm.mem_iff.mpr (hxy.subset hid))
        exact ⟨row, htable row hrow, hrowId⟩
      obtain ⟨a, ha, hax⟩ := hrow x List.mem_cons_self
      obtain ⟨b, hb, hby⟩ := hrow y
        (List.mem_cons_of_mem _ List.mem_cons_self)
      refine ⟨a, ha, b, hb, hax, hby, ?_⟩
      apply horder a ha b hb
      rwa [hax, hby]
    refine List.Perm.eq_of_pairwise ?_ hsorted hids
      (((List.mergeSort_perm _ _).map _).trans hperm)
    intro x y hx hy hxy hyx
    obtain ⟨a, ha, b, hb, hax, hby, hab⟩ := hxy
    obtain ⟨b', hb', a', ha', hby', hax', hba⟩ := hyx
    have hxids : x ∈ ids := by
      apply hsub.subset
      rw [← hperm.mem_iff]
      exact ((List.mergeSort_perm _ _).map _).mem_iff.mp hx
    have hyids : y ∈ ids := hsub.subset hy
    have hsameA : a' = a := row_unique honce ha' ha (by rwa [hax'])
      (hax'.trans hax.symm)
    have hsameB : b' = b := row_unique honce hb' hb (by rwa [hby'])
      (hby'.trans hby.symm)
    rw [hsameA, hsameB] at hba
    exact absurd (hba.2 hab.1) (not_sublist_swap hrows (hab.2 hba.1))

-- ================================================================ the lines

/-- Where a line is written for each id no id is in the table twice. -/
theorem presentOnce_of_lines (htold : Told db ids) (hnodup : ids.Nodup)
    (hpresent : ∀ id ∈ ids, ∃ row ∈ db.table, db.idOf row = id)
    {groups : List (List (Nat × Nat))}
    (hgroups : ∀ group ∈ groups, ∀ range ∈ group, range.1 ≤ range.2)
    (hlines : ((groups.map fun group =>
      (groupRows db ids group).mergeSort db.lastLe).flatten).map db.idOf
        = ids) : PresentOnce db ids := by
  refine ⟨hnodup, ?_⟩
  intro id hid
  have hpos : 0 < (db.table.map db.idOf).count id := by
    obtain ⟨row, hrow, hrowId⟩ := hpresent id hid
    rw [← hrowId]
    exact List.count_pos_iff.mpr (List.mem_map_of_mem hrow)
  -- a list that asks for the id
  have hline := hid
  rw [← hlines] at hline
  obtain ⟨row, hrow, hrowId⟩ := List.mem_map.mp hline
  obtain ⟨sorted, hsorted, hrow⟩ := List.mem_flatten.mp hrow
  obtain ⟨group, hgroup, rfl⟩ := List.mem_map.mp hsorted
  obtain ⟨range, hrange, hrow⟩ :=
    List.mem_flatMap.mp ((List.mergeSort_perm _ _).mem_iff.mp hrow)
  obtain ⟨list, hlist, hrow⟩ := List.mem_flatMap.mp hrow
  have hsub := threadLists_subset (hgroups group hgroup range hrange) hlist
  have hasked : id ∈ list := by
    rw [← hrowId]
    exact ((mem_select_told htold hsub).mp hrow).2
  -- its rows are among those written
  have hgroupRows : (db.select list).Sublist (groupRows db ids group) :=
    (List.sublist_flatten_of_mem (List.mem_map_of_mem hlist)).trans
      (List.sublist_flatten_of_mem (List.mem_map_of_mem hrange))
  have hcount := (hgroupRows.map db.idOf).count_le id
  rw [count_select htold hsub hasked, ← ((List.mergeSort_perm
    (groupRows db ids group) db.lastLe).map db.idOf).count_eq] at hcount
  have hwritten := ((List.sublist_flatten_of_mem hsorted).map
    db.idOf).count_le id
  rw [hlines, List.count_eq_one_of_mem hnodup hid] at hwritten
  omega

/-- The groups are the list of ids, in order, where the rounds fit. -/
theorem groupIds_flatten (hfit : RoundsFit ids.length numThread) :
    ((groupRanges ids.length numThread).map (groupIds ids)).flatten
      = ids := by
  have hall := flatMap_slice_eq ids (allRanges ids.length numThread)
  rw [indices_of_roundsFit hfit, filterMap_range, allRanges,
    List.flatten_eq_flatMap, List.flatMap_assoc] at hall
  exact hall

/-- The ids of the groups stand in the list of ids in order. -/
theorem groupIds_sublist (hfit : RoundsFit ids.length numThread)
    {group : List (Nat × Nat)}
    (hgroup : group ∈ groupRanges ids.length numThread) :
    (groupIds ids group).Sublist ids := by
  have hsub := List.sublist_flatten_of_mem
    (List.mem_map_of_mem (f := groupIds ids) hgroup)
  rwa [groupIds_flatten hfit] at hsub

/-- The lines are in the order of the ids where each group is. -/
theorem groups_inIdOrder_iff (hthread : 1 ≤ numThread)
    (htold : Told db ids) (honce : PresentOnce db ids)
    (hfit : RoundsFit ids.length numThread) :
    (((groupRanges ids.length numThread).map fun group =>
        (groupRows db ids group).mergeSort db.lastLe).flatten).map db.idOf
          = ids
      ↔ ∀ group ∈ groupRanges ids.length numThread,
        InIdOrder db ids group := by
  have hall := groupIds_flatten hfit
  have hle := @groupRanges_le ids.length _ hthread
  have hgroup : ∀ group ∈ groupRanges ids.length numThread,
      (((groupRows db ids group).mergeSort db.lastLe).map db.idOf
          = groupIds ids group ↔ InIdOrder db ids group) := by
    intro group hgroup
    exact group_inIdOrder_iff htold honce (hle group hgroup)
      (groupIds_sublist hfit hgroup)
  have hlength : ∀ group ∈ groupRanges ids.length numThread,
      (((groupRows db ids group).mergeSort db.lastLe).map db.idOf).length
        = (groupIds ids group).length := by
    intro group hgroup
    exact (((List.mergeSort_perm _ _).map _).trans
      (groupRows_perm htold honce (hle group hgroup))).length_eq
  rw [List.map_flatten, List.map_map]
  constructor
  · intro hlines group hmem
    rw [← hgroup group hmem]
    have heq := List.eq_iff_flatten_eq.mpr ⟨hlines.trans hall.symm, by
      rw [List.map_map, List.map_map]
      exact List.map_congr_left hlength⟩
    exact List.map_inj_left.mp heq group hmem
  · intro horder
    refine Eq.trans ?_ hall
    congr 1
    apply List.map_congr_left
    intro group hmem
    exact (hgroup group hmem).mpr (horder group hmem)

/-- Where a group is lost a line is missing. -/
theorem lost_lines (hthread : 1 ≤ numThread) (htold : Told db ids)
    (hone : ids.length % 1000 = 1) (hnodup : ids.Nodup) :
    (((roundGroups ids.length numThread).map fun group =>
      (groupRows db ids group).mergeSort db.lastLe).flatten).map db.idOf
        ≠ ids := by
  intro hlines
  have hrest := rest_mod ids.length
  have hzero : ids.length % batchSizeFor ids.length ≠ 0 := by omega
  have hdiv := Nat.div_add_mod ids.length (batchSizeFor ids.length)
  rw [Nat.mul_comm] at hdiv
  -- all lines are of ids in the batches
  have hsub : ids ⊆ ids.take (ids.length / batchSizeFor ids.length
      * batchSizeFor ids.length) := by
    intro id hid
    rw [← hlines] at hid
    obtain ⟨row, hrow, rfl⟩ := List.mem_map.mp hid
    obtain ⟨sorted, hsorted, hrow⟩ := List.mem_flatten.mp hrow
    obtain ⟨group, hgroup, rfl⟩ := List.mem_map.mp hsorted
    obtain ⟨i, threads, -, hfits, rfl⟩ := mem_roundGroups hthread hgroup
    have hle : ∀ range ∈ roundRanges i (batchSizeFor ids.length) threads,
        range.1 ≤ range.2 := fun range hrange =>
      (mem_roundRanges hfits hrange).1
    rw [List.mem_mergeSort, mem_groupRows htold hle] at hrow
    obtain ⟨range, hrange, hslice⟩ := List.mem_flatMap.mp hrow.2
    have hstop := (mem_roundRanges hfits hrange).2.1
    exact (List.take_sublist_take_left hstop).subset
      ((slice_sublist_take ids _ _).subset hslice)
  have hle := (List.subperm_of_subset hnodup hsub).length_le
  rw [List.length_take] at hle
  omega

/-- When line `i` of the MySQL alignment is the row of id `i`, where the
database tells the ids apart. -/
theorem mysql_lines_iff (hthread : 1 ≤ numThread) (htold : Told db ids)
    (hnodup : ids.Nodup)
    (hpresent : ∀ id ∈ ids, ∃ row ∈ db.table, db.idOf row = id) :
    (∃ out, generateNewDatasetFromMysql db numThread
          (ids.map fun id => [id]) = .ok out
        ∧ List.Forall₂ (fun row id => row ∈ db.table ∧ db.idOf row = id)
          out ids)
      ↔ ids ≠ [] ∧ Ordered db numThread ids := by
  have hread : generateNewDatasetFromMysql db numThread
      (ids.map fun id => [id]) = generateFromMysql db numThread ids := by
    rw [generateNewDatasetFromMysql, firstField_single]
    rfl
  rw [hread]
  constructor
  · intro h
    obtain ⟨out, hout, hlines⟩ := h
    have hmap : out.map db.idOf = ids := by
      rw [← List.forall₂_eq_eq_eq, List.forall₂_map_left_iff]
      exact hlines.imp fun _ _ h => h.2
    have hids : ids ≠ [] := by
      intro h
      rw [h] at hout
      cases hout
    -- one id over the thousands is lost, and its line with it
    have hone : ids.length % 1000 ≠ 1 := by
      intro hone
      rw [generate_lost db hthread hone, groups_eq_ok_iff] at hout
      obtain ⟨rows, hrows, -, rfl⟩ := hout
      rw [(sortGroups_eq_ok_iff.mp hrows).2] at hmap
      exact lost_lines hthread htold hone hnodup hmap
    rw [generate_eq db hthread hids hone, groups_eq_ok_iff] at hout
    obtain ⟨rows, hrows, -, rfl⟩ := hout
    obtain ⟨hsortable, hsorted⟩ := sortGroups_eq_ok_iff.mp hrows
    rw [hsorted] at hmap
    have honce := presentOnce_of_lines htold hnodup hpresent
      (groupRanges_le hthread) hmap
    have hslices := sorted_perm htold honce
      (@groupRanges_le ids.length _ hthread)
    rw [hmap] at hslices
    -- the lines are the slices, so the ranges are all indices
    have hranges := indices_perm_of_slices hnodup
      (by
        intro range hrange
        obtain ⟨group, hgroup, hmem⟩ := List.mem_flatten.mp hrange
        exact (mem_groupRanges hthread hgroup hmem).2.1) hslices.symm
    have hfit := (ranges_perm_iff hthread).mp hranges
    exact ⟨hids, hfit, hone, honce,
      (sortable_iff_noNull htold honce hthread hone hslices.symm).mp
        hsortable,
      (groups_inIdOrder_iff hthread htold honce hfit).mp hmap⟩
  · intro h
    obtain ⟨hids, hfit, hone, honce, hnull, horder⟩ := h
    have hslices : ((allRanges ids.length numThread).flatMap
        fun range => slice ids range.1 range.2).Perm ids :=
      flatMap_slice_perm ((ranges_perm_iff hthread).mpr hfit)
    have hmap := (groups_inIdOrder_iff hthread htold honce hfit).mpr horder
    have hsortable := (sortable_iff_noNull htold honce hthread hone
      hslices).mpr hnull
    have hlength := congrArg List.length hmap
    rw [List.length_map] at hlength
    have hout : generateFromMysql db numThread ids
        = .ok ((groupRanges ids.length numThread).map fun group =>
            (groupRows db ids group).mergeSort db.lastLe).flatten := by
      rw [generate_eq db hthread hids hone, groups_eq_ok_iff]
      exact ⟨_, sortGroups_eq_ok_iff.mpr ⟨hsortable, rfl⟩, hlength, rfl⟩
    have hmem : ∀ row ∈ ((groupRanges ids.length numThread).map fun group =>
        (groupRows db ids group).mergeSort db.lastLe).flatten,
        row ∈ db.table := by
      intro row hrow
      obtain ⟨sorted, hsorted, hrow⟩ := List.mem_flatten.mp hrow
      obtain ⟨group, hgroup, rfl⟩ := List.mem_map.mp hsorted
      rw [List.mem_mergeSort, mem_groupRows htold
        (groupRanges_le hthread group hgroup)] at hrow
      exact hrow.1
    have hsame : List.Forall₂ (fun row id => db.idOf row = id)
        ((groupRanges ids.length numThread).map fun group =>
          (groupRows db ids group).mergeSort db.lastLe).flatten ids := by
      have heq := hmap
      rw [← List.forall₂_eq_eq_eq, List.forall₂_map_left_iff] at heq
      exact heq
    refine ⟨_, hout, ?_⟩
    rw [List.forall₂_and_left]
    exact ⟨hmem, hsame⟩

/-- The lines of both datasets are those of the ids where the ids are plain,
the database tells them apart and the MySQL alignment keeps to their order.
The ids have to be plain, and where the database tells them apart the rest
is needed too. -/
theorem linesUp_iff (psiIndex : PsiIndex) (rows : List (List String))
    (db : Mysql ρ κ) (hthread : 1 ≤ numThread) (hnodup : ids.Nodup)
    (hcsv : ∀ id ∈ ids, ∃ row ∈ rows, psiKey psiIndex row = some id)
    (hmysql : ∀ id ∈ ids, ∃ row ∈ db.table, db.idOf row = id) :
    ((ids ≠ [] ∧ ∀ id ∈ ids, id ≠ "" ∧ strip id = id) ∧ Told db ids
        ∧ Ordered db numThread ids → LinesUp psiIndex rows db numThread ids)
      ∧ (LinesUp psiIndex rows db numThread ids →
        (ids ≠ [] ∧ ∀ id ∈ ids, id ≠ "" ∧ strip id = id)
          ∧ (Told db ids → Ordered db numThread ids)) := by
  constructor
  · intro h
    obtain ⟨hplain, htold, hordered⟩ := h
    exact ⟨(csv_lines_iff hnodup hcsv).mpr hplain,
      (mysql_lines_iff hthread htold hnodup hmysql).mpr
        ⟨hplain.1, hordered⟩⟩
  · intro h
    refine ⟨(csv_lines_iff hnodup hcsv).mp h.csv, fun htold => ?_⟩
    exact ((mysql_lines_iff hthread htold hnodup hmysql).mp h.mysql).2

/-- A text without white space is not stripped. -/
theorem strip_eq {s : String} (h : ∀ c ∈ s.toList, isSpace c = false) :
    strip s = s := by
  have hdrop : ∀ cs : List Char, (∀ c ∈ cs, isSpace c = false) →
      cs.dropWhile isSpace = cs := by
    intro cs hcs
    cases cs with
    | nil => rfl
    | cons c cs =>
        rw [List.dropWhile_cons_of_neg]
        exact ne_true_of_eq_false (hcs c List.mem_cons_self)
  have hreverse : ∀ c ∈ s.toList.reverse, isSpace c = false :=
    fun c hc => h c (List.mem_reverse.mp hc)
  rw [strip, hdrop _ h, hdrop _ hreverse, List.reverse_reverse,
    String.ofList_toList]

theorem isSpace_digit {c : Char} (h : c.isDigit = true) :
    isSpace c = false := by
  rw [Char.isDigit_iff_toNat] at h
  have hlow : 48 ≤ c.toNat := h.1
  have hhigh : c.toNat ≤ 57 := h.2
  unfold isSpace
  simp only [Bool.or_eq_false_iff, Bool.and_eq_false_iff,
    decide_eq_false_iff_not, beq_eq_false_iff_ne]
  omega

theorem numerals_plain {n : Nat} {id : String} (hid : id ∈ numerals n) :
    id ≠ "" ∧ strip id = id := by
  obtain ⟨i, -, rfl⟩ := List.mem_map.mp hid
  constructor
  · intro h
    have hdigits := congrArg String.toList h
    rw [toList_toString] at hdigits
    exact Nat.toDigits_ne_nil hdigits
  · apply strip_eq
    intro c hc
    rw [toList_toString] at hc
    exact isSpace_digit (Nat.isDigit_of_mem_toDigits (by decide) (by decide)
      hc)

/-- The people are in the order of their numbers, and so are their ages. -/
theorem ordered_people {n : Nat}
    (h : RoundsFit (numerals n).length 1 ∧ (numerals n).length % 1000 ≠ 1) :
    Ordered (ages (people n)) 1 (numerals n) := by
  refine ⟨h.1, h.2, presentOnce_people n, noNull_people n _, ?_⟩
  intro group hgroup a ha b hb hab
  obtain ⟨i, -, rfl⟩ := List.mem_map.mp ha
  obtain ⟨j, -, rfl⟩ := List.mem_map.mp hb
  have hascend : (numerals n).Pairwise fun x y =>
      decimal x.toList < decimal y.toList := by
    rw [numerals, List.pairwise_map]
    refine List.pairwise_lt_range.imp ?_
    intro i j hij
    rwa [toList_toString, toList_toString, decimal_toDigits,
      decimal_toDigits]
  have hlt : decimal (toString i).toList < decimal (toString j).toList :=
    List.pairwise_iff_forall_sublist.mp hascend
      (hab.trans (groupIds_sublist h.1 hgroup))
  rw [toList_toString, toList_toString, decimal_toDigits, decimal_toDigits]
    at hlt
  refine ⟨decide_eq_true (Nat.le_of_lt hlt), ?_⟩
  intro hle
  exact absurd (of_decide_eq_true hle) (Nat.not_le.mpr hlt)

/-- The people in a file, the last one first. -/
def peopleFile (n : Nat) : List (List String) :=
  (List.range n).reverse.map fun i => [toString i, "north"]

theorem mem_peopleFile {n : Nat} {id : String} (hid : id ∈ numerals n) :
    ∃ row ∈ peopleFile n, psiKey (.columns [0]) row = some id := by
  obtain ⟨i, hi, rfl⟩ := List.mem_map.mp hid
  refine ⟨[toString i, "north"], ?_, congrArg some String.empty_append⟩
  exact List.mem_map.mpr ⟨i, List.mem_reverse.mpr hi, rfl⟩

theorem mem_people {n : Nat} {id : String} (hid : id ∈ numerals n) :
    ∃ row ∈ (ages (people n)).table, (ages (people n)).idOf row = id := by
  obtain ⟨i, hi, rfl⟩ := List.mem_map.mp hid
  exact ⟨(toString i, some i), List.mem_map.mpr ⟨i, hi, rfl⟩, rfl⟩

/-- A full round and two ids that are left, with ages that grow along the
list. -/
theorem linesUp_ages :
    LinesUp (.columns [0]) (peopleFile 1002) (ages (people 1002)) 1
      (numerals 1002) :=
  (linesUp_iff (.columns [0]) (peopleFile 1002) (ages (people 1002))
    (by decide) (numerals_nodup 1002)
    (fun _ => mem_peopleFile) (fun _ => mem_people)).1
    ⟨⟨by
        rw [← List.length_pos_iff, length_numerals]
        decide, fun _ => numerals_plain⟩,
      told_numerals _ 1002, ordered_people numerals_fit⟩

/-- The same lists with ages that do not. -/
theorem not_linesUp_ages :
    ¬ LinesUp (.columns [0]) [["b", "north"], ["a", "south"]]
      (ages [("a", some 30), ("b", some 20)]) 1 ["a", "b"] := by
  intro h
  have hlines := (mysql_lines_iff (by decide) (by decide) (by decide)
    (by decide)).mp h.mysql
  have horder := hlines.2.inOrder
  revert horder
  decide

end PrimiHub.Align
