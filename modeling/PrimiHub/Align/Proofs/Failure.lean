/-
When the MySQL alignment ends cleanly though queries fail
(`endsCleanly_iff`).

No failure is cleaned up: once the output file is open every exception
leaves it behind (`generateDespite_cases`). So the run has to come through,
and it does exactly when the rounds do, for a rest that fails goes unnoticed
(`generateDespite_eq_iff`). What is in the file then is counted id by id
(`found_iff`).
-/
import PrimiHub.Align.Failure
import PrimiHub.Align.Proofs.Mysql

namespace PrimiHub.Align

open Lib

variable {ρ κ : Type} [LinearOrder κ] {db : Mysql ρ κ} {fails : Query → Bool}
  {numThread : Nat} {ids : List String}

-- ================================================================ the rounds

theorem any_fails_eq_false {currIter threads : Nat} :
    ((List.range threads).any fun j => fails (.thread currIter j)) = false
      ↔ ∀ j < threads, fails (.thread currIter j) = false := by
  rw [List.any_eq_false]
  constructor
  · intro h j hj
    exact eq_false_of_ne_true (h j (List.mem_range.mpr hj))
  · intro h j hj
    exact ne_true_of_eq_false (h j (List.mem_range.mp hj))

/-- A round that fits returns the rows of its threads, sorted, if none of
them fails. -/
theorem runRound_eq_some_iff {i threads : Nat}
    (hfits : i * threads + threads ≤ ids.length / batchSizeFor ids.length)
    {rows : List ρ} :
    runRound db fails i (batchSizeFor ids.length) threads ids
        = .ok (some rows)
      ↔ (∀ j < threads, fails (.thread i j) = false)
        ∧ db.sortByLast (groupRows db ids
            (roundRanges i (batchSizeFor ids.length) threads)) = .ok rows := by
  unfold runRound
  rw [← any_fails_eq_false]
  split
  · next hany =>
    constructor
    · intro h
      cases h
    · intro h
      rw [hany] at h
      cases h.1
  · next hany =>
    rw [eq_false_of_ne_true hany, and_iff_right rfl,
      mysqlRunQueryMultithread_eq db hfits]
    cases db.sortByLast _ with
    | error e =>
        constructor
        · intro h
          cases h
        · intro h
          cases h
    | ok sorted =>
        show Except.ok (some sorted) = Except.ok (some rows) ↔ _
        rw [Except.ok.injEq, Except.ok.injEq, Option.some.injEq]

theorem sortGroups_nil {groups : List (List ρ)} :
    sortGroups db ids [] = .ok groups ↔ groups = [] := by
  show Except.ok [] = Except.ok groups ↔ _
  rw [Except.ok.injEq, eq_comm]

theorem sortGroups_cons {group : List (Nat × Nat)}
    {groups : List (List (Nat × Nat))} {out : List (List ρ)} :
    sortGroups db ids (group :: groups) = .ok out
      ↔ ∃ rows, db.sortByLast (groupRows db ids group) = .ok rows
        ∧ ∃ more, sortGroups db ids groups = .ok more
          ∧ out = rows :: more := by
  rw [sortGroups, List.mapM_cons, bind_eq_ok_iff]
  refine exists_congr fun rows => and_congr_right fun _ => ?_
  rw [bind_eq_ok_iff]
  refine exists_congr fun more => and_congr_right fun _ => ?_
  show Except.ok (rows :: more) = Except.ok out ↔ _
  rw [Except.ok.injEq, eq_comm]

theorem sortGroups_single {group : List (Nat × Nat)} {groups : List (List ρ)} :
    sortGroups db ids [group] = .ok groups
      ↔ ∃ rows, db.sortByLast (groupRows db ids group) = .ok rows
        ∧ groups = [rows] := by
  rw [sortGroups_cons]
  refine exists_congr fun rows => and_congr_right fun _ => ?_
  constructor
  · intro h
    obtain ⟨more, hmore, rfl⟩ := h
    rw [sortGroups_nil.mp hmore]
  · intro h
    exact ⟨[], sortGroups_nil.mpr rfl, h⟩

/-- The full rounds come through where no query fails and the rows can be
sorted. -/
theorem writeFullRounds_eq_iff {rounds : List Nat}
    (hfits : ∀ i ∈ rounds, i * numThread + numThread
      ≤ ids.length / batchSizeFor ids.length) {written out : List ρ} :
    writeFullRounds db fails (batchSizeFor ids.length) numThread ids rounds
        written = .ok (out, false)
      ↔ (∀ i ∈ rounds, ∀ j < numThread, fails (.thread i j) = false)
        ∧ ∃ groups, sortGroups db ids (rounds.map fun i =>
              roundRanges i (batchSizeFor ids.length) numThread) = .ok groups
          ∧ out = written ++ groups.flatten := by
  induction rounds generalizing written with
  | nil =>
      constructor
      · intro h
        cases h
        exact ⟨fun _ hi => absurd hi List.not_mem_nil, [], rfl,
          (List.append_nil _).symm⟩
      · intro h
        obtain ⟨-, groups, hgroups, rfl⟩ := h
        rw [sortGroups_nil.mp hgroups, List.flatten_nil, List.append_nil]
        rfl
  | cons i rounds ih =>
      have hfit := hfits i List.mem_cons_self
      have hrest := fun i' hi' => hfits i' (List.mem_cons_of_mem i hi')
      unfold writeFullRounds
      split
      -- the round raises: a query fails or the rows cannot be sorted
      · next e hrun =>
        constructor
        · intro h
          cases h
        · intro h
          obtain ⟨hok, groups, hgroups, -⟩ := h
          obtain ⟨rows, hrows, -⟩ := sortGroups_cons.mp hgroups
          rw [(runRound_eq_some_iff hfit).mpr
            ⟨hok i List.mem_cons_self, hrows⟩] at hrun
          cases hrun
      · next hrun =>
        constructor
        · intro h
          cases h
        · intro h
          obtain ⟨hok, groups, hgroups, -⟩ := h
          obtain ⟨rows, hrows, -⟩ := sortGroups_cons.mp hgroups
          rw [(runRound_eq_some_iff hfit).mpr
            ⟨hok i List.mem_cons_self, hrows⟩] at hrun
          cases hrun
      -- the round is written, and the others come after it
      · next rows hrun =>
        obtain ⟨hok, hrows⟩ := (runRound_eq_some_iff hfit).mp hrun
        rw [ih hrest]
        constructor
        · intro h
          obtain ⟨hoks, more, hmore, rfl⟩ := h
          refine ⟨List.forall_mem_cons.mpr ⟨hok, hoks⟩, rows :: more,
            sortGroups_cons.mpr ⟨rows, hrows, more, hmore, rfl⟩, ?_⟩
          rw [List.flatten_cons, List.append_assoc]
        · intro h
          obtain ⟨hoks, groups, hgroups, rfl⟩ := h
          obtain ⟨rows', hrows', more, hmore, rfl⟩ := sortGroups_cons.mp hgroups
          rw [hrows, Except.ok.injEq] at hrows'
          rw [hrows']
          refine ⟨(List.forall_mem_cons.mp hoks).2, more, hmore, ?_⟩
          rw [List.flatten_cons, List.append_assoc]

/-- The groups of the last round. -/
def lastGroups (n numThread : Nat) : List (List (Nat × Nat)) :=
  if n / batchSizeFor n % numThread ≠ 0 then
    [roundRanges (n / batchSizeFor n / numThread) (batchSizeFor n)
      (n / batchSizeFor n % numThread)]
  else []

/-- So does the last one. -/
theorem writeLastRound_eq_iff (hthread : 1 ≤ numThread)
    {written out : List ρ} :
    writeLastRound db fails (batchSizeFor ids.length)
        (ids.length / batchSizeFor ids.length / numThread)
        (ids.length / batchSizeFor ids.length % numThread) ids written false
        = .ok out
      ↔ (∀ j < ids.length / batchSizeFor ids.length % numThread,
          fails (.thread (ids.length / batchSizeFor ids.length / numThread) j)
            = false)
        ∧ ∃ groups, sortGroups db ids (lastGroups ids.length numThread)
            = .ok groups
          ∧ out = written ++ groups.flatten := by
  unfold writeLastRound lastGroups
  generalize hremain : ids.length / batchSizeFor ids.length % numThread
    = remain
  by_cases hzero : remain = 0
  · rw [if_neg fun h => h.2 hzero, if_neg (not_not.mpr hzero)]
    constructor
    · intro h
      cases h
      refine ⟨fun j hj => absurd hj (by omega), [], rfl, ?_⟩
      exact (List.append_nil _).symm
    · intro h
      obtain ⟨-, groups, hgroups, rfl⟩ := h
      rw [sortGroups_nil.mp hgroups, List.flatten_nil, List.append_nil]
  · rw [if_pos ⟨rfl, hzero⟩, if_pos hzero]
    have hfits := @last_fits (ids.length / batchSizeFor ids.length) _ hthread
    rw [hremain] at hfits
    have hsome := fun rows => @runRound_eq_some_iff ρ κ _ db fails ids
      _ remain hfits rows
    constructor
    · intro h
      split at h
      · cases h
      · cases h
      · next rows hrun =>
        cases h
        obtain ⟨hok, hrows⟩ := (hsome rows).mp hrun
        refine ⟨hok, [rows], sortGroups_single.mpr ⟨rows, hrows, rfl⟩, ?_⟩
        rw [List.flatten_cons, List.flatten_nil, List.append_nil]
    · intro h
      obtain ⟨hok, groups, hgroups, rfl⟩ := h
      obtain ⟨rows, hrows, rfl⟩ := sortGroups_single.mp hgroups
      rw [(hsome rows).mpr ⟨hok, hrows⟩, List.flatten_cons, List.flatten_nil,
        List.append_nil]

/-- The rest is written or passed over. -/
theorem writeReminder_eq_iff {written out : List ρ} :
    writeReminder db fails (batchSizeFor ids.length)
        (ids.length / batchSizeFor ids.length)
        (ids.length % batchSizeFor ids.length) ids written false = .ok out
      ↔ ∃ groups, sortGroups db ids
            (if fails .reminder = true ∨ ids.length % 1000 = 1 then []
              else restGroups ids.length) = .ok groups
          ∧ out = written ++ groups.flatten := by
  have hpassed : (Except.ok written : Except (Outcome ρ) (List ρ)) = .ok out
      ↔ ∃ groups, sortGroups db ids [] = .ok groups
          ∧ out = written ++ groups.flatten := by
    rw [Except.ok.injEq]
    constructor
    · intro h
      exact ⟨[], sortGroups_nil.mpr rfl, h ▸ (List.append_nil _).symm⟩
    · intro h
      obtain ⟨groups, hgroups, rfl⟩ := h
      rw [sortGroups_nil.mp hgroups, List.flatten_nil, List.append_nil]
  unfold writeReminder
  by_cases hzero : ids.length % batchSizeFor ids.length = 0
  · have hrest : restGroups ids.length = [] := if_neg (not_not.mpr hzero)
    rw [if_neg fun h => h.1 hzero, hrest, ite_self]
    exact hpassed
  · have hrest : restGroups ids.length = _ := if_pos hzero
    rw [if_pos ⟨hzero, rfl⟩, hrest]
    dsimp only
    cases hfails : fails .reminder with
    | true =>
        rw [if_pos rfl, if_pos (Or.inl rfl)]
        exact hpassed
    | false =>
        rw [if_neg Bool.false_ne_true]
        by_cases hone : ids.length % 1000 = 1
        · have hreject := mt (rest_accepted_iff db ids).mp (not_not.mpr hone)
          obtain ⟨e, he⟩ := mysqlThreadQuery_error db hreject
          rw [if_pos (Or.inr hone), he]
          exact hpassed
        · have haccepted := (rest_accepted_iff db ids).mpr hone
          rw [if_neg fun h => h.elim Bool.false_ne_true hone,
            mysqlThreadQuery_eq db haccepted]
          simp only [sortGroups_single, groupRows, List.flatMap_singleton]
          constructor
          · intro h
            split at h
            · cases h
            · next rows hrows =>
              cases h
              exact ⟨[rows], ⟨rows, hrows, rfl⟩,
                congrArg (written ++ ·) (List.append_nil rows).symm⟩
          · intro h
            obtain ⟨_, ⟨rows, hrows, rfl⟩, rfl⟩ := h
            rw [hrows, List.flatten_cons, List.flatten_nil, List.append_nil]

-- =================================================================== the run

/-- An exception of the loop leaves the file behind. -/
theorem writeFullRounds_error {batchSize : Nat} {rounds : List Nat}
    {written : List ρ} {o : Outcome ρ}
    (h : writeFullRounds db fails batchSize numThread ids rounds written
      = .error o) : ∃ rows e, o = .raise rows e := by
  induction rounds generalizing written with
  | nil => cases h
  | cons i rounds ih =>
      unfold writeFullRounds at h
      split at h
      · next e _ => exact ⟨written, e, (Except.error.inj h).symm⟩
      · cases h
      · exact ih h

theorem writeLastRound_error {batchSize numIter remain : Nat}
    {written : List ρ} {threadError : Bool} {o : Outcome ρ}
    (h : writeLastRound db fails batchSize numIter remain ids written
      threadError = .error o) : ∃ rows e, o = .raise rows e := by
  unfold writeLastRound at h
  split at h
  · split at h
    · next e _ => exact ⟨written, e, (Except.error.inj h).symm⟩
    · exact ⟨written, .lenOfNone, (Except.error.inj h).symm⟩
    · cases h
  · cases h

theorem writeReminder_error {batchSize numBatch reminder : Nat}
    {written : List ρ} {threadError : Bool} {o : Outcome ρ}
    (h : writeReminder db fails batchSize numBatch reminder ids written
      threadError = .error o) : ∃ rows e, o = .raise rows e := by
  unfold writeReminder at h
  split at h
  · dsimp only at h
    split at h
    · cases h
    · split at h
      · cases h
      · split at h
        · next e _ => exact ⟨written, e, (Except.error.inj h).symm⟩
        · cases h
  · cases h

/-- The last lines register, or they raise. -/
theorem finish_cases (n : Nat) (written : List ρ) (threadError : Bool) :
    (threadError = false ∧ written.length = n
        ∧ finish n written threadError = ⟨some written, true, none⟩)
      ∨ ∃ e, finish n written threadError = .raise written e := by
  unfold finish
  cases threadError with
  | true => exact Or.inr ⟨_, if_pos rfl⟩
  | false =>
      rw [if_neg Bool.false_ne_true]
      by_cases hlength : written.length = n
      · rw [if_neg (not_not.mpr hlength)]
        exact Or.inl ⟨rfl, hlength, rfl⟩
      · rw [if_pos hlength]
        exact Or.inr ⟨_, rfl⟩

theorem finish_eq_iff {n : Nat} {written rows : List ρ} {threadError : Bool} :
    finish n written threadError = ⟨some rows, true, none⟩
      ↔ threadError = false ∧ written.length = n ∧ rows = written := by
  obtain ⟨herror, hlength, heq⟩ | ⟨e, heq⟩ := finish_cases n written
    threadError
  · rw [heq]
    constructor
    · intro h
      cases h
      exact ⟨herror, hlength, rfl⟩
    · intro h
      rw [h.2.2]
  · constructor
    · intro h
      rw [heq] at h
      cases h
    · intro h
      obtain ⟨rfl, hlength, -⟩ := h
      rw [finish, if_neg Bool.false_ne_true, if_neg (not_not.mpr hlength)]
        at heq
      cases heq

/-- A run with ids registers, or it raises with the file in place. -/
theorem generateDespite_cases (hids : ids ≠ []) :
    (∃ rows, generateDespite db fails numThread ids = ⟨some rows, true, none⟩)
      ∨ ∃ rows e, generateDespite db fails numThread ids = .raise rows e := by
  unfold generateDespite
  rw [if_neg fun h => hids (List.length_eq_zero_iff.mp h)]
  dsimp only
  cases hfull : writeFullRounds db fails _ numThread ids _ [] with
  | error o => exact Or.inr (writeFullRounds_error hfull)
  | ok p =>
      obtain ⟨written, threadError⟩ := p
      dsimp only [bind, Except.bind]
      cases hlast : writeLastRound db fails _ _ _ ids written threadError with
      | error o => exact Or.inr (writeLastRound_error hlast)
      | ok written =>
          dsimp only [bind, Except.bind]
          cases hrest : writeReminder db fails _ _ _ ids written threadError with
          | error o => exact Or.inr (writeReminder_error hrest)
          | ok written =>
              obtain ⟨-, -, heq⟩ | ⟨e, heq⟩ :=
                finish_cases ids.length written threadError
              · exact Or.inl ⟨written, heq⟩
              · exact Or.inr ⟨written, e, heq⟩

/-- The queries of the rounds come through. -/
def RoundsComeThrough (fails : Query → Bool) (numThread n : Nat) : Prop :=
  (∀ i < n / batchSizeFor n / numThread, ∀ j < numThread,
      fails (.thread i j) = false)
    ∧ ∀ j < n / batchSizeFor n % numThread,
        fails (.thread (n / batchSizeFor n / numThread) j) = false

theorem sortGroups_append {front back : List (List (Nat × Nat))}
    {out : List (List ρ)} :
    sortGroups db ids (front ++ back) = .ok out
      ↔ ∃ xs, sortGroups db ids front = .ok xs
        ∧ ∃ ys, sortGroups db ids back = .ok ys ∧ out = xs ++ ys := by
  rw [sortGroups, List.mapM_append, bind_eq_ok_iff]
  refine exists_congr fun xs => and_congr_right fun _ => ?_
  rw [bind_eq_ok_iff]
  refine exists_congr fun ys => and_congr_right fun _ => ?_
  show Except.ok (xs ++ ys) = Except.ok out ↔ _
  rw [Except.ok.injEq, eq_comm]

theorem roundGroups_eq (n numThread : Nat) :
    roundGroups n numThread
      = ((List.range (n / batchSizeFor n / numThread)).map fun i =>
          roundRanges i (batchSizeFor n) numThread) ++ lastGroups n numThread :=
  rfl

/-- What the parts of a run make. -/
theorem generateDespite_parts (hids : ids ≠ []) {rows : List ρ} :
    generateDespite db fails numThread ids = ⟨some rows, true, none⟩
      ↔ ∃ full, writeFullRounds db fails (batchSizeFor ids.length) numThread
            ids (List.range (ids.length / batchSizeFor ids.length
              / numThread)) [] = .ok (full, false)
        ∧ ∃ last, writeLastRound db fails (batchSizeFor ids.length)
            (ids.length / batchSizeFor ids.length / numThread)
            (ids.length / batchSizeFor ids.length % numThread) ids full false
              = .ok last
        ∧ writeReminder db fails (batchSizeFor ids.length)
            (ids.length / batchSizeFor ids.length)
            (ids.length % batchSizeFor ids.length) ids last false = .ok rows
        ∧ rows.length = ids.length := by
  unfold generateDespite
  rw [if_neg fun h => hids (List.length_eq_zero_iff.mp h)]
  dsimp only
  constructor
  · intro h
    -- each part comes through, or the run ends with its outcome
    cases hfull : writeFullRounds db fails _ numThread ids _ [] with
    | error o =>
        obtain ⟨_, _, rfl⟩ := writeFullRounds_error hfull
        rw [hfull] at h
        cases h
    | ok p =>
        obtain ⟨full, threadError⟩ := p
        rw [hfull] at h
        dsimp only [bind, Except.bind] at h
        cases hlast : writeLastRound db fails _ _ _ ids full threadError with
        | error o =>
            obtain ⟨_, _, rfl⟩ := writeLastRound_error hlast
            rw [hlast] at h
            cases h
        | ok last =>
            rw [hlast] at h
            dsimp only at h
            cases hrest : writeReminder db fails _ _ _ ids last
                threadError with
            | error o =>
                obtain ⟨_, _, rfl⟩ := writeReminder_error hrest
                rw [hrest] at h
                cases h
            | ok written =>
                rw [hrest] at h
                obtain ⟨rfl, hlength, rfl⟩ := finish_eq_iff.mp h
                exact ⟨full, rfl, last, hlast, hrest, hlength⟩
  · intro h
    obtain ⟨full, hfull, last, hlast, hrest, hlength⟩ := h
    rw [hfull]
    dsimp only [bind, Except.bind]
    rw [hlast]
    dsimp only
    rw [hrest]
    exact finish_eq_iff.mpr ⟨rfl, hlength, rfl⟩

/-- The run registers the rows of the kept groups where the rounds come
through, and these rows can be sorted and are as many as the ids. -/
theorem generateDespite_eq_iff (hthread : 1 ≤ numThread) (hids : ids ≠ [])
    {rows : List ρ} :
    generateDespite db fails numThread ids = ⟨some rows, true, none⟩
      ↔ RoundsComeThrough fails numThread ids.length
        ∧ ∃ groups, sortGroups db ids (keptGroups fails ids.length numThread)
            = .ok groups
          ∧ rows = groups.flatten ∧ rows.length = ids.length := by
  have hfits : ∀ i ∈ List.range (ids.length / batchSizeFor ids.length
      / numThread), i * numThread + numThread
        ≤ ids.length / batchSizeFor ids.length :=
    fun i hi => full_fits (List.mem_range.mp hi)
  rw [generateDespite_parts hids]
  simp only [writeFullRounds_eq_iff hfits, writeLastRound_eq_iff hthread,
    writeReminder_eq_iff, List.mem_range, List.nil_append]
  rw [keptGroups, roundGroups_eq]
  constructor
  · intro h
    obtain ⟨_, ⟨hfull, xs, hxs, rfl⟩, _, ⟨hlast, ys, hys, rfl⟩,
      ⟨zs, hzs, hrows⟩, hlength⟩ := h
    refine ⟨⟨hfull, hlast⟩, xs ++ ys ++ zs, ?_, ?_, hlength⟩
    · exact sortGroups_append.mpr ⟨xs ++ ys,
        sortGroups_append.mpr ⟨xs, hxs, ys, hys, rfl⟩, zs, hzs, rfl⟩
    · rw [hrows, List.flatten_append, List.flatten_append]
  · intro h
    obtain ⟨⟨hfull, hlast⟩, groups, hgroups, hrows, hlength⟩ := h
    obtain ⟨_, hround, zs, hzs, rfl⟩ := sortGroups_append.mp hgroups
    obtain ⟨xs, hxs, ys, hys, rfl⟩ := sortGroups_append.mp hround
    refine ⟨_, ⟨hfull, xs, hxs, rfl⟩, _, ⟨hlast, ys, hys, rfl⟩, ⟨zs, hzs, ?_⟩,
      hlength⟩
    rw [hrows, List.flatten_append, List.flatten_append]

-- ================================================================== the file

/-- The alignment ends cleanly where the list is empty or it runs through
with a row for each id. -/
theorem endsCleanly_iff (db : Mysql ρ κ) (fails : Query → Bool)
    (hthread : 1 ≤ numThread) (ids : List String) :
    EndsCleanly db ids (generateDespite db fails numThread ids)
      ↔ ids = [] ∨ Complete db fails numThread ids := by
  by_cases hids : ids = []
  · refine iff_of_true (Or.inr ?_) (Or.inl hids)
    have hrun : generateDespite db fails numThread []
        = ⟨none, false, some .emptyIntersection⟩ := rfl
    rw [hids, hrun]
    refine ⟨rfl, rfl, ?_, ?_⟩
    · intro h
      cases h
    · intro h
      cases h
  rw [or_iff_right hids]
  constructor
  · intro h
    obtain ⟨hreg, hraised, rows, hfile, -, hperm⟩ | ⟨-, hfile, -⟩ := h
    · have hrun : generateDespite db fails numThread ids
          = ⟨some rows, true, none⟩ := by
        rw [← hreg, ← hfile, ← hraised]
      obtain ⟨⟨hfull, hlast⟩, groups, hgroups, rfl, -⟩ :=
        (generateDespite_eq_iff hthread hids).mp hrun
      obtain ⟨hsorted, rfl⟩ := sortGroups_eq_ok_iff.mp hgroups
      exact ⟨hfull, hlast, hsorted, found_iff.mp hperm⟩
    · obtain ⟨rows, hrun⟩ | ⟨rows, e, hrun⟩ :=
        @generateDespite_cases ρ κ _ db fails numThread ids hids
      · rw [hrun] at hfile
        cases hfile
      · rw [hrun] at hfile
        cases hfile
  · intro h
    have hsort := sortGroups_eq_ok_iff.mpr ⟨h.sorted, rfl⟩
    have hperm := found_iff.mpr h.found
    have hlength := hperm.length_eq
    rw [List.length_map] at hlength
    have hrun := (generateDespite_eq_iff hthread hids).mpr
      ⟨⟨h.full, h.last⟩, _, hsort, rfl, hlength⟩
    rw [hrun]
    refine Or.inl ⟨rfl, rfl, _, rfl, ?_, hperm⟩
    intro row hrow
    obtain ⟨_, hgroup, hrow⟩ := List.mem_flatten.mp hrow
    obtain ⟨group, -, rfl⟩ := List.mem_map.mp hgroup
    rw [List.mem_mergeSort, groupRows] at hrow
    obtain ⟨range, -, hrow⟩ := List.mem_flatMap.mp hrow
    obtain ⟨list, -, hrow⟩ := List.mem_flatMap.mp hrow
    exact ((mem_select db).mp hrow).1

omit [LinearOrder κ] in
/-- Without a failure of the rest all groups are kept. -/
theorem keptGroups_eq {n : Nat} (hfails : fails .reminder = false)
    (hone : n % 1000 ≠ 1) :
    keptGroups fails n numThread = groupRanges n numThread := by
  unfold keptGroups groupRanges
  rw [hfails, if_neg fun h => h.elim Bool.false_ne_true hone]

/-- A full round and the rest; the failure is of a round that is not asked
for. -/
theorem endsCleanly_ages :
    EndsCleanly (ages (people 1002)) (numerals 1002)
      (generateDespite (ages (people 1002)) (fun q => q = .thread 1 0) 1
        (numerals 1002)) :=
  (endsCleanly_iff (ages (people 1002)) (fun q => q = .thread 1 0)
    (by decide) (numerals 1002)).mpr (Or.inr
      { full := by
          rw [length_numerals]
          decide
        last := by
          rw [length_numerals]
          decide
        sorted := by
          rw [keptGroups_eq rfl numerals_fit.2]
          exact sortable_people numerals_fit
        found := by
          rw [keptGroups_eq rfl numerals_fit.2]
          exact found_of_told (told_numerals _ 1002)
            (presentOnce_people 1002) (by decide) numerals_fit.1 })

/-- The query for two ids fails: the new dataset is not registered, and the
file is still there. -/
theorem not_endsCleanly_ages :
    ¬ EndsCleanly (ages [("a", some 30), ("b", some 20)]) ["b", "a"]
      (generateDespite (ages [("a", some 30), ("b", some 20)])
        (fun q => q = .reminder) 2 ["b", "a"]) := by
  have hrun : generateDespite (ages [("a", some 30), ("b", some 20)])
      (fun q => q = .reminder) 2 ["b", "a"]
        = .raise [] (.rowCount 2 0) := by decide
  rw [hrun]
  intro h
  obtain ⟨hreg, -⟩ | ⟨-, hfile, -⟩ := h
  · cases hreg
  · cases hfile

end PrimiHub.Align
