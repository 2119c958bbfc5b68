/-
When training scores are prediction scores.

Where every tree fits the tables both parties come to their end and the
scores agree (`scoresPredicted_of_fits`). The other direction is about the
first tree that does not fit. If only one party returns at its root, the
other one waits for a message that is never sent (`not_lockStep_of_stops`).
If the root is split, a label of the split is not in the gradients or not
in the other table, and one party raises `KeyError`
(`exists_fails_of_not_rootFits`). For this the tables must be as `set_inputs` gives
them: labelled by their positions, or as large as each other.
-/
import Mathlib.Data.List.Induction
import PrimiHub.FL.Proofs.Alignment
import PrimiHub.FL.Proofs.KeyErrors

namespace PrimiHub.FL

open Lib

variable {κ ν ω σ η : Type}

-- ============================================================== both scores

section Scores

variable [LinearOrder ω] [Zero ω] {x y : Table Nat ω}

/-- A tree that prediction can go through, and a table that it finds. -/
structure Ready (l : Lookups ω) (x y : Table Nat ω) (tree : Tree ω) : Prop where
  fits : tree.Fits x y
  owned : Owned l.host l.guest tree
  aligned : tree = .leaf ∨ x.index = .range x.size

theorem getD_range {n p : Nat} (hp : p < n) : (List.range n).getD p 0 = p := by
  rw [List.getD_eq_getElem?_getD, List.getElem?_range hp, Option.getD_some]

/-- A table whose labels are its positions is as it was after a reset. -/
theorem Frame.resetIndex_of_range {ρ : Type} {x : Frame Nat ρ}
    (h : x.index = .range x.size) :
    x.resetIndex.index = x.index
      ∧ ∀ p < x.size, x.resetIndex.row p = x.row p := by
  refine ⟨h.symm, fun p hp => ?_⟩
  show x.row (x.index.labels.getD p 0) = x.row p
  rw [h]
  exact congrArg x.row (getD_range hp)

theorem Ready.reset {l : Lookups ω} {tree : Tree ω} (h : Ready l x y tree) :
    tree.Fits x.resetIndex y
      ∧ ∀ p < x.size, tree.scoreOf l x.resetIndex y p
        = tree.scoreOf l x y p := by
  obtain rfl | haligned := h.aligned
  · refine ⟨trivial, fun p _ => ?_⟩
    rw [Tree.scoreOf, Tree.scoreOf, Tree.weightOf, Tree.weightOf, ite_self,
      ite_self]
  · obtain ⟨hindex, hrow⟩ := Frame.resetIndex_of_range haligned
    refine ⟨?_, fun p hp => ?_⟩
    · have hfits := h.fits
      cases tree with
      | leaf => trivial
      | node role _ _ _ _ _ =>
          cases role with
          | host =>
              show y.Has x.resetIndex.index
              rw [hindex]
              exact hfits
          | guest =>
              show x.resetIndex.Has y.index
              rw [Frame.Has, hindex]
              exact hfits
    · have hboth : bothRows x.resetIndex.row y.row p
          = bothRows x.row y.row p := by
        funext role
        cases role with
        | host => exact hrow p hp
        | guest => rfl
      rw [Tree.scoreOf, Tree.scoreOf, hboth, hindex]

variable [Add ω] [Mul ω]

/-- Trees that are ready score a row alike before and after the reset. -/
theorem scoreIn_reset {learningRate : ω} {l : Lookups ω}
    {trees : List (Tree ω)} (h : ∀ tree ∈ trees, Ready l x y tree)
    {start : ω} {p : Nat} (hp : p < x.size) :
    scoreIn learningRate l x.resetIndex y trees start p
      = scoreIn learningRate l x y trees start p := by
  refine List.foldl_ext _ _ _ fun score tree htree => ?_
  rw [(h tree htree).reset.2 p hp]

end Scores

-- ================================================================ both fits

section Fits

variable [LinearOrder ω] [Zero ω] {T : Training ν ω σ η} {x y : Table Nat ω}

theorem Training.TreeFits.nodeFits {task : TreeTask ω σ η}
    {yHat : Frame Nat ω} (h : T.TreeFits x y task yHat) :
    NodeFits T.settings task.search [] x y (T.gh x.size yHat)
      (task.ghEn (T.gh x.size yHat)) 0 where
  stops := h.stops
  empty := h.empty
  meets hstop hempty := by
    have hroot := h.root hstop hempty
    have hd : decisionAt task.search [] x y (T.gh x.size yHat)
        (task.ghEn (T.gh x.size yHat))
        = task.rootDecision x y (T.gh x.size yHat) := rfl
    rw [hd]
    generalize task.rootDecision x y (T.gh x.size yHat) = d at hroot
    cases d with
    | stop => trivial
    | host => exact hroot
    | guest => exact hroot

variable [Add ω] [Neg ω] [Div ω]

/-- One tree that fits. -/
theorem tree_scored {task : TreeTask ω σ η} {yHat : Frame Nat ω}
    (h : T.TreeFits x y task yHat) {self self' : Party ω}
    (hrecords : SameRecords self self') :
    Settles (T.hostTree x task yHat self)
      (T.guestTree y task (T.gh x.size yHat) self') (· = .overflowError)
      (TreeScored x y (T.gh x.size yHat) (zeros ω x.size) self self') :=
  construct_scored [] x y (zeros ω x.size) 0 (T.gh x.size yHat) _ self self'
    h.nodeFits (fun _ hi => hi) (fun _ hi => hi) hrecords

variable [Mul ω]

/-- What both parties have after some trees. -/
structure LoopScored (T : Training ν ω σ η) (x y : Table Nat ω)
    (yHat : Frame Nat ω) (before before' : Party ω)
    (host : List (Tree ω) × Party ω × Frame Nat ω)
    (guest : List (Grown ω) × Party ω) : Prop where
  same : host.1 = guest.1.map (·.tree)
  later : ∀ l, Later l host.2.1 guest.2 → Later l before before'
  ready : ∀ l, Later l host.2.1 guest.2 → ∀ tree ∈ host.1, Ready l x y tree
  row : ∀ l, Later l host.2.1 guest.2 → ∀ p,
    host.2.2.row p = scoreIn T.learningRate l x y host.1 (yHat.row p) p

theorem loop_scored (tasks : List (TreeTask ω σ η)) {yHat : Frame Nat ω}
    {self self' : Party ω} (h : T.TreesFit x y tasks yHat self self')
    (hrecords : SameRecords self self') :
    Settles (T.hostLoop x tasks yHat self)
      (guestTrain T.settings (fun _ => y) (tasks.map (·.search)) self')
      (· = .overflowError) (LoopScored T x y yHat self self') := by
  induction tasks generalizing yHat self self' with
  | nil =>
      exact Settles.ret
        { same := rfl
          later := fun _ hl => hl
          ready := fun _ _ tree htree => absurd htree List.not_mem_nil
          row := fun _ _ _ => rfl }
  | cons task rest ih =>
      obtain ⟨hfits, hrest⟩ := h
      apply Settles.put_get
      apply Settles.put_get
      apply Settles.bind (tree_scored hfits hrecords)
      rintro ⟨tree, host, fT⟩ ⟨tree', guest⟩ hsync htree
      obtain rfl : tree = tree' := htree.same
      apply Settles.bind (ih (hrest tree fT host guest hsync) htree.records)
      rintro ⟨trees, host₁, yHat₁⟩ ⟨grown, guest₁⟩ - hloop
      refine Settles.ret
        { same := ?_
          later := fun l hl => htree.later l (hloop.later l hl)
          ready := fun l hl => ?_
          row := fun l hl p => ?_ }
      · exact congrArg (tree :: ·) hloop.same
      · intro tree' htree'
        obtain rfl | htree' := List.mem_cons.mp htree'
        · exact ⟨htree.fits, htree.owned l (hloop.later l hl), htree.aligned⟩
        · exact hloop.ready l hl tree' htree'
      · have hfT : fT.row p = tree.scoreOf l x y p :=
          htree.row l (hloop.later l hl) p
        have hrow := hloop.row l hl p
        rw [scoreIn] at hrow
        rw [scoreIn, List.foldl_cons, ← hfT]
        exact hrow

/-- Where every tree fits, both come to their end with the same scores. -/
theorem scoresPredicted_of_fits (h : T.RunFits x y) :
    T.ScoresPredicted x y := by
  have hsettles : Settles (T.myFit x) (T.guestSide y) (· = .overflowError)
      fun scores _ => ∀ p < x.size,
        scores.trained.row p = scores.predicted.row p := by
    rw [Training.myFit, Training.guestSide, guestFit]
    apply Settles.bind (loop_scored T.trees h ⟨rfl, rfl⟩)
    rintro ⟨trees, host, yHat⟩ ⟨grown, guest⟩ - hloop
    obtain rfl : trees = grown.map (·.tree) := hloop.same
    have hlater : Later ⟨host.lookupTable, guest.lookupTable⟩ host guest :=
      ⟨fun _ _ => rfl, fun _ _ => rfl⟩
    have hready := hloop.ready _ hlater
    have hpredict : ∀ tree ∈ grown.map (·.tree),
        tree.Fits x.resetIndex y
          ∧ Owned host.lookupTable guest.lookupTable tree :=
      fun tree htree =>
        ⟨(hready tree htree).reset.1, (hready tree htree).owned⟩
    apply Settles.bind (predict_scored (l := ⟨host.lookupTable, guest.lookupTable⟩)
      (grown.map (·.tree)) hpredict)
    rintro score _ - hscore
    refine Settles.ret fun p hp => ?_
    have htrained := hloop.row _ hlater p
    rw [← scoreIn_reset hready hp] at htrained
    exact htrained.trans (hscore p).symm
  obtain ⟨u, v, hsync, hend⟩ := hsettles
  refine hsync.lockStep ?_
  cases hend with
  | ok hscores =>
      refine ⟨by simp, by simp, fun scores heq => ?_⟩
      cases heq
      exact hscores
  | error he =>
      subst he
      refine ⟨by simp, by simp, fun scores heq => ?_⟩
      cases heq

end Fits

-- ================================================================== delivered

/-- Tables as `set_inputs` gives them: rows in their order, and either the
host's labels are its positions or both tables have as many rows. -/
structure Delivered (x y : Table Nat ω) : Prop where
  sorted : x.index.labels.Pairwise (· < ·)
  sizes : x.index = .range x.size ∨ y.size = x.size

/-- Labels in ascending order, as many as there are positions, that are all
positions. -/
theorem index_eq_range {index : Index Nat} {n : Nat}
    (hsorted : index.labels.Pairwise (· < ·)) (hlength : index.labels.length = n)
    (h : ∀ i ∈ index.labels, i < n) : index = .range n := by
  have hsubset : index.labels ⊆ List.range n :=
    fun i hi => List.mem_range.mpr (h i hi)
  have hperm : index.labels.Perm (List.range n) := by
    refine (List.subperm_of_subset index.nodup hsubset).perm_of_length_le ?_
    rw [List.length_range, hlength]
  have heq : index.labels = List.range n :=
    hperm.eq_of_pairwise (fun a b _ _ hab hba => absurd hba (Nat.lt_asymm hab))
      hsorted List.pairwise_lt_range
  cases index with
  | mk labels nodup =>
      subst heq
      rfl

/-- The rows that a party has after `set_inputs` are those that
`sample_alignment` leaves. -/
theorem filterMap_kept {ρ : Type} (rows : List ρ) (q : ρ → Bool) :
    ((List.range rows.length).filter fun i => (rows[i]?).any q).filterMap
        (fun i => rows[i]?)
      = rows.filter q := by
  induction rows using List.reverseRecOn with
  | nil => rfl
  | append_singleton rows row ih =>
      have hbefore : ∀ i ∈ List.range rows.length,
          (rows ++ [row])[i]? = rows[i]? := by
        intro i hi
        exact List.getElem?_append_left (List.mem_range.mp hi)
      rw [List.length_append, List.length_singleton, List.range_succ,
        List.filter_append, List.filterMap_append, List.filter_append, ← ih]
      congr 1
      · rw [List.filter_congr fun i hi => by rw [hbefore i hi]]
        refine List.filterMap_congr fun i hi => ?_
        exact hbefore i (List.mem_filter.mp hi).1
      · have hlast : (rows ++ [row])[rows.length]? = some row := by
          rw [List.getElem?_append_right (Nat.le_refl _), Nat.sub_self]
          rfl
        rw [List.filter_singleton, List.filter_singleton, hlast,
          Option.any_some]
        cases q row with
        | true =>
            rw [cond_true, cond_true, List.filterMap_cons, hlast]
            rfl
        | false => rfl

theorem size_setInputs [Zero ω] [DecidableEq κ]
    (rows : List (Sample κ (String → ω))) (ids : List κ) :
    (setInputs (some ids) rows).size
      = ((rows.map Sample.id).filter fun id => id ∈ ids).length := by
  have hall : ∀ i ∈ (List.range rows.length).filter fun i =>
      (rows[i]?).any fun row => row.id ∈ ids, (rows[i]?).isSome := by
    intro i hi
    have hany := (List.mem_filter.mp hi).2
    cases hrow : rows[i]? with
    | none =>
        rw [hrow] at hany
        cases hany
    | some row => rfl
  rw [← map_id_filter, List.length_map, ← filterMap_kept rows,
    List.length_filterMap_eq_countP]
  exact (List.countP_eq_length.mpr hall).symm

theorem setInputs_delivered [Zero ω] [DecidableEq κ]
    {host guest : List (Sample κ (String → ω))}
    {psi : Option (List κ × List κ)} (h : ExactPsi host guest psi) :
    Delivered (setInputs (psi.map Prod.fst) host)
      (setInputs (psi.map Prod.snd) guest) := by
  cases psi with
  | none =>
      refine ⟨List.pairwise_lt_range, Or.inl ?_⟩
      show Index.range host.length = Index.range (List.range host.length).length
      rw [List.length_range]
  | some ids =>
      refine ⟨List.Pairwise.filter _ List.pairwise_lt_range, Or.inr ?_⟩
      have hcommon : ((host.map Sample.id).filter fun id => id ∈ ids.1).Perm
          ((guest.map Sample.id).filter fun id => id ∈ ids.2) := by
        refine (List.perm_ext_iff_of_nodup (h.hostIds.filter _)
          (h.guestIds.filter _)).mpr fun id => ?_
        rw [List.mem_filter, List.mem_filter, decide_eq_true_iff,
          decide_eq_true_iff, h.toHost ids rfl, h.toGuest ids rfl]
        exact ⟨fun ⟨_, hh, hg⟩ => ⟨hg, hh, hg⟩, fun ⟨_, hh, hg⟩ => ⟨hh, hh, hg⟩⟩
      show (setInputs (some ids.2) guest).size = (setInputs (some ids.1) host).size
      rw [size_setInputs, size_setInputs, hcommon.length_eq]

-- =================================================================== unfit

section Unfit

variable {T : Training ν ω σ η} {x y : Table Nat ω}

theorem stops_iff {size : Nat} :
    T.Stops size ↔ ((size : Int) < T.settings.minChildSample
      ∨ T.settings.maxDepth < 0) := Iff.rfl

/-- Where the gradients have the host's labels, these are the positions. -/
theorem Delivered.index_eq (h : Delivered x y) (yHat : Frame Nat ω)
    (hgh : (T.gh x.size yHat).Has x.index) : x.index = .range x.size :=
  index_eq_range h.sorted rfl fun i hi => List.mem_range.mp (hgh i hi)

/-- Where the gradients and the host have the guest's labels, the host's
labels are the positions. -/
theorem Delivered.index_eq_of_guest (h : Delivered x y) (yHat : Frame Nat ω)
    (hx : x.Has y.index) (hgh : (T.gh x.size yHat).Has y.index) :
    x.index = .range x.size := by
  obtain hrange | hsize := h.sizes
  · exact hrange
  · have hperm : y.index.labels.Perm x.index.labels := by
      refine (List.subperm_of_subset y.index.nodup hx).perm_of_length_le ?_
      exact Nat.le_of_eq hsize.symm
    exact h.index_eq yHat fun i hi => hgh i (hperm.mem_iff.mpr hi)

variable [LinearOrder ω]

/-- Trees without splits need no messages. -/
theorem guestPredict_silent {tag : Tag}
    {lookup : Nat → Option (String × ω)} {test : Table Nat ω}
    {trees : List (Tree ω)} (h : ∀ tree ∈ trees, tree = .leaf) :
    Silent tag (fun _ => True)
      (guestPredict lookup test trees : Proc (Message Nat ω σ η) _ _) := by
  induction trees with
  | nil => exact .ret trivial
  | cons tree rest ih =>
      rw [h tree List.mem_cons_self]
      exact ih fun tree' htree' => h tree' (List.mem_cons_of_mem _ htree')

variable [Zero ω]

theorem hostTree_waits {task : TreeTask ω σ η} {yHat : Frame Nat ω}
    (hx : ¬ T.Stops x.size) (hxs : x.size ≠ 0) (self : Party ω) :
    Waits Tag.encrypteGhSums (T.hostTree x task yHat self) := by
  rw [stops_iff] at hx
  rw [Training.hostTree, hostTreeConstruct, if_neg hx, if_neg hxs]
  have hsplit : Waits Tag.encrypteGhSums
      (hostSplit task.search [] x (T.gh x.size yHat) self) := .recv
  exact hsplit.bind _

section Host

variable [Add ω] [Mul ω]

theorem predictRaw_silent {tag : Tag} {learningRate : ω}
    {lookup : Nat → Option (String × ω)} {test : Table Nat ω}
    {trees : List (Tree ω)} (h : ∀ tree ∈ trees, tree = .leaf)
    (score : Frame Nat ω) :
    Silent tag (fun _ => True)
      (predictRaw learningRate lookup test trees score :
        Proc (Message Nat ω σ η) _ _) := by
  induction trees generalizing score with
  | nil => exact .ret trivial
  | cons tree rest ih =>
      rw [h tree List.mem_cons_self]
      exact ih (fun tree' htree' => h tree' (List.mem_cons_of_mem _ htree')) _

/-- A host that returns at every root sends no cuts. -/
theorem hostLoop_silent (h : T.Stops x.size) (tasks : List (TreeTask ω σ η))
    (yHat : Frame Nat ω) (self : Party ω) :
    Silent Tag.bestCut (fun r => ∀ tree ∈ r.1, tree = .leaf)
      (T.hostLoop x tasks yHat self) := by
  induction tasks generalizing yHat self with
  | nil => exact .ret fun tree htree => absurd htree List.not_mem_nil
  | cons task rest ih =>
      have hleaf : T.hostTree x task yHat self
          = (pure (.leaf, self, zeros ω x.size) :
            Proc (Message Nat ω σ η) _ _) := by
        rw [stops_iff] at h
        rw [Training.hostTree, hostTreeConstruct, if_pos h]
      rw [Training.hostLoop, hleaf]
      refine .send (by decide) (.send (by decide) ?_)
      refine (ih _ self).bind fun r hr => .ret fun tree htree => ?_
      obtain rfl | htree := List.mem_cons.mp htree
      · rfl
      · exact hr tree htree

end Host

variable [Add ω] [Neg ω] [Div ω]

/-- A guest that returns at every root sends no sums. -/
theorem guestTrain_silent (h : T.Stops y.size)
    (searches : List (Searches Nat ω σ η)) (self : Party ω) :
    Silent Tag.encrypteGhSums (fun r => ∀ grown ∈ r.1, grown.tree = .leaf)
      (guestTrain T.settings (fun _ => y) searches self) := by
  rw [stops_iff] at h
  induction searches generalizing self with
  | nil => exact .ret fun grown hgrown => absurd hgrown List.not_mem_nil
  | cons search rest ih =>
      have hleaf : ∀ ghEn : Frame Nat η,
          guestTreeConstruct T.settings search [] y ghEn 0 self
            = (pure (.leaf, self) : Proc (Message Nat ω σ η) _ _) := by
        intro ghEn
        rw [guestTreeConstruct, if_pos h]
      refine .recv fun sampleIds => .recv fun ghEn => ?_
      have hrest : Silent Tag.encrypteGhSums
          (fun r => ∀ grown ∈ r.1, grown.tree = .leaf)
          (guestTreeConstruct T.settings search [] y ghEn 0 self >>=
            fun r => guestTrain T.settings (fun _ => y) rest r.2 >>=
              fun later => pure (r.2.grown r.1 :: later.1, later.2)) := by
        rw [hleaf ghEn]
        refine (ih self).bind fun r hr => .ret fun grown hgrown => ?_
        obtain rfl | hgrown := List.mem_cons.mp hgrown
        · rfl
        · exact hr grown hgrown
      exact hrest

theorem guestTree_waits {task : TreeTask ω σ η} {gh : Frame Nat (Grad ω)}
    (hy : ¬ T.Stops y.size) (hys : y.size ≠ 0) (self : Party ω) :
    Waits Tag.bestCut (T.guestTree y task gh self) := by
  rw [stops_iff] at hy
  rw [Training.guestTree, guestTreeConstruct, if_neg hy, if_neg hys]
  have hsplit : Waits Tag.bestCut
      (guestSplit T.settings task.search [] y (task.ghEn gh) self) :=
    .send .recv
  exact hsplit.bind _

/-- A split of the root that does not fit the tables. -/
theorem exists_fails_of_not_rootFits (hd : Delivered x y)
    {task : TreeTask ω σ η} {yHat : Frame Nat ω}
    (hx : ¬ T.Stops x.size) (hy : ¬ T.Stops y.size) (hxs : x.size ≠ 0)
    (hys : y.size ≠ 0)
    (h : ¬ Training.RootFits x y (task.rootDecision x y (T.gh x.size yHat)))
    (self self' : Party ω) :
    ∃ p' q', Meet (T.hostTree x task yHat self)
      (T.guestTree y task (T.gh x.size yHat) self') p' q' ∧ Fails p' q' := by
  rw [stops_iff] at hx hy
  refine exists_fails_of_not_found hx hy hxs hys (fun hfound => h ?_) self self'
  have hd' : decisionAt task.search [] x y (T.gh x.size yHat)
      (task.ghEn (T.gh x.size yHat))
      = task.rootDecision x y (T.gh x.size yHat) := rfl
  rw [hd'] at hfound
  generalize task.rootDecision x y (T.gh x.size yHat) = d at hfound
  cases d with
  | stop => trivial
  | host => exact ⟨hd.index_eq yHat hfound.1, hfound.2⟩
  | guest =>
      exact ⟨hd.index_eq_of_guest yHat hfound.2 hfound.1, hfound.2⟩

/-- A tree that does not fit. -/
theorem exists_fails_of_not_treeFits (hd : Delivered x y)
    (hstops : T.Stops x.size ↔ T.Stops y.size) {task : TreeTask ω σ η}
    {yHat : Frame Nat ω} (h : ¬ T.TreeFits x y task yHat)
    (self self' : Party ω) :
    ∃ p' q', Meet (T.hostTree x task yHat self)
      (T.guestTree y task (T.gh x.size yHat) self') p' q' ∧ Fails p' q' := by
  by_cases hx : T.Stops x.size
  · exact absurd ⟨hstops, fun hn => absurd hx hn, fun hn => absurd hx hn⟩ h
  have hy : ¬ T.Stops y.size := mt hstops.mpr hx
  by_cases hxs : x.size = 0
  · by_cases hys : y.size = 0
    · exact absurd ⟨hstops, fun _ => iff_of_true hxs hys,
        fun _ hn => absurd hxs hn⟩ h
    · have hraise : T.hostTree x task yHat self
          = (.raise .overflowError : Proc (Message Nat ω σ η) _ _) := by
        rw [stops_iff] at hx
        rw [Training.hostTree, hostTreeConstruct, if_neg hx, if_pos hxs]
      rw [hraise]
      exact ⟨_, _, .refl _ _, .guestWaits (guestTree_waits hy hys self')⟩
  · by_cases hys : y.size = 0
    · have hraise : T.guestTree y task (T.gh x.size yHat) self'
          = (.raise .overflowError : Proc (Message Nat ω σ η) _ _) := by
        rw [stops_iff] at hy
        rw [Training.guestTree, guestTreeConstruct, if_neg hy, if_pos hys]
      rw [hraise]
      exact ⟨_, _, .refl _ _, .hostWaits (hostTree_waits hx hxs self)⟩
    · refine exists_fails_of_not_rootFits hd hx hy hxs hys (fun hroot => h ?_)
        self self'
      exact ⟨hstops, fun _ => iff_of_false hxs hys, fun _ _ => hroot⟩

variable [Mul ω]

/-- The first tree that does not fit. -/
theorem exists_fails_of_not_treesFit (hd : Delivered x y)
    (hstops : T.Stops x.size ↔ T.Stops y.size)
    (tasks : List (TreeTask ω σ η)) {yHat : Frame Nat ω}
    {self self' : Party ω} (h : ¬ T.TreesFit x y tasks yHat self self') :
    ∃ p' q', Meet (T.hostLoop x tasks yHat self)
      (guestTrain T.settings (fun _ => y) (tasks.map (·.search)) self') p' q'
        ∧ Fails p' q' := by
  induction tasks generalizing yHat self self' with
  | nil => exact absurd trivial h
  | cons task rest ih =>
      by_cases hfits : T.TreeFits x y task yHat
      · have hlater : ∃ tree fT host' guest',
            Sync (T.hostTree x task yHat self)
                (T.guestTree y task (T.gh x.size yHat) self')
                (.ok (tree, host', fT)) (.ok (tree, guest'))
              ∧ ¬ T.TreesFit x y rest (T.addTree yHat fT) host' guest' := by
          by_contra hnone
          push Not at hnone
          exact h ⟨hfits, hnone⟩
        obtain ⟨tree, fT, host', guest', hsync, hrest⟩ := hlater
        obtain ⟨p', q', hmeet, hfails⟩ := ih hrest
        refine ⟨_, _, Meet.put_get (Meet.put_get (Meet.bind hsync
          (hmeet.bind_left _ _))), hfails.bind _ _⟩
      · obtain ⟨p', q', hmeet, hfails⟩ :=
          exists_fails_of_not_treeFits hd hstops hfits self self'
        exact ⟨_, _, Meet.put_get (Meet.put_get (hmeet.bind_left _ _)),
          hfails.bind _ _⟩

/-- One party returns at every root, and the other one waits for it. -/
theorem not_lockStep_of_stops (htrees : T.trees ≠ [])
    (h : ¬ (T.Stops x.size ↔ T.Stops y.size))
    {R : Except Raised (Scores ω) → Except Raised (List (Grown ω)) → Prop} :
    ¬ LockStep (T.myFit x) (T.guestSide y) R := by
  obtain ⟨task, rest, hcons⟩ := List.exists_cons_of_ne_nil htrees
  have hmyFit : T.myFit x = T.hostLoop x (task :: rest) (T.base x.size)
      (Party.fresh ω) >>= fun r =>
        (predictRaw T.learningRate r.2.1.lookupTable x.resetIndex r.1
          (T.base x.size) >>= fun y => pure ⟨r.2.2, y⟩ :
            Proc (Message Nat ω σ η) _ _) := by
    rw [← hcons]
    rfl
  have hguest : T.guestSide y = guestTrain T.settings (fun _ => y)
      ((task :: rest).map (·.search)) (Party.fresh ω) >>= fun r =>
        (guestPredict r.2.lookupTable y (r.1.map (·.tree)) >>= fun _ =>
          pure r.1 : Proc (Message Nat ω σ η) _ _) := by
    rw [← hcons]
    rfl
  rw [hmyFit, hguest]
  by_cases hx : T.Stops x.size
  · have hy : ¬ T.Stops y.size := fun hy => h (iff_of_true hx hy)
    have hys : y.size ≠ 0 := by
      rw [stops_iff] at hx hy
      omega
    refine not_lockStep_of_waits (Q := fun _ => True)
      ((Meet.put_get (Meet.put_get (.refl _ _))).bind_left _ _) ?_
      (((guestTree_waits hy hys _).bind _).bind _)
    refine (hostLoop_silent hx (task :: rest) (T.base x.size)
      (Party.fresh ω)).of_put.of_put.bind fun r hr => ?_
    exact (predictRaw_silent hr _).bind fun _ _ => .ret trivial
  · have hy : T.Stops y.size := by
      by_contra hy
      exact h (iff_of_false hx hy)
    have hxs : x.size ≠ 0 := by
      rw [stops_iff] at hx hy
      omega
    refine not_lockStep_of_waits_left (Q := fun _ => True)
      ((Meet.put_get (Meet.put_get (.refl _ _))).bind_left _ _)
      (((hostTree_waits hx hxs _).bind _).bind _) ?_
    refine (((guestTrain_silent hy ((task :: rest).map (·.search))
      (Party.fresh ω)).of_get none).of_get _).bind fun r hr => ?_
    refine (guestPredict_silent fun tree htree => ?_).bind fun _ _ =>
      .ret trivial
    obtain ⟨grown, hgrown, rfl⟩ := List.mem_map.mp htree
    exact hr grown hgrown

/-- Where some tree does not fit, the scores are not predicted. -/
theorem not_scoresPredicted (hd : Delivered x y) (h : ¬ T.RunFits x y) :
    ¬ T.ScoresPredicted x y := by
  by_cases hstops : T.Stops x.size ↔ T.Stops y.size
  · obtain ⟨p', q', hmeet, hfails⟩ :=
      exists_fails_of_not_treesFit hd hstops T.trees h
    exact (hfails.bind _ _).not_lockStep (hmeet.bind_left _ _)
      fun u v huv => ⟨huv.1, huv.2.1⟩
  · refine not_lockStep_of_stops (fun hnil => h ?_) hstops
    rw [Training.RunFits, hnil]
    trivial

end Unfit

-- ======================================================= scores predicted

/-- One tree, of the linear objective, whose root the host splits. -/
def oneSplit : Training Int Int Int Int where
  settings := ⟨1, 1, 1⟩
  baseScore := 0
  learningRate := 1
  gradHess score label := ⟨score - label, 1⟩
  y p := p
  trees := [
    { search :=
        { hostBestCut := fun node _ _ =>
            if node = [] then some ⟨5, 7, "age", 30, 3⟩ else none
          sums := fun _ _ _ => 0
          guestBestCut := fun _ _ _ => none }
      encrypt := fun _ grad => grad.g }]

theorem oneSplit_runFits {x y : Table Nat Int}
    (hx : x.index = .range x.size) (hy : y.Has x.index)
    (hsize : x.size = y.size) : oneSplit.RunFits x y := by
  refine ⟨⟨?_, ?_, fun _ _ => ⟨hx, hy⟩⟩, fun _ _ _ _ _ => trivial⟩
  · rw [hsize]
  · intro _
    rw [hsize]

end PrimiHub.FL
