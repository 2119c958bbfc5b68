/-
Training and prediction, in lock step.

Round by round the parties meet at the sample and the encrypted
gradients, build the tree (`construct_synced`) and keep counting alike
(`train_synced`). In the prediction both walk the same trees in the same
order; at a node with the key `(role, record)` the party `role` finds
the record in its own lookup table and sends `<record>_ids`, and the
other waits for exactly that (`predict_synced`). No two nodes have one
key, so a tag in one direction belongs to one node.
-/
import Mathlib.Data.List.Flatten
import PrimiHub.FL.Proofs.Construct
import PrimiHub.FL.Scores

namespace PrimiHub.FL

open Lib

variable {ι ν ω σ η : Type}

-- ============================================================= prediction

/-- Each party can look up its own keys. -/
structure Owned (hostLookup guestLookup : Nat → Option (String × ω))
    (tree : Tree ω) : Prop where
  host : ∀ r, (Role.host, r) ∈ tree.keys → (hostLookup r).isSome
  guest : ∀ r, (Role.guest, r) ∈ tree.keys → (guestLookup r).isSome

theorem Owned.left {hostLookup guestLookup : Nat → Option (String × ω)}
    {role : Role} {record : Nat} {wLeft wRight : ω} {left right : Tree ω}
    (h : Owned hostLookup guestLookup
      (.node role record wLeft left wRight right)) :
    Owned hostLookup guestLookup left where
  host r hr := h.host r (List.mem_cons_of_mem _ (List.mem_append_left _ hr))
  guest r hr := h.guest r (List.mem_cons_of_mem _ (List.mem_append_left _ hr))

theorem Owned.right {hostLookup guestLookup : Nat → Option (String × ω)}
    {role : Role} {record : Nat} {wLeft wRight : ω} {left right : Tree ω}
    (h : Owned hostLookup guestLookup
      (.node role record wLeft left wRight right)) :
    Owned hostLookup guestLookup right where
  host r hr := h.host r (List.mem_cons_of_mem _ (List.mem_append_right _ hr))
  guest r hr :=
    h.guest r (List.mem_cons_of_mem _ (List.mem_append_right _ hr))

/-- What both have after a node: the same rows on both sides. -/
structure VisitAgree (test : Table ι ω) (host guest : Table ι ω × Table ι ω) :
    Prop where
  left : SameIndex host.1 guest.1
  right : SameIndex host.2 guest.2
  hasLeft : test.Has host.1.index
  hasRight : test.Has host.2.index

section Visit

variable [DecidableEq ι] [LT ω] [DecidableLT ω] [LE ω] [DecidableLE ω]
  {E : Raised → Prop}

/-- The rows of the ids that the other party sent. -/
theorem otherVisit_eq {test test' : Table ι ω} (h : SameIndex test test')
    (var : String) (cut : ω) :
    test'.loc (testLeft test var cut).index
        = .ok ⟨(testLeft test var cut).index, test'.row⟩
      ∧ test'.loc (testRight test var cut).index
        = .ok ⟨(testRight test var cut).index, test'.row⟩ := by
  constructor
  · exact Frame.loc_of_has ((test.has_filter _).of_sameIndex h)
  · exact Frame.loc_of_has ((test.has_filter _).of_sameIndex h)

/-- A node of the host. -/
theorem visit_host_synced {lookup : Nat → Option (String × ω)}
    {record : Nat} {test test' : Table ι ω} (h : SameIndex test test')
    (howned : (lookup record).isSome) :
    Settles (ownVisit lookup record test : Proc (Message ι ω σ η) _ _)
      (otherVisit record test') E (VisitAgree test) := by
  obtain ⟨⟨var, cut⟩, hentry⟩ := Option.isSome_iff_exists.mp howned
  have hlookup : lookupRecord lookup record = .ok (var, cut) := by
    rw [lookupRecord, hentry]
  obtain ⟨hleft, hright⟩ := otherVisit_eq h var cut
  unfold ownVisit otherVisit
  rw [hlookup, Proc.lift_ok, Proc.ret_bind]
  apply Settles.put_get
  simp only [hleft, hright, Proc.lift_ok, Proc.ret_bind]
  exact Settles.ret ⟨fun _ => Iff.rfl, fun _ => Iff.rfl, test.has_filter _,
    test.has_filter _⟩

/-- A node of the guest. -/
theorem visit_guest_synced {lookup : Nat → Option (String × ω)}
    {record : Nat} {test test' : Table ι ω} (h : SameIndex test test')
    (howned : (lookup record).isSome) :
    Settles (otherVisit record test : Proc (Message ι ω σ η) _ _)
      (ownVisit lookup record test') E (VisitAgree test) := by
  obtain ⟨⟨var, cut⟩, hentry⟩ := Option.isSome_iff_exists.mp howned
  have hlookup : lookupRecord lookup record = .ok (var, cut) := by
    rw [lookupRecord, hentry]
  obtain ⟨hleft, hright⟩ := otherVisit_eq h.symm var cut
  unfold ownVisit otherVisit
  rw [hlookup, Proc.lift_ok, Proc.ret_bind]
  apply Settles.get_put
  simp only [hleft, hright, Proc.lift_ok, Proc.ret_bind]
  exact Settles.ret ⟨fun _ => Iff.rfl, fun _ => Iff.rfl,
    (test'.has_filter _).of_sameIndex h.symm,
    (test'.has_filter _).of_sameIndex h.symm⟩

/-- Both walk one tree, and meet at every node. -/
theorem traverse_synced {hostLookup guestLookup : Nat → Option (String × ω)}
    (tree : Tree ω) {test test' : Table ι ω} {w : Frame ι ω}
    (h : SameIndex test test') (hw : w.Has test.index)
    (howned : Owned hostLookup guestLookup tree) :
    Settles
      (hostGetTreeNodeWeight hostLookup tree test w :
        Proc (Message ι ω σ η) _ _)
      (guestGetTreeIds guestLookup tree test') E
      fun w' _ => w'.index = w.index := by
  induction tree generalizing test test' w with
  | leaf => exact Settles.ret rfl
  | node role record wLeft left wRight right ihl ihr =>
      have hvisit : Settles
          (hostVisit hostLookup record test role :
            Proc (Message ι ω σ η) _ _)
          (guestVisit guestLookup record test' role) E (VisitAgree test) := by
        cases role with
        | host => exact visit_host_synced h (howned.host _ List.mem_cons_self)
        | guest =>
            exact visit_guest_synced h (howned.guest _ List.mem_cons_self)
      apply Settles.bind hvisit
      rintro ⟨testLeft, testRight⟩ ⟨testLeft', testRight'⟩ - hagree
      obtain ⟨w₁, hw₁, hindex₁⟩ :=
        w.assign_of_has wLeft (hw.trans hagree.hasLeft)
      obtain ⟨w₂, hw₂, hindex₂⟩ :=
        w₁.assign_of_has wRight ((hw.trans hagree.hasRight).of_index hindex₁)
      have hindex : w₂.index = w.index := hindex₂.trans hindex₁
      simp only [hw₁, hw₂, Proc.lift_ok, Proc.ret_bind]
      have hwl : w₂.Has testLeft.index :=
        (hw.trans hagree.hasLeft).of_index hindex
      apply Settles.bind (ihl hagree.left hwl howned.left)
      intro w₃ _ _ hindex₃
      have hwr : w₃.Has testRight.index :=
        (hw.trans hagree.hasRight).of_index (hindex₃.trans hindex)
      apply (ihr hagree.right hwr howned.right).mono
      intro w₄ _ hindex₄
      rw [hindex₄, hindex₃, hindex]

/-- Both walk all trees; a tree without a split needs no rows. -/
theorem predict_synced [Zero ω] [Add ω] [Mul ω] {learningRate : ω}
    {hostLookup guestLookup : Nat → Option (String × ω)}
    (trees : List (Tree ω)) {test test' : Table ι ω} {y : Frame ι ω}
    (h : ∀ tree ∈ trees, tree = .leaf ∨ SameIndex test test')
    (howned : ∀ tree ∈ trees, Owned hostLookup guestLookup tree) :
    Settles
      (predictRaw learningRate hostLookup test trees y :
        Proc (Message ι ω σ η) _ _)
      (guestPredict guestLookup test' trees) E fun _ _ => True := by
  induction trees generalizing y with
  | nil => exact Settles.ret trivial
  | cons tree rest ih =>
      have hrest := fun y => ih (y := y)
        (fun tree' htree' => h tree' (List.mem_cons_of_mem _ htree'))
        fun tree' htree' => howned tree' (List.mem_cons_of_mem _ htree')
      obtain rfl | hsame := h tree List.mem_cons_self
      · exact hrest _
      · apply Settles.bind (traverse_synced tree hsame (fun _ hi => hi)
          (howned tree List.mem_cons_self))
        intro yT _ _ _
        exact hrest _

end Visit

-- =============================================================== training

/-- What both have after some rounds: the trees so far, numbered one
after the other. -/
structure TrainAgree (rounds : Nat) (before : Party ω)
    (host guest : List (Grown ω) × Party ω) : Prop where
  same : host.1 = guest.1
  count : host.1.length = rounds
  inStep : InStep host.2 guest.2
  le : ∀ role, before.record role ≤ host.2.record role
  range : ∀ key ∈ host.1.flatMap (·.tree.keys),
    before.record key.1 ≤ key.2 ∧ key.2 < host.2.record key.1
  nodup : (host.1.flatMap (·.tree.keys)).Nodup

/-- A tree before the others. -/
theorem TrainAgree.cons {rounds : Nat} {before host guest : Party ω}
    {tree : Tree ω} {hostRest guestRest : List (Grown ω) × Party ω}
    (htree : Numbered tree before host) (hstep : InStep host guest)
    (h : TrainAgree rounds host hostRest guestRest) :
    TrainAgree (rounds + 1) before
      (host.grown tree :: hostRest.1, hostRest.2)
      (guest.grown tree :: guestRest.1, guestRest.2) where
  same := by
    show Grown.mk _ _ _ :: hostRest.1 = Grown.mk _ _ _ :: guestRest.1
    rw [hstep.hostRecord, hstep.guestRecord, h.same]
  count := congrArg (· + 1) h.count
  inStep := h.inStep
  le role := Nat.le_trans (htree.le role) (h.le role)
  range := by
    intro key hkey
    have h₁ := htree.le key.1
    have h₂ := h.le key.1
    obtain hkey | hkey := List.mem_append.mp hkey
    · have hk := htree.range key hkey
      exact ⟨hk.1, Nat.lt_of_lt_of_le hk.2 h₂⟩
    · have hk := h.range key hkey
      exact ⟨Nat.le_trans h₁ hk.1, hk.2⟩
  nodup := by
    apply List.nodup_append.mpr
    refine ⟨htree.nodup, h.nodup, ?_⟩
    intro a ha b hb hab
    have h₁ := (htree.range a ha).2
    have h₂ := (h.range b hb).1
    rw [hab] at h₁
    omega

/-- The keys of one of the trees. -/
theorem TrainAgree.owned {rounds : Nat} {before : Party ω}
    {host guest : List (Grown ω) × Party ω}
    (h : TrainAgree rounds before host guest) {grown : Grown ω}
    (hgrown : grown ∈ host.1) :
    Owned host.2.lookupTable guest.2.lookupTable grown.tree where
  host := by
    intro r hr
    have hkey : (Role.host, r) ∈ host.1.flatMap (·.tree.keys) :=
      List.mem_flatMap.mpr ⟨grown, hgrown, hr⟩
    exact h.inStep.hostLookup r (h.range _ hkey).2
  guest := by
    intro r hr
    have hkey : (Role.guest, r) ∈ host.1.flatMap (·.tree.keys) :=
      List.mem_flatMap.mpr ⟨grown, hgrown, hr⟩
    apply h.inStep.guestLookup
    rw [← h.inStep.guestRecord]
    exact (h.range _ hkey).2

variable {T : Training ν ω σ η} {x y : Table Nat ω}

/-- Frames with the same labels are sampled alike. -/
theorem Frame.sampled_index {ρ ρ' : Type} {u : Frame Nat ρ}
    {v : Frame Nat ρ'} (h : u.index = v.index)
    (sampleIds : Option (List Nat)) :
    (u.sampled sampleIds).index = (v.sampled sampleIds).index := by
  cases sampleIds with
  | none => exact h
  | some positions =>
      rw [Frame.sampled, Frame.sampled, Frame.iloc, Frame.iloc]
      simp only [h]

theorem amplify_index [Mul ω] {n : Nat} (gh : Frame Nat (Grad ω))
    (draw : Option (Draw ω n)) : (amplify gh draw).index = gh.index := by
  cases draw <;> rfl

/-- The searches of the turns are those of the trees. -/
theorem zip_searches {trees : List (TreeTask ω σ η)} {n : Nat}
    {draws : List (Option (Draw ω n))} (h : trees.length = draws.length) :
    (trees.zip draws).map (·.1.search) = trees.map (·.search) := by
  have hzip := List.map_fst_zip (Nat.le_of_eq h)
  conv_rhs => rw [← hzip, List.map_map]
  rfl

variable [Zero ω] [DecidableEq ω] [LT ω] [DecidableLT ω] [Add ω] [Mul ω]

/-- Without samples the loop is `hostLoop`, with the records beside the
trees. -/
theorem hostTrain_unsampled (T : Training ν ω σ η) (x : Table Nat ω)
    (tasks : List (TreeTask ω σ η)) (yHat : Frame Nat ω) (self : Party ω) :
    (T.hostTrain x (tasks.map fun task => (task, none)) yHat self >>= fun r =>
        pure (r.1.map (·.tree), r.2))
      = T.hostLoop x tasks yHat self := by
  induction tasks generalizing yHat self with
  | nil => rfl
  | cons task rest ih =>
      refine congrArg (Proc.send _ _) (congrArg (Proc.send _ _) ?_)
      refine (Proc.bind_assoc (T.hostTree x task yHat self) _ _).trans ?_
      refine congrArg (T.hostTree x task yHat self >>= ·) (funext ?_)
      rintro ⟨tree, host, fT⟩
      show _ = T.hostLoop x rest (T.addTree yHat fT) host >>= _
      rw [← ih]
      refine (Proc.bind_assoc _ _ _).trans (Eq.symm ?_)
      exact (Proc.bind_assoc _ _ _).trans rfl

variable [Neg ω] [Div ω]

/-- Both build one tree from a sample that fits. -/
theorem turn_synced (T : Training ν ω σ η) (task : TreeTask ω σ η)
    {draw : Option (Draw ω x.size)} (yHat : Frame Nat ω)
    {self self' : Party ω} (hfits : DrawFits x y draw)
    (h : InStep self self') :
    Settles
      (hostTreeConstruct T.settings task.search []
        (x.sampled (draw.map Draw.ids))
        ((zeros ω x.size).sampled (draw.map Draw.ids)) 0
        ((amplify (T.gh x.size yHat) draw).sampled (draw.map Draw.ids)) self)
      (guestTreeConstruct T.settings task.search []
        (y.sampled (draw.map Draw.ids))
        (task.ghEn ((amplify (T.gh x.size yHat) draw).sampled
          (draw.map Draw.ids))) 0 self')
      (Overflows T.settings)
      (TreeAgree (x.sampled (draw.map Draw.ids)) self
        ((zeros ω x.size).sampled (draw.map Draw.ids))) := by
  -- the gradients and `f_t` are over the positions
  have hgh : ((amplify (T.gh x.size yHat) draw).sampled
      (draw.map Draw.ids)).index
      = ((zeros ω x.size).sampled (draw.map Draw.ids)).index :=
    Frame.sampled_index (v := zeros ω x.size) (amplify_index _ draw) _
  have hhas : ((amplify (T.gh x.size yHat) draw).sampled
      (draw.map Draw.ids)).Has (x.sampled (draw.map Draw.ids)).index := by
    intro i hi
    rw [hgh]
    exact (hfits.positions i).mp hi
  exact construct_synced [] _ _ _ 0 _ _ self self' hfits.guest
    (fun i hi => (hfits.positions i).mp hi) hhas (fun i hi => hhas i hi) h

/-- Both build all trees; where a tree is split there was a row. -/
theorem train_synced (turns : List (TreeTask ω σ η × Option (Draw ω x.size)))
    {yHat : Frame Nat ω} {self self' : Party ω}
    (hfits : ∀ turn ∈ turns, DrawFits x y turn.2) (h : InStep self self') :
    Settles (T.hostTrain x turns yHat self)
      (guestTrain T.settings y.sampled (turns.map (·.1.search)) self')
      (Overflows T.settings) fun host guest =>
        TrainAgree turns.length self (host.1, host.2.1) guest
          ∧ ∀ grown ∈ host.1, grown.tree = .leaf
            ∨ ∃ turn ∈ turns, (x.sampled (turn.2.map Draw.ids)).size ≠ 0 := by
  induction turns generalizing yHat self self' with
  | nil =>
      refine Settles.ret ⟨?_, fun _ hgrown => absurd hgrown List.not_mem_nil⟩
      exact
        { same := rfl
          count := rfl
          inStep := h
          le := fun _ => Nat.le_refl _
          range := fun key hkey => absurd hkey List.not_mem_nil
          nodup := List.nodup_nil }
  | cons turn rest ih =>
      obtain ⟨task, draw⟩ := turn
      have hturn : DrawFits x y draw := hfits _ List.mem_cons_self
      apply Settles.put_get
      apply Settles.put_get
      apply Settles.bind (turn_synced T task yHat hturn h)
      rintro ⟨tree, host, fT⟩ ⟨tree', guest⟩ - htree
      obtain rfl : tree = tree' := htree.same
      apply Settles.bind (ih (fun turn' hturn' =>
        hfits turn' (List.mem_cons_of_mem _ hturn')) htree.inStep)
      rintro ⟨hostRest, host₁, yHat₁⟩ guestRest - ⟨hagree, hleaf⟩
      refine Settles.ret
        ⟨hagree.cons htree.numbered htree.inStep, fun grown hgrown => ?_⟩
      obtain rfl | hgrown := List.mem_cons.mp hgrown
      · by_cases hempty : (x.sampled (draw.map Draw.ids)).size = 0
        · exact Or.inl (htree.leaf hempty)
        · exact Or.inr ⟨_, List.mem_cons_self, hempty⟩
      · refine (hleaf grown hgrown).imp_right ?_
        rintro ⟨turn', hturn', hsize⟩
        exact ⟨turn', List.mem_cons_of_mem _ hturn', hsize⟩

variable [LE ω] [DecidableLE ω]

/-- Where the labels fit, host and guest train and predict in step. -/
theorem fitInStep_of_labelsFit {draws : List (Option (Draw ω x.size))}
    (hxy : SameIndex x y) (h : LabelsFit x y draws)
    (hlength : T.trees.length = draws.length) : T.FitInStep x y draws := by
  have hsettles : Settles (T.hostFit x draws)
      (guestFit T.settings y.sampled (T.trees.map (·.search)) y)
      (Overflows T.settings) (SameTrees draws.length) := by
    rw [Training.hostFit, guestFit, ← zip_searches hlength]
    apply Settles.bind (train_synced (T.trees.zip draws)
      (fun turn hturn => h.rows _ (List.of_mem_zip hturn).2) InStep.fresh)
    rintro ⟨trees, host, yHat⟩ ⟨trees', guest⟩ - ⟨hagree, hleaf⟩
    obtain rfl : trees = trees' := hagree.same
    have howned : ∀ tree ∈ trees.map (·.tree),
        Owned host.lookupTable guest.lookupTable tree := by
      intro tree htree
      obtain ⟨grown, hgrown, rfl⟩ := List.mem_map.mp htree
      exact hagree.owned hgrown
    have hrows : ∀ tree ∈ trees.map (·.tree),
        tree = .leaf ∨ SameIndex x.resetIndex y := by
      intro tree htree
      obtain ⟨grown, hgrown, rfl⟩ := List.mem_map.mp htree
      refine (hleaf grown hgrown).imp_right ?_
      rintro ⟨turn, hturn, hsize⟩ i
      have hpositions := h.positions ⟨_, (List.of_mem_zip hturn).2, hsize⟩
      exact (hpositions i).symm.trans (hxy i)
    apply Settles.bind (predict_synced _ hrows howned)
    intro scores _ _ _
    refine Settles.ret ⟨rfl, ?_, hagree.nodup⟩
    rw [hagree.count, List.length_zip, hlength, Nat.min_self]
  exact hsettles.lockStep

end PrimiHub.FL
