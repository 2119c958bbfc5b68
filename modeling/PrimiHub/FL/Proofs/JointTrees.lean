/-
Two parties grow the trees of one.

A tree of the parties stands for a `JointTree` once both lookup tables are
known: a record stands for its column and cut (`Stored`). At a node the
parties exchange what one party compares (`split_as_best`), and then both
take the rows that one party would (`construct_jointly`). The weights
that the host writes are those of the joint tree, so the scores it computes
the next gradients from are the scores of one party (`loop_jointly`). What
both save therefore answers a prediction task as the model of one party
does (`predict_stored`).
-/
import PrimiHub.FL.JointTrees
import PrimiHub.FL.Proofs.RowLabels
import PrimiHub.Lib.Traverse

namespace PrimiHub.FL

open Lib

variable {ι ν ω σ η : Type}

-- ============================================================= stored trees

/-- With these lookup tables, the tree is the joint one. -/
inductive Stored (l : Lookups ω) : Tree ω → JointTree ω → Prop
  | leaf : Stored l .leaf .leaf
  | node {role record var cut wLeft wRight left right left' right'}
      (h : l.of role record = some (var, cut)) (hleft : Stored l left left')
      (hright : Stored l right right') :
      Stored l (.node role record wLeft left wRight right)
        (.node role var cut wLeft left' wRight right')

theorem Stored.owned {l : Lookups ω} {tree : Tree ω} {joint : JointTree ω}
    (h : Stored l tree joint) : Owned l.host l.guest tree := by
  induction h with
  | leaf => exact .leaf l
  | node hentry _ _ ihl ihr => exact .node hentry ihl ihr

/-- It gives a row the weight of the joint one. -/
theorem Stored.weightOf [LT ω] [DecidableLT ω] {l : Lookups ω}
    {tree : Tree ω} {joint : JointTree ω} (h : Stored l tree joint)
    (row : Role → String → ω) (w : ω) :
    tree.weightOf l row w = joint.weight row w := by
  induction h generalizing w with
  | leaf => rfl
  | node hentry _ _ ihl ihr =>
      rw [Tree.weightOf_node hentry, ihl, ihr]
      rfl

/-- A table's row, as its parts have it. -/
theorem bothRows_part (z : JointTable ι ω) (i : ι) :
    bothRows (z.part .host).row (z.part .guest).row i = z.row i := by
  funext role
  cases role with
  | host => rfl
  | guest => rfl

-- =================================================================== a split

/-- A split of one party, as the parties carry it out. -/
def JointSplit.idsW [LT ω] [DecidableLT ω] (best : JointSplit ω)
    (z : JointTable ι ω) : IdsW ι ω :=
  { splitIds (z.part best.role) best.var best.cut with
    wLeft := best.wLeft, wRight := best.wRight }

/-- What the parties leave at a node. -/
inductive SplitDone [LT ω] [DecidableLT ω] (z : JointTable ι ω)
    (self self' : Party ω) : Option (JointSplit ω) →
      Option (Split ι ω) × Party ω → Option (Split ι ω) × Party ω → Prop
  | stop : SplitDone z self self' none (none, self) (none, self')
  | host (best : JointSplit ω) (h : best.role = .host) :
      SplitDone z self self' (some best)
        (some ⟨.host, self.hostRecord, best.idsW z⟩,
          self.own (best.var, best.cut) .host)
        (some ⟨.host, self'.hostRecord, best.idsW z⟩, self'.other .host)
  | guest (best : JointSplit ω) (h : best.role = .guest) :
      SplitDone z self self' (some best)
        (some ⟨.guest, self.guestRecord, best.idsW z⟩, self.other .guest)
        (some ⟨.guest, self'.guestRecord, best.idsW z⟩,
          self'.own (best.var, best.cut) .guest)

/-- The searches of the parties, as one party asks them; `e` encrypts. -/
def Searches.joint (search : Searches ι ω σ η) (e : ι → Grad ω → η) :
    JointSearch ι ω where
  host := search.hostBestCut
  guest node y gh :=
    search.guestBestCut node
      (search.sums node y ⟨gh.index, fun i => e i (gh.row i)⟩) gh

section Split

variable [LT ω] [DecidableLT ω] [Zero ω] [DecidableEq ω] [Neg ω] [Add ω]
  [Div ω]

theorem split_as_best (settings : Settings ω) (search : Searches ι ω σ η)
    (e : ι → Grad ω → η) (node : List Branch) (z : JointTable ι ω)
    (gh : Frame ι (Grad ω)) (self self' : Party ω) :
    ∃ a b, Sync (hostSplit search node (z.part .host) gh self)
        (guestSplit settings search node (z.part .guest)
          ⟨gh.index, fun i => e i (gh.row i)⟩ self') (.ok a) (.ok b)
      ∧ SplitDone z self self'
        (bestSplit settings.regLambda
          ((search.joint e).host node (z.part .host) gh)
          ((search.joint e).guest node (z.part .guest) gh)) a b := by
  have hjointly : Jointly (hostSplit search node (z.part .host) gh self)
      (guestSplit settings search node (z.part .guest)
        ⟨gh.index, fun i => e i (gh.row i)⟩ self')
      (.ok (bestSplit settings.regLambda
        ((search.joint e).host node (z.part .host) gh)
        ((search.joint e).guest node (z.part .guest) gh)))
      (SplitDone z self self') := by
    unfold hostSplit guestSplit Searches.joint bestSplit
    apply Jointly.get_put
    apply Jointly.put_get
    dsimp only
    generalize search.hostBestCut node (z.part .host) gh = hostBest
    generalize search.guestBestCut node (search.sums node (z.part .guest)
      ⟨gh.index, fun i => e i (gh.row i)⟩) gh = guestBest
    rw [← hostDecision_eq]
    cases hd : hostDecision (hostBest.map (·.bestGain))
      (guestBest.map (·.gain)) with
    | stop => exact Jointly.ret .stop
    | guest =>
        rw [hostDecision_eq] at hd
        have hsome := isSome_of_guestDecision hd
        cases guestBest with
        | none => cases hsome
        | some best =>
            apply Jointly.get_put
            exact Jointly.ret (.guest _ rfl)
    | host =>
        have hsome := isSome_of_hostDecision hd
        cases hostBest with
        | none => cases hsome
        | some best =>
            apply Jointly.put_get
            exact Jointly.ret (.host _ rfl)
  obtain ⟨x, y, hsync, houtcome⟩ := hjointly
  cases houtcome with
  | ok h => exact ⟨_, _, hsync, h⟩

end Split

/-- A split that is done is on record, under one number at both. -/
theorem SplitDone.of_some [LT ω] [DecidableLT ω] {z : JointTable ι ω}
    {self self' : Party ω} {best : JointSplit ω}
    {a b : Option (Split ι ω) × Party ω}
    (h : SplitDone z self self' (some best) a b)
    (hrecords : SameRecords self self') :
    ∃ record host guest,
      a = (some ⟨best.role, record, best.idsW z⟩, host)
      ∧ b = (some ⟨best.role, record, best.idsW z⟩, guest)
      ∧ SameRecords host guest
      ∧ ∀ l, Later l host guest → Later l self self'
        ∧ l.of best.role record = some (best.var, best.cut) := by
  cases h with
  | host _ hrole =>
      rw [hrole]
      refine ⟨self.hostRecord, self.own (best.var, best.cut) .host,
        self'.other .host, rfl, by rw [← hrecords.hostRecord],
        ⟨congrArg (· + 1) hrecords.hostRecord, hrecords.guestRecord⟩, ?_⟩
      exact fun l hl => later_own_host hl
  | guest _ hrole =>
      rw [hrole]
      refine ⟨self.guestRecord, self.other .guest,
        self'.own (best.var, best.cut) .guest, rfl,
        by rw [← hrecords.guestRecord],
        ⟨hrecords.hostRecord, congrArg (· + 1) hrecords.guestRecord⟩, ?_⟩
      intro l hl
      obtain ⟨hlater, hentry⟩ := later_own_guest hl
      exact ⟨hlater, by rw [hrecords.guestRecord]; exact hentry⟩

-- ==================================================================== a tree

/-- What both parties have of a joint tree. -/
structure TreeIs [LT ω] [DecidableLT ω] [DecidableEq ι] (z : JointTable ι ω)
    (fT : Frame ι ω) (before before' : Party ω) (joint : JointTree ω)
    (host : Tree ω × Party ω × Frame ι ω) (guest : Tree ω × Party ω) :
    Prop where
  same : host.1 = guest.1
  records : SameRecords host.2.1 guest.2
  index : host.2.2.index = fT.index
  later : ∀ l, Later l host.2.1 guest.2 → Later l before before'
  stored : ∀ l, Later l host.2.1 guest.2 → Stored l host.1 joint
  row : ∀ i, host.2.2.row i = if i ∈ z.index.labels then
      joint.weight (z.row i) (fT.row i) else fT.row i

section Tree

variable [DecidableEq ι] [LT ω] [DecidableLT ω]

theorem TreeIs.leaf {z : JointTable ι ω} {fT : Frame ι ω}
    {self self' : Party ω} (h : SameRecords self self') :
    TreeIs z fT self self' .leaf (.leaf, self, fT) (.leaf, self') where
  same := rfl
  records := h
  index := rfl
  later _ hl := hl
  stored _ _ := .leaf
  row i := by rw [JointTree.weight, ite_self]

/-- A split on record, and the trees of its two sides. -/
theorem TreeIs.node {z : JointTable ι ω} {best : JointSplit ω} {record : Nat}
    {fT fT₁ fT₂ fT₃ fT₄ : Frame ι ω} {leftJoint rightJoint : JointTree ω}
    {self self' host guest host₁ guest₁ host₂ guest₂ : Party ω}
    {left right : Tree ω}
    (hentry : ∀ l, Later l host guest → Later l self self'
      ∧ l.of best.role record = some (best.var, best.cut))
    (hfT₁ : fT.assign (splitIds (z.part best.role) best.var
      best.cut).idLeft best.wLeft = .ok fT₁)
    (hfT₂ : fT₁.assign (splitIds (z.part best.role) best.var
      best.cut).idRight best.wRight = .ok fT₂)
    (hindex : fT₂.index = fT.index)
    (hleftIs : TreeIs ⟨(splitIds (z.part best.role) best.var
        best.cut).idLeft, z.row⟩ fT₂ host guest leftJoint
      (left, host₁, fT₃) (left, guest₁))
    (hrightIs : TreeIs ⟨(splitIds (z.part best.role) best.var
        best.cut).idRight, z.row⟩ fT₃ host₁ guest₁ rightJoint
      (right, host₂, fT₄) (right, guest₂)) :
    TreeIs z fT self self'
      (.node best.role best.var best.cut best.wLeft leftJoint best.wRight
        rightJoint)
      (.node best.role record best.wLeft left best.wRight right, host₂, fT₄)
      (.node best.role record best.wLeft left best.wRight right,
        guest₂) where
  same := rfl
  records := hrightIs.records
  index := hrightIs.index.trans (hleftIs.index.trans hindex)
  later l hl := (hentry l (hleftIs.later l (hrightIs.later l hl))).1
  stored l hl := by
    have hlater := hrightIs.later l hl
    exact .node (hentry l (hleftIs.later l hlater)).2
      (hleftIs.stored l hlater) (hrightIs.stored l hl)
  row i := by
    obtain ⟨hleft, hright⟩ :=
      mem_splitIds (z.part best.role) best.var best.cut
    rw [row_of_sides (f := fun i => leftJoint.weight (z.row i))
      (g := fun i => rightJoint.weight (z.row i))
      (Frame.assign_row hfT₁) (Frame.assign_row hfT₂) hleftIs.row
      hrightIs.row (fun i hl hr => ((hright i).mp hr).2 ((hleft i).mp hl).2)]
    show (if i ∈ (splitIds (z.part best.role) best.var
        best.cut).idLeft.labels then _
      else if i ∈ (splitIds (z.part best.role) best.var
        best.cut).idRight.labels then _ else _) = _
    simp only [hleft, hright]
    by_cases hi : i ∈ (z.part best.role).index.labels
    · rw [if_pos (show i ∈ z.index.labels from hi), JointTree.weight]
      by_cases hside : (z.part best.role).row i best.var < best.cut
      · rw [if_pos ⟨hi, hside⟩]
        exact (if_pos hside).symm
      · rw [if_neg (fun h => hside h.2), if_pos ⟨hi, hside⟩]
        exact (if_neg hside).symm
    · rw [if_neg (fun h => hi h.1), if_neg (fun h => hi h.1),
        if_neg (show i ∉ z.index.labels from hi)]

variable [Zero ω]

/-- From frames of zeros the host writes the weights of the rows. -/
theorem TreeIs.weights {z : JointTable ι ω} {fT : Frame ι ω}
    {self self' : Party ω} {joint : JointTree ω}
    {host : Tree ω × Party ω × Frame ι ω} {guest : Tree ω × Party ω}
    (h : TreeIs z fT self self' joint host guest) (hindex : fT.index = z.index)
    (hzero : ∀ i, fT.row i = 0) : host.2.2 = z.weights joint := by
  have hrow : host.2.2.row = (z.weights joint).row := by
    funext i
    rw [h.row i, hzero i]
    rfl
  have hindex' : host.2.2.index = (z.weights joint).index :=
    h.index.trans hindex
  calc host.2.2 = ⟨host.2.2.index, host.2.2.row⟩ := rfl
    _ = ⟨(z.weights joint).index, (z.weights joint).row⟩ := by
      rw [hrow, hindex']
    _ = z.weights joint := rfl

variable [DecidableEq ω] [Neg ω] [Add ω] [Div ω]

/-- Both parties build the tree that one party grows. -/
theorem construct_jointly (settings : Settings ω)
    (search : Searches ι ω σ η) (e : ι → Grad ω → η) (node : List Branch)
    (z : JointTable ι ω) (fT : Frame ι ω) (depth : Int)
    (gh : Frame ι (Grad ω)) (self self' : Party ω)
    (hgh : gh.index = z.index) (hfT : fT.Has z.index)
    (hrecords : SameRecords self self') :
    Jointly
      (hostTreeConstruct settings search node (z.part .host) fT depth gh self)
      (guestTreeConstruct settings search node (z.part .guest)
        ⟨gh.index, fun i => e i (gh.row i)⟩ depth self')
      (growTree settings (search.joint e) node z depth gh)
      (TreeIs z fT self self') := by
  -- on the levels that are left below `max_depth`
  induction hn : (settings.maxDepth + 1 - depth).toNat
    using Nat.strongRecOn
    generalizing node z fT depth gh self self' with
  | _ n ih =>
    have hsize : ∀ role, (z.part role).size = z.size := fun _ => rfl
    rw [hostTreeConstruct, guestTreeConstruct, growTree, hsize, hsize]
    by_cases hstop : (z.size : Int) < settings.minChildSample
        ∨ settings.maxDepth < depth
    · rw [if_pos hstop, if_pos hstop, if_pos hstop]
      exact Jointly.ret (.leaf hrecords)
    rw [if_neg hstop, if_neg hstop, if_neg hstop]
    by_cases hempty : z.size = 0
    · rw [if_pos hempty, if_pos hempty, if_pos hempty]
      exact Jointly.raise _
    rw [if_neg hempty, if_neg hempty, if_neg hempty]
    obtain ⟨a, b, hsync, hdone⟩ :=
      split_as_best settings search e node z gh self self'
    apply Jointly.bind_ok hsync
    cases hbest : bestSplit settings.regLambda
        ((search.joint e).host node (z.part .host) gh)
        ((search.joint e).guest node (z.part .guest) gh) with
    | none =>
        rw [hbest] at hdone
        cases hdone
        exact Jointly.ret (.leaf hrecords)
    | some best =>
        rw [hbest] at hdone
        obtain ⟨record, host, guest, rfl, rfl, hsame, hentry⟩ :=
          hdone.of_some hrecords
        obtain ⟨hl, hr⟩ :=
          has_splitIds (z.part best.role) best.var best.cut
        -- every row the ids name is in every frame
        have hhas : ∀ {ids : Index ι}, (z.part best.role).Has ids →
            (z.part .host).Has ids ∧ (z.part .guest).Has ids ∧ gh.Has ids
              ∧ fT.Has ids
              ∧ (⟨gh.index, fun i => e i (gh.row i)⟩ : Frame ι η).Has ids := by
          intro ids hids
          have hghIds : gh.Has ids := by
            rw [Frame.Has, hgh]
            exact hids
          exact ⟨hids, hids, hghIds, hfT.trans hids, hghIds⟩
        obtain ⟨hxl, hyl, hgl, hfl, hel⟩ := hhas hl
        obtain ⟨hxr, hyr, hgr, hfr, her⟩ := hhas hr
        obtain ⟨fT₁, hfT₁, hindex₁⟩ := fT.assign_of_has best.wLeft hfl
        obtain ⟨fT₂, hfT₂, hindex₂⟩ :=
          fT₁.assign_of_has best.wRight (hfr.of_index hindex₁)
        have hindex : fT₂.index = fT.index := hindex₂.trans hindex₁
        simp only [JointSplit.idsW, Frame.loc_of_has hxl,
          Frame.loc_of_has hxr, Frame.loc_of_has hyl, Frame.loc_of_has hyr,
          Frame.loc_of_has hgl, Frame.loc_of_has hgr, Frame.loc_of_has hel,
          Frame.loc_of_has her, hfT₁, hfT₂, Proc.lift_ok, Proc.ret_bind]
        -- all three recurse on the rows of the ids, one level deeper
        have hchild : ∀ (branch : Branch) (rows : Index ι) (fT' : Frame ι ω)
            (host' guest' : Party ω), fT.Has rows → fT'.index = fT.index →
            SameRecords host' guest' →
            Jointly (hostTreeConstruct settings search (node ++ [branch])
                ⟨rows, (z.part .host).row⟩ fT' (depth + 1) ⟨rows, gh.row⟩
                host')
              (guestTreeConstruct settings search (node ++ [branch])
                ⟨rows, (z.part .guest).row⟩
                ⟨rows, fun i => e i (gh.row i)⟩ (depth + 1) guest')
              (growTree settings (search.joint e) (node ++ [branch])
                ⟨rows, z.row⟩ (depth + 1) ⟨rows, gh.row⟩)
              (TreeIs ⟨rows, z.row⟩ fT' host' guest') := by
          intro branch rows fT' host' guest' hrows hindex' hrecords'
          refine ih _ ?_ (node ++ [branch]) ⟨rows, z.row⟩ fT' (depth + 1)
            ⟨rows, gh.row⟩ host' guest' rfl ?_ hrecords' rfl
          · omega
          · exact hrows.of_index hindex'
        apply Jointly.bind (hchild .left _ fT₂ host guest hfl hindex hsame)
        rintro leftJoint ⟨left, host₁, fT₃⟩ ⟨left', guest₁⟩ hleftIs
        obtain rfl : left = left' := hleftIs.same
        have hindex₃ : fT₃.index = fT.index := hleftIs.index.trans hindex
        apply Jointly.bind (hchild .right _ fT₃ host₁ guest₁ hfr hindex₃
          hleftIs.records)
        rintro rightJoint ⟨right, host₂, fT₄⟩ ⟨right', guest₂⟩ hrightIs
        obtain rfl : right = right' := hrightIs.same
        exact Jointly.ret (.node hentry hfT₁ hfT₂ hindex hleftIs hrightIs)

end Tree

-- ===================================================================== turns

/-- What both parties have of some trees of one party. -/
structure LoopIs [LT ω] [DecidableLT ω] (before before' : Party ω)
    (joint : List (JointTree ω) × Frame Nat ω)
    (host : List (Tree ω) × Party ω × Frame Nat ω)
    (guest : List (Grown ω) × Party ω) : Prop where
  same : host.1 = guest.1.map (·.tree)
  later : ∀ l, Later l host.2.1 guest.2 → Later l before before'
  stored : ∀ l, Later l host.2.1 guest.2 →
    List.Forall₂ (Stored l) host.1 joint.1
  scores : host.2.2 = joint.2

section Turns

variable [LT ω] [DecidableLT ω] [Zero ω] [DecidableEq ω] [Neg ω] [Add ω]
  [Mul ω] [Div ω] {T : Training ν ω σ η}

/-- Turn by turn both parties do what one party does. -/
theorem loop_jointly {z : JointTable Nat ω} (hz : z.index = .range z.size)
    (tasks : List (TreeTask ω σ η)) (yHat : Frame Nat ω)
    {self self' : Party ω} (hrecords : SameRecords self self') :
    Jointly (T.hostLoop (z.part .host) tasks yHat self)
      (guestTrain T.settings (fun _ => z.part .guest)
        (tasks.map (·.search)) self')
      (T.boost z tasks yHat) (LoopIs self self') := by
  induction tasks generalizing yHat self self' with
  | nil =>
      exact Jointly.ret
        { same := rfl
          later := fun _ hl => hl
          stored := fun _ _ => .nil
          scores := rfl }
  | cons task rest ih =>
      apply Jointly.put_get
      apply Jointly.put_get
      apply Jointly.bind (construct_jointly T.settings task.search
        task.encrypt [] z (zeros ω z.size) 0 (T.gh z.size yHat) self self'
        hz.symm (fun i hi => (congrArg Index.labels hz ▸ hi :)) hrecords)
      rintro joint ⟨tree, host, fT⟩ ⟨tree', guest⟩ htree
      obtain rfl : tree = tree' := htree.same
      have hfT : fT = z.weights joint := htree.weights hz.symm fun _ => rfl
      rw [hfT]
      apply Jointly.bind (ih _ htree.records)
      rintro ⟨joints, yHat₁⟩ ⟨trees, host₁, _⟩ ⟨grown, guest₁⟩ hloop
      exact Jointly.ret
        { same := congrArg (tree :: ·) hloop.same
          later := fun l hl => htree.later l (hloop.later l hl)
          stored := fun l hl =>
            .cons (htree.stored l (hloop.later l hl)) (hloop.stored l hl)
          scores := hloop.scores }

/-- The scores that one party has at the end are those of its trees. -/
theorem boost_scores {z : JointTable Nat ω} {tasks : List (TreeTask ω σ η)}
    {yHat yHat' : Frame Nat ω} {trees : List (JointTree ω)}
    (h : T.boost z tasks yHat = .ok (trees, yHat')) {p : Nat}
    (hp : p ∈ z.index.labels) :
    yHat'.row p = trees.foldl (fun score tree =>
      score + T.learningRate * tree.weight (z.row p) 0) (yHat.row p) := by
  induction tasks generalizing yHat trees with
  | nil =>
      cases h
      rfl
  | cons task rest ih =>
      rw [Training.boost] at h
      obtain ⟨tree, -, h⟩ := bind_eq_ok_iff.mp h
      obtain ⟨⟨trees', last⟩, hrest, h⟩ := bind_eq_ok_iff.mp h
      cases h
      have hadd : (T.addTree yHat (z.weights tree)).row p
          = yHat.row p + T.learningRate * tree.weight (z.row p) 0 := by
        show _ + _ * (if p ∈ z.index.labels then _ else _) = _
        rw [if_pos hp]
      rw [ih hrest, hadd, List.foldl_cons]

end Turns

-- ================================================================ prediction

section Predict

variable [LinearOrder ω] [Zero ω] [Add ω] [Mul ω]

/-- Stored trees score a row as the joint ones. -/
theorem scoreIn_stored {l : Lookups ω} {learningRate : ω} {x y : Table ι ω}
    [DecidableEq ι] {trees : List (Tree ω)} {joints : List (JointTree ω)}
    (h : List.Forall₂ (Stored l) trees joints) {i : ι}
    (hx : i ∈ x.index.labels) (hy : i ∈ y.index.labels) (start : ω) :
    scoreIn learningRate l x y trees start i
      = joints.foldl (fun score tree =>
        score + learningRate * tree.weight (bothRows x.row y.row i) 0)
        start := by
  rw [scoreIn]
  induction h generalizing start with
  | nil => rfl
  | cons htree _ ih =>
      rw [List.foldl_cons, List.foldl_cons, ih, Tree.scoreOf,
        if_pos ⟨hx, hy⟩, htree.weightOf]

/-- Both parties predict with stored trees what the joint ones say. -/
theorem predict_stored (learningRate start : ω) {l : Lookups ω}
    {trees : List (Tree ω)} {joints : List (JointTree ω)}
    (h : List.Forall₂ (Stored l) trees joints) {x y : Table Nat ω}
    (hxy : x.index = y.index) (n : Nat) :
    ∃ score, Sync
      (predictRaw learningRate l.host x trees ⟨.range n, fun _ => start⟩ :
        Proc (Message Nat ω σ η) _ _)
      (guestPredict l.guest y trees) (.ok score) (.ok ())
      ∧ ∀ p ∈ x.index.labels, score.row p
        = (⟨start, learningRate, joints⟩ : JointModel ω).score
          (bothRows x.row y.row p) := by
  have hready : ∀ tree ∈ trees, tree.Fits x y ∧ Owned l.host l.guest tree := by
    intro tree htree
    have howned : Owned l.host l.guest tree := by
      clear hxy
      induction h with
      | nil => cases htree
      | cons hstored _ ih =>
          obtain rfl | htree := List.mem_cons.mp htree
          · exact hstored.owned
          · exact ih htree
    exact ⟨.of_sameIndex (fun i => by rw [hxy]) tree, howned⟩
  have hscores : Settles
      (predictRaw learningRate l.host x trees ⟨.range n, fun _ => start⟩ :
        Proc (Message Nat ω σ η) _ _)
      (guestPredict l.guest y trees) (fun _ => False) fun score _ =>
        ∀ i, score.row i = scoreIn learningRate l x y trees start i :=
    predict_scored trees hready
  obtain ⟨score, ⟨⟩, hsync, hscore⟩ := hscores.exists_ok
  refine ⟨score, hsync, fun p hp => ?_⟩
  rw [hscore p]
  exact scoreIn_stored h hp (hxy ▸ hp) start

end Predict

-- ================================================================== the task

theorem mem_range_labels {ρ : Type} {z : Frame Nat ρ}
    (hz : z.index = .range z.size) {p : Nat} (hp : p < z.size) :
    p ∈ z.index.labels := by
  rw [hz]
  exact List.mem_range.mpr hp

section Task

variable [LinearOrder ω] [Zero ω] [Neg ω] [Add ω] [Mul ω] [Div ω]

end Task

/-- One tree: the host splits the root by the age, and the guest the older
ones by the income. -/
def twoSplits : Training Int Int Int Int where
  settings := ⟨1, 2, 1⟩
  baseScore := 0
  learningRate := 1
  gradHess score label := ⟨score - label, 1⟩
  y p := p
  trees := [
    { search :=
        { hostBestCut := fun node _ _ =>
            if node = [] then some ⟨5, 7, "age", 30, 3⟩ else none
          sums := fun _ _ ghs => ghs.row 0
          guestBestCut := fun node sums _ =>
            if node = [.right] then some ⟨sums, 1, 0, 1, "income", 5, 3⟩
            else none }
      encrypt := fun _ grad => grad.h }]

/-- Three rows; at both parties the later ones have more. -/
def threeJointRows : JointTable Nat Int :=
  ⟨.range 3, fun i role _ =>
    match role with
    | .host => 20 + 10 * i
    | .guest => 2 * i⟩

end PrimiHub.FL
