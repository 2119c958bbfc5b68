/-
When the parties of a vertical boosted tree fail on a label.

The host's labels are those that `set_inputs` left, while its gradients are
labelled by positions. Where the root of a tree is split and a label of the
split is not in the gradients or not in the other table, one party raises
`KeyError` (`exists_fails_of_not_found`). A host with other labels than its
positions whose trees were nevertheless built fails in the prediction, for
which it labels its rows anew (`predict_fails`). So there are settings and
outcomes of the searches for which the parties do not stay in step, unless
the labels fit.
-/
import Mathlib.Algebra.Ring.Int.Defs
import PrimiHub.FL.Proofs.Scores

namespace PrimiHub.FL

open Lib

variable {ν ω σ η : Type}

-- ================================================================== failures

section Failures

variable {α β γ δ : Type}

/-- A party has failed on a label, or one has raised and the other waits for
it. -/
inductive Fails : Proc (Message Nat ω σ η) Raised α →
    Proc (Message Nat ω σ η) Raised β → Prop
  | host {q} : Fails (.raise .keyError) q
  | guest {p} : Fails p (.raise .keyError)
  | hostWaits {p e} (h : Waits Tag.encrypteGhSums p) : Fails p (.raise e)
  | guestWaits {q e} (h : Waits Tag.bestCut q) : Fails (.raise e) q

theorem Fails.of_host {p : Proc (Message Nat ω σ η) Raised α}
    {q : Proc (Message Nat ω σ η) Raised β} (h : p = .raise .keyError) :
    Fails p q := by
  rw [h]
  exact .host

theorem Fails.of_guest {p : Proc (Message Nat ω σ η) Raised α}
    {q : Proc (Message Nat ω σ η) Raised β} (h : q = .raise .keyError) :
    Fails p q := by
  rw [h]
  exact .guest

theorem Fails.bind {p : Proc (Message Nat ω σ η) Raised α}
    {q : Proc (Message Nat ω σ η) Raised β} (h : Fails p q)
    (f : α → Proc (Message Nat ω σ η) Raised γ)
    (g : β → Proc (Message Nat ω σ η) Raised δ) :
    Fails (p >>= f) (q >>= g) := by
  cases h with
  | host => exact .host
  | guest => exact .guest
  | hostWaits h => exact .hostWaits (h.bind f)
  | guestWaits h => exact .guestWaits (h.bind g)

theorem Fails.not_lockStep {p p' : Proc (Message Nat ω σ η) Raised α}
    {q q' : Proc (Message Nat ω σ η) Raised β}
    {R : Except Raised α → Except Raised β → Prop} (h : Fails p' q')
    (hmeet : Meet p q p' q')
    (hR : ∀ x y, R x y → x ≠ .error .keyError ∧ y ≠ .error .keyError) :
    ¬ LockStep p q R := by
  cases h with
  | host =>
      exact not_lockStep_of_raise hmeet fun y hy => (hR _ y hy).1 rfl
  | guest =>
      exact not_lockStep_of_raise_right hmeet fun x hx => (hR x _ hx).2 rfl
  | hostWaits h =>
      exact not_lockStep_of_waits_left (Q := fun _ => False) hmeet h .raise
  | guestWaits h =>
      exact not_lockStep_of_waits (Q := fun _ => False) hmeet .raise h

/-- Rows are taken four times, and a label is not there. -/
theorem locs_raise {ρ₁ ρ₂ ρ₃ ρ₄ : Type} {u : Frame Nat ρ₁} {v : Frame Nat ρ₂}
    {w : Frame Nat ρ₃} {z : Frame Nat ρ₄} {a b c d : Index Nat}
    {f : Frame Nat ρ₁ → Frame Nat ρ₂ → Frame Nat ρ₃ → Frame Nat ρ₄ →
      Proc (Message Nat ω σ η) Raised α}
    (h : ¬ (u.Has a ∧ v.Has b ∧ w.Has c ∧ z.Has d)) :
    (do
      let u ← Proc.lift (u.loc a)
      let v ← Proc.lift (v.loc b)
      let w ← Proc.lift (w.loc c)
      let z ← Proc.lift (z.loc d)
      f u v w z) = .raise .keyError := by
  by_cases hu : u.Has a
  · rw [Frame.loc_of_has hu, Proc.lift_ok, Proc.ret_bind]
    by_cases hv : v.Has b
    · rw [Frame.loc_of_has hv, Proc.lift_ok, Proc.ret_bind]
      by_cases hw : w.Has c
      · rw [Frame.loc_of_has hw, Proc.lift_ok, Proc.ret_bind]
        rw [Frame.loc_of_not_has fun hz => h ⟨hu, hv, hw, hz⟩]
        rfl
      · rw [Frame.loc_of_not_has hw]
        rfl
    · rw [Frame.loc_of_not_has hv]
      rfl
  · rw [Frame.loc_of_not_has hu]
    rfl

end Failures

-- =============================================================== at the root

section Root

variable [LT ω] [DecidableLT ω]

/-- Rows of both sides of a split are the rows of the table. -/
theorem has_of_splitIds {ρ : Type} {z : Frame Nat ρ} {x : Table Nat ω}
    {var : String} {cut : ω} {ids : Ids Nat} (hids : ids = splitIds x var cut)
    (hleft : z.Has ids.idLeft) (hright : z.Has ids.idRight) :
    z.Has x.index := by
  intro i hi
  rw [hids] at hleft hright
  obtain ⟨hl, hr⟩ := mem_splitIds x var cut
  by_cases hlt : x.row i var < cut
  · exact hleft i ((hl i).mpr ⟨hi, hlt⟩)
  · exact hright i ((hr i).mpr ⟨hi, hlt⟩)

/-- The gradients, and the party that does not own the split, have the rows
of the one that does. -/
def RowsFound (x y : Table Nat ω) (gh : Frame Nat (Grad ω)) : Decision → Prop
  | .stop => True
  | .host => gh.Has x.index ∧ y.Has x.index
  | .guest => gh.Has y.index ∧ x.Has y.index

variable [Zero ω] [DecidableEq ω] [Neg ω] [Add ω] [Div ω]

/-- A split of the root whose rows are not found. -/
theorem exists_fails_of_not_found {settings : Settings ω}
    {search : Searches Nat ω σ η} {x y : Table Nat ω} {fT : Frame Nat ω}
    {gh : Frame Nat (Grad ω)} {ghs : Frame Nat η}
    (hx : ¬ ((x.size : Int) < settings.minChildSample
      ∨ settings.maxDepth < 0))
    (hy : ¬ ((y.size : Int) < settings.minChildSample
      ∨ settings.maxDepth < 0))
    (hxs : x.size ≠ 0) (hys : y.size ≠ 0)
    (h : ¬ RowsFound x y gh (decisionAt search [] x y gh ghs))
    (self self' : Party ω) :
    ∃ p' q', Meet (hostTreeConstruct settings search [] x fT 0 gh self)
      (guestTreeConstruct settings search [] y ghs 0 self') p' q'
        ∧ Fails p' q' := by
  obtain ⟨a, b, hsync, hsplit⟩ :=
    (split_as settings search [] x y gh ghs self self').exists_ok
  generalize decisionAt search [] x y gh ghs = d at hsplit h
  rw [hostTreeConstruct, guestTreeConstruct, if_neg hx, if_neg hy,
    if_neg hxs, if_neg hys]
  refine ⟨_, _, Meet.bind hsync (.refl _ _), ?_⟩
  cases hsplit with
  | stop => exact absurd trivial h
  | host var cut hids =>
      by_cases hgh : gh.Has x.index
      · -- the guest has not all rows of the host
        have hmissing : ¬ y.Has x.index := fun hhas => h ⟨hgh, hhas⟩
        refine .of_guest (locs_raise ?_)
        rintro ⟨hl, hr, -, -⟩
        exact hmissing (has_of_splitIds hids hl hr)
      · refine .of_host (locs_raise ?_)
        rintro ⟨-, hl, -, hr⟩
        exact hgh (has_of_splitIds hids hl hr)
  | guest var cut hids =>
      refine .of_host (locs_raise ?_)
      rintro ⟨hxl, hl, hxr, hr⟩
      exact h ⟨has_of_splitIds hids hl hr, has_of_splitIds hids hxl hxr⟩

end Root

-- =============================================================== in a sample

section Sampled

variable {ρ ρ' : Type}

/-- Labels that the other frame all has, and as many. -/
theorem SameIndex.of_has {u : Frame Nat ρ} {v : Frame Nat ρ'}
    (h : v.Has u.index) (hsize : u.size = v.size) : SameIndex u v := by
  have hperm : u.index.labels.Perm v.index.labels :=
    (List.subperm_of_subset u.index.nodup h).perm_of_length_le
      (Nat.le_of_eq hsize.symm)
  exact fun i => hperm.mem_iff

/-- A sample has a row for each of its positions. -/
theorem size_iloc {x : Frame Nat ρ} {positions : List Nat}
    (hnodup : positions.Nodup) (hlt : ∀ p ∈ positions, p < x.size) :
    (x.iloc positions).size = positions.length := by
  have hlabels : (positions.filterMap fun p => x.index.labels[p]?).Nodup := by
    refine hnodup.filterMap fun p p' i hp hp' => ?_
    obtain ⟨hlt, hi⟩ := List.getElem?_eq_some_iff.mp hp
    obtain ⟨hlt', hi'⟩ := List.getElem?_eq_some_iff.mp hp'
    exact (x.index.nodup.getElem_inj_iff).mp (hi.trans hi'.symm)
  show (positions.filterMap fun p => x.index.labels[p]?).dedup.length = _
  rw [hlabels.dedup, List.length_filterMap_eq_countP]
  refine List.countP_eq_length.mpr fun p hp => ?_
  have hp' : p < x.index.labels.length := hlt p hp
  rw [List.getElem?_eq_getElem hp']
  rfl

/-- Frames of one size are sampled to one size. -/
theorem size_sampled {u : Frame Nat ρ} {v : Frame Nat ρ'} {n : Nat}
    (hu : u.size = n) (hv : v.size = n) (draw : Option (Draw ω n)) :
    (u.sampled (draw.map Draw.ids)).size
      = (v.sampled (draw.map Draw.ids)).size := by
  cases draw with
  | none => exact hu.trans hv.symm
  | some draw =>
      have hu' : (u.iloc draw.ids).size = draw.ids.length :=
        size_iloc draw.nodup fun p hp => hu ▸ draw.lt p hp
      have hv' : (v.iloc draw.ids).size = draw.ids.length :=
        size_iloc draw.nodup fun p hp => hv ▸ draw.lt p hp
      exact hu'.trans hv'.symm

variable [Zero ω] {x y : Table Nat ω}

theorem size_zeros (n : Nat) : (zeros ω n).size = n := List.length_range

theorem drawFits_of_has (hxy : SameIndex x y)
    {draw : Option (Draw ω x.size)}
    (hgh : ((zeros ω x.size).sampled (draw.map Draw.ids)).Has
      (x.sampled (draw.map Draw.ids)).index)
    (hy : (y.sampled (draw.map Draw.ids)).Has
      (x.sampled (draw.map Draw.ids)).index) : DrawFits x y draw where
  positions := .of_has hgh (size_sampled rfl (size_zeros _) draw)
  guest := .of_has hy (size_sampled rfl hxy.size_eq.symm draw)

end Sampled

-- ==================================================================== stumps

section Stumps

/-- The role of the root. -/
def Tree.root : Tree ω → Option Role
  | .leaf => none
  | .node role _ _ _ _ _ => some role

variable [Zero ω]

/-- Only an empty table is not searched. -/
theorem stops_stumps (size : Nat) :
    ((size : Int) < (⟨0, 1, 0⟩ : Settings ω).minChildSample
      ∨ (⟨0, 1, 0⟩ : Settings ω).maxDepth < 0) ↔ size = 0 := by
  show ((size : Int) < 1 ∨ (0 : Int) < 0) ↔ size = 0
  omega

theorem not_overflows_stumps (e : Raised) :
    ¬ Overflows (⟨0, 1, 0⟩ : Settings ω) e :=
  fun he => absurd (show (1 : Int) ≤ 0 from he.2) (by decide)

variable [Inhabited ν] [Inhabited σ] [Inhabited η]

/-- A tree that the host splits where it is asked. -/
def splitting (gain : ω) : TreeTask ω σ η where
  search :=
    { hostBestCut := fun _ _ _ => some ⟨0, 0, "", 0, gain⟩
      sums := fun _ _ _ => default
      guestBestCut := fun _ _ _ => none }
  encrypt _ _ := default

/-- A run of trees with at most one split, which is the host's. -/
def stumps (gain : ω) (count : Nat) : Training ν ω σ η where
  settings := ⟨0, 1, 0⟩
  baseScore := 0
  learningRate := 0
  gradHess _ _ := ⟨0, 0⟩
  y _ := default
  trees := List.replicate count (splitting gain)

variable [DecidableEq ω] [LT ω] [DecidableLT ω]

theorem decisionAt_splitting {gain : ω} (hgain : gain ≠ 0) (x y : Table Nat ω)
    (gh : Frame Nat (Grad ω)) (ghs : Frame Nat η) :
    decisionAt (splitting gain : TreeTask ω σ η).search [] x y gh ghs
      = .host := by
  simp [decisionAt, splitting, hostDecision, truthy, hgain]

/-- Every tree that has a row is split by the host. -/
theorem root_splitting {tag : Tag} (htag : tag ≠ .bestCut ∧ tag ≠ .idsW)
    {gain : ω} (hgain : gain ≠ 0) {x : Table Nat ω} {fT : Frame Nat ω}
    {gh : Frame Nat (Grad ω)} (self : Party ω) :
    Silent tag
      (fun r => r.1.root = if x.size = 0 then none else some .host)
      (hostTreeConstruct ⟨0, 1, 0⟩ (splitting gain : TreeTask ω σ η).search []
        x fT 0 gh self) := by
  rw [hostTreeConstruct]
  by_cases hsize : x.size = 0
  · rw [if_pos ((stops_stumps x.size).mpr hsize)]
    refine .ret ?_
    rw [if_pos hsize]
    rfl
  · rw [if_neg (mt (stops_stumps x.size).mp hsize), if_neg hsize]
    simp only [if_neg hsize]
    have hsplit : Silent tag
        (fun r => ∃ record idsW host, r = (some ⟨.host, record, idsW⟩, host))
        (hostSplit (splitting gain : TreeTask ω σ η).search [] x gh self) := by
      refine .recv fun sums => .send htag.1.symm ?_
      have hdecision : hostDecision (some gain) none = .host := by
        simp [hostDecision, truthy, hgain]
      simp only [splitting, Option.map_some, Option.map_none, hdecision]
      exact .send htag.2.symm (.ret ⟨_, _, _, rfl⟩)
    refine hsplit.bind ?_
    rintro _ ⟨record, idsW, host, rfl⟩
    refine (Silent.lift fun _ _ => trivial).bind fun xLeft _ => ?_
    refine (Silent.lift fun _ _ => trivial).bind fun ghLeft _ => ?_
    refine (Silent.lift fun _ _ => trivial).bind fun xRight _ => ?_
    refine (Silent.lift fun _ _ => trivial).bind fun ghRight _ => ?_
    refine (Silent.lift fun _ _ => trivial).bind fun fT₁ _ => ?_
    refine (Silent.lift fun _ _ => trivial).bind fun fT₂ _ => ?_
    -- below `max_depth` there are only leaves
    have hdeep : (⟨0, 1, 0⟩ : Settings ω).maxDepth < 0 + 1 := Int.one_pos
    rw [hostTreeConstruct, if_pos (Or.inr hdeep)]
    refine Silent.bind (Q := fun _ => True) (.ret trivial) fun _ _ => ?_
    rw [hostTreeConstruct, if_pos (Or.inr hdeep)]
    exact Silent.bind (Q := fun _ => True) (.ret trivial) fun _ _ => .ret rfl

variable [Add ω] [Mul ω] {x y : Table Nat ω}

/-- Training sends no other messages. -/
theorem roots_stumps (tag : Tag)
    (htag : tag ∉ [.sampleIds, .ghEn, .bestCut, .idsW]) {gain : ω} (hgain : gain ≠ 0) (count : Nat)
    (turns : List (TreeTask ω σ η × Option (Draw ω x.size)))
    (hturns : ∀ turn ∈ turns, turn.1 = splitting gain) (yHat : Frame Nat ω)
    (self : Party ω) :
    Silent tag
      (fun r => r.1.map (·.tree.root) = turns.map fun turn =>
        if (x.sampled (turn.2.map Draw.ids)).size = 0 then none
        else some .host)
      ((stumps gain count : Training ν ω σ η).hostTrain x turns yHat self) := by
  simp only [List.mem_cons, List.not_mem_nil, or_false, not_or] at htag
  obtain ⟨hsampleIds, hghEn, hbestCut, hidsW⟩ := htag
  induction turns generalizing yHat self with
  | nil => exact .ret rfl
  | cons turn rest ih =>
      obtain ⟨task, draw⟩ := turn
      obtain rfl : task = splitting gain := hturns _ List.mem_cons_self
      refine .send (Ne.symm hsampleIds) (.send (Ne.symm hghEn) ?_)
      refine (root_splitting ⟨hbestCut, hidsW⟩ hgain self).bind ?_
      rintro ⟨tree, host, fT⟩ hroot
      refine (ih (fun turn hturn =>
        hturns turn (List.mem_cons_of_mem _ hturn)) _ _).bind ?_
      rintro ⟨trees, last, yHat⟩ hroots
      refine .ret ?_
      rw [List.map_cons, List.map_cons, hroots]
      exact congrArg (· :: _) hroot

variable [Neg ω] [Div ω]

omit [Mul ω] in
/-- A sample that does not fit. -/
theorem turn_fails (hxy : SameIndex x y) {gain : ω} (hgain : gain ≠ 0)
    {draw : Option (Draw ω x.size)} (h : ¬ DrawFits x y draw)
    {gh : Frame Nat (Grad ω)}
    (hgh : gh.index = ((zeros ω x.size).sampled (draw.map Draw.ids)).index)
    (fT : Frame Nat ω) (ghs : Frame Nat η) (self self' : Party ω) :
    ∃ p' q', Meet
      (hostTreeConstruct ⟨0, 1, 0⟩ (splitting gain : TreeTask ω σ η).search []
        (x.sampled (draw.map Draw.ids)) fT 0 gh self)
      (guestTreeConstruct ⟨0, 1, 0⟩ (splitting gain : TreeTask ω σ η).search []
        (y.sampled (draw.map Draw.ids)) ghs 0 self') p' q' ∧ Fails p' q' := by
  have hsize : (x.sampled (draw.map Draw.ids)).size
      = (y.sampled (draw.map Draw.ids)).size :=
    size_sampled rfl hxy.size_eq.symm draw
  -- an empty sample fits
  have hrow : (x.sampled (draw.map Draw.ids)).size ≠ 0 := by
    intro hnone
    have hnil := List.eq_nil_of_length_eq_zero hnone
    refine h (drawFits_of_has hxy ?_ ?_) <;>
    · intro i hi
      rw [hnil] at hi
      cases hi
  refine exists_fails_of_not_found (mt (stops_stumps _).mp hrow)
    (mt (stops_stumps _).mp (hsize ▸ hrow)) hrow (hsize ▸ hrow) ?_ self self'
  rw [decisionAt_splitting hgain]
  rintro ⟨hfound, hy⟩
  refine h (drawFits_of_has hxy (fun i hi => ?_) hy)
  rw [← hgh]
  exact hfound i hi

/-- The first sample that does not fit. -/
theorem exists_fails_of_not_drawFits (hxy : SameIndex x y) {gain : ω}
    (hgain : gain ≠ 0) (count : Nat)
    (turns : List (TreeTask ω σ η × Option (Draw ω x.size)))
    (hturns : ∀ turn ∈ turns, turn.1 = splitting gain)
    (h : ¬ ∀ turn ∈ turns, DrawFits x y turn.2) (yHat : Frame Nat ω)
    {self self' : Party ω} (hstep : InStep self self') :
    ∃ p' q', Meet
      ((stumps gain count : Training ν ω σ η).hostTrain x turns yHat self)
      (guestTrain ⟨0, 1, 0⟩ y.sampled (turns.map (·.1.search)) self') p' q'
        ∧ Fails p' q' := by
  induction turns generalizing yHat self self' with
  | nil => exact absurd (fun _ hturn => absurd hturn List.not_mem_nil) h
  | cons turn rest ih =>
      obtain ⟨task, draw⟩ := turn
      by_cases hfits : DrawFits x y draw
      · have hrest : ¬ ∀ turn ∈ rest, DrawFits x y turn.2 :=
          fun hall => h (List.forall_mem_cons.mpr ⟨hfits, hall⟩)
        obtain ⟨⟨tree, host, fT⟩, ⟨tree', guest⟩, hsync, hagree⟩ :=
          (turn_synced (stumps gain count : Training ν ω σ η) task yHat hfits
            hstep).returns not_overflows_stumps
        obtain ⟨p', q', hmeet, hfails⟩ := ih
          (fun turn hturn => hturns turn (List.mem_cons_of_mem _ hturn)) hrest
          _ hagree.inStep
        exact ⟨_, _, Meet.put_get (Meet.put_get (Meet.bind hsync
          (hmeet.bind_left _ _))), hfails.bind _ _⟩
      · obtain rfl : task = splitting gain := hturns _ List.mem_cons_self
        have hgh : ((amplify ((stumps gain count : Training ν ω σ η).gh x.size
            yHat) draw).sampled (draw.map Draw.ids)).index
            = ((zeros ω x.size).sampled (draw.map Draw.ids)).index :=
          Frame.sampled_index (v := zeros ω x.size) (amplify_index _ draw) _
        obtain ⟨p', q', hmeet, hfails⟩ :=
          turn_fails (σ := σ) hxy hgain hfits hgh
          ((zeros ω x.size).sampled (draw.map Draw.ids))
          ((splitting gain : TreeTask ω σ η).ghEn _) self self'
        exact ⟨_, _, Meet.put_get (Meet.put_get (hmeet.bind_left _ _)),
          hfails.bind _ _⟩

end Stumps

-- ========================================================== in the prediction

section Predict

variable [LT ω] [DecidableLT ω] [LE ω] [DecidableLE ω]
  {lookup lookup' : Nat → Option (String × ω)} {test y : Table Nat ω}

/-- The guest has not all rows of the host at a node of the host. -/
theorem visit_fails (hle : ∀ a b : ω, a < b ∨ b ≤ a) {record : Nat}
    (howned : (lookup record).isSome) (h : ¬ y.Has test.index) :
    ∃ p' q', Meet (ownVisit lookup record test : Proc (Message Nat ω σ η) _ _)
      (otherVisit record y) p' q' ∧ Fails p' q' := by
  obtain ⟨⟨var, cut⟩, hentry⟩ := Option.isSome_iff_exists.mp howned
  have hlookup : lookupRecord lookup record = .ok (var, cut) := by
    rw [lookupRecord, hentry]
  -- every row is on one of the sides
  have hsides : ¬ (y.Has (testLeft test var cut).index
      ∧ y.Has (testRight test var cut).index) := by
    rintro ⟨hleft, hright⟩
    refine h fun i hi => ?_
    obtain hlt | hle := hle (test.row i var) cut
    · exact hleft i (List.mem_filter.mpr ⟨hi, decide_eq_true hlt⟩)
    · exact hright i (List.mem_filter.mpr ⟨hi, decide_eq_true hle⟩)
  have hraise : (do
      let left ← Proc.lift (y.loc (testLeft test var cut).index)
      let right ← Proc.lift (y.loc (testRight test var cut).index)
      pure (left, right) : Proc (Message Nat ω σ η) _ _)
      = .raise .keyError := by
    by_cases hleft : y.Has (testLeft test var cut).index
    · rw [Frame.loc_of_has hleft, Proc.lift_ok, Proc.ret_bind,
        Frame.loc_of_not_has fun hright => hsides ⟨hleft, hright⟩]
      rfl
    · rw [Frame.loc_of_not_has hleft]
      rfl
  rw [ownVisit, otherVisit, hlookup, Proc.lift_ok, Proc.ret_bind]
  exact ⟨_, _, Meet.put_get (.refl _ _), .of_guest hraise⟩

variable [Zero ω] [Add ω] [Mul ω]

/-- The first tree that the host has split. -/
theorem predict_fails {learningRate : ω} (hle : ∀ a b : ω, a < b ∨ b ≤ a)
    (trees : List (Tree ω))
    (hroots : ∀ tree ∈ trees, tree.root ≠ some .guest)
    (hsplit : ∃ tree ∈ trees, tree.root = some .host)
    (howned : ∀ tree ∈ trees, Owned lookup lookup' tree)
    (h : ¬ y.Has test.index) (score : Frame Nat ω) :
    ∃ p' q', Meet
      (predictRaw learningRate lookup test trees score :
        Proc (Message Nat ω σ η) _ _)
      (guestPredict lookup' y trees) p' q' ∧ Fails p' q' := by
  induction trees generalizing score with
  | nil =>
      obtain ⟨tree, htree, -⟩ := hsplit
      exact absurd htree List.not_mem_nil
  | cons tree rest ih =>
      have htree := hroots tree List.mem_cons_self
      have howner := howned tree List.mem_cons_self
      cases tree with
      | leaf =>
          obtain ⟨tree, htree, hroot⟩ := hsplit
          obtain rfl | htree := List.mem_cons.mp htree
          · cases hroot
          · exact ih (fun t ht => hroots t (List.mem_cons_of_mem _ ht))
              ⟨tree, htree, hroot⟩
              (fun t ht => howned t (List.mem_cons_of_mem _ ht)) _
      | node role record wLeft left wRight right =>
          cases role with
          | guest => exact absurd rfl htree
          | host =>
              have hentry := howner.host record List.mem_cons_self
              obtain ⟨p', q', hmeet, hfails⟩ :=
                visit_fails (σ := σ) (η := η) hle hentry h
              rw [predictRaw, guestPredict, hostGetTreeNodeWeight,
                guestGetTreeIds, hostVisit, guestVisit]
              exact ⟨_, _, (hmeet.bind_left _ _).bind_left _ _,
                (hfails.bind _ _).bind _ _⟩

end Predict

-- ============================================================ fitting in step

section Fit

variable {x y : Table Nat ω} {draws : List (Option (Draw ω x.size))}

/-- Parties that end as they should have not failed on a label. -/
theorem EndsIn.ne_keyError {settings : Settings ω} {α β : Type}
    {R : α → β → Prop} {u : Except Raised α} {v : Except Raised β}
    (h : EndsIn (Overflows settings) R u v) :
    u ≠ .error .keyError ∧ v ≠ .error .keyError := by
  cases h with
  | ok _ => exact ⟨nofun, nofun⟩
  | error he =>
      obtain ⟨rfl, -⟩ := he
      exact ⟨nofun, nofun⟩

/-- Every sample has its turn. -/
theorem exists_turn {trees : List (TreeTask ω σ η)}
    (h : trees.length = draws.length) {draw : Option (Draw ω x.size)}
    (hdraw : draw ∈ draws) : ∃ turn ∈ trees.zip draws, turn.2 = draw := by
  rw [← List.map_snd_zip (Nat.le_of_eq h.symm)] at hdraw
  exact List.mem_map.mp hdraw

variable [Zero ω] [Inhabited ν] [Inhabited σ] [Inhabited η]

theorem stumps_turns (gain : ω) {turn : TreeTask ω σ η × Option (Draw ω x.size)}
    (h : turn ∈ (stumps gain draws.length : Training ν ω σ η).trees.zip draws) :
    turn.1 = splitting gain :=
  List.eq_of_mem_replicate (List.of_mem_zip h).1

variable [DecidableEq ω] [LT ω] [DecidableLT ω] [LE ω] [DecidableLE ω]
  [Add ω] [Mul ω] [Neg ω] [Div ω]

/-- With a sample that does not fit, the parties fail on the stumps. -/
theorem not_fitInStep_stumps (hxy : SameIndex x y) {gain : ω}
    (hgain : gain ≠ 0) (h : ¬ ∀ draw ∈ draws, DrawFits x y draw) :
    ¬ (stumps gain draws.length : Training ν ω σ η).FitInStep x y draws := by
  have hlength : (stumps gain draws.length : Training ν ω σ η).trees.length
      = draws.length := List.length_replicate
  have hturns : ¬ ∀ turn ∈ (stumps gain draws.length :
      Training ν ω σ η).trees.zip draws, DrawFits x y turn.2 := by
    intro hall
    refine h fun draw hdraw => ?_
    obtain ⟨turn, hturn, rfl⟩ := exists_turn hlength hdraw
    exact hall turn hturn
  obtain ⟨p', q', hmeet, hfails⟩ := exists_fails_of_not_drawFits (ν := ν) hxy
    hgain draws.length _ (fun turn hturn => stumps_turns gain hturn) hturns
    ((stumps gain draws.length : Training ν ω σ η).base x.size) InStep.fresh
  rw [zip_searches hlength] at hmeet
  exact (hfails.bind _ _).not_lockStep (hmeet.bind_left _ _)
    fun _ _ => EndsIn.ne_keyError

/-- Parties that stay in step, with a row in a sample, have the positions
for labels. -/
theorem positions_of_staysInStep (hxy : SameIndex x y)
    (hle : ∀ a b : ω, a < b ∨ b ≤ a) {gain : ω} (hgain : gain ≠ 0)
    (hfits : ∀ draw ∈ draws, DrawFits x y draw)
    (h : StaysInStep ν ω σ η x y draws)
    (hrow : ∃ draw ∈ draws, (x.sampled (draw.map Draw.ids)).size ≠ 0) :
    SameIndex x (zeros ω x.size) := by
  have hlength : (stumps gain draws.length : Training ν ω σ η).trees.length
      = draws.length := List.length_replicate
  have hstep := h (stumps gain draws.length) hlength
  by_contra hlabels
  -- the guest has not all labels that the host has after the reset
  have hmissing : ¬ y.Has x.resetIndex.index := by
    intro hhas
    refine hlabels ?_
    have hy : SameIndex (zeros ω x.size) y :=
      .of_has hhas ((size_zeros _).trans hxy.size_eq)
    exact fun i => (hxy i).trans (hy i).symm
  obtain ⟨⟨trees, host, yHat⟩, ⟨trees', guest⟩, hsync, hagree, -⟩ :=
    (train_synced (T := (stumps gain draws.length : Training ν ω σ η))
      ((stumps gain draws.length : Training ν ω σ η).trees.zip draws)
      (fun turn hturn => hfits _ (List.of_mem_zip hturn).2)
      InStep.fresh).returns not_overflows_stumps
  obtain rfl : trees = trees' := hagree.same
  have hroots : trees.map (·.tree.root) = ((stumps gain draws.length :
      Training ν ω σ η).trees.zip draws).map fun turn =>
        if (x.sampled (turn.2.map Draw.ids)).size = 0 then none
        else some .host :=
    (roots_stumps (.ids 0) (by decide) hgain _ _
      (fun turn hturn => stumps_turns gain hturn) _ _).of_sync hsync
  have hhost : ∀ tree ∈ trees.map (·.tree), tree.root ≠ some .guest := by
    intro tree htree hguest
    obtain ⟨grown, hgrown, rfl⟩ := List.mem_map.mp htree
    have hmem := List.mem_map_of_mem (f := (·.tree.root)) hgrown
    rw [hroots] at hmem
    obtain ⟨turn, -, hturn⟩ := List.mem_map.mp hmem
    rw [hguest] at hturn
    split at hturn <;> cases hturn
  have hsplit : ∃ tree ∈ trees.map (·.tree), tree.root = some .host := by
    obtain ⟨draw, hdraw, hsize⟩ := hrow
    obtain ⟨turn, hturn, rfl⟩ := exists_turn hlength hdraw
    have hmem := List.mem_map_of_mem
      (f := fun turn : TreeTask ω σ η × Option (Draw ω x.size) =>
        if (x.sampled (turn.2.map Draw.ids)).size = 0 then none
        else some Role.host) hturn
    rw [← hroots] at hmem
    obtain ⟨grown, hgrown, hroot⟩ := List.mem_map.mp hmem
    refine ⟨grown.tree, List.mem_map_of_mem hgrown, hroot.trans ?_⟩
    exact if_neg hsize
  have howned : ∀ tree ∈ trees.map (·.tree),
      Owned host.lookupTable guest.lookupTable tree := by
    intro tree htree
    obtain ⟨grown, hgrown, rfl⟩ := List.mem_map.mp htree
    exact hagree.owned hgrown
  obtain ⟨p', q', hmeet, hfails⟩ := predict_fails (σ := σ) (η := η) hle
    (trees.map (·.tree)) hhost hsplit howned hmissing
    ((stumps gain draws.length : Training ν ω σ η).base x.size)
  rw [zip_searches hlength] at hsync
  exact (hfails.bind _ _).not_lockStep
    (Meet.bind hsync (hmeet.bind_left _ _)) (fun _ _ => EndsIn.ne_keyError)
    hstep

end Fit

/-- Rows with these ids, the greater ids with the greater values. -/
def rowsOf (ids : List Nat) : List (Sample Nat (String → Int)) :=
  ids.map fun id => ⟨id, fun _ => 10 * id⟩

/-- The first tree takes all rows, and the second one the rows 2 and 0, with
the gradient of the row 0 doubled. -/
def twoDraws : List (Option (Draw Int (setInputs none (rowsOf [4, 6, 8])).size)) :=
  [none, some ⟨[2], [0], 2, by decide, by decide⟩]

theorem twoDraws_labelsFit :
    LabelsFit (setInputs none (rowsOf [4, 6, 8]))
      (setInputs none (rowsOf [6, 4, 8])) twoDraws where
  rows draw hdraw := by
    obtain rfl | rfl : draw = none ∨ draw = some ⟨[2], [0], 2, _, _⟩ := by
      simpa [twoDraws] using hdraw
    · exact ⟨fun _ => Iff.rfl, fun _ => Iff.rfl⟩
    · exact ⟨fun _ => Iff.rfl, fun _ => Iff.rfl⟩
  positions _ _ := Iff.rfl

end PrimiHub.FL
