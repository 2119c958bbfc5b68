/-
Training gives a row the weight that prediction gives it.

A tree says what weight a row gets: at a node the party that owns it
compares its part of the row with the cut (`weightOf`). Training writes the
weights of a node under the ids of its split, and then those of the nodes
below; so does prediction. Both therefore leave `weightOf` under the labels
that both tables have and touch no other label (`construct_scored`,
`traverse_scored`). The rows of a child are named by the ids of the split,
so below the root both tables are over one set of labels; at the root it is
enough that the rows of the party that owns the split are at the other one.

A record in a lookup table stays as it is, so what training saw is what
prediction finds (`Later`).
-/
import Mathlib.Order.Lattice
import PrimiHub.FL.Proofs.LockStep
import PrimiHub.FL.Scores
import PrimiHub.Lib.Meet

namespace PrimiHub.FL

open Lib

variable {ι ω σ η : Type}

-- ================================================================ one split

/-- A party after a split of its own. -/
def Party.own (self : Party ω) (entry : String × ω) : Role → Party ω
  | .host =>
      { self with
        lookupTable := Function.update self.lookupTable self.hostRecord
          (some entry)
        hostRecord := self.hostRecord + 1 }
  | .guest =>
      { self with
        lookupTable := Function.update self.lookupTable self.guestRecord
          (some entry)
        guestRecord := self.guestRecord + 1 }

/-- A party after a split of the other one. -/
def Party.other (self : Party ω) : Role → Party ω
  | .host => { self with hostRecord := self.hostRecord + 1 }
  | .guest => { self with guestRecord := self.guestRecord + 1 }

section Split

variable [LT ω] [DecidableLT ω]

/-- What the exchange at a node comes to. -/
inductive SplitAs (x y : Table ι ω) (self self' : Party ω) :
    Decision → Option (Split ι ω) × Party ω →
      Option (Split ι ω) × Party ω → Prop
  | stop : SplitAs x y self self' .stop (none, self) (none, self')
  | host {idsW : IdsW ι ω} (var : String) (cut : ω)
      (h : idsW.toIds = splitIds x var cut) :
      SplitAs x y self self' .host
        (some ⟨.host, self.hostRecord, idsW⟩, self.own (var, cut) .host)
        (some ⟨.host, self'.hostRecord, idsW⟩, self'.other .host)
  | guest {idsW : IdsW ι ω} (var : String) (cut : ω)
      (h : idsW.toIds = splitIds y var cut) :
      SplitAs x y self self' .guest
        (some ⟨.guest, self.guestRecord, idsW⟩, self.other .guest)
        (some ⟨.guest, self'.guestRecord, idsW⟩, self'.own (var, cut) .guest)

variable [Zero ω] [DecidableEq ω]

/-- What the parties do at a node. -/
def decisionAt (search : Searches ι ω σ η) (node : List Branch)
    (x y : Table ι ω) (gh : Frame ι (Grad ω)) (ghs : Frame ι η) : Decision :=
  hostDecision ((search.hostBestCut node x gh).map (·.bestGain))
    ((search.guestBestCut node (search.sums node y ghs) gh).map (·.gain))

variable [Neg ω] [Add ω] [Div ω]

theorem split_as (settings : Settings ω) (search : Searches ι ω σ η)
    (node : List Branch) (x y : Table ι ω) (gh : Frame ι (Grad ω))
    (ghs : Frame ι η) (self self' : Party ω) :
    Settles (hostSplit search node x gh self)
      (guestSplit settings search node y ghs self') (fun _ => False)
      (SplitAs x y self self' (decisionAt search node x y gh ghs)) := by
  unfold hostSplit guestSplit decisionAt
  apply Settles.get_put
  apply Settles.put_get
  dsimp only
  generalize search.hostBestCut node x gh = hostBest
  generalize search.guestBestCut node (search.sums node y ghs) gh = guestBest
  rw [← hostDecision_eq]
  cases hd : hostDecision (hostBest.map (·.bestGain))
    (guestBest.map (·.gain)) with
  | stop => exact Settles.ret .stop
  | guest =>
      rw [hostDecision_eq] at hd
      have hsome := isSome_of_guestDecision hd
      cases guestBest with
      | none => cases hsome
      | some best =>
          apply Settles.get_put
          exact Settles.ret (.guest best.var best.cut rfl)
  | host =>
      have hsome := isSome_of_hostDecision hd
      cases hostBest with
      | none => cases hsome
      | some best =>
          apply Settles.put_get
          exact Settles.ret (.host best.bestVar best.bestCut rfl)

end Split

-- ================================================================== weights

/-- The lookup tables of both parties. -/
structure Lookups (ω : Type) where
  host : Nat → Option (String × ω)
  guest : Nat → Option (String × ω)

/-- The lookup table of a role. -/
def Lookups.of (l : Lookups ω) : Role → Nat → Option (String × ω)
  | .host => l.host
  | .guest => l.guest

/-- What both parties have of a row. -/
def bothRows (x y : ι → String → ω) (i : ι) : Role → String → ω
  | .host => x i
  | .guest => y i

/-- The weight of a row in a tree; a row that is in no split keeps `w`. -/
def Tree.weightOf [LT ω] [DecidableLT ω] (l : Lookups ω)
    (row : Role → String → ω) : Tree ω → ω → ω
  | .leaf, w => w
  | .node role record wLeft left wRight right, w =>
      match l.of role record with
      | none => w
      | some (var, cut) =>
          if row role var < cut then left.weightOf l row wLeft
          else right.weightOf l row wRight

theorem Tree.weightOf_node [LT ω] [DecidableLT ω] {l : Lookups ω}
    {row : Role → String → ω} {role : Role} {record : Nat}
    {wLeft wRight w : ω} {left right : Tree ω} {var : String} {cut : ω}
    (h : l.of role record = some (var, cut)) :
    (Tree.node role record wLeft left wRight right).weightOf l row w
      = if row role var < cut then left.weightOf l row wLeft
        else right.weightOf l row wRight := by
  rw [Tree.weightOf, h]

/-- The party of a role has its rows at the other one. -/
def FitsRole (x y : Table ι ω) : Role → Prop
  | .host => y.Has x.index
  | .guest => x.Has y.index

/-- The root of a tree fits the tables. -/
def Tree.Fits (x y : Table ι ω) : Tree ω → Prop
  | .leaf => True
  | .node role _ _ _ _ _ => FitsRole x y role

theorem Tree.Fits.of_sameIndex {x y : Table ι ω} (h : SameIndex x y)
    (tree : Tree ω) : tree.Fits x y := by
  cases tree with
  | leaf => trivial
  | node role _ _ _ _ _ =>
      cases role with
      | host => exact fun i hi => (h i).mp hi
      | guest => exact fun i hi => (h i).mpr hi

/-- The lookup tables know what the parties have recorded. -/
structure Later (l : Lookups ω) (host guest : Party ω) : Prop where
  host : ∀ r < host.hostRecord, l.host r = host.lookupTable r
  guest : ∀ r < guest.guestRecord, l.guest r = guest.lookupTable r

/-- Both parties count alike. -/
structure SameRecords (host guest : Party ω) : Prop where
  hostRecord : host.hostRecord = guest.hostRecord
  guestRecord : host.guestRecord = guest.guestRecord

/-- An owner of the keys below a node, and of its own. -/
theorem Owned.node {l : Lookups ω} {role : Role} {record : Nat}
    {wLeft wRight : ω} {left right : Tree ω} {entry : String × ω}
    (h : l.of role record = some entry)
    (hleft : Owned l.host l.guest left)
    (hright : Owned l.host l.guest right) :
    Owned l.host l.guest (.node role record wLeft left wRight right) where
  host r hr := by
    obtain _ | ⟨_, hr⟩ := hr
    · exact Option.isSome_of_eq_some h
    · obtain hr | hr := List.mem_append.mp hr
      · exact hleft.host r hr
      · exact hright.host r hr
  guest r hr := by
    obtain _ | ⟨_, hr⟩ := hr
    · exact Option.isSome_of_eq_some h
    · obtain hr | hr := List.mem_append.mp hr
      · exact hleft.guest r hr
      · exact hright.guest r hr

theorem Owned.root {l : Lookups ω} {role : Role} {record : Nat}
    {wLeft wRight : ω} {left right : Tree ω}
    (h : Owned l.host l.guest (.node role record wLeft left wRight right)) :
    (l.of role record).isSome := by
  cases role with
  | host => exact h.host record List.mem_cons_self
  | guest => exact h.guest record List.mem_cons_self

theorem Owned.leaf (l : Lookups ω) : Owned l.host l.guest .leaf where
  host r hr := by cases hr
  guest r hr := by cases hr

-- ==================================================================== a node

/-- The tables and the gradients have the rows that a split needs. -/
def Meets (x y : Table ι ω) (gh : Frame ι (Grad ω)) : Decision → Prop
  | .stop => True
  | .host => x.index = gh.index ∧ y.Has x.index
  | .guest => x.index = gh.index ∧ x.Has y.index

/-- What a split is for what comes after it. -/
structure NodeSplit [LT ω] (x y : Table ι ω) (gh : Frame ι (Grad ω))
    (before before' : Party ω) (s : Split ι ω) (host guest : Party ω) :
    Prop where
  records : SameRecords host guest
  aligned : x.index = gh.index
  hostHas : x.Has s.idsW.idLeft ∧ x.Has s.idsW.idRight
  guestHas : y.Has s.idsW.idLeft ∧ y.Has s.idsW.idRight
  ghHas : gh.Has s.idsW.idLeft ∧ gh.Has s.idsW.idRight
  fits : FitsRole x y s.role
  later : ∀ l, Later l host guest → Later l before before'
  sides : ∀ l, Later l host guest →
    ∃ var cut, l.of s.role s.record = some (var, cut)
      ∧ (∀ i, i ∈ s.idsW.idLeft.labels
        ↔ (i ∈ x.index.labels ∧ i ∈ y.index.labels)
          ∧ bothRows x.row y.row i s.role var < cut)
      ∧ ∀ i, i ∈ s.idsW.idRight.labels
        ↔ (i ∈ x.index.labels ∧ i ∈ y.index.labels)
          ∧ ¬ bothRows x.row y.row i s.role var < cut

theorem mem_splitIds [LT ω] [DecidableLT ω] (x : Table ι ω) (var : String)
    (cut : ω) :
    (∀ i, i ∈ (splitIds x var cut).idLeft.labels
        ↔ i ∈ x.index.labels ∧ x.row i var < cut)
      ∧ ∀ i, i ∈ (splitIds x var cut).idRight.labels
        ↔ i ∈ x.index.labels ∧ ¬ x.row i var < cut := by
  refine ⟨fun i => ?_, fun i => ?_⟩
  · refine List.mem_filter.trans ?_
    rw [decide_eq_true_iff]
  · refine List.mem_filter.trans ?_
    rw [Bool.not_eq_true', decide_eq_false_iff_not]

theorem later_own_host {l : Lookups ω} {self self' : Party ω}
    {entry : String × ω}
    (h : Later l (self.own entry .host) (self'.other .host)) :
    Later l self self' ∧ l.host self.hostRecord = some entry := by
  refine ⟨⟨fun r hr => ?_, h.guest⟩, ?_⟩
  · rw [h.host r (Nat.lt_succ_of_lt hr)]
    exact Function.update_of_ne (Nat.ne_of_lt hr) _ _
  · rw [h.host _ (Nat.lt_succ_self _)]
    exact Function.update_self _ _ _

theorem later_own_guest {l : Lookups ω} {self self' : Party ω}
    {entry : String × ω}
    (h : Later l (self.other .guest) (self'.own entry .guest)) :
    Later l self self' ∧ l.guest self'.guestRecord = some entry := by
  refine ⟨⟨h.host, fun r hr => ?_⟩, ?_⟩
  · rw [h.guest r (Nat.lt_succ_of_lt hr)]
    exact Function.update_of_ne (Nat.ne_of_lt hr) _ _
  · rw [h.guest _ (Nat.lt_succ_self _)]
    exact Function.update_self _ _ _

theorem SplitAs.node [LT ω] [DecidableLT ω] {x y : Table ι ω}
    {gh : Frame ι (Grad ω)} {self self' : Party ω} {d : Decision}
    {a b : Option (Split ι ω) × Party ω} (h : SplitAs x y self self' d a b)
    (hm : Meets x y gh d) (hr : SameRecords self self') :
    (a = (none, self) ∧ b = (none, self'))
      ∨ ∃ s host guest, a = (some s, host) ∧ b = (some s, guest)
        ∧ NodeSplit x y gh self self' s host guest := by
  cases h with
  | stop => exact Or.inl ⟨rfl, rfl⟩
  | @host idsW var cut hids =>
      obtain ⟨haligned, hy⟩ := hm
      have hgh : gh.Has x.index := by
        rw [haligned]
        exact fun _ hi => hi
      -- the ids of the two sides are labels of the owner, which the other
      -- table has too
      obtain ⟨hleft, hright⟩ := mem_splitIds x var cut
      rw [← hids] at hleft hright
      have hxl : x.Has idsW.idLeft := fun i hi => ((hleft i).mp hi).1
      have hxr : x.Has idsW.idRight := fun i hi => ((hright i).mp hi).1
      have hboth : ∀ i, i ∈ x.index.labels
          ↔ i ∈ x.index.labels ∧ i ∈ y.index.labels :=
        fun i => ⟨fun hi => ⟨hi, hy i hi⟩, And.left⟩
      refine Or.inr ⟨_, _, _, rfl, by rw [← hr.hostRecord], ?_⟩
      exact
        { records := ⟨congrArg (· + 1) hr.hostRecord, hr.guestRecord⟩
          aligned := haligned
          hostHas := ⟨hxl, hxr⟩
          guestHas := ⟨hy.trans hxl, hy.trans hxr⟩
          ghHas := ⟨hgh.trans hxl, hgh.trans hxr⟩
          fits := hy
          later := fun l hl => (later_own_host hl).1
          sides := fun l hl => ⟨var, cut, (later_own_host hl).2,
            fun i => (hleft i).trans (and_congr_left' (hboth i)),
            fun i => (hright i).trans (and_congr_left' (hboth i))⟩ }
  | @guest idsW var cut hids =>
      obtain ⟨haligned, hx⟩ := hm
      have hgh : gh.Has y.index := by
        rw [Frame.Has, ← haligned]
        exact hx
      obtain ⟨hleft, hright⟩ := mem_splitIds y var cut
      rw [← hids] at hleft hright
      have hyl : y.Has idsW.idLeft := fun i hi => ((hleft i).mp hi).1
      have hyr : y.Has idsW.idRight := fun i hi => ((hright i).mp hi).1
      have hboth : ∀ i, i ∈ y.index.labels
          ↔ i ∈ x.index.labels ∧ i ∈ y.index.labels :=
        fun i => ⟨fun hi => ⟨hx i hi, hi⟩, And.right⟩
      refine Or.inr ⟨_, _, _, rfl, by rw [← hr.guestRecord], ?_⟩
      exact
        { records := ⟨hr.hostRecord, congrArg (· + 1) hr.guestRecord⟩
          aligned := haligned
          hostHas := ⟨hx.trans hyl, hx.trans hyr⟩
          guestHas := ⟨hyl, hyr⟩
          ghHas := ⟨hgh.trans hyl, hgh.trans hyr⟩
          fits := hx
          later := fun l hl => (later_own_guest hl).1
          sides := fun l hl => ⟨var, cut,
            hr.guestRecord ▸ (later_own_guest hl).2,
            fun i => (hleft i).trans (and_congr_left' (hboth i)),
            fun i => (hright i).trans (and_congr_left' (hboth i))⟩ }

-- ==================================================================== a tree

/-- Two writings under the ids of a split, and then those of both sides. -/
theorem row_of_sides {p q : ι → Prop} [DecidablePred p] [DecidablePred q]
    {w w₁ w₂ w₃ w₄ : ι → ω} {wLeft wRight : ω} {f g : ι → ω → ω}
    (h₁ : ∀ i, w₁ i = if p i then wLeft else w i)
    (h₂ : ∀ i, w₂ i = if q i then wRight else w₁ i)
    (h₃ : ∀ i, w₃ i = if p i then f i (w₂ i) else w₂ i)
    (h₄ : ∀ i, w₄ i = if q i then g i (w₃ i) else w₃ i)
    (hpq : ∀ i, p i → ¬ q i) (i : ι) :
    w₄ i = if p i then f i wLeft else if q i then g i wRight else w i := by
  by_cases hp : p i
  · rw [h₄, if_neg (hpq i hp), h₃, if_pos hp, h₂, if_neg (hpq i hp), h₁,
      if_pos hp, if_pos hp]
  · rw [if_neg hp]
    by_cases hq : q i
    · rw [h₄, if_pos hq, h₃, if_neg hp, h₂, if_pos hq, if_pos hq]
    · rw [h₄, if_neg hq, h₃, if_neg hp, h₂, if_neg hq, h₁, if_neg hp,
        if_neg hq]

section Size

variable [LT ω] [DecidableLT ω] [Zero ω] [DecidableEq ω]

/-- The tables are as large for the tests at a node, and what the parties do
there fits them. -/
structure NodeFits (settings : Settings ω) (search : Searches ι ω σ η)
    (node : List Branch) (x y : Table ι ω) (gh : Frame ι (Grad ω))
    (ghs : Frame ι η) (depth : Int) : Prop where
  stops : ((x.size : Int) < settings.minChildSample
      ∨ settings.maxDepth < depth)
    ↔ ((y.size : Int) < settings.minChildSample ∨ settings.maxDepth < depth)
  empty : ¬ ((x.size : Int) < settings.minChildSample
    ∨ settings.maxDepth < depth) → (x.size = 0 ↔ y.size = 0)
  meets : ¬ ((x.size : Int) < settings.minChildSample
    ∨ settings.maxDepth < depth) → x.size ≠ 0 →
    Meets x y gh (decisionAt search node x y gh ghs)

theorem NodeFits.of_sameIndex {settings : Settings ω}
    {search : Searches ι ω σ η} {node : List Branch} {x y : Table ι ω}
    {gh : Frame ι (Grad ω)} {ghs : Frame ι η} {depth : Int}
    (h : SameIndex x y) (haligned : x.index = gh.index) :
    NodeFits settings search node x y gh ghs depth where
  stops := by rw [h.size_eq]
  empty _ := by rw [h.size_eq]
  meets _ _ := by
    cases decisionAt search node x y gh ghs with
    | stop => trivial
    | host => exact ⟨haligned, fun i hi => (h i).mp hi⟩
    | guest => exact ⟨haligned, fun i hi => (h i).mpr hi⟩

end Size

section Tree

variable [DecidableEq ι]

/-- What `assign` leaves under a label. -/
theorem Frame.assign_row {x x' : Frame ι ω} {ids : Index ι} {value : ω}
    (h : x.assign ids value = .ok x') (i : ι) :
    x'.row i = if i ∈ ids.labels then value else x.row i := by
  by_cases hall : ∀ i ∈ ids.labels, i ∈ x.index.labels
  · rw [Frame.assign, if_pos hall] at h
    cases h
    rfl
  · rw [Frame.assign, if_neg hall] at h
    cases h

variable [LT ω] [DecidableLT ω]

/-- The weights that are written at a node are those of the tree. -/
theorem weight_node {l : Lookups ω} {x y : Table ι ω} {s : Split ι ω}
    {left right : Tree ω} {w w₁ w₂ w₃ w₄ : Frame ι ω} {var : String}
    {cut : ω} (hentry : l.of s.role s.record = some (var, cut))
    (hleft : ∀ i, i ∈ s.idsW.idLeft.labels
      ↔ (i ∈ x.index.labels ∧ i ∈ y.index.labels)
        ∧ bothRows x.row y.row i s.role var < cut)
    (hright : ∀ i, i ∈ s.idsW.idRight.labels
      ↔ (i ∈ x.index.labels ∧ i ∈ y.index.labels)
        ∧ ¬ bothRows x.row y.row i s.role var < cut)
    (h₁ : w.assign s.idsW.idLeft s.idsW.wLeft = .ok w₁)
    (h₂ : w₁.assign s.idsW.idRight s.idsW.wRight = .ok w₂)
    (h₃ : ∀ i, w₃.row i = if i ∈ s.idsW.idLeft.labels then
      left.weightOf l (bothRows x.row y.row i) (w₂.row i) else w₂.row i)
    (h₄ : ∀ i, w₄.row i = if i ∈ s.idsW.idRight.labels then
      right.weightOf l (bothRows x.row y.row i) (w₃.row i) else w₃.row i)
    (i : ι) :
    w₄.row i = if i ∈ x.index.labels ∧ i ∈ y.index.labels then
        (Tree.node s.role s.record s.idsW.wLeft left s.idsW.wRight
          right).weightOf l (bothRows x.row y.row i) (w.row i)
      else w.row i := by
  have hdisjoint : ∀ i, i ∈ s.idsW.idLeft.labels
      → ¬ i ∈ s.idsW.idRight.labels :=
    fun i hl hr => ((hright i).mp hr).2 ((hleft i).mp hl).2
  rw [row_of_sides (Frame.assign_row h₁) (Frame.assign_row h₂) h₃ h₄
    hdisjoint, Tree.weightOf_node hentry]
  by_cases hboth : i ∈ x.index.labels ∧ i ∈ y.index.labels
  · rw [if_pos hboth]
    by_cases hlt : bothRows x.row y.row i s.role var < cut
    · rw [if_pos ((hleft i).mpr ⟨hboth, hlt⟩), if_pos hlt]
    · rw [if_neg fun hl => hlt ((hleft i).mp hl).2,
        if_pos ((hright i).mpr ⟨hboth, hlt⟩), if_neg hlt]
  · rw [if_neg hboth, if_neg fun hl => hboth ((hleft i).mp hl).1,
      if_neg fun hr => hboth ((hright i).mp hr).1]

/-- What both parties have after a tree. -/
structure TreeScored (x y : Table ι ω) (gh : Frame ι (Grad ω))
    (fT : Frame ι ω) (before before' : Party ω)
    (host : Tree ω × Party ω × Frame ι ω) (guest : Tree ω × Party ω) :
    Prop where
  same : host.1 = guest.1
  records : SameRecords host.2.1 guest.2
  fits : host.1.Fits x y
  aligned : host.1 = .leaf ∨ x.index = gh.index
  index : host.2.2.index = fT.index
  later : ∀ l, Later l host.2.1 guest.2 → Later l before before'
  owned : ∀ l, Later l host.2.1 guest.2 → Owned l.host l.guest host.1
  row : ∀ l, Later l host.2.1 guest.2 → ∀ i,
    host.2.2.row i = if i ∈ x.index.labels ∧ i ∈ y.index.labels then
        host.1.weightOf l (bothRows x.row y.row i) (fT.row i)
      else fT.row i

/-- A tree that is not split. -/
theorem TreeScored.leaf {x y : Table ι ω} {gh : Frame ι (Grad ω)}
    {fT : Frame ι ω} {self self' : Party ω} (h : SameRecords self self') :
    TreeScored x y gh fT self self' (.leaf, self, fT) (.leaf, self') where
  same := rfl
  records := h
  fits := trivial
  aligned := Or.inl rfl
  index := rfl
  later _ hl := hl
  owned l _ := Owned.leaf l
  row l _ i := by
    rw [Tree.weightOf, ite_self]

variable [Zero ω] [DecidableEq ω] [Neg ω] [Add ω] [Div ω]

/-- Training leaves its weights under the labels that both tables have. -/
theorem construct_scored {settings : Settings ω}
    {search : Searches ι ω σ η} (node : List Branch) (x y : Table ι ω)
    (fT : Frame ι ω) (depth : Int) (gh : Frame ι (Grad ω)) (ghs : Frame ι η)
    (self self' : Party ω)
    (hfits : NodeFits settings search node x y gh ghs depth)
    (hfT : fT.Has gh.index) (hghs : ghs.Has gh.index)
    (hrecords : SameRecords self self') :
    Settles (hostTreeConstruct settings search node x fT depth gh self)
      (guestTreeConstruct settings search node y ghs depth self')
      (· = .overflowError) (TreeScored x y gh fT self self') := by
  -- on the levels that are left below `max_depth`
  induction hn : (settings.maxDepth + 1 - depth).toNat
    using Nat.strongRecOn
    generalizing node x y fT depth gh ghs self self' with
  | _ n ih =>
    rw [hostTreeConstruct, guestTreeConstruct]
    by_cases hstop : (x.size : Int) < settings.minChildSample
        ∨ settings.maxDepth < depth
    · rw [if_pos hstop, if_pos (hfits.stops.mp hstop)]
      exact Settles.ret (.leaf hrecords)
    rw [if_neg hstop, if_neg (mt hfits.stops.mpr hstop)]
    by_cases hempty : x.size = 0
    · rw [if_pos hempty, if_pos ((hfits.empty hstop).mp hempty)]
      exact Settles.raise rfl
    rw [if_neg hempty, if_neg (mt (hfits.empty hstop).mpr hempty)]
    obtain ⟨a, b, hsync, hsplit⟩ :=
      (split_as settings search node x y gh ghs self self').exists_ok
    apply Settles.bind_ok hsync
    obtain ⟨rfl, rfl⟩ | ⟨⟨role, record, ids⟩, host, guest, rfl, rfl, hs⟩ :=
      hsplit.node (hfits.meets hstop hempty) hrecords
    · exact Settles.ret (.leaf hrecords)
    obtain ⟨hxl, hxr⟩ := hs.hostHas
    obtain ⟨hyl, hyr⟩ := hs.guestHas
    obtain ⟨hgl, hgr⟩ := hs.ghHas
    obtain ⟨fT₁, hfT₁, hindex₁⟩ :=
      fT.assign_of_has ids.wLeft (hfT.trans hgl)
    obtain ⟨fT₂, hfT₂, hindex₂⟩ :=
      fT₁.assign_of_has ids.wRight ((hfT.trans hgr).of_index hindex₁)
    have hindex : fT₂.index = fT.index := hindex₂.trans hindex₁
    simp only [Frame.loc_of_has hxl, Frame.loc_of_has hxr,
      Frame.loc_of_has hyl, Frame.loc_of_has hyr, Frame.loc_of_has hgl,
      Frame.loc_of_has hgr, Frame.loc_of_has (hghs.trans hgl),
      Frame.loc_of_has (hghs.trans hgr), hfT₁, hfT₂, Proc.lift_ok,
      Proc.ret_bind]
    -- both recurse on the rows of the ids, one level deeper
    have hchild : ∀ (branch : Branch) (rows : Index ι) (fT' : Frame ι ω)
        (host' guest' : Party ω), gh.Has rows → fT'.index = fT.index →
        SameRecords host' guest' →
        Settles (hostTreeConstruct settings search (node ++ [branch])
            ⟨rows, x.row⟩ fT' (depth + 1) ⟨rows, gh.row⟩ host')
          (guestTreeConstruct settings search (node ++ [branch])
            ⟨rows, y.row⟩ ⟨rows, ghs.row⟩ (depth + 1) guest')
          (· = .overflowError)
          (TreeScored ⟨rows, x.row⟩ ⟨rows, y.row⟩ ⟨rows, gh.row⟩ fT' host'
            guest') := by
      intro branch rows fT' host' guest' hrows hindex' hrecords'
      refine ih _ ?_ _ _ _ _ _ _ _ _ _ ?_ ?_ ?_ hrecords' rfl
      · omega
      · exact .of_sameIndex (fun _ => Iff.rfl) rfl
      · exact (hfT.trans hrows).of_index hindex'
      · exact fun _ hi => hi
    apply Settles.bind (hchild .left ids.idLeft fT₂ host guest hgl hindex
      hs.records)
    rintro ⟨left, host₁, fT₃⟩ ⟨left', guest₁⟩ - hleft
    obtain rfl : left = left' := hleft.same
    have hindex₃ : fT₃.index = fT.index := hleft.index.trans hindex
    apply Settles.bind (hchild .right ids.idRight fT₃ host₁ guest₁ hgr
      hindex₃ hleft.records)
    rintro ⟨right, host₂, fT₄⟩ ⟨right', guest₂⟩ - hright
    obtain rfl : right = right' := hright.same
    refine Settles.ret
      { same := rfl
        records := hright.records
        fits := hs.fits
        aligned := Or.inr hs.aligned
        index := hright.index.trans hindex₃
        later := fun l hl => hs.later l (hleft.later l (hright.later l hl))
        owned := fun l hl => ?_
        row := fun l hl => ?_ }
    · obtain ⟨var, cut, hentry, -, -⟩ :=
        hs.sides l (hleft.later l (hright.later l hl))
      exact .node hentry (hleft.owned l (hright.later l hl))
        (hright.owned l hl)
    · obtain ⟨var, cut, hentry, hl', hr'⟩ :=
        hs.sides l (hleft.later l (hright.later l hl))
      have hrow₃ : ∀ i, fT₃.row i = if i ∈ ids.idLeft.labels then
          left.weightOf l (bothRows x.row y.row i) (fT₂.row i)
          else fT₂.row i := fun i =>
        (hleft.row l (hright.later l hl) i).trans
          (if_congr and_self_iff rfl rfl)
      have hrow₄ : ∀ i, fT₄.row i = if i ∈ ids.idRight.labels then
          right.weightOf l (bothRows x.row y.row i) (fT₃.row i)
          else fT₃.row i := fun i =>
        (hright.row l hl i).trans (if_congr and_self_iff rfl rfl)
      exact weight_node hentry hl' hr' hfT₁ hfT₂ hrow₃ hrow₄

end Tree

-- =============================================================== prediction

section Predict

variable [LinearOrder ω]

/-- A party cuts its table, and the other one takes the rows of the ids. -/
theorem ownVisit_eq {lookup : Nat → Option (String × ω)} {record : Nat}
    {var : String} {cut : ω} (h : lookup record = some (var, cut))
    (test : Table ι ω) :
    (ownVisit lookup record test : Proc (Message ι ω σ η) _ _)
      = Proc.put (Tag.ids record)
          (⟨(testLeft test var cut).index, (testRight test var cut).index⟩ :
            Ids ι) >>= fun _ =>
        pure (testLeft test var cut, testRight test var cut) := by
  rw [ownVisit, lookupRecord, h]
  rfl

/-- What the visit of a node comes to: both have the rows of the split. -/
structure Visited (l : Lookups ω) (x y : Table ι ω) (role : Role)
    (record : Nat) (host guest : Table ι ω × Table ι ω) : Prop where
  hostRow : host.1.row = x.row ∧ host.2.row = x.row
  guestRow : guest.1.row = y.row ∧ guest.2.row = y.row
  left : host.1.index = guest.1.index
  right : host.2.index = guest.2.index
  hostHas : x.Has host.1.index ∧ x.Has host.2.index
  sides : ∃ var cut, l.of role record = some (var, cut)
    ∧ (∀ i, i ∈ host.1.index.labels
      ↔ (i ∈ x.index.labels ∧ i ∈ y.index.labels)
        ∧ bothRows x.row y.row i role var < cut)
    ∧ ∀ i, i ∈ host.2.index.labels
      ↔ (i ∈ x.index.labels ∧ i ∈ y.index.labels)
        ∧ ¬ bothRows x.row y.row i role var < cut

theorem mem_testLeft (test : Table ι ω) (var : String) (cut : ω) (i : ι) :
    i ∈ (testLeft test var cut).index.labels
      ↔ i ∈ test.index.labels ∧ test.row i var < cut := by
  refine List.mem_filter.trans ?_
  rw [decide_eq_true_iff]

/-- The right side is the rest. -/
theorem mem_testRight (test : Table ι ω) (var : String) (cut : ω) (i : ι) :
    i ∈ (testRight test var cut).index.labels
      ↔ i ∈ test.index.labels ∧ ¬ test.row i var < cut := by
  refine List.mem_filter.trans ?_
  rw [decide_eq_true_iff, not_lt]

variable [DecidableEq ι]

theorem visit_scored {l : Lookups ω} {x y : Table ι ω} {role : Role}
    {record : Nat} (h : (l.of role record).isSome) (hfits : FitsRole x y role)
    {E : Raised → Prop} :
    Settles
      (hostVisit l.host record x role : Proc (Message ι ω σ η) _ _)
      (guestVisit l.guest record y role) E (Visited l x y role record) := by
  obtain ⟨⟨var, cut⟩, hentry⟩ := Option.isSome_iff_exists.mp h
  cases role with
  | host =>
      -- the owner filters its own rows, and the other takes these labels
      have hlookup : l.host record = some (var, cut) := hentry
      have hboth : ∀ i, i ∈ x.index.labels
          ↔ i ∈ x.index.labels ∧ i ∈ y.index.labels :=
        fun i => ⟨fun hi => ⟨hi, hfits i hi⟩, And.left⟩
      have hleft : y.Has (testLeft x var cut).index :=
        fun i hi => hfits i ((mem_testLeft x var cut i).mp hi).1
      have hright : y.Has (testRight x var cut).index :=
        fun i hi => hfits i ((mem_testRight x var cut i).mp hi).1
      rw [hostVisit, guestVisit, ownVisit_eq hlookup, otherVisit]
      apply Settles.put_get
      simp only [Frame.loc_of_has hleft, Frame.loc_of_has hright,
        Proc.lift_ok, Proc.ret_bind]
      exact Settles.ret
        { hostRow := ⟨rfl, rfl⟩
          guestRow := ⟨rfl, rfl⟩
          left := rfl
          right := rfl
          hostHas := ⟨x.has_filter _, x.has_filter _⟩
          sides := ⟨var, cut, hentry,
            fun i => (mem_testLeft x var cut i).trans
              (and_congr_left' (hboth i)),
            fun i => (mem_testRight x var cut i).trans
              (and_congr_left' (hboth i))⟩ }
  | guest =>
      have hlookup : l.guest record = some (var, cut) := hentry
      have hboth : ∀ i, i ∈ y.index.labels
          ↔ i ∈ x.index.labels ∧ i ∈ y.index.labels :=
        fun i => ⟨fun hi => ⟨hfits i hi, hi⟩, And.right⟩
      have hleft : x.Has (testLeft y var cut).index :=
        fun i hi => hfits i ((mem_testLeft y var cut i).mp hi).1
      have hright : x.Has (testRight y var cut).index :=
        fun i hi => hfits i ((mem_testRight y var cut i).mp hi).1
      rw [hostVisit, guestVisit, ownVisit_eq hlookup, otherVisit]
      apply Settles.get_put
      simp only [Frame.loc_of_has hleft, Frame.loc_of_has hright,
        Proc.lift_ok, Proc.ret_bind]
      exact Settles.ret
        { hostRow := ⟨rfl, rfl⟩
          guestRow := ⟨rfl, rfl⟩
          left := rfl
          right := rfl
          hostHas := ⟨hleft, hright⟩
          sides := ⟨var, cut, hentry,
            fun i => (mem_testLeft y var cut i).trans
              (and_congr_left' (hboth i)),
            fun i => (mem_testRight y var cut i).trans
              (and_congr_left' (hboth i))⟩ }

/-- Prediction leaves the weights of the tree under the labels that both
tables have. -/
theorem traverse_scored {l : Lookups ω} (tree : Tree ω) {x y : Table ι ω}
    {w : Frame ι ω} (hw : w.Has x.index) (hfits : tree.Fits x y)
    (howned : Owned l.host l.guest tree) {E : Raised → Prop} :
    Settles
      (hostGetTreeNodeWeight l.host tree x w : Proc (Message ι ω σ η) _ _)
      (guestGetTreeIds l.guest tree y) E fun w' _ =>
        w'.index = w.index
          ∧ ∀ i, w'.row i = if i ∈ x.index.labels ∧ i ∈ y.index.labels then
              tree.weightOf l (bothRows x.row y.row i) (w.row i)
            else w.row i := by
  induction tree generalizing x y w with
  | leaf =>
      refine Settles.ret ⟨rfl, fun i => ?_⟩
      rw [Tree.weightOf, ite_self]
  | node role record wLeft left wRight right ihl ihr =>
      rw [hostGetTreeNodeWeight, guestGetTreeIds]
      apply Settles.bind (visit_scored howned.root hfits)
      rintro ⟨⟨ids, row⟩, ⟨ids', row'⟩⟩ ⟨⟨_, _⟩, ⟨_, _⟩⟩ -
        ⟨⟨rfl, rfl⟩, ⟨rfl, rfl⟩, rfl, rfl, ⟨hxl, hxr⟩, var, cut, hentry,
          hleft, hright⟩
      obtain ⟨w₁, hw₁, hindex₁⟩ := w.assign_of_has wLeft (hw.trans hxl)
      obtain ⟨w₂, hw₂, hindex₂⟩ :=
        w₁.assign_of_has wRight ((hw.trans hxr).of_index hindex₁)
      have hindex : w₂.index = w.index := hindex₂.trans hindex₁
      simp only [hw₁, hw₂, Proc.lift_ok, Proc.ret_bind]
      have hsame : ∀ (rows : Index ι) (tree : Tree ω),
          tree.Fits (⟨rows, x.row⟩ : Table ι ω) ⟨rows, y.row⟩ :=
        fun rows tree => .of_sameIndex (fun _ => Iff.rfl) tree
      apply Settles.bind (ihl ((hw.trans hxl).of_index hindex)
        (hsame ids left) howned.left)
      rintro w₃ _ - ⟨hindex₃, hrow₃⟩
      apply (ihr ((hw.trans hxr).of_index (hindex₃.trans hindex))
        (hsame ids' right) howned.right).mono
      rintro w₄ _ ⟨hindex₄, hrow₄⟩
      refine ⟨by rw [hindex₄, hindex₃, hindex], ?_⟩
      exact weight_node (s := ⟨role, record, ⟨⟨ids, ids'⟩, wLeft, wRight⟩⟩)
        hentry hleft hright hw₁ hw₂
        (fun i => (hrow₃ i).trans (if_congr and_self_iff rfl rfl))
        fun i => (hrow₄ i).trans (if_congr and_self_iff rfl rfl)

/-- What a tree adds to the score of a row. -/
def Tree.scoreOf [Zero ω] (l : Lookups ω) (x y : Table ι ω) (tree : Tree ω)
    (i : ι) : ω :=
  if i ∈ x.index.labels ∧ i ∈ y.index.labels then
    tree.weightOf l (bothRows x.row y.row i) 0
  else 0

variable [Zero ω] [Add ω] [Mul ω]

/-- The score of a row in some trees. -/
def scoreIn (learningRate : ω) (l : Lookups ω) (x y : Table ι ω)
    (trees : List (Tree ω)) (start : ω) (i : ι) : ω :=
  trees.foldl (fun score tree =>
    score + learningRate * tree.scoreOf l x y i) start

theorem predict_scored {learningRate : ω} {l : Lookups ω}
    (trees : List (Tree ω)) {x y : Table ι ω} {score : Frame ι ω}
    (h : ∀ tree ∈ trees, tree.Fits x y ∧ Owned l.host l.guest tree)
    {E : Raised → Prop} :
    Settles
      (predictRaw learningRate l.host x trees score :
        Proc (Message ι ω σ η) _ _)
      (guestPredict l.guest y trees) E fun score' _ =>
        ∀ i, score'.row i
          = scoreIn learningRate l x y trees (score.row i) i := by
  induction trees generalizing score with
  | nil => exact Settles.ret fun i => rfl
  | cons tree rest ih =>
      obtain ⟨hfits, howned⟩ := h tree List.mem_cons_self
      have hzero : (⟨x.index, fun _ => 0⟩ : Frame ι ω).Has x.index :=
        fun _ hi => hi
      rw [predictRaw, guestPredict]
      apply Settles.bind (traverse_scored tree hzero hfits howned)
      rintro yT _ - ⟨-, hrow⟩
      apply (ih fun tree' htree' =>
        h tree' (List.mem_cons_of_mem _ htree')).mono
      intro score' _ hscore i
      have hyT : yT.row i = tree.scoreOf l x y i := hrow i
      rw [hscore i, scoreIn, scoreIn, List.foldl_cons, ← hyT]

end Predict

end PrimiHub.FL
