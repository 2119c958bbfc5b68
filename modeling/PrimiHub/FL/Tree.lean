/-
Vertical boosted trees (python/primihub/FL/xgboost/gbt.py, the `ray_group`
path): `host_tree_construct` and `guest_tree_construct`, and the
traversals `host_get_tree_node_weight` and `guest_get_tree_ids` of the
prediction, as two processes.

`GrpcClient` prepends the sender's name to a key, so the two directions
do not mix and a tag names one queue each way. Each tag carries one type
of value; `<record>_ids` is the tag `ids record`.

The searches are parameters, and may answer differently at each node of
each tree: `hostBestCut` is `host_best_cut`, `sums` is
`sums_of_encrypted_ghs_with_ray`, `guestBestCut` is
`gh_sums_decrypted_with_ray` and then `guest_best_cut`. Both parties
compute `bins` from the logarithm of the number of rows before the first
message of a node, so an empty table, which reaches that point when
`min_child_sample` is not positive, raises at both.

A frame of pandas is the labels of its rows, each once, and what stands
under each label. `.loc` with a label that is not there raises `KeyError`.
-/
import Mathlib.Algebra.Group.Defs
import Mathlib.Data.List.Nodup
import Mathlib.Logic.Function.Basic
import PrimiHub.Lib.Process

namespace PrimiHub.FL

open Lib

-- ================================================================= frames

section Frames

/-- Row labels. -/
structure Index (ι : Type) where
  labels : List ι
  nodup : labels.Nodup
  deriving DecidableEq

/-- A frame, or a series: `row i` is what stands under `i`. -/
structure Frame (ι ρ : Type) where
  index : Index ι
  row : ι → ρ

/-- What the modelled functions raise. -/
inductive Raised
  /-- a label that is not in the index, a record that is not in the
  lookup table -/
  | keyError
  /-- `int(np.ceil(np.log(0) / np.log(4)))`, the bins of an empty table -/
  | overflowError
  /-- a field of `None` -/
  | typeError
  deriving DecidableEq, Repr

variable {ι ρ : Type}

/-- The labels `0, 1, ..`, as in a new frame. -/
def Index.range (n : Nat) : Index Nat := ⟨List.range n, List.nodup_range⟩

/-- The labels with a flag. -/
def Index.filter (index : Index ι) (flag : ι → Bool) : Index ι :=
  ⟨index.labels.filter flag, index.nodup.filter flag⟩

/-- The frame's number of rows. -/
def Frame.size (x : Frame ι ρ) : Nat := x.index.labels.length

/-- The rows with a flag, `x.loc[flag]`. -/
def Frame.select (x : Frame ι ρ) (flag : ρ → Bool) : Frame ι ρ :=
  ⟨x.index.filter fun i => flag (x.row i), x.row⟩

/-- `x.reset_index(drop=True)`: the rows in their order, labelled anew. -/
def Frame.resetIndex (x : Frame Nat ρ) : Frame Nat ρ :=
  ⟨.range x.size, fun p => x.row (x.index.labels.getD p 0)⟩

/-- The rows of `ids` are all there. -/
def Frame.Has (x : Frame ι ρ) (ids : Index ι) : Prop :=
  ∀ i ∈ ids.labels, i ∈ x.index.labels

/-- Two frames over the same set of labels. -/
def SameIndex {ρ' : Type} (x : Frame ι ρ) (y : Frame ι ρ') : Prop :=
  ∀ i, i ∈ x.index.labels ↔ i ∈ y.index.labels

theorem Frame.has_filter (x : Frame ι ρ) (flag : ι → Bool) :
    x.Has (x.index.filter flag) := by
  intro i hi
  exact (List.mem_filter.mp hi).1

theorem Frame.Has.of_sameIndex {ρ' : Type} {x : Frame ι ρ} {y : Frame ι ρ'}
    {ids : Index ι} (hx : x.Has ids) (h : SameIndex x y) : y.Has ids :=
  fun i hi => (h i).mp (hx i hi)

theorem Frame.Has.trans {ρ' : Type} {y : Frame ι ρ'} {x : Frame ι ρ}
    {ids : Index ι} (hy : y.Has x.index) (hx : x.Has ids) : y.Has ids :=
  fun i hi => hy i (hx i hi)

theorem Frame.Has.of_index {x y : Frame ι ρ} {ids : Index ι}
    (hx : x.Has ids) (h : y.index = x.index) : y.Has ids := by
  rw [Frame.Has, h]
  exact hx

theorem SameIndex.symm {ρ' : Type} {x : Frame ι ρ} {y : Frame ι ρ'}
    (h : SameIndex x y) : SameIndex y x :=
  fun i => (h i).symm

/-- Frames over the same labels list them in some order. -/
theorem SameIndex.perm {ρ' : Type} {x : Frame ι ρ} {y : Frame ι ρ'}
    (h : SameIndex x y) : x.index.labels.Perm y.index.labels :=
  (List.perm_ext_iff_of_nodup x.index.nodup y.index.nodup).mpr h

theorem SameIndex.size_eq {ρ' : Type} {x : Frame ι ρ} {y : Frame ι ρ'}
    (h : SameIndex x y) : x.size = y.size := h.perm.length_eq

variable [DecidableEq ι]

/-- `x.loc[ids]`. -/
def Frame.loc (x : Frame ι ρ) (ids : Index ι) :
    Except Raised (Frame ι ρ) :=
  if ∀ i ∈ ids.labels, i ∈ x.index.labels then .ok ⟨ids, x.row⟩
  else .error .keyError

/-- `x[ids] = value`. -/
def Frame.assign (x : Frame ι ρ) (ids : Index ι) (value : ρ) :
    Except Raised (Frame ι ρ) :=
  if ∀ i ∈ ids.labels, i ∈ x.index.labels then
    .ok { x with row := fun i => if i ∈ ids.labels then value else x.row i }
  else .error .keyError

theorem Frame.loc_of_has {x : Frame ι ρ} {ids : Index ι} (h : x.Has ids) :
    x.loc ids = .ok ⟨ids, x.row⟩ := if_pos h

theorem Frame.loc_of_not_has {x : Frame ι ρ} {ids : Index ι}
    (h : ¬ x.Has ids) : x.loc ids = .error .keyError := if_neg h

theorem Frame.assign_of_has {x : Frame ι ρ} {ids : Index ι} (value : ρ)
    (h : x.Has ids) :
    ∃ x', x.assign ids value = .ok x' ∧ x'.index = x.index :=
  ⟨_, if_pos h, rfl⟩

end Frames

-- =============================================================== messages

/-- The two parties. -/
inductive Role
  | host
  | guest
  deriving DecidableEq, Repr

/-- A gradient and a hessian. -/
structure Grad (ω : Type) where
  g : ω
  h : ω
  deriving DecidableEq, Repr

/-- What `host_best_cut` finds. -/
structure HostBest (ω : Type) where
  wLeft : ω
  wRight : ω
  bestVar : String
  bestCut : ω
  bestGain : ω
  deriving DecidableEq, Repr

/-- The row that `guest_best_cut` finds. -/
structure GuestBest (ω : Type) where
  gLeft : ω
  hLeft : ω
  gRight : ω
  hRight : ω
  var : String
  cut : ω
  gain : ω
  deriving DecidableEq, Repr

/-- The message `best_cut`. -/
structure BestCut (ω : Type) where
  hostBest : Option (HostBest ω)
  guestBest : Option (GuestBest ω)
  deriving DecidableEq, Repr

/-- The message `<record>_ids`. -/
structure Ids (ι : Type) where
  idLeft : Index ι
  idRight : Index ι
  deriving DecidableEq

/-- The message `ids_w`. -/
structure IdsW (ι ω : Type) extends Ids ι where
  wLeft : ω
  wRight : ω
  deriving DecidableEq

/-- The keys of `channel.send` and `channel.recv`. -/
inductive Tag
  | sampleIds
  | ghEn
  | encrypteGhSums
  | bestCut
  | idsW
  | ids (record : Nat)
  deriving DecidableEq, Repr

/-- What is sent under each key: `σ` are the encrypted sums, `η` is an
encrypted gradient. -/
def Message (ι ω σ η : Type) : Tag → Type
  | .sampleIds => Option (List Nat)
  | .ghEn => Frame ι η
  | .encrypteGhSums => σ
  | .bestCut => BestCut ω
  | .idsW => IdsW ι ω
  | .ids _ => Ids ι

/-- `tree_structure`: the key `(role, record)` and the two subtrees under
`('left', w_left)` and `('right', w_right)`; `leaf` is `None`. -/
inductive Tree (ω : Type)
  | leaf
  | node (role : Role) (record : Nat) (wLeft : ω) (left : Tree ω)
      (wRight : ω) (right : Tree ω)
  deriving DecidableEq, Repr

/-- A child of a node. -/
inductive Branch
  | left
  | right
  deriving DecidableEq, Repr

/-- The settings both parties read. -/
structure Settings (ω : Type) where
  maxDepth : Int
  minChildSample : Int
  regLambda : ω
  deriving DecidableEq, Repr

/-- A table: the value of a column in a row. -/
abbrev Table (ι ω : Type) : Type := Frame ι (String → ω)

/-- The searches, by the node they are asked at. -/
structure Searches (ι ω σ η : Type) where
  hostBestCut : List Branch → Table ι ω → Frame ι (Grad ω) →
    Option (HostBest ω)
  sums : List Branch → Table ι ω → Frame ι η → σ
  guestBestCut : List Branch → σ → Frame ι (Grad ω) → Option (GuestBest ω)

/-- `host_record`, `guest_record` and the party's own `lookup_table`. -/
structure Party (ω : Type) where
  hostRecord : Nat
  guestRecord : Nat
  lookupTable : Nat → Option (String × ω)

/-- A party before the first tree. -/
def Party.fresh (ω : Type) : Party ω := ⟨0, 0, fun _ => none⟩

/-- A split that both parties carry out. -/
structure Split (ι ω : Type) where
  role : Role
  record : Nat
  idsW : IdsW ι ω

/-- What a party does at a node. -/
inductive Decision
  | stop
  | guest
  | host
  deriving DecidableEq, Repr

variable {ι ω σ η : Type}

-- ============================================================== decisions

section Decisions

variable [Zero ω] [DecidableEq ω] [LT ω] [DecidableLT ω]

/-- The truth value of an optional number. -/
def truthy : Option ω → Bool
  | none => false
  | some x => x ≠ 0

/-- `guest_best_gain > host_best_gain`, asked of two numbers. -/
def gainGt : Option ω → Option ω → Bool
  | some guestGain, some hostGain => hostGain < guestGain
  | _, _ => false

/-- The branches of `host_tree_construct`. -/
def hostDecision (hostGain guestGain : Option ω) : Decision :=
  let flagGuest1 :=
    (truthy hostGain && truthy guestGain) && gainGt guestGain hostGain
  let flagGuest2 := !truthy hostGain && truthy guestGain
  if hostGain.isNone && guestGain.isNone then .stop
  else if truthy hostGain || truthy guestGain then
    if flagGuest1 || flagGuest2 then .guest else .host
  else .stop

/-- The branches of `guest_tree_construct`. -/
def guestDecision (hostGain guestGain : Option ω) : Decision :=
  let guestFlag1 :=
    (truthy hostGain && truthy guestGain) && gainGt guestGain hostGain
  let guestFlag2 := truthy guestGain && !truthy hostGain
  if hostGain.isNone && guestGain.isNone then .stop
  else if truthy hostGain || truthy guestGain then
    if guestFlag1 || guestFlag2 then .guest else .host
  else .stop

end Decisions

/-- The ids on both sides of a cut: `current_col < cut`, and the rest. -/
def splitIds [LT ω] [DecidableLT ω] (x : Table ι ω) (var : String)
    (cut : ω) : Ids ι :=
  { idLeft := x.index.filter fun i => x.row i var < cut
    idRight := x.index.filter fun i => !decide (x.row i var < cut) }

/-- `-G / (H + reg_lambda)`. -/
def leafWeight [Neg ω] [Add ω] [Div ω] (regLambda g h : ω) : ω :=
  -g / (h + regLambda)

-- =========================================================== construction

section Construct

variable [Zero ω] [DecidableEq ω] [LT ω] [DecidableLT ω]

/-- `host_tree_construct` from the search to the exchange of `ids_w`;
`none` where it returns `None`. -/
def hostSplit (search : Searches ι ω σ η) (node : List Branch)
    (x : Table ι ω) (gh : Frame ι (Grad ω)) (self : Party ω) :
    Proc (Message ι ω σ η) Raised (Option (Split ι ω) × Party ω) := do
  let hostBest := search.hostBestCut node x gh
  let guestGhSums ← Proc.get Tag.encrypteGhSums
  let guestBest := search.guestBestCut node guestGhSums gh
  Proc.put Tag.bestCut ⟨hostBest, guestBest⟩
  match hostDecision (hostBest.map (·.bestGain)) (guestBest.map (·.gain)) with
  | .stop => pure (none, self)
  | .guest => do
      let idsW ← Proc.get Tag.idsW
      pure (some ⟨.guest, self.guestRecord, idsW⟩,
        { self with guestRecord := self.guestRecord + 1 })
  | .host =>
      match hostBest with
      | none => Proc.raise .typeError
      | some best => do
          let idsW : IdsW ι ω :=
            { splitIds x best.bestVar best.bestCut with
              wLeft := best.wLeft, wRight := best.wRight }
          Proc.put Tag.idsW idsW
          pure (some ⟨.host, self.hostRecord, idsW⟩,
            { self with
              lookupTable := Function.update self.lookupTable self.hostRecord
                (some (best.bestVar, best.bestCut))
              hostRecord := self.hostRecord + 1 })

/-- `guest_tree_construct` from the sums to the exchange of `ids_w`. -/
def guestSplit [Neg ω] [Add ω] [Div ω] (settings : Settings ω)
    (search : Searches ι ω σ η) (node : List Branch) (x : Table ι ω)
    (encryptedGhs : Frame ι η) (self : Party ω) :
    Proc (Message ι ω σ η) Raised (Option (Split ι ω) × Party ω) := do
  Proc.put Tag.encrypteGhSums (search.sums node x encryptedGhs)
  let (⟨hostBest, guestBest⟩ : BestCut ω) ← Proc.get Tag.bestCut
  match guestDecision (hostBest.map (·.bestGain)) (guestBest.map (·.gain))
    with
  | .stop => pure (none, self)
  | .guest =>
      match guestBest with
      | none => Proc.raise .typeError
      | some best => do
          let idsW : IdsW ι ω :=
            { splitIds x best.var best.cut with
              wLeft := leafWeight settings.regLambda best.gLeft best.hLeft
              wRight := leafWeight settings.regLambda best.gRight
                best.hRight }
          Proc.put Tag.idsW idsW
          pure (some ⟨.guest, self.guestRecord, idsW⟩,
            { self with
              lookupTable := Function.update self.lookupTable self.guestRecord
                (some (best.var, best.cut))
              guestRecord := self.guestRecord + 1 })
  | .host => do
      let idsW ← Proc.get Tag.idsW
      pure (some ⟨.host, self.hostRecord, idsW⟩,
        { self with hostRecord := self.hostRecord + 1 })

variable [DecidableEq ι]

/-- `host_tree_construct`: the tree, the records and the weights `f_t`. -/
def hostTreeConstruct (settings : Settings ω) (search : Searches ι ω σ η)
    (node : List Branch) (x : Table ι ω) (fT : Frame ι ω)
    (currentDepth : Int) (gh : Frame ι (Grad ω)) (self : Party ω) :
    Proc (Message ι ω σ η) Raised (Tree ω × Party ω × Frame ι ω) :=
  if (x.size : Int) < settings.minChildSample
      ∨ settings.maxDepth < currentDepth then
    pure (.leaf, self, fT)
  else if x.size = 0 then Proc.raise .overflowError
  else do
    let (split, self) ← hostSplit search node x gh self
    match split with
    | none => pure (.leaf, self, fT)
    | some ⟨role, record, ids⟩ => do
        let xLeft ← Proc.lift (x.loc ids.idLeft)
        let ghLeft ← Proc.lift (gh.loc ids.idLeft)
        let xRight ← Proc.lift (x.loc ids.idRight)
        let ghRight ← Proc.lift (gh.loc ids.idRight)
        let fT ← Proc.lift (fT.assign ids.idLeft ids.wLeft)
        let fT ← Proc.lift (fT.assign ids.idRight ids.wRight)
        let (left, self, fT) ← hostTreeConstruct settings search
          (node ++ [.left]) xLeft fT (currentDepth + 1) ghLeft self
        let (right, self, fT) ← hostTreeConstruct settings search
          (node ++ [.right]) xRight fT (currentDepth + 1) ghRight self
        pure (.node role record ids.wLeft left ids.wRight right, self, fT)
termination_by (settings.maxDepth + 1 - currentDepth).toNat

/-- `guest_tree_construct`. -/
def guestTreeConstruct [Neg ω] [Add ω] [Div ω] (settings : Settings ω)
    (search : Searches ι ω σ η) (node : List Branch) (x : Table ι ω)
    (encryptedGhs : Frame ι η) (currentDepth : Int) (self : Party ω) :
    Proc (Message ι ω σ η) Raised (Tree ω × Party ω) :=
  if (x.size : Int) < settings.minChildSample
      ∨ settings.maxDepth < currentDepth then
    pure (.leaf, self)
  else if x.size = 0 then Proc.raise .overflowError
  else do
    let (split, self) ← guestSplit settings search node x encryptedGhs self
    match split with
    | none => pure (.leaf, self)
    | some ⟨role, record, ids⟩ => do
        let xLeft ← Proc.lift (x.loc ids.idLeft)
        let xRight ← Proc.lift (x.loc ids.idRight)
        let ghsLeft ← Proc.lift (encryptedGhs.loc ids.idLeft)
        let ghsRight ← Proc.lift (encryptedGhs.loc ids.idRight)
        let (left, self) ← guestTreeConstruct settings search
          (node ++ [.left]) xLeft ghsLeft (currentDepth + 1) self
        let (right, self) ← guestTreeConstruct settings search
          (node ++ [.right]) xRight ghsRight (currentDepth + 1) self
        pure (.node role record ids.wLeft left ids.wRight right, self)
termination_by (settings.maxDepth + 1 - currentDepth).toNat

end Construct

end PrimiHub.FL
