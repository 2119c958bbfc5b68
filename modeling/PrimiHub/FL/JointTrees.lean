/-
Vertical boosted trees (python/primihub/FL/xgboost/gbt.py) beside the
algorithm they stand for: boosting by one party that has all columns.

# The parties

`hostTraining` and `guestTraining` are `my_fit` and the guest's `fit`
without row sampling, down to what they save: `tree_struct` is the same at
both, and each saves its own `lookup_table`. `hostInfer` and `guestInfer`
are the prediction tasks `VGBTHostInfer` and `VGBGuestInfer`, which load
these files and run over tables of their own.

# One party

A `JointTree` names at every node the column and the cut, and says whose
column it is. `growTree` takes at a node the better of two splits, the
best of the host's columns and the best of the guest's; `boost` adds the
weights of a tree to the scores that the next tree's gradients come from.
The two searches are what the parties search with; the guest's is a search
on the plain gradients here, whatever the encryption between them does.
-/
import Mathlib.Order.Lattice
import PrimiHub.FL.Scores

namespace PrimiHub.FL

open Lib

variable {ι κ ν ω σ η : Type}

-- ================================================================= one party

/-- A tree over the columns of both roles. -/
inductive JointTree (ω : Type)
  | leaf
  | node (role : Role) (var : String) (cut wLeft : ω) (left : JointTree ω)
      (wRight : ω) (right : JointTree ω)
  deriving DecidableEq, Repr

/-- The weight of a row; a row that is in no split keeps `w`. -/
def JointTree.weight [LT ω] [DecidableLT ω] (row : Role → String → ω) :
    JointTree ω → ω → ω
  | .leaf, w => w
  | .node role var cut wLeft left wRight right, _ =>
      if row role var < cut then left.weight row wLeft
      else right.weight row wRight

/-- A table with the columns of both roles. -/
abbrev JointTable (ι ω : Type) : Type := Frame ι (Role → String → ω)

/-- The columns of a role. -/
def JointTable.part (z : JointTable ι ω) (role : Role) : Table ι ω :=
  ⟨z.index, fun i => z.row i role⟩

/-- The two searches, by the node they are asked at. -/
structure JointSearch (ι ω : Type) where
  host : List Branch → Table ι ω → Frame ι (Grad ω) → Option (HostBest ω)
  guest : List Branch → Table ι ω → Frame ι (Grad ω) → Option (GuestBest ω)

/-- A split of one party. -/
structure JointSplit (ω : Type) where
  role : Role
  var : String
  cut : ω
  wLeft : ω
  wRight : ω

section Grow

variable [Zero ω] [DecidableEq ω] [LT ω] [DecidableLT ω] [Neg ω] [Add ω]
  [Div ω]

/-- The split with the larger gain, the host's where they are equal. -/
def bestSplit (regLambda : ω) (hostBest : Option (HostBest ω))
    (guestBest : Option (GuestBest ω)) : Option (JointSplit ω) :=
  match hostDecision (hostBest.map (·.bestGain)) (guestBest.map (·.gain)) with
  | .stop => none
  | .host => hostBest.map fun best =>
      ⟨.host, best.bestVar, best.bestCut, best.wLeft, best.wRight⟩
  | .guest => guestBest.map fun best =>
      ⟨.guest, best.var, best.cut, leafWeight regLambda best.gLeft best.hLeft,
        leafWeight regLambda best.gRight best.hRight⟩

/-- A tree grown by one party. -/
def growTree (settings : Settings ω) (search : JointSearch ι ω)
    (node : List Branch) (z : JointTable ι ω) (currentDepth : Int)
    (gh : Frame ι (Grad ω)) : Except Raised (JointTree ω) :=
  if (z.size : Int) < settings.minChildSample
      ∨ settings.maxDepth < currentDepth then .ok .leaf
  else if z.size = 0 then .error .overflowError
  else
    match bestSplit settings.regLambda
        (search.host node (z.part .host) gh)
        (search.guest node (z.part .guest) gh) with
    | none => .ok .leaf
    | some best => do
        let ids := splitIds (z.part best.role) best.var best.cut
        let left ← growTree settings search (node ++ [.left])
          ⟨ids.idLeft, z.row⟩ (currentDepth + 1) ⟨ids.idLeft, gh.row⟩
        let right ← growTree settings search (node ++ [.right])
          ⟨ids.idRight, z.row⟩ (currentDepth + 1) ⟨ids.idRight, gh.row⟩
        .ok (.node best.role best.var best.cut best.wLeft left best.wRight
          right)
termination_by (settings.maxDepth + 1 - currentDepth).toNat

end Grow

/-- The searches of a turn; the guest's goes through the encryption. -/
def TreeTask.joint (task : TreeTask ω σ η) : JointSearch Nat ω where
  host := task.search.hostBestCut
  guest node y gh :=
    task.search.guestBestCut node (task.search.sums node y (task.ghEn gh)) gh

/-- The trees of one party and the score they give a row. -/
structure JointModel (ω : Type) where
  baseScore : ω
  learningRate : ω
  trees : List (JointTree ω)

/-- `base_score + sum of learning_rate * weight`. -/
def JointModel.score [LT ω] [DecidableLT ω] [Zero ω] [Add ω] [Mul ω]
    (model : JointModel ω) (row : Role → String → ω) : ω :=
  model.trees.foldl (fun score tree =>
    score + model.learningRate * tree.weight row 0) model.baseScore

/-- The weights of the rows in a tree. -/
def JointTable.weights [DecidableEq ι] [LT ω] [DecidableLT ω] [Zero ω]
    (z : JointTable ι ω) (tree : JointTree ω) : Frame ι ω :=
  ⟨z.index, fun i =>
    if i ∈ z.index.labels then tree.weight (z.row i) 0 else 0⟩

namespace Training

section Boost

variable [Zero ω] [DecidableEq ω] [LT ω] [DecidableLT ω] [Neg ω] [Add ω]
  [Mul ω] [Div ω] (T : Training ν ω σ η)

/-- The turns of one party, from the scores before them: the trees and the
scores at the end. -/
def boost (z : JointTable Nat ω) : List (TreeTask ω σ η) → Frame Nat ω →
    Except Raised (List (JointTree ω) × Frame Nat ω)
  | [], yHat => .ok ([], yHat)
  | task :: rest, yHat => do
      let tree ← growTree T.settings task.joint [] z 0 (T.gh z.size yHat)
      let (trees, yHat) ← boost z rest (T.addTree yHat (z.weights tree))
      .ok (tree :: trees, yHat)

/-- The model that one party trains on a table. -/
def jointModel (z : JointTable Nat ω) : Except Raised (JointModel ω) := do
  let (trees, _) ← T.boost z T.trees (T.base z.size)
  .ok ⟨T.baseScore, T.learningRate, trees⟩

end Boost

end Training

-- =============================================================== the parties

/-- `model_path` and `lookup_table_path` of the host. -/
structure HostModel (ω : Type) where
  treeStruct : List (Tree ω)
  lr : ω
  baseScore : ω
  lookupTable : Nat → Option (String × ω)

/-- `model_path` and `lookup_table_path` of the guest. -/
structure GuestModel (ω : Type) where
  treeStruct : List (Tree ω)
  lookupTable : Nat → Option (String × ω)

section Parties

variable [Zero ω] [DecidableEq ω] [LT ω] [DecidableLT ω] [LE ω]
  [DecidableLE ω] [Add ω] [Mul ω]

/-- `my_fit` with what it saves. -/
def Training.hostTraining (T : Training ν ω σ η) (x : Table Nat ω) :
    Proc (Message Nat ω σ η) Raised (HostModel ω × Scores ω) := do
  let (trees, self, yHat) ←
    T.hostLoop x T.trees (T.base x.size) (Party.fresh ω)
  let y ← predictRaw T.learningRate self.lookupTable x.resetIndex trees
    (T.base x.size)
  pure (⟨trees, T.learningRate, T.baseScore, self.lookupTable⟩, ⟨yHat, y⟩)

/-- The guest's `fit` with what it saves. -/
def Training.guestTraining [Neg ω] [Div ω] (T : Training ν ω σ η)
    (y : Table Nat ω) :
    Proc (Message Nat ω σ η) Raised (GuestModel ω) := do
  let (trees, self) ← guestTrain T.settings (fun _ => y)
    (T.trees.map (·.search)) (Party.fresh ω)
  guestPredict self.lookupTable y (trees.map (·.tree))
  pure ⟨trees.map (·.tree), self.lookupTable⟩

/-- `host_predict_prob` before the logistic function; `w` and `pred_y` are
arrays over the positions. -/
def HostModel.hostInfer (model : HostModel ω) (x : Table Nat ω) :
    Proc (Message Nat ω σ η) Raised (Frame Nat ω) :=
  predictRaw model.lr model.lookupTable x model.treeStruct
    ⟨.range x.size, fun _ => model.baseScore⟩

/-- `guest_predict`. -/
def GuestModel.guestInfer (model : GuestModel ω) (y : Table Nat ω) :
    Proc (Message Nat ω σ η) Raised Unit :=
  guestPredict model.lookupTable y model.treeStruct

end Parties

-- =============================================================== the meaning

/-- What two parties leave that trained on a table as one party with this
model: one list of trees, the scores of the model for the rows of training,
and files with which both answer a prediction task, whatever the tables it
is over, as the model does. -/
structure TrainedAs [LinearOrder ω] [Zero ω] [Add ω] [Mul ω] (σ η : Type)
    (z : JointTable Nat ω) (model : JointModel ω)
    (host : HostModel ω × Scores ω) (guest : GuestModel ω) : Prop where
  same : host.1.treeStruct = guest.treeStruct
  trained : ∀ p < z.size, host.2.trained.row p = model.score (z.row p)
  predicted : ∀ p < z.size, host.2.predicted.row p = model.score (z.row p)
  infer : ∀ test : JointTable Nat ω, test.index = .range test.size →
    LockStep
      (host.1.hostInfer (test.part .host) : Proc (Message Nat ω σ η) _ _)
      (guest.guestInfer (test.part .guest)) fun scores done =>
        done = .ok () ∧ ∃ y, scores = .ok y
          ∧ ∀ p < test.size, y.row p = model.score (test.row p)

end PrimiHub.FL
