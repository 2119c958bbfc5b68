/-
The host's fit in vertical boosted trees
(python/primihub/FL/xgboost/gbt.py): `my_fit`, with the scores that it adds
up tree by tree, and `predict_raw`, to which it goes on. `hostLoop` is its
loop in a run without samples, and `hostTrain` is the loop with samples and
with the records after each tree.

# Labels

`set_inputs` keeps the labels of the rows that `sample_alignment` leaves.
The gradients, their encryption and the scores `f_t` are new frames over
the positions `0, .., n - 1`. Training takes rows of all of these by label.
Before the prediction the host drops its labels, and the guest keeps its
own.

# What is left open

The searches, the encryption, the objective and the positions that are
drawn are arbitrary. The losses that `my_fit` logs have no effect on the
scores.
-/
import Mathlib.Data.List.Dedup
import PrimiHub.FL.Alignment
import PrimiHub.FL.Boost
import PrimiHub.Lib.Meet

namespace PrimiHub.FL

open Lib

variable {κ ν ω σ η : Type}

-- ================================================================== inputs

section Inputs

variable [Zero ω]

/-- `read_data`: the rows of the file, labelled by their positions. -/
def readData (rows : List (Sample κ (String → ω))) : Table Nat ω :=
  ⟨.range rows.length, fun i =>
    match rows[i]? with
    | none => fun _ => 0
    | some row => row.rest⟩

/-- The table of a party after `set_inputs`; `intersection` is what the PSI
returns to it, when there is a PSI. -/
def setInputs [DecidableEq κ] (intersection : Option (List κ))
    (rows : List (Sample κ (String → ω))) : Table Nat ω :=
  match intersection with
  | none => readData rows
  | some ids =>
      { readData rows with
        index := (readData rows).index.filter fun i =>
          (rows[i]?).any fun row => row.id ∈ ids }

end Inputs

-- ================================================================ training

/-- One turn of the loop: the searches, and the encryption of the gradient
at a position. -/
structure TreeTask (ω σ η : Type) where
  search : Searches Nat ω σ η
  encrypt : Nat → Grad ω → η

/-- What the host trains with: `gradHess` are `_grad` and `_hess` of a
score and a label, `y` are the labels of its rows in their order. -/
structure Training (ν ω σ η : Type) where
  settings : Settings ω
  baseScore : ω
  learningRate : ω
  gradHess : ω → ν → Grad ω
  y : Nat → ν
  trees : List (TreeTask ω σ η)

/-- The two scores of the rows, by position. -/
structure Scores (ω : Type) where
  trained : Frame Nat ω
  predicted : Frame Nat ω

/-- The encrypted gradients, under the labels of the gradients. -/
def TreeTask.ghEn (task : TreeTask ω σ η) (gh : Frame Nat (Grad ω)) :
    Frame Nat η :=
  ⟨gh.index, fun p => task.encrypt p (gh.row p)⟩

/-- What the parties do at the root of a tree. -/
def TreeTask.rootDecision [Zero ω] [DecidableEq ω] [LT ω] [DecidableLT ω]
    (task : TreeTask ω σ η) (x y : Table Nat ω) (gh : Frame Nat (Grad ω)) :
    Decision :=
  hostDecision ((task.search.hostBestCut [] x gh).map (·.bestGain))
    ((task.search.guestBestCut [] (task.search.sums [] y (task.ghEn gh))
      gh).map (·.gain))

namespace Training

/-- `np.array([base_score] * n)`. -/
def base (T : Training ν ω σ η) (n : Nat) : Frame Nat ω :=
  ⟨.range n, fun _ => T.baseScore⟩

/-- `pd.DataFrame({'g': .., 'h': ..})`. -/
def gh (T : Training ν ω σ η) (n : Nat) (yHat : Frame Nat ω) :
    Frame Nat (Grad ω) :=
  ⟨.range n, fun p => T.gradHess (yHat.row p) (T.y p)⟩

/-- `y_hat + self.learning_rate * current_f_t`. -/
def addTree [Add ω] [Mul ω] (T : Training ν ω σ η) (yHat fT : Frame Nat ω) :
    Frame Nat ω :=
  ⟨yHat.index, fun p => yHat.row p + T.learningRate * fT.row p⟩

end Training

/-- `pd.Series([0] * n)`. -/
def zeros (ω : Type) [Zero ω] (n : Nat) : Frame Nat ω := ⟨.range n, fun _ => 0⟩

namespace Training

section Fit

variable [Zero ω] [DecidableEq ω] [LT ω] [DecidableLT ω] [Add ω] [Mul ω]
  (T : Training ν ω σ η)

/-- The host's side of a tree, from its scores before it. -/
def hostTree (x : Table Nat ω) (task : TreeTask ω σ η) (yHat : Frame Nat ω)
    (self : Party ω) :
    Proc (Message Nat ω σ η) Raised (Tree ω × Party ω × Frame Nat ω) :=
  hostTreeConstruct T.settings task.search [] x (zeros ω x.size) 0
    (T.gh x.size yHat) self

/-- The loop of `my_fit`: the trees, the records and the scores. -/
def hostLoop (x : Table Nat ω) :
    List (TreeTask ω σ η) → Frame Nat ω → Party ω →
      Proc (Message Nat ω σ η) Raised
        (List (Tree ω) × Party ω × Frame Nat ω)
  | [], yHat, self => pure ([], self, yHat)
  | task :: rest, yHat, self => do
      Proc.put Tag.sampleIds none
      Proc.put Tag.ghEn (task.ghEn (T.gh x.size yHat))
      let (tree, self, fT) ← T.hostTree x task yHat self
      let (trees, self, yHat) ← hostLoop x rest (T.addTree yHat fT) self
      pure (tree :: trees, self, yHat)

/-- `my_fit`: the scores of training, and those of `predict_raw`. -/
def myFit [LE ω] [DecidableLE ω] (x : Table Nat ω) :
    Proc (Message Nat ω σ η) Raised (Scores ω) := do
  let (trees, self, yHat) ←
    T.hostLoop x T.trees (T.base x.size) (Party.fresh ω)
  let y ← predictRaw T.learningRate self.lookupTable x.resetIndex trees
    (T.base x.size)
  pure ⟨yHat, y⟩

variable [Neg ω] [Div ω]

/-- The guest's side of a tree. -/
def guestTree (y : Table Nat ω) (task : TreeTask ω σ η)
    (gh : Frame Nat (Grad ω)) (self : Party ω) :
    Proc (Message Nat ω σ η) Raised (Tree ω × Party ω) :=
  guestTreeConstruct T.settings task.search [] y (task.ghEn gh) 0 self

/-- The guest's `fit`, in a run without samples. -/
def guestSide [LE ω] [DecidableLE ω] (y : Table Nat ω) :
    Proc (Message Nat ω σ η) Raised (List (Grown ω)) :=
  guestFit T.settings (fun _ => y) (T.trees.map (·.search)) y

-- ============================================================ the meaning

/-- Under every schedule both parties come to their end, neither fails on a
label that is not there, and each row's score of training is that of the
prediction. -/
def ScoresPredicted [LE ω] [DecidableLE ω] (x y : Table Nat ω) : Prop :=
  LockStep (T.myFit x) (T.guestSide y) fun host guest =>
    host ≠ .error .keyError ∧ guest ≠ .error .keyError
      ∧ ∀ scores, host = .ok scores → ∀ p < x.size,
        scores.trained.row p = scores.predicted.row p

/-- A party with so many rows returns `None` at the root. -/
def Stops (size : Nat) : Prop :=
  (size : Int) < T.settings.minChildSample ∨ T.settings.maxDepth < 0

end Fit

end Training

-- ================================================================ sampling

/-- What `random_sample` or `goss_sample` draws from the rows: distinct
positions. `random_sample` has no `low_ids`. -/
structure Draw (ω : Type) (n : Nat) where
  topIds : List Nat
  lowIds : List Nat
  amplyRate : ω
  nodup : (topIds ++ lowIds).Nodup
  lt : ∀ p ∈ topIds ++ lowIds, p < n

/-- `sample_ids`. -/
def Draw.ids {n : Nat} (draw : Draw ω n) : List Nat :=
  draw.topIds ++ draw.lowIds

/-- `gh['g'][low_ids] *= amply_rate`. -/
def amplify [Mul ω] {n : Nat} (gh : Frame Nat (Grad ω)) :
    Option (Draw ω n) → Frame Nat (Grad ω)
  | none => gh
  | some draw =>
      { gh with
        row := fun p =>
          if p ∈ draw.lowIds then
            { gh.row p with g := (gh.row p).g * draw.amplyRate }
          else gh.row p }

/-- `x.iloc[positions]`, of distinct positions. -/
def Frame.iloc {ρ : Type} (x : Frame Nat ρ) (positions : List Nat) :
    Frame Nat ρ :=
  ⟨⟨(positions.filterMap fun p => x.index.labels[p]?).dedup,
    List.nodup_dedup _⟩, x.row⟩

/-- The rows of a sample, or all rows. -/
def Frame.sampled {ρ : Type} (x : Frame Nat ρ) :
    Option (List Nat) → Frame Nat ρ
  | none => x
  | some sampleIds => x.iloc sampleIds

namespace Training

section Sampled

variable [Zero ω] [DecidableEq ω] [LT ω] [DecidableLT ω] [Add ω] [Mul ω]
  (T : Training ν ω σ η)

/-- The scores after a tree; with a sample, only those of its rows
change. -/
def addSampled (yHat fT : Frame Nat ω) : Option (List Nat) → Frame Nat ω
  | none => T.addTree yHat fT
  | some sampleIds =>
      { yHat with
        row := fun p =>
          if p ∈ sampleIds then yHat.row p + T.learningRate * fT.row p
          else yHat.row p }

/-- The loop of `my_fit`; each turn has its sample. -/
def hostTrain (x : Table Nat ω) :
    List (TreeTask ω σ η × Option (Draw ω x.size)) → Frame Nat ω → Party ω →
      Proc (Message Nat ω σ η) Raised
        (List (Grown ω) × Party ω × Frame Nat ω)
  | [], yHat, self => pure ([], self, yHat)
  | (task, draw) :: rest, yHat, self => do
      let sampleIds := draw.map Draw.ids
      let gh := (amplify (T.gh x.size yHat) draw).sampled sampleIds
      Proc.put Tag.sampleIds sampleIds
      Proc.put Tag.ghEn (task.ghEn gh)
      let (tree, self, fT) ← hostTreeConstruct T.settings task.search []
        (x.sampled sampleIds) ((zeros ω x.size).sampled sampleIds) 0 gh self
      let (trees, last, yHat) ←
        hostTrain x rest (T.addSampled yHat fT sampleIds) self
      pure (self.grown tree :: trees, last, yHat)

variable [LE ω] [DecidableLE ω]

/-- `my_fit`: the trees with the records after each, and the scores of
`predict_raw`. -/
def hostFit (x : Table Nat ω) (draws : List (Option (Draw ω x.size))) :
    Proc (Message Nat ω σ η) Raised (List (Grown ω) × Frame Nat ω) := do
  let (trees, self, _) ← T.hostTrain x (T.trees.zip draws) (T.base x.size)
    (Party.fresh ω)
  let y ← predictRaw T.learningRate self.lookupTable x.resetIndex
    (trees.map (·.tree)) (T.base x.size)
  pure (trees, y)

/-- Under every schedule no message is missed and none is left over, and
both parties return with the same trees, or both raise `OverflowError`. -/
def FitInStep [Neg ω] [Div ω] (x y : Table Nat ω)
    (draws : List (Option (Draw ω x.size))) : Prop :=
  LockStep (T.hostFit x draws)
    (guestFit T.settings y.sampled (T.trees.map (·.search)) y)
    (EndsIn (Overflows T.settings) (SameTrees draws.length))

end Sampled

end Training

/-- Host and guest fit in step on these tables and with these samples, for
all settings, all gradients and all outcomes of the searches. -/
def StaysInStep (ν ω σ η : Type) [Zero ω] [DecidableEq ω] [LT ω]
    [DecidableLT ω] [LE ω] [DecidableLE ω] [Add ω] [Mul ω] [Neg ω] [Div ω]
    (x y : Table Nat ω) (draws : List (Option (Draw ω x.size))) : Prop :=
  ∀ T : Training ν ω σ η, T.trees.length = draws.length → T.FitInStep x y draws

/-- The rows of a sample have the same labels at both parties and in the
gradients. -/
structure DrawFits [Zero ω] (x y : Table Nat ω) (draw : Option (Draw ω x.size)) :
    Prop where
  positions : SameIndex (x.sampled (draw.map Draw.ids))
    ((zeros ω x.size).sampled (draw.map Draw.ids))
  guest : SameIndex (x.sampled (draw.map Draw.ids))
    (y.sampled (draw.map Draw.ids))

/-- Every sample fits and, if one of them has a row, the host's labels are
the positions of its rows. -/
structure LabelsFit [Zero ω] (x y : Table Nat ω)
    (draws : List (Option (Draw ω x.size))) : Prop where
  rows : ∀ draw ∈ draws, DrawFits x y draw
  positions : (∃ draw ∈ draws, (x.sampled (draw.map Draw.ids)).size ≠ 0) →
    SameIndex x (zeros ω x.size)

namespace Training

/-- If the root is split, the host's labels are the positions, and the party
that does not own the split has the rows of the one that does. -/
def RootFits (x y : Table Nat ω) : Decision → Prop
  | .stop => True
  | .host => x.index = .range x.size ∧ y.Has x.index
  | .guest => x.index = .range x.size ∧ x.Has y.index

section Condition

variable [Zero ω] [DecidableEq ω] [LT ω] [DecidableLT ω] [Add ω] [Mul ω]
  [Neg ω] [Div ω] (T : Training ν ω σ η) (x y : Table Nat ω)

/-- The tables are as large for the tests at the root, and its split fits
them. -/
structure TreeFits (task : TreeTask ω σ η) (yHat : Frame Nat ω) : Prop where
  stops : T.Stops x.size ↔ T.Stops y.size
  empty : ¬ T.Stops x.size → (x.size = 0 ↔ y.size = 0)
  root : ¬ T.Stops x.size → x.size ≠ 0 →
    RootFits x y (task.rootDecision x y (T.gh x.size yHat))

/-- Every tree fits the tables, with the scores that the host has before
it. -/
def TreesFit : List (TreeTask ω σ η) → Frame Nat ω → Party ω → Party ω → Prop
  | [], _, _, _ => True
  | task :: rest, yHat, host, guest =>
      T.TreeFits x y task yHat
        ∧ ∀ tree fT host' guest',
          Sync (T.hostTree x task yHat host)
              (T.guestTree y task (T.gh x.size yHat) guest)
              (.ok (tree, host', fT)) (.ok (tree, guest')) →
            TreesFit rest (T.addTree yHat fT) host' guest'

/-- Every tree of the run fits the tables. -/
def RunFits : Prop :=
  T.TreesFit x y T.trees (T.base x.size) (Party.fresh ω) (Party.fresh ω)

end Condition

end Training

/-- The ids of each table are there once, and the PSI, when there is one,
returns to both parties the ids that both have. -/
structure ExactPsi (host guest : List (Sample κ (String → ω)))
    (psi : Option (List κ × List κ)) : Prop where
  hostIds : (host.map Sample.id).Nodup
  guestIds : (guest.map Sample.id).Nodup
  toHost : ∀ ids, psi = some ids → ExactIntersection host guest ids.1
  toGuest : ∀ ids, psi = some ids → ExactIntersection host guest ids.2

end PrimiHub.FL
