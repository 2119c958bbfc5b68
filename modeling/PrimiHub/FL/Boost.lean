/-
The loops around the trees (python/primihub/FL/xgboost/gbt.py): the
guest's `fit`, one tree a turn, and the prediction both parties go on to,
`predict_raw` and `predict`. `lookup_table_sum[t + 1]` is the one table
`lookup_table` for every tree, and no record is given twice, so a traversal
reads the table as it is after the last tree.
-/
import Mathlib.Algebra.Group.Defs
import PrimiHub.FL.Tree

namespace PrimiHub.FL

open Lib

variable {ι ω σ η : Type}

-- ============================================================= prediction

section Predict

variable [LT ω] [DecidableLT ω] [LE ω] [DecidableLE ω]

/-- The rows `test[var] < cut`. -/
def testLeft (test : Table ι ω) (var : String) (cut : ω) : Table ι ω :=
  test.select fun row => row var < cut

/-- The rows `test[var] >= cut`. -/
def testRight (test : Table ι ω) (var : String) (cut : ω) : Table ι ω :=
  test.select fun row => cut ≤ row var

/-- `lookup[record]`. -/
def lookupRecord (lookup : Nat → Option (String × ω)) (record : Nat) :
    Except Raised (String × ω) :=
  match lookup record with
  | none => .error .keyError
  | some entry => .ok entry

/-- The party whose split it is cuts its table and sends the ids. -/
def ownVisit (lookup : Nat → Option (String × ω)) (record : Nat)
    (test : Table ι ω) :
    Proc (Message ι ω σ η) Raised (Table ι ω × Table ι ω) := do
  let (var, cut) ← Proc.lift (lookupRecord lookup record)
  Proc.put (Tag.ids record)
    ⟨(testLeft test var cut).index, (testRight test var cut).index⟩
  pure (testLeft test var cut, testRight test var cut)

/-- The other party waits for the ids. -/
def otherVisit [DecidableEq ι] (record : Nat) (test : Table ι ω) :
    Proc (Message ι ω σ η) Raised (Table ι ω × Table ι ω) := do
  let (ids : Ids ι) ← Proc.get (Tag.ids record)
  let left ← Proc.lift (test.loc ids.idLeft)
  let right ← Proc.lift (test.loc ids.idRight)
  pure (left, right)

variable [DecidableEq ι]

/-- The host at the node `(role, record)`. -/
def hostVisit (lookup : Nat → Option (String × ω)) (record : Nat)
    (test : Table ι ω) :
    Role → Proc (Message ι ω σ η) Raised (Table ι ω × Table ι ω)
  | .guest => otherVisit record test
  | .host => ownVisit lookup record test

/-- The guest at the node `(role, record)`. -/
def guestVisit (lookup : Nat → Option (String × ω)) (record : Nat)
    (test : Table ι ω) :
    Role → Proc (Message ι ω σ η) Raised (Table ι ω × Table ι ω)
  | .guest => ownVisit lookup record test
  | .host => otherVisit record test

/-- `host_get_tree_node_weight`. -/
def hostGetTreeNodeWeight (lookup : Nat → Option (String × ω)) :
    Tree ω → Table ι ω → Frame ι ω →
      Proc (Message ι ω σ η) Raised (Frame ι ω)
  | .leaf, _, w => pure w
  | .node role record wLeft left wRight right, test, w => do
      let (testLeft, testRight) ← hostVisit lookup record test role
      let w ← Proc.lift (w.assign testLeft.index wLeft)
      let w ← Proc.lift (w.assign testRight.index wRight)
      let w ← hostGetTreeNodeWeight lookup left testLeft w
      hostGetTreeNodeWeight lookup right testRight w

/-- `guest_get_tree_ids`. -/
def guestGetTreeIds (lookup : Nat → Option (String × ω)) :
    Tree ω → Table ι ω → Proc (Message ι ω σ η) Raised Unit
  | .leaf, _ => pure ()
  | .node role record _ left _ right, test => do
      let (testLeft, testRight) ← guestVisit lookup record test role
      guestGetTreeIds lookup left testLeft
      guestGetTreeIds lookup right testRight

/-- The loop of `predict_raw`, from the scores so far. The rows are those
behind its `reset_index`, which whoever runs the whole function puts in
front. -/
def predictRaw [Zero ω] [Add ω] [Mul ω] (learningRate : ω)
    (lookup : Nat → Option (String × ω)) (test : Table ι ω) :
    List (Tree ω) → Frame ι ω → Proc (Message ι ω σ η) Raised (Frame ι ω)
  | [], y => pure y
  | tree :: rest, y => do
      let yT ← hostGetTreeNodeWeight lookup tree test
        ⟨test.index, fun _ => 0⟩
      predictRaw learningRate lookup test rest
        ⟨y.index, fun i => y.row i + learningRate * yT.row i⟩

/-- The guest's `predict`. -/
def guestPredict (lookup : Nat → Option (String × ω)) (test : Table ι ω) :
    List (Tree ω) → Proc (Message ι ω σ η) Raised Unit
  | [] => pure ()
  | tree :: rest => do
      guestGetTreeIds lookup tree test
      guestPredict lookup test rest

end Predict

-- =============================================================== training

/-- A party after a tree: the tree and the records. -/
structure Grown (ω : Type) where
  tree : Tree ω
  hostRecord : Nat
  guestRecord : Nat
  deriving DecidableEq, Repr

/-- A tree with the records after it. -/
def Party.grown (self : Party ω) (tree : Tree ω) : Grown ω :=
  ⟨tree, self.hostRecord, self.guestRecord⟩

section Train

variable [DecidableEq ι] [Zero ω] [DecidableEq ω] [LT ω] [DecidableLT ω]

/-- The loop of the guest's `fit`; `sample` takes the rows of a sample. -/
def guestTrain [Neg ω] [Add ω] [Div ω] (settings : Settings ω)
    (sample : Option (List Nat) → Table ι ω) :
    List (Searches ι ω σ η) → Party ω →
      Proc (Message ι ω σ η) Raised (List (Grown ω) × Party ω)
  | [], self => pure ([], self)
  | search :: rest, self => do
      let sampleIds ← Proc.get Tag.sampleIds
      let ghEn ← Proc.get Tag.ghEn
      let (tree, self) ← guestTreeConstruct settings search []
        (sample sampleIds) ghEn 0 self
      let (trees, last) ← guestTrain settings sample rest self
      pure (self.grown tree :: trees, last)

variable [LE ω] [DecidableLE ω]

/-- The guest's `fit`. -/
def guestFit [Neg ω] [Add ω] [Div ω] (settings : Settings ω)
    (sample : Option (List Nat) → Table ι ω)
    (searches : List (Searches ι ω σ η)) (test : Table ι ω) :
    Proc (Message ι ω σ η) Raised (List (Grown ω)) := do
  let (trees, self) ← guestTrain settings sample searches (Party.fresh ω)
  guestPredict self.lookupTable test (trees.map (·.tree))
  pure trees

end Train

-- ========================================================== specification

/-- An empty table is searched, which needs a `min_child_sample` that is not
positive. -/
def Overflows (settings : Settings ω) (e : Raised) : Prop :=
  e = .overflowError ∧ settings.minChildSample ≤ 0

/-- The keys `(role, record)` of a tree, from the root on. -/
def Tree.keys : Tree ω → List (Role × Nat)
  | .leaf => []
  | .node role record _ left _ right =>
      (role, record) :: (left.keys ++ right.keys)

/-- What host and guest have at the end: the same trees under the same
keys with the same weights, the same records after every tree, one tree a
round, and no key at two nodes. -/
structure SameTrees (rounds : Nat) (host : List (Grown ω) × Frame ι ω)
    (guest : List (Grown ω)) : Prop where
  trees : host.1 = guest
  count : guest.length = rounds
  keys : (guest.flatMap (·.tree.keys)).Nodup

end PrimiHub.FL
