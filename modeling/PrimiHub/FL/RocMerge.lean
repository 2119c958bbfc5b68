/-
`fpr_tpr_merge2` (python/primihub/FL/metrics/hfl_metrics.py): the ROC
tables of two clients merged into one.

A table has three lists of one length: false positive rates, true positive
rates, and the thresholds they belong to, which descend from infinity. The
two lists of thresholds are walked together, the greater head first. Each
turn averages the rates that the two clients were last seen at, weighted by
their numbers of examples. Where the heads are equal, both clients advance
and both heads are appended to the merged thresholds, in one turn.

Rates are rational numbers. Thresholds are of any linear order with a
greatest element, which is the infinity.
-/
import Mathlib.Data.Rat.Defs
import Mathlib.Order.BoundedOrder.Basic
import Mathlib.Order.Lattice

namespace PrimiHub.FL

/-- `fpr`, `tpr` and `thresholds`. -/
structure RocTable (T : Type) where
  fpr : List ℚ
  tpr : List ℚ
  thresholds : List T
deriving DecidableEq

/-- The exceptions of the merge: a list that is too short, and weights that
sum to nothing. -/
inductive RocError
  | indexError
  | zeroDivision
deriving DecidableEq

/-- One side of the loop: the entries from its index on, and the rates it
was last seen at. -/
structure RocCursor (T : Type) extends RocTable T where
  fprPrev : ℚ := 0
  tprPrev : ℚ := 0

/-- `np.average` of two numbers. -/
def npAverage (values : ℚ × ℚ) (weights : Nat × Nat) : Except RocError ℚ :=
  if weights.1 + weights.2 = 0 then .error .zeroDivision
  else .ok ((values.1 * weights.1 + values.2 * weights.2)
    / (weights.1 + weights.2))

section Merge

variable {T : Type}

/-- A side moves on by one entry, and gives its threshold to append. -/
def RocCursor.advance (c : RocCursor T) :
    Except RocError (List T × RocCursor T) :=
  match c.fpr, c.tpr with
  | fpr :: fprs, tpr :: tprs =>
      .ok (c.thresholds.take 1,
        { fpr := fprs, tpr := tprs, thresholds := c.thresholds.tail
          fprPrev := fpr, tprPrev := tpr })
  | _, _ => .error .indexError

/-- A side that moves on if it is its turn. -/
def RocCursor.advanceIf (turn : Bool) (c : RocCursor T) :
    Except RocError (List T × RocCursor T) :=
  if turn then c.advance else .ok ([], c)

variable [LinearOrder T]

/-- Whether each side moves on in the next turn; `none` at the end of the
loop. -/
def sidesToMove (thresholds1 thresholds2 : List T) : Option (Bool × Bool) :=
  match thresholds1, thresholds2 with
  | [], [] => none
  | [], _ :: _ => some (false, true)
  | _ :: _, [] => some (true, false)
  | t1 :: _, t2 :: _ =>
      let score := max t1 t2
      some (score ≤ t1, score ≤ t2)

/-- The `while` loop. Every turn uses up a threshold at least, so there are
at most as many turns as thresholds. -/
def mergeLoop (numPositive numNegative : Nat × Nat) :
    Nat → RocCursor T → RocCursor T → Except RocError (RocTable T)
  | 0, _, _ => .ok ⟨[], [], []⟩
  | n + 1, c1, c2 =>
      match sidesToMove c1.thresholds c2.thresholds with
      | none => .ok ⟨[], [], []⟩
      | some (first, second) => do
          let (thresholds1, c1) ← c1.advanceIf first
          let (thresholds2, c2) ← c2.advanceIf second
          let fpr ← npAverage (c1.fprPrev, c2.fprPrev) numNegative
          let tpr ← npAverage (c1.tprPrev, c2.tprPrev) numPositive
          let others ← mergeLoop numPositive numNegative n c1 c2
          .ok { fpr := fpr :: others.fpr
                tpr := tpr :: others.tpr
                thresholds := thresholds1 ++ thresholds2
                  ++ others.thresholds }

/-- `fpr_tpr_merge2`. -/
def fprTprMerge2 (c1 c2 : RocTable T) (numPositive numNegative : Nat × Nat) :
    Except RocError (RocTable T) :=
  mergeLoop numPositive numNegative
    (c1.thresholds.length + c2.thresholds.length) { c1 with } { c2 with }

end Merge

-- ============================================================= the meaning

/-- A scored example. -/
structure ScoredExample (T : Type) where
  score : T
  positive : Bool
deriving DecidableEq

section Meaning

variable {T : Type} [LinearOrder T]

/-- The number of examples of a kind. -/
def numExamples (examples : List (ScoredExample T)) (kind : Bool) : Nat :=
  examples.countP fun e => e.positive = kind

/-- The share of the examples of a kind that score the threshold at
least. -/
def rateAt (examples : List (ScoredExample T)) (kind : Bool) (t : T) : ℚ :=
  (examples.countP fun e => e.positive = kind ∧ t ≤ e.score)
    / numExamples examples kind

/-- The thresholds descend, and each has the rates of the examples. -/
structure CurveOf (examples : List (ScoredExample T)) (c : RocTable T) :
    Prop where
  descending : c.thresholds.Pairwise (· > ·)
  fpr : c.fpr = c.thresholds.map (rateAt examples false)
  tpr : c.tpr = c.thresholds.map (rateAt examples true)

/-- A client's table: the curve of its examples from infinity on, with a
threshold for every score. -/
structure ExactTable [OrderTop T] (examples : List (ScoredExample T))
    (c : RocTable T) : Prop extends CurveOf examples c where
  infinity : c.thresholds.head? = some ⊤
  scores : ∀ e ∈ examples, e.score ∈ c.thresholds

/-- A client: its examples, some of each kind, and their table. -/
structure RocClient (T : Type) [LinearOrder T] [OrderTop T] where
  examples : List (ScoredExample T)
  table : RocTable T
  exact : ExactTable examples table
  some_negative : 0 < numExamples examples false
  some_positive : 0 < numExamples examples true

variable [OrderTop T]

/-- `fpr_tpr_merge2` with the clients' numbers of examples. -/
def mergeClients (client1 client2 : RocClient T) :
    Except RocError (RocTable T) :=
  fprTprMerge2 client1.table client2.table
    (numExamples client1.examples true, numExamples client2.examples true)
    (numExamples client1.examples false, numExamples client2.examples false)

/-- The merged table is the curve of the examples put together. -/
def MergesPooled (client1 client2 : RocClient T) : Prop :=
  ∃ merged, mergeClients client1 client2 = .ok merged
    ∧ CurveOf (client1.examples ++ client2.examples) merged

end Meaning

end PrimiHub.FL
