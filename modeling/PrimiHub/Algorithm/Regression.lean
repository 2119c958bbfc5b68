/-
The mini-batches of `algorithm/regression.h`: `getSubset`, `extractBatch`
and the loop of `SGD_Logistic`, on the training set `logistic.cc` makes.

# The pool

`indices` is the pool and `idxIter` a position in it, the length being the
end. `std::shuffle` is a function that permutes, with the state of its
generator. A loop that may not end has fuel, and `running` says that it was
not enough.

# Training

What an iteration computes from its batch goes into the model `w` and the
log, and neither the pool nor the generator depends on it; it is left out.
-/
import PrimiHub.Algorithm.LogisticRegression

namespace PrimiHub.Algorithm.Regression

open Executor (Str text Fault)
open Lib (Grid traverseFin)
open LogisticRegressionExecutor (Doubles TableColumn Sharing DataSets
  constructShares loadDataset readColumns)

variable {D E S G : Type}

-- ============================================================== getSubset

/-- Why a run has no result. -/
inductive Halt
  | running
  | fault (fault : Fault)

/-- `std::shuffle`. -/
structure Shuffle (G : Type) where
  shuffle : G → List Nat → List Nat × G
  perm : ∀ g xs, ((shuffle g xs).1).Perm xs

/-- `indices`, `idxIter` and `prng`. -/
structure Pool (G : Type) where
  pool : List Nat
  poolIter : Nat
  prng : G

/-- The last lines of the loop body: at the end the pool is shuffled and
the iterator goes back to the beginning. -/
def refill (sh : Shuffle G) (s : Pool G) : Pool G :=
  if s.poolIter = s.pool.length then
    ⟨(sh.shuffle s.prng s.pool).1, 0, (sh.shuffle s.prng s.pool).2⟩
  else s

/-- `getSubset`, for a number of entries of `dest` that are left. -/
def getSubset (sh : Shuffle G) :
    Nat → Nat → Pool G → Except Halt (List Nat × Pool G)
  | _, 0, s => .ok ([], s)
  | 0, _ + 1, _ => .error .running
  | fuel + 1, left + 1, s => do
      let step := min (s.pool.length - s.poolIter) (left + 1)
      let part := (s.pool.drop s.poolIter).take step
      let r ← getSubset sh fuel (left + 1 - step)
        (refill sh { s with poolIter := s.poolIter + step })
      .ok (part ++ r.1, r.2)

-- ============================================================ SGD_Logistic

/-- The text of the macro, a file and a line. -/
def location : Str := text "LOCATION"

/-- `extractBatch`: the rows `XX` and `YY`. -/
def extractBatch (rows : Nat) (X Y : Grid S) (indices : List Nat) :
    Except Halt (Grid S × Grid S) :=
  if rows ≠ indices.length then .error (.fault (.raised location))
  else if indices.all fun i => i < X.rows ∧ i < Y.rows then
    .ok (⟨rows, X.cols, fun i => X.entry (indices.getD i 0)⟩,
      ⟨rows, Y.cols, fun i => Y.entry (indices.getD i 0)⟩)
  else .error (.fault .undefined)

/-- What an iteration trains with. -/
structure Batch (S : Type) where
  indices : List Nat
  XX : Grid S
  YY : Grid S

/-- The loop over `mIterations`. -/
def sampleBatches (sh : Shuffle G) (fuel mBatchSize : Nat) (X Y : Grid S) :
    Nat → Pool G → Except Halt (List (Batch S))
  | 0, _ => .ok []
  | iterations + 1, s => do
      let r ← getSubset sh fuel mBatchSize s
      let b ← extractBatch mBatchSize X Y r.1
      let rest ← sampleBatches sh fuel mBatchSize X Y iterations r.2
      .ok (⟨r.1, b.1, b.2⟩ :: rest)

/-- `SGD_Logistic`, the batches of its iterations. -/
def sgdLogistic (sh : Shuffle G) (seed : G) (fuel mIterations mBatchSize : Nat)
    (X Y : Grid S) : Except Halt (List (Batch S)) :=
  if X.rows ≠ Y.rows ∨ Y.cols ≠ 1 then .error (.fault (.raised location))
  else
    sampleBatches sh fuel mBatchSize X Y mIterations
      ⟨List.range X.rows, X.rows, seed⟩

/-- `loadDataset` at the three parties and `_ConstructShares`. -/
def loadAndShare (dbl : Doubles D) (sh : Sharing D E S)
    (memory : Nat → Nat → D) (memory' : Nat → Nat → S)
    (columnsExclude : List Str)
    (tables : Fin 3 → Option (List (TableColumn D))) :
    Except Fault (DataSets S) := do
  let inputs ← traverseFin fun p =>
    loadDataset dbl memory columnsExclude (tables p)
  constructShares sh memory' inputs

-- ============================================ what the sampler is there for

/-- Blocks of `n` indices, each a permutation of `0..n-1` and the last one
a prefix of one. -/
def Rounds (n : Nat) (indices : List Nat) : Prop :=
  ∀ q, ∃ rest,
    ((indices.drop (q * n)).take n ++ rest).Perm (List.range n)

/-- All calls return, and without replacement. -/
def SamplesRight (sh : Shuffle G) (seed : G) (mIterations mBatchSize : Nat)
    (X Y : Grid S) : Prop :=
  ∃ fuel batches,
    sgdLogistic sh seed fuel mIterations mBatchSize X Y = .ok batches
      ∧ batches.length = mIterations
      ∧ (∀ b ∈ batches, b.indices.length = mBatchSize)
      ∧ Rounds X.rows (batches.flatMap Batch.indices)

/-- A party has a chunk of two rows, by the chunks of its label column. -/
def HasTrainingRow (columnsExclude : List Str)
    (table : Option (List (TableColumn D))) : Prop :=
  ∃ columns label, table = some columns
    ∧ (readColumns columnsExclude columns).getLast? = some label
    ∧ ∃ L ∈ label.chunks.lengths, 2 ≤ L

end PrimiHub.Algorithm.Regression
