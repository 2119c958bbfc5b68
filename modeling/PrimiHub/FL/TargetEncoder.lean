/-
`TargetEncoder.fit_transform` of python/primihub/FL/preprocessing/encoder.py
on a horizontally partitioned table: a category is encoded by the mean of
its targets, smoothed towards the mean of all targets, and the rows of a
fold are to be encoded by what the rows outside the fold say.

# Where the model starts

At the table behind `_transform` and the label encoders: a row has the
ordinal code of each feature and its encoded targets, one number, or one
for each class of a multiclass target. It ends at the arguments of
`_transform_X_ordinal`, which writes the encodings of a fold to the fold's
held-out rows.

# The folds

scikit-learn splits the rows of a client; `Split` has what it documents
about the folds, for `KFold` and for `StratifiedKFold`.

# Numbers

They are exact rationals, and `none` is the nan, or the infinity, that
numpy makes of a division by zero.
-/
import Mathlib.Algebra.GroupWithZero.Nat
import Mathlib.Algebra.Order.Ring.Rat
import Mathlib.Data.Fintype.Basic
import Mathlib.Data.List.FinRange
import PrimiHub.FL.Horizontal

namespace PrimiHub.FL.TargetEncoder

open Lib Horizontal

-- =================================================================== tables

/-- `target_type_`: "binary" and "continuous" do the same with their one
column of targets. -/
inductive TargetType
  | single
  | multiclass (nClasses : Nat)
  deriving DecidableEq, Repr

/-- The columns of the encoded target. -/
abbrev Output : TargetType → Type
  | .single => Unit
  | .multiclass nClasses => Fin nClasses

/-- All columns of the encoded target. -/
def outputs : (t : TargetType) → List (Output t)
  | .single => [()]
  | .multiclass nClasses => List.finRange nClasses

/-- A row of `X_ordinal` and of `y_encoded`. -/
structure Row (t : TargetType) (d : Nat) where
  x : Fin d → Nat
  y : Output t → ℚ

/-- A row with one of its targets. -/
structure Sample (d : Nat) where
  x : Fin d → Nat
  y : ℚ

variable {clients d k n : Nat} {t : TargetType}

/-- `y[:, i]`. -/
def Row.sample (o : Output t) (row : Row t d) : Sample d :=
  ⟨row.x, row.y o⟩

/-- The folds of so many rows: `fold r` is the one that holds row `r`
out. -/
structure Split (n k : Nat) where
  two_le : 2 ≤ k
  enough : k ≤ n
  fold : Fin n → Fin k
  size : ∀ f : Fin k, ((List.finRange n).filter fun r => fold r = f).length
    = n / k + if f < n % k then 1 else 0

/-- The rows of a client, and how they are split. -/
structure Table (t : TargetType) (d k : Nat) where
  n : Nat
  row : Fin n → Row t d
  split : Split n k

namespace Table

/-- All rows. -/
def rows (table : Table t d k) : List (Row t d) :=
  (List.finRange table.n).map table.row

/-- `test_idx` of a fold. -/
def heldOut (table : Table t d k) (f : Fin k) : List (Row t d) :=
  ((List.finRange table.n).filter fun r =>
    table.split.fold r = f).map table.row

/-- `train_idx` of a fold. -/
def train (table : Table t d k) (f : Fin k) : List (Row t d) :=
  ((List.finRange table.n).filter fun r =>
    table.split.fold r ≠ f).map table.row

end Table

/-- `smooth`; scikit-learn validates that it is not negative. -/
inductive Smooth
  | auto
  | fixed (s : ℚ) (nonneg : 0 ≤ s)

-- ================================================================== numbers

/-- A number, or nan. -/
abbrev Entry := Option ℚ

/-- `/`. -/
def div (a b : ℚ) : Entry := if b = 0 then none else some (a / b)

/-- `np.sum(y, axis=0)`. -/
def ySum (rows : List (Row t d)) (o : Output t) : ℚ :=
  (rows.map fun row => row.y o).sum

/-- `y[match_idx]`: the targets of a category of a feature. -/
def matching (samples : List (Sample d)) (j : Fin d) (c : Nat) : List ℚ :=
  (samples.filter fun e => e.x j = c).map Sample.y

/-- `np.sum((y - y_mean) ** 2)`. -/
def sumSquareDiff (samples : List (Sample d)) (yMean : ℚ) : ℚ :=
  (samples.map fun e => (e.y - yMean) ^ 2).sum

/-- What the server makes of a category: the quotients it takes, and the
encoding. -/
structure Encoded where
  quotients : List Entry
  value : Entry

/-- A category in `_fit_encoding`, by what the clients sent. -/
def encodeFixed (smooth yMean : ℚ) (sums : List ℚ) (counts : List Nat) :
    Encoded :=
  let value := div (smooth * yMean + sums.sum) (smooth + (counts.sum : Nat))
  ⟨[value], value⟩

/-- A category in `_fit_encoding_auto_smooth`. -/
def encodeAuto (yVariance yMean : ℚ) (sums : List ℚ) (counts : List Nat)
    (sumSquares : List ℚ) : Encoded :=
  let count : ℚ := (counts.sum : Nat)
  let means := div sums.sum count
  let quotient := div (sums.sum ^ 2) count
  let sumOfSquaredDiffs := quotient.map (sumSquares.sum - ·)
  if yVariance = 0 then ⟨[means, quotient], some yMean⟩
  else
    let spread := sumOfSquaredDiffs.bind (div · count)
    let lambda := spread.bind fun spread =>
      div (yVariance * count) (yVariance * count + spread)
    ⟨[means, quotient, spread, lambda], do
      let mean ← means
      let lambda ← lambda
      pure (lambda * mean + (1 - lambda) * yMean)⟩

/-- `_get_n_samples_per_fold`. -/
def getNSamplesPerFold (clientNSamples : List Nat) (nSplits foldIdx : Nat) :
    Nat :=
  clientNSamples.foldl (fun nSamples n =>
    nSamples + n / nSplits + if foldIdx < n % nSplits then 1 else 0) 0

/-- `reorder_index`: the columns of a matrix with rows of length `d`, one
after another. -/
def reorderIndex (nClasses d : Nat) : List Nat :=
  (List.range d).flatMap fun start =>
    List.range' start (((nClasses * d - start) + d - 1) / d) d

/-- `[encodings[idx] for idx in reorder_index]`. -/
def reorder {β : Type} (nClasses d : Nat) (encodings : List β) : List β :=
  (reorderIndex nClasses d).filterMap fun idx => encodings[idx]?

-- ================================================================= protocol

/-- The keys of the messages. -/
inductive Tag
  | targetSum
  | nSamples
  | targetMean
  | yTrainSum
  | yTrainMean
  | ySumSquareDiff
  | featSums
  | featCounts
  | featSumSquares
  | encodings
  deriving DecidableEq, Repr

/-- What is sent under a key. The arrays of the features are functions of
the category. -/
abbrev Message (t : TargetType) (d : Nat) : Tag → Type
  | .targetSum | .targetMean | .yTrainSum | .yTrainMean => Output t → ℚ
  | .nSamples => Nat
  | .ySumSquareDiff => ℚ
  | .featSums | .featSumSquares => Fin d → Nat → ℚ
  | .featCounts => Fin d → Nat → Nat
  | .encodings => List (List Entry)

/-- What is raised. -/
inductive Raised
  | zeroDivision
  deriving DecidableEq, Repr

/-- A party's program. -/
abbrev Action (clients : Nat) (t : TargetType) (d : Nat) (β : Type) : Type :=
  Peer (Horizontal.Party clients) (Message t d) Raised β

/-- `channel.send(key, val)`. -/
def send (dst : Horizontal.Party clients) (tag : Tag)
    (m : Message t d tag) : Action clients t d Unit :=
  Proc.put (μ := fun port : Horizontal.Party clients × Tag =>
      Message t d port.2)
    (dst, tag) m

/-- `channel.recv(key)`. -/
def recv (src : Horizontal.Party clients) (tag : Tag) :
    Action clients t d (Message t d tag) :=
  Proc.get (μ := fun port : Horizontal.Party clients × Tag =>
      Message t d port.2)
    (src, tag)

-- ================================================================ encodings

/-- `_fit_encoding_binary_or_continuous` of a client: `_fit_encoding` or
`_fit_encoding_auto_smooth`. -/
def fitEncodingClient (smooth : Smooth) (samples : List (Sample d))
    (targetMean : ℚ) : Action clients t d (List (List Entry)) :=
  match smooth with
  | .fixed _ _ => do
      send .server .featSums fun j c => (matching samples j c).sum
      send .server .featCounts fun j c => (matching samples j c).length
      recv .server .encodings
  | .auto => do
      send .server .ySumSquareDiff (sumSquareDiff samples targetMean)
      send .server .featSums fun j c => (matching samples j c).sum
      send .server .featCounts fun j c => (matching samples j c).length
      send .server .featSumSquares fun j c =>
        ((matching samples j c).map (· ^ 2)).sum
      recv .server .encodings

/-- The arrays of all features. -/
def overFeatures {β : Type} (nCategories : Fin d → Nat)
    (f : Fin d → Nat → β) : List (List β) :=
  (List.finRange d).map fun j => (List.range (nCategories j)).map (f j)

/-- `_fit_encoding` of the server. -/
def fitEncodingFixed (nCategories : Fin d → Nat) (smooth yMean : ℚ) :
    Action clients t d (List (List Encoded)) := do
  let sums : List (Fin d → Nat → ℚ) ←
    Peer.recvAll Tag.featSums (allClients clients)
  let counts : List (Fin d → Nat → Nat) ←
    Peer.recvAll Tag.featCounts (allClients clients)
  let encodings := overFeatures nCategories fun j c =>
    encodeFixed smooth yMean (sums.map (· j c)) (counts.map (· j c))
  Peer.sendAll Tag.encodings (encodings.map (List.map Encoded.value))
    (allClients clients)
  pure encodings

/-- `_fit_encoding_auto_smooth` of the server. -/
def fitEncodingAutoSmooth (nCategories : Fin d → Nat) (yMean : ℚ)
    (nSamples : Nat) : Action clients t d (List (List Encoded)) := do
  let diffs : List ℚ ← Peer.recvAll Tag.ySumSquareDiff (allClients clients)
  if nSamples = 0 then .raise .zeroDivision
  else
    let yVariance := diffs.sum / nSamples
    let sums : List (Fin d → Nat → ℚ) ←
      Peer.recvAll Tag.featSums (allClients clients)
    let counts : List (Fin d → Nat → Nat) ←
      Peer.recvAll Tag.featCounts (allClients clients)
    let sumSquares : List (Fin d → Nat → ℚ) ←
      Peer.recvAll Tag.featSumSquares (allClients clients)
    let encodings := overFeatures nCategories fun j c =>
      encodeAuto yVariance yMean (sums.map (· j c)) (counts.map (· j c))
        (sumSquares.map (· j c))
    Peer.sendAll Tag.encodings (encodings.map (List.map Encoded.value))
      (allClients clients)
    pure encodings

/-- `_fit_encoding_binary_or_continuous` of the server. -/
def fitEncodingServer (smooth : Smooth) (nCategories : Fin d → Nat)
    (targetMean : ℚ) (nSamples : Nat) :
    Action clients t d (List (List Encoded)) :=
  match smooth with
  | .fixed s _ => fitEncodingFixed nCategories s targetMean
  | .auto => fitEncodingAutoSmooth nCategories targetMean nSamples

/-- `_fit_encoding_multiclass` around the fits of the classes, or the one
fit of another target. -/
def fitOutputs {β : Type} :
    (t : TargetType) → (Output t → Action clients t d (List β)) →
      Action clients t d (List β)
  | .single, fit => fit ()
  | .multiclass nClasses, fit => do
      let encodings ← Peer.forEach fit (List.finRange nClasses)
      pure (reorder nClasses d encodings.flatten)

-- ============================================================ fit_transform

/-- What a client applies to the held-out rows of a fold. -/
structure Applied (t : TargetType) where
  encodings : List (List Entry)
  yTrainMean : Output t → ℚ

/-- `_fit_encodings_all` of a client, for what it sends; the encodings of
the whole table serve `transform`. -/
def fitEncodingsAllClient (smooth : Smooth) (table : Table t d k) :
    Action clients t d (List (List Entry)) := do
  send .server .targetSum (ySum table.rows)
  send .server .nSamples table.n
  let targetMean : Output t → ℚ ← recv .server .targetMean
  fitOutputs t fun o =>
    fitEncodingClient smooth (table.rows.map (Row.sample o)) (targetMean o)

/-- A fold in `fit_transform` of a client. -/
def foldClient (smooth : Smooth) (table : Table t d k) (f : Fin k) :
    Action clients t d (Applied t) := do
  send .server .yTrainSum (ySum (table.train f))
  let yTrainMean : Output t → ℚ ← recv .server .yTrainMean
  let encodings ← fitOutputs t fun o =>
    fitEncodingClient smooth ((table.train f).map (Row.sample o))
      (yTrainMean o)
  pure ⟨encodings, yTrainMean⟩

/-- `fit_transform` of a client. -/
def fitTransformClient (smooth : Smooth) (table : Table t d k) :
    Action clients t d (List (Applied t)) := do
  let _ ← fitEncodingsAllClient smooth table
  Peer.forEach (foldClient smooth table) (List.finRange k)

/-- `_fit_encodings_all` of the server: `target_mean_` and the numbers of
rows. Only without clients there are no rows; numpy's mean is nan then, and
the first fold raises. -/
def fitEncodingsAllServer (smooth : Smooth) (nCategories : Fin d → Nat) :
    Action clients t d ((Output t → ℚ) × List Nat) := do
  let sums : List (Output t → ℚ) ←
    Peer.recvAll Tag.targetSum (allClients clients)
  let clientNSamples : List Nat ←
    Peer.recvAll Tag.nSamples (allClients clients)
  let nSamples := clientNSamples.sum
  if nSamples = 0 then .raise .zeroDivision
  else
    let targetMean : Output t → ℚ := fun o => (sums.map (· o)).sum / nSamples
    Peer.sendAll Tag.targetMean targetMean (allClients clients)
    let _ ← fitOutputs t fun o =>
      fitEncodingServer smooth nCategories (targetMean o) nSamples
    pure (targetMean, clientNSamples)

/-- A fold in `fit_transform` of the server. The encodings get the mean of
the whole target, `self.module.target_mean_`. -/
def foldServer (smooth : Smooth) (nCategories : Fin d → Nat)
    (targetMean : Output t → ℚ) (clientNSamples : List Nat) (f : Fin k) :
    Action clients t d (List (List Encoded)) := do
  let sums : List (Output t → ℚ) ←
    Peer.recvAll Tag.yTrainSum (allClients clients)
  let nSamples := getNSamplesPerFold clientNSamples k f
  if nSamples = 0 then .raise .zeroDivision
  else
    let yTrainMean : Output t → ℚ := fun o => (sums.map (· o)).sum / nSamples
    Peer.sendAll Tag.yTrainMean yTrainMean (allClients clients)
    fitOutputs t fun o =>
      fitEncodingServer smooth nCategories (targetMean o) nSamples

/-- `fit_transform` of the server. It returns nothing; here it has what it
made in each fold. -/
def fitTransformServer (smooth : Smooth) (nCategories : Fin d → Nat)
    (k : Nat) : Action clients t d (List (List (List Encoded))) := do
  let fitted : (Output t → ℚ) × List Nat ←
    fitEncodingsAllServer smooth nCategories
  Peer.forEach (foldServer smooth nCategories fitted.1 fitted.2)
    (List.finRange k)

/-- What the parties return. -/
abbrev Transformed (t : TargetType) : Horizontal.Party clients → Type
  | .server => List (List (List Encoded))
  | .client _ => List (Applied t)

/-- `fit_transform` of all parties. -/
def fitTransform (smooth : Smooth) (nCategories : Fin d → Nat)
    (tables : Fin clients → Table t d k) :
    (p : Horizontal.Party clients) → Action clients t d (Transformed t p)
  | .server => fitTransformServer smooth nCategories k
  | .client i => fitTransformClient smooth (tables i)

end PrimiHub.FL.TargetEncoder
