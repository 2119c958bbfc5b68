/-
Horizontal linear regression (FL/linear_regression: base.py,
hfl_client.py, hfl_server.py) with the method Plaintext: a training task
from the tables of the clients to the saved models.

# A task

The clients say how many rows they have, fit the `StandardScaler` of
preprocessing/scaler.py with the server, and train for some global epochs:
some passes over the own rows in shuffled batches, then all models go to
the server and their weighted average comes back. The errors of the models
are reported to the server on the way, if that is asked for, and at the
end.

# Numbers

The arithmetic is exact. The square root, and what scikit-learn takes for
a constant feature, are parameters (`Numerics`); a table without a missing
entry is a list of rows of numbers.
-/
import Mathlib.Algebra.BigOperators.Group.Finset.Basic
import Mathlib.Algebra.BigOperators.Group.List.Basic
import Mathlib.Algebra.Field.Basic
import Mathlib.Algebra.GroupWithZero.Nat
import Mathlib.Algebra.Order.Group.Abs
import Mathlib.Data.Fin.Tuple.Basic
import Mathlib.Data.Fintype.Basic
import PrimiHub.FL.Horizontal
import PrimiHub.FL.Loader

namespace PrimiHub.FL.Linear

open Lib Horizontal

/-- What is raised, and a loop that does not end. -/
inductive Raised
  | valueError
  | zeroDivision
  | endlessLoop
  deriving DecidableEq, Repr

-- =================================================================== model

/-- `LinearRegression`, with a weight for each feature. -/
@[ext]
structure LinearRegression (ι K : Type) where
  learningRate : K
  alpha : K
  weight : ι → K
  bias : K

namespace LinearRegression

variable {ι K : Type} [Field K]

/-- `__init__`. -/
def init (learningRate alpha : K) : LinearRegression ι K :=
  ⟨learningRate, alpha, fun _ => 0, 0⟩

/-- `x.T.dot(error) / x.shape[0] + self.alpha * self.weight`. -/
def weightGrad (alpha : K) (weight : ι → K) (x : List (ι → K))
    (error : List K) (j : ι) : K :=
  (List.zipWith (fun row e => row j * e) x error).sum / (x.length : Nat)
    + alpha * weight j

/-- `error.mean(axis=0, keepdims=True)`. -/
def biasGrad (error : List K) : K := error.sum / (error.length : Nat)

/-- `self.weight -= self.learning_rate * dw`, and so for the bias. -/
def descend (self : LinearRegression ι K) (x : List (ι → K))
    (error : List K) : LinearRegression ι K :=
  { self with
    weight := fun j => self.weight j
      - self.learningRate * weightGrad self.alpha self.weight x error j
    bias := self.bias - self.learningRate * biasGrad error }

variable [Fintype ι]

/-- `predict`. -/
def predict (self : LinearRegression ι K) (x : List (ι → K)) : List K :=
  x.map fun row => ∑ j, row j * self.weight j + self.bias

/-- `compute_error`. -/
def computeError (self : LinearRegression ι K) (x : List (ι → K))
    (y : List K) : List K :=
  List.zipWith (· - ·) (self.predict x) y

/-- `fit`, which is `gradient_descent` with `compute_grad`. -/
def fit (self : LinearRegression ι K) (x : List (ι → K)) (y : List K) :
    LinearRegression ι K :=
  self.descend x (self.computeError x y)

end LinearRegression

variable {clients d : Nat} {K γ : Type}

/-- `get_theta`. -/
def LinearRegression.getTheta (self : LinearRegression (Fin d) K) :
    Fin (d + 1) → K :=
  Fin.cons self.bias self.weight

/-- `set_theta`. -/
def LinearRegression.setTheta (self : LinearRegression (Fin d) K)
    (theta : Fin (d + 1) → K) : LinearRegression (Fin d) K :=
  { self with bias := theta ⟨0, d.succ_pos⟩, weight := fun j => theta j.succ }

-- ================================================================= metrics

section Metrics

variable [Field K]

/-- `mean_squared_error`. -/
def meanSquaredError (y yPred : List K) : K :=
  (List.zipWith (fun t p => (t - p) ^ 2) y yPred).sum / (y.length : Nat)

/-- `mean_absolute_error`. -/
def meanAbsoluteError [LinearOrder K] (y yPred : List K) : K :=
  (List.zipWith (fun t p => |t - p|) y yPred).sum / (y.length : Nat)

end Metrics

-- ================================================================== scaler

/-- What numpy and scikit-learn compute beside the field operations:
`np.sqrt` and `_is_constant_feature`. -/
structure Numerics (K : Type) where
  sqrt : K → K
  isConstantFeature : (var mean : K) → (nSamples : Nat) → Bool

/-- A fitted `StandardScaler`. -/
structure Scaler (d : Nat) (K : Type) where
  mean : Fin d → K
  scale : Fin d → K

namespace Scaler

variable [Field K]

/-- `_handle_zeros_in_scale(np.sqrt(var), constant_mask=...)` of a
feature. -/
def handleZeros (num : Numerics K) (var mean : K) (n : Nat) : K :=
  if num.isConstantFeature var mean n then 1 else num.sqrt var

/-- The server's part of `Hfit`: the scaler from how many rows there are
and the sums of the entries and of their squares. -/
def ofSums (num : Numerics K) (n : Nat) (sum sumSquare : Fin d → K) :
    Scaler d K where
  mean j := sum j / (n : Nat)
  scale j := handleZeros num (sumSquare j / (n : Nat) - (sum j / (n : Nat)) ^ 2)
    (sum j / (n : Nat)) n

/-- `transform`. -/
def transform (self : Scaler d K) (x : List (Fin d → K)) :
    List (Fin d → K) :=
  x.map fun row j => (row j - self.mean j) / self.scale j

end Scaler

-- ================================================================ messages

/-- The keys of the messages. -/
inductive Tag
  | numExamples
  | nSamples
  | sumSumSquare
  | meanScale
  | clientModel
  | serverModel
  | mse
  | mae
  deriving DecidableEq, Repr

/-- The messages under each key. -/
abbrev Message (d : Nat) (K : Type) : Tag → Type
  | .numExamples | .nSamples => Nat
  | .sumSumSquare => (Fin d → K) × (Fin d → K)
  | .meanScale => Scaler d K
  | .clientModel | .serverModel => Fin (d + 1) → K
  | .mse | .mae => K

/-- A party's program. -/
abbrev Action (clients d : Nat) (K β : Type) : Type :=
  Peer (Horizontal.Party clients) (Message d K) Raised β

/-- `channel.send(key, val)`. -/
def send (dst : Horizontal.Party clients) (tag : Tag) (m : Message d K tag) :
    Action clients d K Unit :=
  Proc.put (μ := fun port : Horizontal.Party clients × Tag =>
      Message d K port.2)
    (dst, tag) m

/-- `channel.recv(key)`. -/
def recv (src : Horizontal.Party clients) (tag : Tag) :
    Action clients d K (Message d K tag) :=
  Proc.get (μ := fun port : Horizontal.Party clients × Tag =>
      Message d K port.2)
    (src, tag)

/-- A row of a table with its label. -/
structure Example (d : Nat) (K : Type) where
  x : Fin d → K
  y : K

/-- The common parameters of a task. -/
structure Settings (K : Type) where
  learningRate : K
  alpha : K
  batchSize : Nat
  globalEpoch : Nat
  localEpoch : Nat
  printMetrics : Bool

/-- `check_array`: a row and a feature. -/
def checkArray (x : List (Fin d → K)) : Except Raised (List (Fin d → K)) :=
  if x = [] ∨ d = 0 then .error .valueError else .ok x

/-- A `for` loop over a loader comes to its end. -/
def ends {β : Type} : Option β → Except Raised β
  | none => .error .endlessLoop
  | some b => .ok b

-- ================================================================== client

/-- A client with its loader and the state of its generator. -/
structure Client (d : Nat) (K γ : Type) where
  model : LinearRegression (Fin d) K
  loader : DataLoader (Fin d → K) K
  state : γ

namespace Client

variable [Field K]

/-- `for batch_x, batch_y in train_dataloader: client.model.fit(...)`. -/
def fitBatches (model : LinearRegression (Fin d) K)
    (batches : List (Batch (Fin d → K) K)) : LinearRegression (Fin d) K :=
  batches.foldl (fun model batch => model.fit batch.x (batch.y.getD [])) model

/-- The local epochs. -/
def localEpochs (rng : GlobalRng γ) :
    Nat → Client d K γ → Except Raised (Client d K γ)
  | 0, self => .ok self
  | count + 1, self => do
      let (batches, loader, state) ← ends (self.loader.forEach rng self.state)
      localEpochs rng count ⟨fitBatches self.model batches, loader, state⟩

/-- The client's part of `StandardScaler.Hfit`. -/
def fitScaler (x : List (Fin d → K)) : Action clients d K (Scaler d K) := do
  send .server .nSamples x.length
  send .server .sumSumSquare
    (fun j => (x.map (· j)).sum, fun j => (x.map fun row => row j ^ 2).sum)
  recv .server .meanScale

/-- `train` of `Plaintext_Client`. -/
def train (self : Client d K γ) : Action clients d K (Client d K γ) := do
  send .server .clientModel self.model.getTheta
  let theta ← recv .server .serverModel
  pure { self with model := self.model.setTheta theta }

variable [LinearOrder K]

/-- `send_metrics` and `print_metrics`, of whose metrics the server gets
two. -/
def sendMetrics (self : Client d K γ) (x : List (Fin d → K)) (y : List K) :
    Action clients d K Unit := do
  let yPred := self.model.predict x
  send .server .mse (meanSquaredError y yPred)
  send .server .mae (meanAbsoluteError y yPred)

/-- `if self.common_params['print_metrics']: client.print_metrics(x, y)`. -/
def printMetrics (settings : Settings K) (self : Client d K γ)
    (x : List (Fin d → K)) (y : List K) : Action clients d K Unit :=
  if settings.printMetrics then self.sendMetrics x y else pure ()

/-- The global epochs of a client. -/
def globalEpochs (rng : GlobalRng γ) (settings : Settings K)
    (x : List (Fin d → K)) (y : List K) :
    Nat → Client d K γ → Action clients d K (Client d K γ)
  | 0, self => pure self
  | count + 1, self => do
      let self ← Proc.lift (self.localEpochs rng settings.localEpoch)
      let self ← self.train
      self.printMetrics settings x y
      globalEpochs rng settings x y count self

/-- `LinearRegressionClient.train`: the scaler and the model that are
saved. -/
def run (rng : GlobalRng γ) (settings : Settings K)
    (rows : List (Example d K)) (state : γ) :
    Action clients d K (Scaler d K × LinearRegression (Fin d) K) := do
  let y := rows.map Example.y
  let x ← Proc.lift (checkArray (rows.map Example.x))
  let model := LinearRegression.init settings.learningRate settings.alpha
  send .server .numExamples x.length
  let scaler ← fitScaler x
  let x := scaler.transform x
  let batchSize := min x.length settings.batchSize
  let loader := DataLoader.fresh x (some y) batchSize true
  let self ← globalEpochs rng settings x y settings.globalEpoch
    ⟨model, loader, state⟩
  self.sendMetrics x y
  pure (scaler, self.model)

end Client

-- ================================================================== server

/-- The server's `theta`, which is `None` at first, and the metrics it has
logged. -/
structure Server (d : Nat) (K : Type) where
  theta : Option (Fin (d + 1) → K)
  printed : List (K × K)

namespace Server

variable [Field K]

/-- `np.average(values, weights=...)`. -/
def average (values : List K) (weights : List Nat) : Except Raised K :=
  if weights.sum = 0 then .error .zeroDivision
  else .ok ((List.zipWith (fun (w : Nat) v => (w : K) * v) weights values).sum
    / (weights.sum : Nat))

/-- `np.average(client_models, weights=..., axis=0)`. -/
def averageModels (models : List (Fin (d + 1) → K)) (weights : List Nat) :
    Except Raised (Fin (d + 1) → K) :=
  if weights.sum = 0 then .error .zeroDivision
  else .ok fun j =>
    (List.zipWith (fun (w : Nat) m => (w : K) * m j) weights models).sum
      / (weights.sum : Nat)

/-- The server's part of `StandardScaler.Hfit`. -/
def fitScaler (num : Numerics K) : Action clients d K (Scaler d K) := do
  let nSamples : List Nat ← Peer.recvAll Tag.nSamples (allClients clients)
  let nSum := nSamples.foldl (· + ·) 0
  let sums ← Peer.recvAll Tag.sumSumSquare (allClients clients)
  let scaler := Scaler.ofSums num nSum
    (fun j => (sums.map fun s => s.1 j).sum)
    (fun j => (sums.map fun s => s.2 j).sum)
  Peer.sendAll .meanScale scaler (allClients clients)
  pure scaler

/-- `get_scalar_metrics`. -/
def getScalarMetrics (weights : List Nat) (tag : Tag)
    (value : Message d K tag → K) : Action clients d K K := do
  let clientMetrics ← Peer.recvAll tag (allClients clients)
  Proc.lift (average (clientMetrics.map value) weights)

/-- `get_metrics`. -/
def getMetrics (weights : List Nat) : Action clients d K (K × K) := do
  let mse ← getScalarMetrics weights .mse id
  let mae ← getScalarMetrics weights .mae id
  pure (mse, mae)

/-- `train` of `Plaintext_DPSGD_Server`. -/
def train (weights : List Nat) (self : Server d K) :
    Action clients d K (Server d K) := do
  let models ← Peer.recvAll Tag.clientModel (allClients clients)
  let theta ← Proc.lift (averageModels models weights)
  Peer.sendAll .serverModel theta (allClients clients)
  pure { self with theta := some theta }

/-- `if self.common_params['print_metrics']: server.print_metrics()`. -/
def printMetrics (settings : Settings K) (weights : List Nat)
    (self : Server d K) : Action clients d K (Server d K) :=
  if settings.printMetrics then do
    let metrics ← getMetrics weights
    pure { self with printed := self.printed ++ [metrics] }
  else pure self

/-- The global epochs of the server. -/
def globalEpochs (settings : Settings K) (weights : List Nat) :
    Nat → Server d K → Action clients d K (Server d K)
  | 0, self => pure self
  | count + 1, self => do
      let self ← self.train weights
      let self ← self.printMetrics settings weights
      globalEpochs settings weights count self

/-- `LinearRegressionServer.train`: the scaler, the server and the metrics
that are saved. -/
def run (num : Numerics K) (settings : Settings K) :
    Action clients d K (Scaler d K × Server d K × (K × K)) := do
  let weights : List Nat ←
    Peer.recvAll Tag.numExamples (allClients clients)
  let scaler ← fitScaler num
  let self ← globalEpochs settings weights settings.globalEpoch ⟨none, []⟩
  let trainMetrics ← getMetrics weights
  pure (scaler, self, trainMetrics)

end Server

-- ================================================================ the task

/-- What the parties return. -/
abbrev Result (d : Nat) (K : Type) : Horizontal.Party clients → Type
  | .server => Scaler d K × Server d K × (K × K)
  | .client _ => Scaler d K × LinearRegression (Fin d) K

/-- All parties of a task; the clients' generators are in any states. -/
def parties [Field K] [LinearOrder K] (num : Numerics K) (rng : GlobalRng γ)
    (settings : Settings K) (parts : Fin clients → List (Example d K))
    (states : Fin clients → γ) :
    (p : Horizontal.Party clients) → Action clients d K (Result d K p)
  | .server => Server.run num settings
  | .client i => Client.run rng settings (parts i) (states i)

end PrimiHub.FL.Linear
