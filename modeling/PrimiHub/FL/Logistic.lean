/-
Horizontal logistic regression (FL/logistic_regression: base.py,
hfl_client.py, hfl_server.py): how the parties come to the shape of the
model, and a global round of the training.

# Arrays

`bias` and `weight` are vectors of shapes (1,) and (d,) for a binary model
and matrices of shapes (1, m) and (d, m) for another one. `Cell` is what
indexes the second axis, one cell for a vector, so that one definition of
a gradient step serves both shapes.

# Errors of the examples

`compute_grad` needs of `predict_prob` only the error of each example,
which is a function of the example and the parameters; it is a parameter
here. The Paillier step computes its own, a Taylor polynomial.

# Ciphertexts

The Paillier step runs on ciphertexts; `Scheme` has what `phe` does with
them. The plain numbers are the scheme without encryption.
-/
import Mathlib.Algebra.BigOperators.Group.List.Basic
import Mathlib.Algebra.Field.Basic
import Mathlib.Algebra.GroupWithZero.Nat
import Mathlib.Data.Fin.Tuple.Basic
import PrimiHub.FL.Horizontal
import PrimiHub.Lib.Traverse

namespace PrimiHub.FL.Logistic

open Lib Horizontal

theorem neZero_succ (d : Nat) : NeZero (d + 1) := ⟨Nat.succ_ne_zero d⟩

theorem atLeastTwo_two : Nat.AtLeastTwo 2 := ⟨Nat.le_refl 2⟩

theorem atLeastTwo_four : Nat.AtLeastTwo 4 := ⟨by decide⟩

attribute [local instance] neZero_succ atLeastTwo_two atLeastTwo_four

/-- What is raised. -/
inductive Raised
  | valueError
  | indexError
  | zeroDivision
  | attributeError
  deriving DecidableEq, Repr

-- =================================================================== arrays

/-- The cells of a row: a row of a vector has one. -/
abbrev Cell : Option Nat → Type
  | none => Unit
  | some m => Fin m

/-- An array of shape (n,), or (n, m). -/
structure NdArray (n : Nat) (R : Type) where
  cols : Option Nat
  data : Fin n → Cell cols → R

variable {clients d n : Nat} {R K C : Type}

/-- `np.zeros`. -/
def zeros [Zero R] (n : Nat) (cols : Option Nat) : NdArray n R :=
  ⟨cols, fun _ _ => 0⟩

/-- The rows of an array with a second axis like this. -/
def NdArray.as (a : NdArray n R) (cols : Option Nat) :
    Option (Fin n → Cell cols → R) :=
  if h : a.cols = cols then some (h ▸ a.data) else none

/-- `np.array` of a list of arrays: they must have one shape. -/
def stack (cols : Option Nat) :
    List (NdArray n R) → Except Raised (List (Fin n → Cell cols → R))
  | [] => .ok []
  | a :: rest =>
      match a.as cols with
      | none => .error .valueError
      | some rows => do
          let others ← stack cols rest
          .ok (rows :: others)

-- ==================================================================== model

/-- A row of the table with its label. -/
structure Example (d : Nat) (R : Type) where
  x : Fin d → R
  y : Nat

/-- What the configuration gives. -/
structure Settings (R : Type) where
  learningRate : R
  alpha : R

/-- The state of a `LogisticRegression`. -/
structure Model (d : Nat) (R : Type) where
  cols : Option Nat
  bias : Cell cols → R
  weight : Fin d → Cell cols → R
  multiclass : Bool

/-- `__init__`. -/
def Model.init [Zero R] (data : List (Example d R)) :
    Except Raised (Model d R) :=
  match (data.map Example.y).max? with
  | none => .error .valueError
  | some maxY =>
      if maxY = 1 then .ok ⟨none, fun _ => 0, fun _ _ => 0, false⟩
      else .ok ⟨some (maxY + 1), fun _ => 0, fun _ _ => 0, true⟩

/-- `get_theta`: `vstack` stacks matrices, and `hstack` joins vectors. With
several features they raise for the other shape, which no call has. -/
def Model.getTheta (m : Model d R) : Except Raised (NdArray (d + 1) R) :=
  match m.multiclass, m.cols with
  | true, some _ => .ok ⟨m.cols, Fin.cons m.bias m.weight⟩
  | false, none => .ok ⟨m.cols, Fin.cons m.bias m.weight⟩
  | true, none => .error .valueError
  | false, some _ => .error .valueError

/-- `set_theta`. -/
def Model.setTheta (m : Model d R) (theta : NdArray (d + 1) R) :
    Model d R where
  cols := theta.cols
  bias := theta.data 0
  weight j := theta.data j.succ
  multiclass := m.multiclass

/-- `predict_prob(x) - y`, or the like for several classes, of an example;
an arbitrary function. -/
abbrev ErrorOf (d : Nat) (R : Type) :=
  (m : Model d R) → Example d R → Cell m.cols → R

/-- `gradient_descent` with `compute_grad`. -/
def Model.gradientDescent [Field R] (s : Settings R) (error : ErrorOf d R)
    (data : List (Example d R)) (m : Model d R) : Model d R :=
  let size : R := (data.length : Nat)
  let dw := fun j k =>
    (data.map fun e => e.x j * error m e k).sum / size
      + s.alpha * m.weight j k
  let db := fun k => (data.map fun e => error m e k).sum / size
  { m with weight := fun j k => m.weight j k - s.learningRate * dw j k
           bias := fun k => m.bias k - s.learningRate * db k }

-- ================================================================ protocol

/-- The keys of the messages. -/
inductive Tag
  | outputDim
  | numExamples
  | clientModel
  | serverModel
  deriving DecidableEq, Repr

/-- What is sent under a key. -/
abbrev Message (d : Nat) (R : Type) : Tag → Type
  | .outputDim => Nat
  | .numExamples => Nat
  | .clientModel => NdArray (d + 1) R
  | .serverModel => NdArray (d + 1) R

/-- A party's program. -/
abbrev Action (clients d : Nat) (R β : Type) : Type :=
  Peer (Horizontal.Party clients) (Message d R) Raised β

/-- `channel.send(key, val)`. -/
def send (dst : Horizontal.Party clients) (tag : Tag) (m : Message d R tag) :
    Action clients d R Unit :=
  Proc.put (μ := fun port : Horizontal.Party clients × Tag =>
      Message d R port.2)
    (dst, tag) m

/-- `channel.recv(key)`. -/
def recv (src : Horizontal.Party clients) (tag : Tag) :
    Action clients d R (Message d R tag) :=
  Proc.get (μ := fun port : Horizontal.Party clients × Tag =>
      Message d R port.2)
    (src, tag)

-- =================================================================== shapes

/-- A client behind its constructor. -/
structure Client (d : Nat) (R : Type) where
  model : Model d R
  numExamples : Nat

/-- A server behind its constructor. -/
structure Server where
  multiclass : Bool
  numExamplesWeights : List Nat

/-- `send_output_dim`, behind the exchange: the theta is shaped anew where
the dimension asks for it. -/
def Model.initTheta [Zero R] (m : Model d R) (outputDim : Nat) :
    Except Raised (Model d R) :=
  if m.multiclass then
    match m.cols with
    | none => .error .indexError
    | some cols =>
        if outputDim ≠ cols then
          .ok (m.setTheta (zeros (d + 1) (some outputDim)))
        else .ok m
  else if outputDim > 1 then
    .ok { m.setTheta (zeros (d + 1) (some outputDim)) with
          multiclass := true }
  else .ok m

/-- The dimension a client sends; a binary problem has one output. -/
def outputDim (maxY : Nat) : Nat := if maxY + 1 = 2 then 1 else maxY + 1

/-- `send_output_dim`. -/
def sendOutputDim [Zero R] (data : List (Example d R)) (m : Model d R) :
    Action clients d R (Model d R) :=
  match (data.map Example.y).max? with
  | none => .raise .valueError
  | some maxY => do
      send .server .outputDim (outputDim maxY)
      let dim ← recv .server .outputDim
      Proc.lift (m.initTheta dim)

/-- The constructor of a client, with `param_init`. -/
def initClient [Zero R] (data : List (Example d R)) :
    Action clients d R (Client d R) := do
  let model ← Proc.lift (Model.init data)
  let model ← sendOutputDim data model
  send .server .numExamples data.length
  pure ⟨model, data.length⟩

/-- `recv_output_dims`. -/
def recvOutputDims : Action clients d R Bool := do
  let dims : List Nat ← Peer.recvAll Tag.outputDim (allClients clients)
  match dims.max? with
  | none => .raise .valueError
  | some dim => do
      Peer.sendAll .outputDim dim (allClients clients)
      pure (if dim = 1 then false else true)

/-- The constructor of the server, with `recv_params`. -/
def initServer : Action clients d R Server := do
  let multiclass ← recvOutputDims
  let weights ← Peer.recvAll .numExamples (allClients clients)
  pure ⟨multiclass, weights⟩

/-- What the constructors make. -/
abbrev Initial (d : Nat) (R : Type) : Horizontal.Party clients → Type
  | .server => Server
  | .client _ => Client d R

/-- The constructors of all parties. -/
def initAll [Zero R] (parts : Fin clients → List (Example d R)) :
    (p : Horizontal.Party clients) → Action clients d R (Initial d R p)
  | .server => initServer
  | .client i => initClient (parts i)

-- ============================================================== ciphertexts

/-- Numbers to compute with in place of the plain ones: they are added to
each other and to plain numbers, and multiplied by plain numbers. -/
structure Scheme (K C : Type) [Field K] where
  enc : K → C
  dec : C → K
  add : C → C → C
  shift : K → C → C
  scale : K → C → C
  dec_enc : ∀ a, dec (enc a) = a
  dec_add : ∀ u v, dec (add u v) = dec u + dec v
  dec_shift : ∀ a v, dec (shift a v) = a + dec v
  dec_scale : ∀ a v, dec (scale a v) = a * dec v

/-- No encryption. -/
def Scheme.plain (K : Type) [Field K] : Scheme K K where
  enc := id
  dec := id
  add := (· + ·)
  shift := (· + ·)
  scale := (· * ·)
  dec_enc _ := rfl
  dec_add _ _ := rfl
  dec_shift _ _ := rfl
  dec_scale _ _ := rfl

variable [Field K]

/-- `sum` over ciphertexts. -/
def Scheme.sum (S : Scheme K C) (vs : List C) : C :=
  vs.foldr S.add (S.enc 0)

/-- `2 + x.dot(weight) + bias - 4 * y` of an example. -/
def Scheme.error (S : Scheme K C) (m : Model d C) (e : Example d K)
    (k : Cell m.cols) : C :=
  S.shift (-(4 * (e.y : K))) (S.add (S.shift 2
    (S.sum ((List.finRange d).map fun j => S.scale (e.x j) (m.weight j k))))
    (m.bias k))

/-- `gradient_descent` of `LogisticRegression_Paillier`. -/
def Model.gradientDescentPaillier (S : Scheme K C) (s : Settings K)
    (data : List (Example d K)) (m : Model d C) :
    Except Raised (Model d C) :=
  let factor := -s.learningRate / (data.length : Nat)
  if m.multiclass then .error .attributeError
  else .ok { m with
    weight := fun j k => S.add (m.weight j k) (S.add
      (S.sum (data.map fun e => S.scale (factor * e.x j) (S.error m e k)))
      (S.scale (-s.learningRate * s.alpha) (m.weight j k)))
    bias := fun k => S.add (m.bias k)
      (S.scale factor (S.sum (data.map fun e => S.error m e k))) }

-- =================================================================== round

/-- `client_model_aggregate` of `Plaintext_DPSGD_Server`: `np.average` with
the numbers of rows as weights. -/
def aggregate (models : List (NdArray n K)) (weights : List Nat) :
    Except Raised (NdArray n K) :=
  match models with
  | [] => .error .zeroDivision
  | m :: _ => do
      let rows ← stack m.cols models
      if weights.sum = 0 then .error .zeroDivision
      else .ok ⟨m.cols, fun j k =>
        (List.zipWith (fun (w : Nat) a => (w : K) * a j k) weights rows).sum
          / (weights.sum : Nat)⟩

/-- `client_model_aggregate` of `Paillier_Server`: `np.mean`, decrypted and
encrypted again. The numbers of rows are not looked at. -/
def aggregatePaillier (S : Scheme K C) (models : List (NdArray n C))
    (_weights : List Nat) : Except Raised (NdArray n C) :=
  match models with
  | [] => .error .valueError
  | m :: _ => do
      let rows ← stack m.cols models
      .ok ⟨m.cols, fun j k => S.enc (S.dec (S.scale (1 / (rows.length : Nat))
        (S.sum (rows.map fun a => a j k))))⟩

/-- A client: `send_params` of its constructor, `fit` on all its rows, and
`train`. -/
def clientRound (fit : List (Example d K) → Model d R →
      Except Raised (Model d R))
    (data : List (Example d K)) (m : Model d R) :
    Action clients d R (Model d R) := do
  send .server .numExamples data.length
  let m ← Proc.lift (fit data m)
  let theta ← Proc.lift m.getTheta
  send .server .clientModel theta
  let theta ← recv .server .serverModel
  pure (m.setTheta theta)

/-- The server: `recv_params` of its constructor, and `train`. -/
def serverRound (aggregate : List (NdArray (d + 1) R) → List Nat →
      Except Raised (NdArray (d + 1) R)) :
    Action clients d R (NdArray (d + 1) R) := do
  let weights : List Nat ← Peer.recvAll Tag.numExamples (allClients clients)
  let models ← Peer.recvAll Tag.clientModel (allClients clients)
  let theta ← Proc.lift (aggregate models weights)
  Peer.sendAll .serverModel theta (allClients clients)
  pure theta

/-- What the parties of a round return. -/
abbrev Trained (d : Nat) (R : Type) : Horizontal.Party clients → Type
  | .server => NdArray (d + 1) R
  | .client _ => Model d R

/-- A global round of one local epoch on whole tables. -/
def globalRound (fit : List (Example d K) → Model d R →
      Except Raised (Model d R))
    (aggregate : List (NdArray (d + 1) R) → List Nat →
      Except Raised (NdArray (d + 1) R))
    (parts : Fin clients → List (Example d K))
    (models : Fin clients → Model d R) :
    (p : Horizontal.Party clients) → Action clients d R (Trained d R p)
  | .server => serverRound aggregate
  | .client i => clientRound fit (parts i) (models i)

/-- A round of the Plaintext method. -/
def plaintextRound (s : Settings K) (error : ErrorOf d K)
    (parts : Fin clients → List (Example d K))
    (models : Fin clients → Model d K) :
    (p : Horizontal.Party clients) → Action clients d K (Trained d K p) :=
  globalRound (fun data m => .ok (m.gradientDescent s error data))
    aggregate parts models

/-- A round of the Paillier method. -/
def paillierRound (S : Scheme K C) (s : Settings K)
    (parts : Fin clients → List (Example d K))
    (models : Fin clients → Model d C) :
    (p : Horizontal.Party clients) → Action clients d C (Trained d C p) :=
  globalRound (Model.gradientDescentPaillier S s) (aggregatePaillier S)
    parts models

end PrimiHub.FL.Logistic
