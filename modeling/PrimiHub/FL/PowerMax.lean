/-
The optimum of a power transform over the data of several clients:
`boxcox_normmax` and `yeojohnson_normmax` with their server and client
sides (python/primihub/FL/preprocessing/_power.py).

# The rounds

Each client sends its number of samples and a constant. The server's
optimiser asks for one trial lambda after the other; the server sends it to
all clients, each answers, and the answers make the value that the
optimiser gets. Then the server sends the text `ymax`, or `None`, under the
same key, and the clients leave their loops. After `ymax` they send their
extremes, and the server constrains the optimum by the extremes of all.
Last it sends the optimum.

# What is left open

The optimiser is any strategy that comes to an end. The transcendental and
complex functions of numpy and scipy are those of `SpecialFunctions`;
other numbers are rational. The two methods differ in these functions and
in what data they take.

Besides the optimum a side returns what the model is asked about: the
trials it has asked for or answered, and the extremes that it has passed to
the constraint step or sent.
-/
import Mathlib.Algebra.Order.Field.Rat
import Mathlib.Data.Sign.Basic
import PrimiHub.FL.Horizontal

namespace PrimiHub.FL.Power

open Lib Horizontal

/-- The two methods of `PowerTransformer`. -/
inductive PowerMethod
  | boxcox
  | yeojohnson
  deriving DecidableEq, Repr

/-- Functions of numpy and scipy, and those of the two logarithms of the
variance; `C` are complex numbers. -/
structure SpecialFunctions (C : Type) where
  log : ℚ → ℚ
  log1p : ℚ → ℚ
  /-- `logbc` and `logyj`, of a trial lambda and a sample -/
  logTransformed : PowerMethod → ℚ → ℚ → C
  /-- `logsumexp` of the items and of their doubles -/
  logSumSumSquare : List C → C × C
  /-- what `_log_var_server` makes of the number of samples and of what it
  has received -/
  logVar : ℚ → List (C × C) → ℚ
  /-- `_log_var` and `_log_var_yeojohnson`, of a trial lambda and data -/
  logVarOf : PowerMethod → ℚ → List ℚ → ℚ
  /-- `special.boxcox` and `_yeojohnson_transform` -/
  transform : PowerMethod → ℚ → ℚ → ℚ
  /-- `_boxcox_inv_lmbda` and `_yeojohnson_inv_lmbda` -/
  invLmbda : PowerMethod → ℚ → ℚ → ℚ
  /-- the greatest number over the safety factor -/
  bigFloat : ℚ

/-- `ymax`, as it is given. -/
inductive YMax
  | bigFloat
  | number (y : ℚ)
  | inf
  deriving DecidableEq, Repr

/-- The exceptions, and a loop that has turned as often as the model lets
it. -/
inductive PowerError
  | valueError (text : String)
  | indexError
  | running
  deriving DecidableEq, Repr

-- ================================================================ optimiser

/-- What `optimize.brent` does with the function it is given: it ends, or it
asks for the value at a trial lambda and goes on with that. -/
inductive Optimiser
  | ret (lmax : ℚ)
  | ask (lmb : ℚ) (next : ℚ → Optimiser)

/-- The trials for a function, and the optimum. -/
def Optimiser.run (f : ℚ → ℚ) : Optimiser → List ℚ × ℚ
  | ret lmax => ([], lmax)
  | ask lmb next =>
      let (trials, lmax) := (next (f lmb)).run f
      (lmb :: trials, lmax)

-- ================================================================= one party

/-- What a side returns, with what the model is asked about. -/
structure Outcome where
  lmax : ℚ
  trials : List ℚ
  extremes : Option (ℚ × ℚ)
  deriving DecidableEq, Repr

/-- `np.min(x), np.max(x)` of data that are not empty. -/
def npExtremes (x : List ℚ) : ℚ × ℚ := (x.min?.getD 0, x.max?.getD 0)

/-- The checks of the data, without that of the dimension. -/
def checkData (method : PowerMethod) (x : List ℚ) : Except PowerError Unit :=
  if x = [] then .error (.valueError "Data must not be empty.")
  else if method = .boxcox ∧ ∃ v ∈ x, v ≤ 0 then
    .error (.valueError "Data must be strictly positive.")
  else .ok ()

section Functions

variable {C : Type} (S : SpecialFunctions C) (method : PowerMethod)

/-- The number that bounds the transformed data; `none` when it is
infinite. -/
def checkYmax : YMax → Except PowerError (Option ℚ)
  | .bigFloat => .ok (some S.bigFloat)
  | .number y =>
      if y ≤ 0 then
        .error (.valueError "`ymax` must be strictly positive")
      else .ok (some y)
  | .inf => .ok none

/-- `constant`: `np.sum(np.log(x))`, or
`np.sum(np.sign(x) * np.log1p(np.abs(x)))`. -/
def constant (x : List ℚ) : ℚ :=
  match method with
  | .boxcox => (x.map S.log).sum
  | .yeojohnson => (x.map fun v => SignType.sign v * S.log1p |v|).sum

/-- The log-likelihood, from the logarithm of the variance. -/
def llf (lmb nSamples constant logvar : ℚ) : ℚ :=
  (lmb - 1) * constant - nSamples / 2 * logvar

/-- Where the sign of the transformed data changes. -/
def signChange : PowerMethod → ℚ
  | .boxcox => 1
  | .yeojohnson => 0

/-- `_boxcox_constranined_lmax` and `_yeojohnson_constranined_lmax`. -/
def constrainedLmax (lmax xmin xmax ymax : ℚ) : ℚ :=
  let xTreme :=
    if signChange method ≤ xmin then xmax
    else if xmax ≤ signChange method then xmin
    else if |S.transform method xmin lmax| < S.transform method xmax lmax
    then xmax
    else xmin
  if ymax < |S.transform method xTreme lmax| then
    S.invLmbda method xTreme
      (ymax * SignType.sign (xTreme - signChange method))
  else lmax

/-- `boxcox_normmax` and `yeojohnson_normmax`, on all data at one place. -/
def normmax (brent : Optimiser) (ymax : YMax) (x : List ℚ) :
    Except PowerError Outcome := do
  if x = [] then throw (.valueError "Data must not be empty.")
  if ∀ v ∈ x, some v = x.head? then
    throw (.valueError "Data must not be constant.")
  if method = .boxcox ∧ ∃ v ∈ x, v ≤ 0 then
    throw (.valueError "Data must be strictly positive.")
  let ymax ← checkYmax S ymax
  let (trials, lmax) := brent.run fun lmb =>
    -llf lmb x.length (constant S method x) (S.logVarOf method lmb x)
  match ymax with
  | none => pure ⟨lmax, trials, none⟩
  | some ymax =>
      let (xmin, xmax) := npExtremes x
      pure ⟨constrainedLmax S method lmax xmin xmax ymax, trials,
        some (xmin, xmax)⟩

end Functions

-- ================================================================ messages

/-- What comes under the key `lmb`: a number, the text, or `None`. -/
inductive LmbMessage
  | number (lmb : ℚ)
  | ymax
  | none
  deriving DecidableEq, Repr

/-- The keys of the messages. -/
inductive Tag
  | nSamplesConstant
  | lmb
  | logSumSumSquare
  | xMinMax
  | lmax
  deriving DecidableEq, Repr

/-- The messages under each key. -/
abbrev Message (C : Type) : Tag → Type
  | .nSamplesConstant => Nat × ℚ
  | .lmb => LmbMessage
  | .logSumSumSquare => C × C
  | .xMinMax => ℚ × ℚ
  | .lmax => ℚ

variable {clients : Nat} {C : Type}

/-- A party's program. -/
abbrev Action (clients : Nat) (C β : Type) : Type :=
  Peer (Horizontal.Party clients) (Message C) PowerError β

/-- `channel.send(key, val)` of a client. -/
def send (tag : Tag) (m : Message C tag) : Action clients C Unit :=
  Proc.put (μ := fun port : Horizontal.Party clients × Tag =>
      Message C port.2)
    (.server, tag) m

/-- `channel.recv(key)` of a client. -/
def recv (tag : Tag) : Action clients C (Message C tag) :=
  Proc.get (μ := fun port : Horizontal.Party clients × Tag =>
      Message C port.2)
    (.server, tag)

section Sides

variable (S : SpecialFunctions C) (method : PowerMethod)

-- ================================================================== client

/-- `boxcox_llf_client` and `yeojohnson_llf_client`: the answer to a
trial. -/
def answer (lmb : ℚ) (x : List ℚ) : C × C :=
  S.logSumSumSquare (x.map (S.logTransformed method lmb))

/-- `while isinstance(lmb, Number)`: the trials that are answered, and
whether the text came after them. -/
def answerTrials (x : List ℚ) : Nat → Action clients C (List ℚ × Bool)
  | 0 => Proc.lift (.error .running)
  | fuel + 1 => do
      let lmb ← recv .lmb
      match lmb with
      | .number lmb => do
          send .logSumSumSquare (answer S method lmb x)
          let (trials, isYmax) ← answerTrials x fuel
          pure (lmb :: trials, isYmax)
      | .ymax => pure ([], true)
      | .none => pure ([], false)

/-- `boxcox_normmax_client` and `yeojohnson_normmax_client`. -/
def normmaxClient (fuel : Nat) (x : List ℚ) : Action clients C Outcome := do
  Proc.lift (checkData method x)
  send .nSamplesConstant (x.length, constant S method x)
  let (trials, isYmax) ← answerTrials S method x fuel
  if isYmax then
    send .xMinMax (npExtremes x)
    let lmax ← recv .lmax
    pure ⟨lmax, trials, some (npExtremes x)⟩
  else
    let lmax ← recv .lmax
    pure ⟨lmax, trials, none⟩

-- ================================================================== server

/-- `np.sum(n_samples_constant, axis=0)` and its two items, which an empty
list has not. -/
def sumSamples (rows : List (Nat × ℚ)) : Except PowerError (ℚ × ℚ) :=
  if rows = [] then .error .indexError
  else .ok ((rows.map fun row => (row.1 : ℚ)).sum, (rows.map Prod.snd).sum)

/-- `optimize.brent` on the function that asks the clients. -/
def optimise (nSamples constant : ℚ) :
    Optimiser → Action clients C (List ℚ × ℚ)
  | .ret lmax => pure ([], lmax)
  | .ask lmb next => do
      Peer.sendAll .lmb (.number lmb) (allClients clients)
      let logSumSumSquare ←
        Peer.recvAll .logSumSumSquare (allClients clients)
      let logvar := S.logVar nSamples logSumSumSquare
      let (trials, lmax) ←
        optimise nSamples constant (next (-llf lmb nSamples constant logvar))
      pure (lmb :: trials, lmax)

/-- `x_min_max[i]`. -/
def item (rows : List (ℚ × ℚ)) (i : Nat) : Except PowerError (ℚ × ℚ) :=
  match rows[i]? with
  | none => .error .indexError
  | some row => .ok row

/-- `np.min(x_min_max[0]), np.max(x_min_max[1])`. -/
def rowExtremes (rows : List (ℚ × ℚ)) : Except PowerError (ℚ × ℚ) := do
  let first ← item rows 0
  let second ← item rows 1
  .ok (min first.1 first.2, max second.1 second.2)

/-- `boxcox_normmax_server` and `yeojohnson_normmax_server`. -/
def normmaxServer (brent : Optimiser) (ymax : YMax) :
    Action clients C Outcome := do
  let ymax ← Proc.lift (checkYmax S ymax)
  let rows ← Peer.recvAll .nSamplesConstant (allClients clients)
  let (nSamples, constant) ← Proc.lift (sumSamples rows)
  let (trials, lmax) ← optimise S nSamples constant brent
  match ymax with
  | none => do
      Peer.sendAll .lmb .none (allClients clients)
      Peer.sendAll .lmax lmax (allClients clients)
      pure ⟨lmax, trials, none⟩
  | some ymax => do
      Peer.sendAll .lmb .ymax (allClients clients)
      let xMinMax ← Peer.recvAll .xMinMax (allClients clients)
      let (xmin, xmax) ← Proc.lift (rowExtremes xMinMax)
      let lmax := constrainedLmax S method lmax xmin xmax ymax
      Peer.sendAll .lmax lmax (allClients clients)
      pure ⟨lmax, trials, some (xmin, xmax)⟩

/-- The server and its clients, with their data. -/
def federated (brent : Optimiser) (ymax : YMax) (fuel : Nat)
    (data : Fin clients → List ℚ) :
    Horizontal.Party clients → Action clients C Outcome
  | .server => normmaxServer S method brent ymax
  | .client i => normmaxClient S method fuel (data i)

end Sides

/-- `boxcox_normmax_server`. -/
def boxcoxNormmaxServer (S : SpecialFunctions C) :
    Optimiser → YMax → Action clients C Outcome :=
  normmaxServer S .boxcox

/-- `boxcox_normmax_client`. -/
def boxcoxNormmaxClient (S : SpecialFunctions C) :
    Nat → List ℚ → Action clients C Outcome :=
  normmaxClient S .boxcox

/-- `yeojohnson_normmax_server`. -/
def yeojohnsonNormmaxServer (S : SpecialFunctions C) :
    Optimiser → YMax → Action clients C Outcome :=
  normmaxServer S .yeojohnson

/-- `yeojohnson_normmax_client`. -/
def yeojohnsonNormmaxClient (S : SpecialFunctions C) :
    Nat → List ℚ → Action clients C Outcome :=
  normmaxClient S .yeojohnson

-- ============================================================= the meaning

/-- The data of all clients. -/
def pooled (data : Fin clients → List ℚ) : List ℚ :=
  (List.finRange clients).flatMap data

/-- The data are accepted by the clients, and there is a client. -/
structure Accepted (method : PowerMethod) (data : Fin clients → List ℚ) :
    Prop where
  clients_pos : 0 < clients
  data : ∀ i, checkData method (data i) = .ok ()

/-- The server accepts `ymax`. -/
def YMax.Positive (ymax : YMax) : Prop := ∀ y, ymax = .number y → 0 < y

/-- What the server passes to the constraint step is what the centralised
function passes: the extremes of all data, unless `ymax` is infinite. -/
def PassesExtremes (ymax : YMax) (x : List ℚ)
    (passed : Option (ℚ × ℚ)) : Prop :=
  passed = if ymax = .inf then none else some (npExtremes x)

/-- With enough turns for the clients' loops, all parties return under every
schedule. The clients have answered the trials that the server has asked
for, each once and in order, and have its optimum. The optimum is
constrained by the extremes of all data. -/
def NormmaxRight (S : SpecialFunctions C) (method : PowerMethod)
    (brent : Optimiser) (ymax : YMax) (data : Fin clients → List ℚ) : Prop :=
  ∃ turns, ∀ fuel, turns ≤ fuel →
    Completes (federated S method brent ymax fuel data) fun v =>
      (∀ i, (v (.client i)).trials = (v .server).trials
        ∧ (v (.client i)).lmax = (v .server).lmax)
      ∧ PassesExtremes ymax (pooled data) (v .server).extremes

/-- The first client has the least of all data, and the second the
greatest. -/
def FirstTwoExtreme (data : Fin clients → List ℚ) : Prop :=
  ∃ h : 1 < clients,
    (npExtremes (data ⟨0, Nat.zero_lt_of_lt h⟩)).1
        = (npExtremes (pooled data)).1
      ∧ (npExtremes (data ⟨1, h⟩)).2 = (npExtremes (pooled data)).2

end PrimiHub.FL.Power
