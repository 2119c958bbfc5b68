/-
The encrypted vertical logistic regression: `CKKS_Host`, `CKKS_Guest` and
`CKKSCoordinator` (vfl_host.py, vfl_guest.py and vfl_coordinator.py in
python/primihub/FL/logistic_regression), with the training loops they are
run from.

A ciphertext allows a limited number of multiplications. After `max_iter`
training steps host and guests send their weights to the coordinator, who
decrypts them, encrypts them anew and sends them back: a refresh. Host and
guests count the steps in `t` one by one; the coordinator takes no part in
a step and computes from the number of steps of a whole epoch how many
refreshes there are in it.

The parties are processes over one queue for each sender, receiver and
tag. What numpy and TenSEAL compute is a parameter, `Arithmetic`, over one
type `V` of arrays, ciphertexts and serialised ciphertexts. The parties
also write down what happens to their model (`Mark`), which is not in the
source and is what the results are about.
-/
import Mathlib.Data.Rat.Floor
import PrimiHub.FL.Loader
import PrimiHub.Lib.Network

namespace PrimiHub.FL.Ckks

open Lib

-- ================================================================ messages

/-- The parties of a task with so many guests. -/
inductive Party (guests : Nat)
  | coordinator
  | host
  | guest (i : Fin guests)
  deriving DecidableEq, Repr

/-- The keys of the messages; the sender's name goes in front. -/
inductive Tag
  | batchSize
  | outputDim
  | multiclass
  | publicContext
  | numExamples
  | hostWeight
  | hostBias
  | guestWeight
  | guestZ
  | error
  | guestRegularLoss
  | loss
  deriving DecidableEq, Repr

/-- The public context: what the parties read from it. -/
structure Context where
  multiplyDepth : Nat
  deriving DecidableEq, Repr

/-- The messages under each key. -/
abbrev Message (V : Type) : Tag → Type
  | .batchSize | .outputDim | .numExamples => Nat
  | .multiclass => Bool
  | .publicContext => Context
  | .hostWeight | .hostBias | .guestWeight | .guestZ | .error
  | .guestRegularLoss | .loss => V

/-- What does not come back: a `for` loop without an end. -/
inductive Raised
  | endlessLoop
  deriving DecidableEq, Repr

variable {guests : Nat} {V α γ : Type}

/-- A party's program. -/
abbrev Action (guests : Nat) (V β : Type) : Type :=
  Peer (Party guests) (Message V) Raised β

/-- `channel.send(key, val)`. -/
def send (dst : Party guests) (tag : Tag) (m : Message V tag) :
    Action guests V Unit :=
  Proc.put (μ := fun port : Party guests × Tag => Message V port.2)
    (dst, tag) m

/-- `channel.recv(key)`. -/
def recv (src : Party guests) (tag : Tag) :
    Action guests V (Message V tag) :=
  Proc.get (μ := fun port : Party guests × Tag => Message V port.2)
    (src, tag)

/-- `self.Clients` of the channel to the guests. -/
def allGuests (guests : Nat) : List (Party guests) :=
  (List.finRange guests).map Party.guest

/-- A `for` loop over a loader comes to its end. -/
def ends {β : Type} : Option β → Except Raised β
  | none => .error .endlessLoop
  | some b => .ok b

-- ================================================================== models

/-- `LogisticRegression_Host_CKKS`. -/
structure HostModel (V : Type) where
  weight : V
  bias : V
  multiclass : Bool
  outputDim : Nat
  alpha : ℚ

/-- `LogisticRegression_Guest_CKKS`. -/
structure GuestModel (V : Type) where
  weight : V
  multiclass : Bool
  outputDim : Nat
  alpha : ℚ

/-- What numpy and TenSEAL compute for the models. -/
structure Arithmetic (V α : Type) where
  encrypt : (multiclass : Bool) → V → V
  decrypt : V → V
  serialize : V → V
  load : (multiclass : Bool) → V → V
  transpose : V → V
  toArray : (multiclass : Bool) → V → V
  sum : List V → V
  zero : V
  hostZeros : (x : List α) → (y : List Nat) → V × V
  computeEncZ : HostModel V → (x : List α) → (guestZ : List V) → V
  computeZ : HostModel V → (x : List α) → (guestZ : List V) → V
  computeError : HostModel V → (y : List Nat) → (z : V) → V
  computeRegularLoss : HostModel V → (guestRegularLoss : V) → V
  loss : HostModel V → (y : List Nat) → (z regularLoss : V) → V
  fit : HostModel V → (x : List α) → (error : V) → V × V
  guestZeros : (x : List α) → (outputDim : Nat) → V
  guestEncZ : GuestModel V → (x : List α) → V
  guestZ : GuestModel V → (x : List α) → V
  guestRegularLoss : GuestModel V → V
  guestFit : GuestModel V → (x : List α) → (error : V) → V

/-- The common parameters of the task. -/
structure Settings where
  epoch : Nat
  printMetrics : Bool
  batchSize : Nat
  alpha : ℚ
  deriving DecidableEq, Repr

/-- What happens to a party's model. -/
inductive Mark
  /-- the model was decrypted and encrypted anew -/
  | refresh
  /-- a training step -/
  | step
  /-- an epoch is over -/
  | epoch (t : Nat)
  /-- the metrics of an epoch are computed -/
  | metrics (t : Nat)
  deriving DecidableEq, Repr

/-- The counter of a party, and what has happened so far. -/
structure Clock where
  t : Nat
  history : List Mark
  deriving DecidableEq, Repr

namespace Clock

/-- Nothing has happened. -/
def zero : Clock := ⟨0, []⟩

/-- `self.t = 0` and the refresh. -/
def refreshed (self : Clock) : Clock := ⟨0, self.history ++ [.refresh]⟩

/-- `self.t += 1` and the training step. -/
def stepped (self : Clock) : Clock := ⟨self.t + 1, self.history ++ [.step]⟩

/-- The end of an epoch. -/
def epochOver (self : Clock) : Clock :=
  { self with history := self.history ++ [.epoch self.t] }

/-- The end of a metrics step. -/
def metricsOver (self : Clock) : Clock :=
  { self with history := self.history ++ [.metrics self.t] }

end Clock

-- ==================================================================== host

/-- `CKKS_Host`. -/
structure Host (V : Type) extends Clock where
  model : HostModel V
  maxIter : Nat

namespace Host

/-- `encrypt_model`. -/
def encryptModel (ops : Arithmetic V α) (self : Host V) : Host V :=
  if self.model.multiclass then
    { self with model := { self.model with
        weight := ops.encrypt true (ops.transpose self.model.weight)
        bias := ops.encrypt true (ops.transpose self.model.bias) } }
  else
    { self with model := { self.model with
        weight := ops.encrypt false self.model.weight
        bias := ops.encrypt false self.model.bias } }

/-- `__init__`. -/
def init (ops : Arithmetic V α) (settings : Settings) (x : List α)
    (y : List Nat) : Action guests V (Host V) := do
  let (weight, bias) := ops.hostZeros x y
  let model : HostModel V :=
    { weight, bias
      multiclass := multiclass y
      outputDim := outputDim y
      alpha := settings.alpha }
  Peer.sendAll Tag.outputDim model.outputDim (allGuests guests)
  send .coordinator .multiclass model.multiclass
  let context ← recv .coordinator .publicContext
  send .coordinator .numExamples x.length
  let multiplyPerIter := 2
  let self : Host V :=
    { toClock := .zero
      model
      maxIter := context.multiplyDepth / multiplyPerIter }
  pure (self.encryptModel ops)

/-- `update_ciphertext_model`. -/
def updateCiphertextModel (ops : Arithmetic V α) (self : Host V) :
    Action guests V (Host V) := do
  send .coordinator .hostWeight (ops.serialize self.model.weight)
  send .coordinator .hostBias (ops.serialize self.model.bias)
  let weight ← recv .coordinator .hostWeight
  let bias ← recv .coordinator .hostBias
  pure { self with model := { self.model with
    weight := ops.load self.model.multiclass weight
    bias := ops.load self.model.multiclass bias } }

/-- `update_plaintext_model`. -/
def updatePlaintextModel (ops : Arithmetic V α) (self : Host V) :
    Action guests V (Host V) := do
  send .coordinator .hostWeight (ops.serialize self.model.weight)
  send .coordinator .hostBias (ops.serialize self.model.bias)
  let weight ← recv .coordinator .hostWeight
  let bias ← recv .coordinator .hostBias
  pure { self with model := { self.model with weight, bias } }

/-- The branch `train` and `compute_metrics` begin with. -/
def refreshIfFull (ops : Arithmetic V α) (self : Host V) :
    Action guests V (Host V) :=
  if self.t ≥ self.maxIter then
    { self with toClock := self.toClock.refreshed }.updateCiphertextModel ops
  else pure self

/-- `compute_enc_z`. -/
def computeEncZ (ops : Arithmetic V α) (self : Host V) (x : List α) :
    Action guests V V := do
  let guestZ ← Peer.recvAll Tag.guestZ (allGuests guests)
  pure (ops.computeEncZ self.model x
    (guestZ.map (ops.load self.model.multiclass)))

/-- `compute_enc_regular_loss`. -/
def computeEncRegularLoss (ops : Arithmetic V α) (self : Host V) :
    Action guests V V :=
  if self.model.alpha ≠ 0 then do
    let guestRegularLoss ← Peer.recvAll Tag.guestRegularLoss
      (allGuests guests)
    pure (ops.computeRegularLoss self.model
      (ops.sum (guestRegularLoss.map (ops.load self.model.multiclass))))
  else pure ops.zero

/-- `train`. -/
def train (ops : Arithmetic V α) (self : Host V) (x : List α)
    (y : List Nat) : Action guests V (Host V) := do
  let self ← self.refreshIfFull ops
  let self := { self with toClock := self.toClock.stepped }
  let z ← self.computeEncZ ops x
  let error := ops.computeError self.model y z
  Peer.sendAll Tag.error (ops.serialize error) (allGuests guests)
  let (weight, bias) := ops.fit self.model x error
  pure { self with model := { self.model with weight, bias } }

/-- `compute_metrics`. -/
def computeMetrics (ops : Arithmetic V α) (self : Host V) (x : List α)
    (y : List Nat) : Action guests V (Host V) := do
  let self ← self.refreshIfFull ops
  let z ← self.computeEncZ ops x
  let regularLoss ← self.computeEncRegularLoss ops
  let loss := ops.loss self.model y z regularLoss
  send .coordinator .loss (ops.serialize loss)
  pure { self with toClock := self.toClock.metricsOver }

/-- `compute_final_metrics`: the loss of the plaintext model. -/
def computeFinalMetrics (ops : Arithmetic V α) (self : Host V)
    (x : List α) (y : List Nat) : Action guests V V := do
  let guestZ ← Peer.recvAll Tag.guestZ (allGuests guests)
  let z := ops.computeZ self.model x guestZ
  if self.model.alpha ≠ 0 then
    let guestRegularLoss ← Peer.recvAll Tag.guestRegularLoss
      (allGuests guests)
    pure (ops.loss self.model y z
      (ops.computeRegularLoss self.model (ops.sum guestRegularLoss)))
  else pure (ops.loss self.model y z ops.zero)

/-- `for batch_x, batch_y in train_dataloader: host.train(...)`. -/
def trainBatches (ops : Arithmetic V α) :
    List (Batch α Nat) → Host V → Action guests V (Host V)
  | [], self => pure self
  | batch :: rest, self => do
      let self ← self.train ops batch.x (batch.y.getD [])
      trainBatches ops rest self

/-- `if self.common_params['print_metrics']: host.compute_metrics(x, y)`. -/
def epochMetrics (ops : Arithmetic V α) (settings : Settings) (x : List α)
    (y : List Nat) (self : Host V) : Action guests V (Host V) :=
  if settings.printMetrics then self.computeMetrics ops x y else pure self

/-- The epochs of the host, `x` and `y` being all its rows. -/
def epochs (ops : Arithmetic V α) (rng : GlobalRng γ) (settings : Settings)
    (x : List α) (y : List Nat) : Nat → Host V → DataLoader α Nat → γ →
      Action guests V (Host V)
  | 0, self, _, _ => pure self
  | count + 1, self, loader, g => do
      let (batches, loader, g) ← Proc.lift (ends (loader.forEach rng g))
      let self ← trainBatches ops batches self
      let self := { self with toClock := self.toClock.epochOver }
      let self ← self.epochMetrics ops settings x y
      epochs ops rng settings x y count self loader
        (hostBetween rng .ckks settings.printMetrics y g)

/-- `LogisticRegressionHost.train` with the method CKKS, on the scaled
table and from the state `g` of the generator after the loader was built.
The result is the host and its final loss. -/
def run (ops : Arithmetic V α) (rng : GlobalRng γ) (settings : Settings)
    (x : List α) (y : List Nat) (g : γ) :
    Action guests V (Host V × V) := do
  let batchSize := min x.length settings.batchSize
  send .coordinator .batchSize batchSize
  let self ← init ops settings x y
  let loader := DataLoader.fresh x (some y) batchSize true
  let self ← epochs ops rng settings x y settings.epoch self loader g
  let self ← self.updatePlaintextModel ops
  let loss ← self.computeFinalMetrics ops x y
  pure (self, loss)

end Host

-- =================================================================== guest

/-- `CKKS_Guest`. -/
structure Guest (V : Type) extends Clock where
  model : GuestModel V
  maxIter : Nat

namespace Guest

/-- `encrypt_model`. -/
def encryptModel (ops : Arithmetic V α) (self : Guest V) : Guest V :=
  { self with model := { self.model with
      weight :=
        if self.model.multiclass then
          ops.encrypt true (ops.transpose self.model.weight)
        else ops.encrypt false self.model.weight } }

/-- `__init__`. -/
def init (ops : Arithmetic V α) (settings : Settings) (x : List α) :
    Action guests V (Guest V) := do
  let outputDim ← recv .host .outputDim
  let model : GuestModel V :=
    { weight := ops.guestZeros x outputDim
      multiclass := 2 < outputDim
      outputDim
      alpha := settings.alpha }
  let context ← recv .coordinator .publicContext
  let multiplyPerIter := 2
  let self : Guest V :=
    { toClock := .zero
      model
      maxIter := context.multiplyDepth / multiplyPerIter }
  pure (self.encryptModel ops)

/-- `update_ciphertext_model`. -/
def updateCiphertextModel (ops : Arithmetic V α) (self : Guest V) :
    Action guests V (Guest V) := do
  send .coordinator .guestWeight (ops.serialize self.model.weight)
  let weight ← recv .coordinator .guestWeight
  pure { self with model := { self.model with
    weight := ops.load self.model.multiclass weight } }

/-- `update_plaintext_model`. -/
def updatePlaintextModel (ops : Arithmetic V α) (self : Guest V) :
    Action guests V (Guest V) := do
  send .coordinator .guestWeight (ops.serialize self.model.weight)
  let weight ← recv .coordinator .guestWeight
  pure { self with model := { self.model with weight } }

/-- The branch `train` and `compute_metrics` begin with. -/
def refreshIfFull (ops : Arithmetic V α) (self : Guest V) :
    Action guests V (Guest V) :=
  if self.t ≥ self.maxIter then
    { self with toClock := self.toClock.refreshed }.updateCiphertextModel ops
  else pure self

/-- `train`. -/
def train (ops : Arithmetic V α) (self : Guest V) (x : List α) :
    Action guests V (Guest V) := do
  let self ← self.refreshIfFull ops
  let self := { self with toClock := self.toClock.stepped }
  send .host .guestZ (ops.serialize (ops.guestEncZ self.model x))
  let error ← recv .host .error
  pure { self with model := { self.model with
    weight := ops.guestFit self.model x
      (ops.load self.model.multiclass error) } }

/-- `send_enc_regular_loss`. -/
def sendEncRegularLoss (ops : Arithmetic V α) (self : Guest V) :
    Action guests V Unit :=
  if self.model.alpha ≠ 0 then
    send .host .guestRegularLoss
      (ops.serialize (ops.guestRegularLoss self.model))
  else pure ()

/-- `compute_metrics`. -/
def computeMetrics (ops : Arithmetic V α) (self : Guest V) (x : List α) :
    Action guests V (Guest V) := do
  let self ← self.refreshIfFull ops
  send .host .guestZ (ops.serialize (ops.guestEncZ self.model x))
  self.sendEncRegularLoss ops
  pure { self with toClock := self.toClock.metricsOver }

/-- `compute_final_metrics`. -/
def computeFinalMetrics (ops : Arithmetic V α) (self : Guest V)
    (x : List α) : Action guests V Unit := do
  send .host .guestZ (ops.guestZ self.model x)
  if self.model.alpha ≠ 0 then
    send .host .guestRegularLoss (ops.guestRegularLoss self.model)
  else pure ()

/-- `for batch_x in train_dataloader: guest.train(batch_x)`. -/
def trainBatches (ops : Arithmetic V α) :
    List (Batch α Nat) → Guest V → Action guests V (Guest V)
  | [], self => pure self
  | batch :: rest, self => do
      let self ← self.train ops batch.x
      trainBatches ops rest self

/-- `if self.common_params['print_metrics']: guest.compute_metrics(x)`. -/
def epochMetrics (ops : Arithmetic V α) (settings : Settings) (x : List α)
    (self : Guest V) : Action guests V (Guest V) :=
  if settings.printMetrics then self.computeMetrics ops x else pure self

/-- The epochs of a guest. -/
def epochs (ops : Arithmetic V α) (rng : GlobalRng γ) (settings : Settings)
    (x : List α) : Nat → Guest V → DataLoader α Nat → γ →
      Action guests V (Guest V)
  | 0, self, _, _ => pure self
  | count + 1, self, loader, g => do
      let (batches, loader, g) ← Proc.lift (ends (loader.forEach rng g))
      let self ← trainBatches ops batches self
      let self := { self with toClock := self.toClock.epochOver }
      let self ← self.epochMetrics ops settings x
      epochs ops rng settings x count self loader g

/-- `LogisticRegressionGuest.train` with the method CKKS. -/
def run (ops : Arithmetic V α) (rng : GlobalRng γ) (settings : Settings)
    (x : List α) (g : γ) : Action guests V (Guest V) := do
  let batchSize := min x.length settings.batchSize
  let self ← init ops settings x
  let loader := DataLoader.fresh x none batchSize true
  let self ← epochs ops rng settings x settings.epoch self loader g
  let self ← self.updatePlaintextModel ops
  self.computeFinalMetrics ops x
  pure self

end Guest

-- ============================================================= coordinator

/-- `CKKSCoordinator`. -/
structure Coordinator extends Clock where
  multiclass : Bool
  maxIter : Nat
  iterPerEpoch : Nat
  deriving DecidableEq, Repr

namespace Coordinator

/-- `__init__`; the source sets `max_iter` to 1. The quotient is that of
two floats, whose ceiling is the exact one for as many rows as a table can
have. -/
def init (maxIter batchSize : Nat) : Action guests V Coordinator := do
  let multiclass ← recv .host .multiclass
  let multiplyPerIter := 2
  let context : Context := ⟨multiplyPerIter * maxIter⟩
  send .host .publicContext context
  Peer.sendAll Tag.publicContext context (allGuests guests)
  let numExamples ← recv .host .numExamples
  pure
    { toClock := .zero
      multiclass
      maxIter
      iterPerEpoch := ⌈(numExamples : ℚ) / (batchSize : ℚ)⌉₊ }

/-- `recv_model`, the change of each part by `f`, and `send_model`. -/
def updateModel (f : V → V) : Action guests V Unit := do
  let hostWeight ← recv .host .hostWeight
  let hostBias ← recv .host .hostBias
  let guestWeight ← Peer.recvAll Tag.guestWeight (allGuests guests)
  send .host .hostWeight (f hostWeight)
  send .host .hostBias (f hostBias)
  Peer.sendSeparately Tag.guestWeight
    ((allGuests guests).zip (guestWeight.map f))

/-- `update_ciphertext_model`. -/
def updateCiphertextModel (ops : Arithmetic V α) (self : Coordinator) :
    Action guests V Unit :=
  updateModel fun v => ops.serialize (ops.encrypt self.multiclass
    (ops.decrypt (ops.load self.multiclass v)))

/-- `update_plaintext_model`. -/
def updatePlaintextModel (ops : Arithmetic V α) (self : Coordinator) :
    Action guests V Unit :=
  updateModel fun v => ops.toArray self.multiclass
    (ops.decrypt (ops.load self.multiclass v))

/-- `for i in range(num_dec): self.update_ciphertext_model()`. -/
def decryptLoop (ops : Arithmetic V α) :
    Nat → Coordinator → Action guests V Coordinator
  | 0, self => pure self
  | count + 1, self => do
      self.updateCiphertextModel ops
      decryptLoop ops count
        { self with history := self.history ++ [.refresh] }

/-- `train`. -/
def train (ops : Arithmetic V α) (self : Coordinator) :
    Action guests V Coordinator :=
  let t := self.t + self.iterPerEpoch
  let numDec := t / self.maxIter
  let t := t % self.maxIter
  if t = 0 then
    decryptLoop ops (numDec - 1) { self with t := self.maxIter }
  else decryptLoop ops numDec { self with t }

/-- The branch `compute_loss` begins with. -/
def refreshIfFull (ops : Arithmetic V α) (self : Coordinator) :
    Action guests V Coordinator :=
  if self.t ≥ self.maxIter then do
    self.updateCiphertextModel ops
    pure { self with toClock := self.toClock.refreshed }
  else pure self

/-- `compute_loss`; the loss is logged. -/
def computeLoss (ops : Arithmetic V α) (self : Coordinator) :
    Action guests V (Coordinator × V) := do
  let self ← self.refreshIfFull ops
  let loss ← recv .host .loss
  pure ({ self with toClock := self.toClock.metricsOver },
    ops.decrypt (ops.load self.multiclass loss))

/-- `if self.common_params['print_metrics']: coordinator.compute_loss()`. -/
def epochMetrics (ops : Arithmetic V α) (settings : Settings)
    (self : Coordinator) : Action guests V Coordinator :=
  if settings.printMetrics then Prod.fst <$> self.computeLoss ops
  else pure self

/-- The epochs of the coordinator. -/
def epochs (ops : Arithmetic V α) (settings : Settings) :
    Nat → Coordinator → Action guests V Coordinator
  | 0, self => pure self
  | count + 1, self => do
      let self ← self.train ops
      let self := { self with toClock := self.toClock.epochOver }
      let self ← self.epochMetrics ops settings
      epochs ops settings count self

/-- `LogisticRegressionCoordinator.train`. -/
def run (ops : Arithmetic V α) (settings : Settings) (maxIter : Nat) :
    Action guests V Coordinator := do
  let batchSize ← recv .host .batchSize
  let self ← init maxIter batchSize
  let self ← epochs ops settings settings.epoch self
  self.updatePlaintextModel ops
  pure self

end Coordinator

-- ================================================================ the task

/-- What each party returns. -/
abbrev Result (guests : Nat) (V : Type) : Party guests → Type
  | .coordinator => Coordinator
  | .host => Host V × V
  | .guest _ => Guest V

/-- All parties of a task. -/
def parties (ops : Arithmetic V α) (rng : GlobalRng γ) (settings : Settings)
    (maxIter : Nat) (hostX : List α) (hostY : List Nat)
    (guestX : Fin guests → List α) (states : Party guests → γ) :
    (i : Party guests) → Action guests V (Result guests V i)
  | .coordinator => Coordinator.run ops settings maxIter
  | .host => Host.run ops rng settings hostX hostY (states .host)
  | .guest i => Guest.run ops rng settings (guestX i) (states (.guest i))

/-- The marks of a history without the training steps, in which the
coordinator takes no part. -/
def rounds (history : List Mark) : List Mark :=
  history.filter fun mark => mark ≠ .step

/-- Between two refreshes the model is used for at most so many steps. -/
def FreshModel (maxIter : Nat) (history : List Mark) : Prop :=
  ∀ part, part <:+: history → .refresh ∉ part →
    part.count .step ≤ maxIter

/-- The parties agree on the counter after every epoch and every metrics
step and on the refreshes before, and no model is used for too many
steps. -/
structure InStep (maxIter : Nat) (v : (i : Party guests) →
    Result guests V i) : Prop where
  host : rounds (v .host).1.history = (v .coordinator).history
  guest : ∀ i, rounds (v (.guest i)).history = (v .coordinator).history
  hostCounter : (v .host).1.t = (v .coordinator).t
  guestCounter : ∀ i, (v (.guest i)).t = (v .coordinator).t
  hostFresh : FreshModel maxIter (v .host).1.history
  guestFresh : ∀ i, FreshModel maxIter (v (.guest i)).history

end PrimiHub.FL.Ckks
