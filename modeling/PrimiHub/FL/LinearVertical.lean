/-
Vertical linear regression with the method Plaintext (FL/linear_regression:
vfl_base.py, vfl_host.py, vfl_guest.py), from the tables of features to the
models. `check_array` looks at the shape of a table alone, which the scaler
leaves as it is, so the tables here are the scaled ones throughout.

The host has the labels and some features, each guest has other features
of the same rows. In a step the guests send what their features add to the
predictions, the host sends back the errors, and everyone moves its own
weights.

The arithmetic is exact. Host and guests seed their loaders with the
`shuffle_seed` of the task; a table is a list of rows.
-/
import Mathlib.Data.Fintype.Card
import PrimiHub.FL.Linear

namespace PrimiHub.FL.LinearVertical

open Lib Linear

variable {guests : Nat} {ι K γ : Type}

-- ================================================================ messages

/-- The parties of a task with so many guests: the host talks to every
guest, as a server does to its clients, and the guests to nobody else. -/
abbrev Party (guests : Nat) : Type := Horizontal.Party guests

namespace Party

/-- The host. -/
@[match_pattern]
abbrev host : Party guests := Horizontal.Party.server

/-- A guest. -/
@[match_pattern]
abbrev guest (i : Fin guests) : Party guests := Horizontal.Party.client i

end Party

/-- The keys of the messages; the sender's name goes in front. -/
inductive Tag
  | guestZ
  | error
  deriving DecidableEq, Repr

/-- The messages under each key. -/
abbrev Message (K : Type) : Tag → Type
  | .guestZ | .error => List K

/-- What is raised, and a loop that does not end. -/
inductive Raised
  | valueError
  | endlessLoop
  deriving DecidableEq, Repr

/-- A party's program. -/
abbrev Action (guests : Nat) (K β : Type) : Type :=
  Peer (Party guests) (Message K) Raised β

/-- `channel.send(key, val)`. -/
def send (dst : Party guests) (tag : Tag) (m : Message K tag) :
    Action guests K Unit :=
  Proc.put (μ := fun port : Party guests × Tag => Message K port.2)
    (dst, tag) m

/-- `channel.recv(key)`. -/
def recv (src : Party guests) (tag : Tag) :
    Action guests K (Message K tag) :=
  Proc.get (μ := fun port : Party guests × Tag => Message K port.2)
    (src, tag)

/-- `self.Clients` of the host's channel. -/
def allGuests (guests : Nat) : List (Party guests) :=
  Horizontal.allClients guests

/-- The common parameters of a task. -/
structure Settings (K : Type) where
  learningRate : K
  alpha : K
  batchSize : Nat
  epoch : Nat
  shuffleSeed : Int
  printMetrics : Bool

/-- The loader of a party, in a process whose generator is in some
state. -/
def makeLoader {α β : Type} (rng : GlobalRng γ) (settings : Settings K)
    (x : List α) (y : Option (List β)) (state : γ) :
    Except Raised (DataLoader α β × γ) :=
  (DataLoader.init rng x y (min x.length settings.batchSize) true
    (some settings.shuffleSeed) state).mapError fun _ => .valueError

/-- A `for` loop over a loader comes to its end. -/
def ends {β : Type} : Option β → Except Raised β
  | none => .error .endlessLoop
  | some b => .ok b

/-- `check_array`: a table must have a row and a feature. -/
def checkArray [Fintype ι] (x : List (ι → K)) : Except Raised Unit :=
  if x.length = 0 ∨ Fintype.card ι = 0 then .error .valueError else .ok ()

-- ==================================================================== host

section Models

variable [Field K]

/-- `z += np.array(guest_z).sum(axis=0)`: the arrays must have one
length. -/
def addGuestZ (z : List K) (guestZ : List (List K)) :
    Except Raised (List K) :=
  if ∀ g ∈ guestZ, g.length = z.length then
    .ok (z.mapIdx fun k v => v + (guestZ.map fun g => g.getD k 0).sum)
  else .error .valueError

variable [Fintype ι]

/-- `compute_z` of `LinearRegression_Host_Plaintext`. -/
def hostZ (self : LinearRegression ι K) (x : List (ι → K))
    (guestZ : List (List K)) : Except Raised (List K) :=
  addGuestZ (self.predict x) guestZ

/-- `compute_error` of `LinearRegression_Host_Plaintext`. -/
def hostError (y z : List K) : List K := List.zipWith (· - ·) z y

end Models

namespace Host

variable [Field K] [Fintype ι]

/-- `compute_z` of `Plaintext_Host`. -/
def computeZ (self : LinearRegression ι K) (x : List (ι → K)) :
    Action guests K (List K) := do
  let guestZ ← Peer.recvAll Tag.guestZ (allGuests guests)
  Proc.lift (hostZ self x guestZ)

/-- `train` of `Plaintext_Host`. -/
def train (self : LinearRegression ι K) (x : List (ι → K)) (y : List K) :
    Action guests K (LinearRegression ι K) := do
  let z ← computeZ self x
  let error := hostError y z
  Peer.sendAll Tag.error error (allGuests guests)
  pure (self.descend x error)

/-- `for batch_x, batch_y in train_dataloader: host.train(...)`. -/
def trainBatches : List (Batch (ι → K) K) → LinearRegression ι K →
    Action guests K (LinearRegression ι K)
  | [], self => pure self
  | batch :: rest, self => do
      let self ← train self batch.x (batch.y.getD [])
      trainBatches rest self

/-- `if self.common_params['print_metrics']: host.compute_metrics(x, y)`,
whose predictions are only logged. -/
def epochMetrics (settings : Settings K) (self : LinearRegression ι K)
    (x : List (ι → K)) : Action guests K Unit :=
  if settings.printMetrics then do
    let _ ← (computeZ self x : Action guests K (List K))
    pure ()
  else pure ()

/-- The epochs of the host. -/
def epochs (rng : GlobalRng γ) (settings : Settings K) (x : List (ι → K)) :
    Nat → LinearRegression ι K → DataLoader (ι → K) K → γ →
      Action guests K (LinearRegression ι K)
  | 0, self, _, _ => pure self
  | count + 1, self, loader, state => do
      let (batches, loader, state) ←
        Proc.lift (ends (loader.forEach rng state))
      let self ← trainBatches batches self
      epochMetrics settings self x
      epochs rng settings x count self loader state

/-- `LinearRegressionHost.train`: the model that is saved and the
predictions that the saved metrics are about. -/
def run (rng : GlobalRng γ) (settings : Settings K) (x : List (ι → K))
    (y : List K) (state : γ) :
    Action guests K (LinearRegression ι K × List K) := do
  Proc.lift (checkArray x)
  let model := LinearRegression.init settings.learningRate settings.alpha
  let (loader, state) ← Proc.lift (makeLoader rng settings x (some y) state)
  let self ← epochs rng settings x settings.epoch model loader state
  let yPred ← computeZ self x
  pure (self, yPred)

end Host

-- =================================================================== guest

/-- `LinearRegression_Guest_Plaintext`. -/
structure GuestModel (ι K : Type) where
  learningRate : K
  alpha : K
  weight : ι → K

namespace Guest

variable [Field K]

/-- `fit` of `LinearRegression_Guest_Plaintext`. -/
def fit (self : GuestModel ι K) (x : List (ι → K)) (error : List K) :
    GuestModel ι K :=
  { self with weight := fun j => self.weight j - self.learningRate
      * LinearRegression.weightGrad self.alpha self.weight x error j }

variable [Fintype ι]

/-- `compute_z` of `LinearRegression_Guest_Plaintext`. -/
def computeZ (self : GuestModel ι K) (x : List (ι → K)) : List K :=
  x.map fun row => ∑ j, row j * self.weight j

/-- `send_z`. -/
def sendZ (self : GuestModel ι K) (x : List (ι → K)) :
    Action guests K Unit :=
  send .host .guestZ (computeZ self x)

/-- `train` of `Plaintext_Guest`. -/
def train (self : GuestModel ι K) (x : List (ι → K)) :
    Action guests K (GuestModel ι K) := do
  sendZ self x
  let error ← recv .host .error
  pure (fit self x error)

/-- `for batch_x in train_dataloader: guest.train(batch_x)`. -/
def trainBatches : List (Batch (ι → K) K) → GuestModel ι K →
    Action guests K (GuestModel ι K)
  | [], self => pure self
  | batch :: rest, self => do
      let self ← train self batch.x
      trainBatches rest self

/-- `if self.common_params['print_metrics']: guest.compute_metrics(x)`. -/
def epochMetrics (settings : Settings K) (self : GuestModel ι K)
    (x : List (ι → K)) : Action guests K Unit :=
  if settings.printMetrics then sendZ self x else pure ()

/-- The epochs of a guest. -/
def epochs (rng : GlobalRng γ) (settings : Settings K) (x : List (ι → K)) :
    Nat → GuestModel ι K → DataLoader (ι → K) K → γ →
      Action guests K (GuestModel ι K)
  | 0, self, _, _ => pure self
  | count + 1, self, loader, state => do
      let (batches, loader, state) ←
        Proc.lift (ends (loader.forEach rng state))
      let self ← trainBatches batches self
      epochMetrics settings self x
      epochs rng settings x count self loader state

/-- `LinearRegressionGuest.train`. -/
def run (rng : GlobalRng γ) (settings : Settings K) (x : List (ι → K))
    (state : γ) : Action guests K (GuestModel ι K) := do
  Proc.lift (checkArray x)
  let model : GuestModel ι K :=
    ⟨settings.learningRate, settings.alpha, fun _ => 0⟩
  let (loader, state) ← Proc.lift (makeLoader rng settings x none state)
  let self ← epochs rng settings x settings.epoch model loader state
  sendZ self x
  pure self

end Guest

-- ================================================================ the task

/-- A row of the table that nobody has: what host and guests have of one
sample, and its label. -/
structure Sample (hostDim : Nat) (guestDim : Fin guests → Nat)
    (K : Type) where
  host : Fin hostDim → K
  guest : (i : Fin guests) → Fin (guestDim i) → K
  y : K

variable {hostDim : Nat} {guestDim : Fin guests → Nat}

/-- What the parties return. -/
abbrev Result (hostDim : Nat) (guestDim : Fin guests → Nat) (K : Type) :
    Party guests → Type
  | .host => LinearRegression (Fin hostDim) K × List K
  | .guest i => GuestModel (Fin (guestDim i)) K

/-- All parties of a task on aligned tables, their generators in any
states. -/
def parties [Field K] (rng : GlobalRng γ) (settings : Settings K)
    (samples : List (Sample hostDim guestDim K))
    (states : Party guests → γ) :
    (p : Party guests) → Action guests K (Result hostDim guestDim K p)
  | .host => Host.run rng settings (samples.map Sample.host)
      (samples.map Sample.y) (states .host)
  | .guest i => Guest.run rng settings (samples.map fun s => s.guest i)
      (states (.guest i))

end PrimiHub.FL.LinearVertical
