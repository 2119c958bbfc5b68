/-
`DataLoader` (python/primihub/FL/utils/dataset.py): the batches of a
party's rows, shuffled anew in every epoch, and what host and guest of the
vertical logistic regression get from it.

`np.random.shuffle` and `np.random.seed` work on the one generator of the
process, whatever has used it before; a `GlobalRng` is what numpy is
assumed to do with its states. The loader is its own iterator: `start`
says where it is in the epoch, `next` raises `StopIteration` at the end
and puts `start` back to 0. A `for` loop over it is `forEach`.

The generator is not the loader's alone: between two epochs the host may
compute its metrics, and the encrypted loss of more than two classes adds
noise from the same generator (`hostBetween`); the guest draws nothing.
-/
import Mathlib.Algebra.Ring.Int.Defs
import PrimiHub.Lib.Slices

namespace PrimiHub.FL

open Lib

/-- numpy's global generator, with states `γ`: a seed determines the
state, a shuffle rearranges the list and moves the state on, and so does
the drawing of `count` normal values. -/
structure GlobalRng (γ : Type) where
  seed : Nat → γ
  shuffle : γ → List Nat → List Nat × γ
  normal : γ → (count : Nat) → γ
  shuffle_perm : ∀ (g : γ) (xs : List Nat), (shuffle g xs).1.Perm xs

/-- "Seed must be between 0 and 2**32 - 1" -/
structure SeedError where
  deriving DecidableEq, Repr

/-- `np.random.seed`. -/
def GlobalRng.npRandomSeed {γ : Type} (rng : GlobalRng γ) (seed : Int) :
    Except SeedError γ :=
  if 0 ≤ seed ∧ seed < 2 ^ 32 then .ok (rng.seed seed.toNat)
  else .error ⟨⟩

/-- A batch: the row numbers, and the rows and labels at them. -/
structure Batch (α β : Type) where
  idx : List Nat
  x : List α
  y : Option (List β)
  deriving DecidableEq, Repr

/-- The loader of a party. -/
structure DataLoader (α β : Type) where
  dataset : List α
  label : Option (List β)
  batchSize : Nat
  shuffle : Bool
  nSamples : Nat
  indices : List Nat
  start : Nat
  deriving DecidableEq, Repr

/-- `rows[batch_idx]`. -/
def rowsAt {α : Type} (rows : List α) (idx : List Nat) : List α :=
  idx.filterMap fun i => rows[i]?

namespace DataLoader

variable {α β γ : Type}

/-- The loader that `__init__` builds. -/
def fresh (dataset : List α) (label : Option (List β)) (batchSize : Nat)
    (shuffle : Bool) : DataLoader α β :=
  { dataset, label, batchSize, shuffle
    nSamples := dataset.length
    indices := List.range dataset.length
    start := 0 }

/-- `__init__`, in a process whose generator is in the state `g`. -/
def init (rng : GlobalRng γ) (dataset : List α) (label : Option (List β))
    (batchSize : Nat) (shuffle : Bool) (seed : Option Int) (g : γ) :
    Except SeedError (DataLoader α β × γ) :=
  let self := fresh dataset label batchSize shuffle
  match seed with
  | none => pure (self, g)
  | some seed =>
      -- the truth value of an integer: the seed 0 is no seed
      if seed = 0 then pure (self, g)
      else (rng.npRandomSeed seed).map fun g => (self, g)

/-- `self.dataset[batch_idx]`, with the labels when there are some. -/
def getBatch (self : DataLoader α β) (idx : List Nat) : Batch α β :=
  { idx
    x := rowsAt self.dataset idx
    y := self.label.map fun label => rowsAt label idx }

/-- The shuffle at the start of an epoch. -/
def shuffled (rng : GlobalRng γ) (self : DataLoader α β) (g : γ) :
    DataLoader α β × γ :=
  if self.start = 0 then
    if self.shuffle then
      ({ self with indices := (rng.shuffle g self.indices).1 },
        (rng.shuffle g self.indices).2)
    else (self, g)
  else (self, g)

/-- The rest of `__next__`; `none` is `StopIteration`. -/
def advance (self : DataLoader α β) :
    Option (Batch α β) × DataLoader α β :=
  let start := self.start
  let stop := if start + self.batchSize > self.nSamples then self.nSamples
    else start + self.batchSize
  if start < self.nSamples then
    (some (self.getBatch ((self.indices.drop start).take (stop - start))),
      { self with start := start + self.batchSize })
  else (none, { self with start := 0 })

/-- `__next__`. -/
def next (rng : GlobalRng γ) (self : DataLoader α β) (g : γ) :
    Option (Batch α β) × DataLoader α β × γ :=
  let (self, g) := self.shuffled rng g
  let (batch, self) := self.advance
  (batch, self, g)

/-- `for batch in self`, of at most `fuel` turns. -/
def loop (rng : GlobalRng γ) : Nat → DataLoader α β → γ →
    Option (List (Batch α β) × DataLoader α β × γ)
  | 0, _, _ => none
  | fuel + 1, self, g =>
      match self.next rng g with
      | (none, self, g) => some ([], self, g)
      | (some batch, self, g) =>
          match loop rng fuel self g with
          | none => none
          | some (rest, self, g) => some (batch :: rest, self, g)

/-- The batches of one epoch; a loop that goes on for more turns than
there are rows does not end. -/
def forEach (rng : GlobalRng γ) (self : DataLoader α β) (g : γ) :
    Option (List (Batch α β) × DataLoader α β × γ) :=
  loop rng (self.nSamples + 1) self g

/-- The batches of `count` epochs; `between` is what the party does with
the generator after an epoch. -/
def epochs (rng : GlobalRng γ) (between : γ → γ) :
    Nat → DataLoader α β → γ → Option (List (List (Batch α β)))
  | 0, _, _ => some []
  | count + 1, self, g =>
      match self.forEach rng g with
      | none => none
      | some (batches, self, g) =>
          match epochs rng between count self (between g) with
          | none => none
          | some rest => some (batches :: rest)

end DataLoader

-- ============================================================= the parties

/-- The methods of the vertical logistic regression. -/
inductive Method
  | plaintext
  | ckks
  deriving DecidableEq, Repr

/-- `max(y)`. -/
def maxLabel (y : List Nat) : Nat := y.foldl max 0

/-- `self.multiclass` of the host's model. -/
def multiclass (y : List Nat) : Bool := maxLabel y ≠ 1

/-- `self.output_dim` of the host's model. -/
def outputDim (y : List Nat) : Nat :=
  if multiclass y then maxLabel y + 1 else 1

/-- The host computes metrics with the encrypted loss of several classes,
`CELoss`, which adds noise to the labels. -/
def Noisy (method : Method) (printMetrics : Bool) (y : List Nat) : Prop :=
  printMetrics = true ∧ method = .ckks ∧ multiclass y = true

instance (method : Method) (printMetrics : Bool) (y : List Nat) :
    Decidable (Noisy method printMetrics y) :=
  inferInstanceAs (Decidable (_ ∧ _ ∧ _))

/-- What the host does with the generator after an epoch:
`np.random.normal(0, 1e-4, (self.output_dim, y.shape[0]))` where the loss
is `Noisy`. -/
def hostBetween {γ : Type} (rng : GlobalRng γ) (method : Method)
    (printMetrics : Bool) (y : List Nat) (g : γ) : γ :=
  if Noisy method printMetrics y then rng.normal g (outputDim y * y.length)
  else g

section Specification

variable {α β γ : Type}

/-- The `count`-th list, when a list is shuffled in place in every epoch
from the state `g` on. -/
def GlobalRng.inEpoch (rng : GlobalRng γ) (between : γ → γ) (g : γ)
    (xs : List Nat) : Nat → List Nat
  | 0 => (rng.shuffle g xs).1
  | count + 1 =>
      rng.inEpoch between (between (rng.shuffle g xs).2)
        (rng.shuffle g xs).1 count

/-- The host's state, with what it does between the epochs, and the
guest's shuffle the numbers below `n` alike in every epoch. -/
def GlobalRng.Alike (rng : GlobalRng γ) (between : γ → γ) (n : Nat)
    (hostState guestState : γ) : Prop :=
  ∀ epoch, rng.inEpoch between hostState (List.range n) epoch
    = rng.inEpoch id guestState (List.range n) epoch

/-- What a shuffle does depends on the state: two rows can come out in
two orders. -/
def GlobalRng.Varied (rng : GlobalRng γ) : Prop :=
  ∀ n, 2 ≤ n → ∃ g₁ g₂, (rng.shuffle g₁ (List.range n)).1
    ≠ (rng.shuffle g₂ (List.range n)).1

/-- The batches of one epoch cover the rows: the rounded-up number of
non-empty, disjoint lists, with every row number once. -/
structure Covers (n batchSize : Nat) (batches : List (List Nat)) :
    Prop where
  count : batches.length = ceilDiv n batchSize
  nonempty : ∀ batch ∈ batches, batch ≠ []
  disjoint : batches.Pairwise List.Disjoint
  once : batches.flatten.Perm (List.range n)

/-- The row numbers of the batches, epoch by epoch. -/
def rowNumbers (epochs : List (List (Batch α β))) :
    List (List (List Nat)) :=
  epochs.map fun batches => batches.map Batch.idx

/-- The state of the generator after a loader was built. -/
def GlobalRng.seeded (rng : GlobalRng γ) (seed : Int) (g : γ) : γ :=
  if seed = 0 then g else rng.seed seed.toNat

/-- A host with labels and a guest without, each in its own process, get
the same batches in every epoch, and each epoch covers the rows. -/
def SameBatches {α' : Type} (rng : GlobalRng γ) (method : Method)
    (printMetrics : Bool) (hostX : List α) (hostY : List Nat)
    (guestX : List α') (batchSize : Nat) (seed : Int)
    (hostState guestState : γ) : Prop :=
  ∃ (host : DataLoader α Nat × γ) (guest : DataLoader α' Nat × γ),
    DataLoader.init rng hostX (some hostY) batchSize true (some seed)
        hostState = .ok host
    ∧ DataLoader.init rng guestX none batchSize true (some seed)
        guestState = .ok guest
    ∧ ∀ count, ∃ hostEpochs guestEpochs,
        host.1.epochs rng (hostBetween rng method printMetrics hostY) count
            host.2 = some hostEpochs
        ∧ guest.1.epochs rng id count guest.2 = some guestEpochs
        ∧ rowNumbers hostEpochs = rowNumbers guestEpochs
        ∧ (∀ batches ∈ rowNumbers hostEpochs,
            Covers hostX.length batchSize batches)
        ∧ ∀ batches ∈ rowNumbers guestEpochs,
            Covers guestX.length batchSize batches

end Specification

end PrimiHub.FL
