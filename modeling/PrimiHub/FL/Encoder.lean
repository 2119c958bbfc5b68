/-
The horizontal fit of the encoders: `_BaseEncoder._Hfit` and
`_infrequent_mappings` (preprocessing/encoder.py in
python/primihub/FL) with the frequent-items functions of sketch/fi.py and
`items_union` of stats/union.py, for categories that are learned
(`categories='auto'`).

The clients send their categories and get back the union. To find the
infrequent ones each client sends a sketch of its counts: of all of them if
`max_categories` is set, and only of those below the threshold otherwise.
The server adds the sketches, takes the frequent items from the sum and
sends the indices of the others.

The sketch is exact: it holds the items that were put in with the sums of
their weights. What its library does beyond that, the order of items with
one count and whether a threshold may be a float, is a parameter. An entry
of a table is a category, or `none` where it is missing.

A fraction for `min_frequency` is a double, and its product with the number
of samples rounds, in scikit-learn's fit on all rows too. The tables have
fewer than 2^53 rows, so the threshold less one is exact.
-/
import Mathlib.Algebra.GroupWithZero.Nat
import Mathlib.Algebra.Order.Ring.Rat
import Mathlib.Data.List.ReduceOption
import PrimiHub.FL.Horizontal
import PrimiHub.Lib.Binary64
import PrimiHub.Lib.Tally
import PrimiHub.Lib.Traverse

namespace PrimiHub.FL.Encoder

open Lib Horizontal

-- ============================================================== parameters

/-- `min_frequency`, as the parameter validation admits it. -/
inductive MinFrequency
  | count (n : Nat) (h : 1 ≤ n)
  | fraction (q : ℚ) (h : 0 < q ∧ q < 1 ∧ roundToDouble q = q)
  deriving DecidableEq, Repr

/-- `min_frequency *= n_samples`, of a float. -/
def timesSamples (q : ℚ) (nSamples : Nat) : ℚ :=
  roundToDouble (q * castDouble nSamples)

/-- The settings of the fit: `ignoreMissing` is
`ignore_missing_for_infrequent`, false for `OneHotEncoder` and true for
`OrdinalEncoder`. -/
structure Settings where
  minFrequency : Option MinFrequency
  maxCategories : Option {m : Nat // 1 ≤ m}
  ignoreMissing : Bool
  deriving DecidableEq, Repr

namespace Settings

/-- `infrequent_enabled`. -/
def infrequentEnabled (self : Settings) : Bool :=
  self.maxCategories.any (1 ≤ ·.1) || self.minFrequency.isSome

/-- `isinstance(min_frequency, RealNotInt)`. -/
def isFraction (self : Settings) : Bool :=
  match self.minFrequency with
  | some (.fraction _ _) => true
  | _ => false

end Settings

/-- The frequent-items library, the sketches being exact: the order of the
items it returns, by falling counts, and whether it takes a float for the
threshold, which it declares as an integer. -/
structure SketchLib (κ : Type) where
  order : List (κ × Nat) → List (κ × Nat)
  perm : ∀ rows, (order rows).Perm rows
  sorted : ∀ rows, (order rows).Pairwise fun a b => b.2 ≤ a.2
  takesFloat : Bool

/-- A number of Python. -/
structure Number where
  value : ℚ
  isFloat : Bool
  deriving DecidableEq, Repr

/-- What is raised. -/
inductive Raised
  | noSamples
  | noFeatures
  | indexError
  | typeError
  | valueError
  deriving DecidableEq, Repr

-- ============================================================== categories

/-- A table with `d` columns: its rows. -/
abbrev Table (d : Nat) (β : Type) := List (Fin d → Option β)

variable {clients d : Nat} {β : Type} [LinearOrder β]

/-- A column of a table. -/
def column (X : Table d β) (j : Fin d) : List (Option β) := X.map (· j)

/-- The values that occur, each once and in order. -/
def values (xs : List (Option β)) : List β :=
  xs.reduceOption.dedup.mergeSort fun a b => decide (a ≤ b)

/-- `_unique`: the values that occur, in order, nan at the end. -/
def unique (xs : List (Option β)) : List (Option β) :=
  (values xs).map some ++ if none ∈ xs then [none] else []

/-- The index of nan, if it is the last of the categories. -/
def missingIndex (categories : List (Option β)) : Option Nat :=
  if categories.getLast? = some none then some (categories.length - 1)
  else none

/-- What `_fit` of scikit-learn finds in a table. -/
structure FitResults (d : Nat) (β : Type) where
  categories : Fin d → List (Option β)
  categoryCounts : Fin d → List Nat
  nSamples : Nat
  missingIndices : Fin d → Option Nat

/-- The categories with their counts. -/
def fitted (X : Table d β) : FitResults d β where
  categories j := unique (column X j)
  categoryCounts j := (unique (column X j)).map (column X j).count
  nSamples := X.length
  missingIndices j := missingIndex (unique (column X j))

/-- `_fit`, with the checks of the table. -/
def fit (X : Table d β) : Except Raised (FitResults d β) :=
  if X = [] then .error .noSamples
  else if d = 0 then .error .noFeatures
  else .ok (fitted X)

/-- `items_union`. -/
def itemsUnion :
    List (Fin d → List (Option β)) →
      Except Raised (Fin d → List (Option β))
  | [] => .error .indexError
  | first :: rest =>
      .ok fun j => unique ((first :: rest).flatMap (· j))

-- ================================================================= sketches

/-- A sketch for each column. -/
abbrev Sketches (d : Nat) (β : Type) := Fin d → Tally (Option β)

/-- The categories with their counts, without nan. -/
def removeMissing (results : FitResults d β) (j : Fin d) :
    List (Option β × Nat) :=
  match results.missingIndices j with
  | none => (results.categories j).zip (results.categoryCounts j)
  | some missingIdx =>
      ((results.categories j).eraseIdx missingIdx).zip
        ((results.categoryCounts j).eraseIdx missingIdx)

/-- `send_local_fi_sketch`: the sketches that are sent. -/
def localFiSketch (items : Fin d → List (Option β × Nat)) :
    Sketches d β :=
  fun j => Tally.empty.updateAll (items j)

/-- `merge_local_fi_sketch`. -/
def mergeLocalFiSketch :
    List (Sketches d β) → Except Raised (Sketches d β)
  | [] => .error .indexError
  | first :: rest =>
      .ok fun j => (first :: rest).foldl (fun t s => t.merge (s j)) .empty

/-- `check_frequent_params`: `None < 1` is a TypeError. -/
def checkFrequentParams (maxItem : Option Nat) :
    Option Number → Except Raised Unit
  | none =>
      if maxItem.any (· < 1) then .error .valueError else .error .typeError
  | some minFreq =>
      if maxItem.any (· < 1) then .error .valueError
      else if minFreq.value < 1 then .error .valueError
      else .ok ()

/-- `sketch.get_frequent_items(error_type, threshold)`. -/
def SketchLib.getFrequentItems (lib : SketchLib (Option β))
    (threshold : Number) (sketch : Tally (Option β)) :
    Except Raised (List (Option β × Nat)) :=
  if threshold.isFloat ∧ lib.takesFloat = false then .error .typeError
  else .ok (lib.order
    (sketch.entries.filter fun row => threshold.value < (row.2 : ℚ)))

/-- `_get_frequent_items`. -/
def getColFrequentItems (lib : SketchLib (Option β)) (maxItem : Option Nat)
    (threshold : Number) (sketch : Tally (Option β)) :
    Except Raised (List (Option β × Nat)) := do
  let result ← lib.getFrequentItems threshold sketch
  match maxItem with
  | none => pure result
  | some maxItem =>
      pure (if maxItem < result.length then result.take maxItem else result)

/-- `get_frequent_items`. -/
def getFrequentItems (lib : SketchLib (Option β)) (sketch : Sketches d β)
    (maxItem : Option Nat) (minFreq : Option Number) :
    Except Raised (Fin d → List (Option β × Nat)) := do
  checkFrequentParams maxItem minFreq
  let threshold : Number := match minFreq with
    | none => ⟨0, false⟩
    | some minFreq => ⟨minFreq.value - 1, minFreq.isFloat⟩
  traverseFin fun j =>
    getColFrequentItems lib maxItem threshold (sketch j)

-- ======================================================= infrequent indices

/-- `np.where(categories == item)[0][0]`; nan is not equal to itself. -/
def whereEq (categories : List (Option β)) (item : Option β) :
    Except Raised Nat :=
  if item.isSome ∧ item ∈ categories then .ok (categories.idxOf item)
  else .error .indexError

/-- The indices for a column without `max_categories`: the items after
those that reach `min_frequency`. -/
def infrequentBelow (minFrequency : ℚ) (categories : List (Option β))
    (rows : List (Option β × Nat)) : Except Raised (Option (List Nat)) :=
  match rows.dropWhile fun row => minFrequency ≤ (row.2 : ℚ) with
  | [] => .ok none
  | infreqItems => do
      let indices ← infreqItems.mapM fun row => whereEq categories row.1
      pure (some (indices.mergeSort fun a b => decide (a ≤ b)))

/-- `infrequent_mask[idx] = False` for every item. -/
def clearMask (categories : List (Option β)) :
    List Bool → List (Option β × Nat) → Except Raised (List Bool)
  | mask, [] => .ok mask
  | mask, row :: rest => do
      let idx ← whereEq categories row.1
      if idx < mask.length then
        clearMask categories (mask.set idx false) rest
      else .error .indexError

/-- The indices for a column with `max_categories`: all but the frequent
items, and nan is no item where it is ignored. -/
def infrequentOutside (categories : List (Option β)) (missing : Option Nat)
    (rows : List (Option β × Nat)) :
    Except Raised (Option (List Nat)) := do
  let maskSize :=
    if missing.isSome then categories.length - 1 else categories.length
  let mask ← clearMask categories (List.replicate maskSize true) rows
  let indices :=
    (List.range maskSize).filter fun i => mask[i]? = some true
  pure (if indices = [] then none else some indices)

/-- What the server makes of the sum of the sketches. -/
def infrequentIndices (lib : SketchLib (Option β)) (settings : Settings)
    (minFrequency : Option Number)
    (categories : Fin d → List (Option β)) (missing : Fin d → Option Nat)
    (sketch : Sketches d β) :
    Except Raised (Fin d → Option (List Nat)) :=
  match settings.maxCategories with
  | none => do
      let rows ← getFrequentItems lib sketch none (some ⟨1, false⟩)
      traverseFin fun j => match minFrequency with
        | none => .error .typeError
        | some minFrequency =>
            infrequentBelow minFrequency.value (categories j) (rows j)
  | some maxCategories => do
      let rows ← getFrequentItems lib sketch (some (maxCategories.1 - 1))
        minFrequency
      traverseFin fun j =>
        infrequentOutside (categories j) (missing j) (rows j)

/-- `np.arange(categories.size)`: all are infrequent. -/
def allInfrequent (categories : Fin d → List (Option β)) :
    Fin d → Option (List Nat) :=
  fun j => some (List.range (categories j).length)

/-- The mapping of one column in `_infrequent_mappings`: the infrequent
indices go to the last place, the others keep their order. -/
def infrequentMapping (categories : List (Option β))
    (missing : Option Nat) :
    Option (List Nat) → Except Raised (Option (List Nat))
  | none => .ok none
  | some infreqIdx =>
      let nCats :=
        if missing.isSome then categories.length - 1 else categories.length
      let frequent := (List.range nCats).filter (· ∉ infreqIdx)
      if ∃ i ∈ infreqIdx, nCats ≤ i then .error .indexError
      else .ok (some ((List.range nCats).map fun i =>
        if i ∈ infreqIdx then nCats - infreqIdx.length
        else frequent.idxOf i))

-- ================================================================= protocol

/-- The keys of the messages. -/
inductive Tag
  | categories
  | nSamples
  | minFrequency
  | localFiSketch
  | infrequentIndices
  deriving DecidableEq, Repr

/-- The messages under each key. -/
abbrev Message (d : Nat) (β : Type) : Tag → Type
  | .categories => Fin d → List (Option β)
  | .nSamples => Nat
  | .minFrequency => Option Number
  | .localFiSketch => Sketches d β
  | .infrequentIndices => Fin d → Option (List Nat)

/-- A party's program. -/
abbrev Action (clients d : Nat) (β γ : Type) : Type :=
  Peer (Horizontal.Party clients) (Message d β) Raised γ

/-- `channel.send(key, val)`. -/
def send (dst : Horizontal.Party clients) (tag : Tag) (m : Message d β tag) :
    Action clients d β Unit :=
  Proc.put (μ := fun port : Horizontal.Party clients × Tag =>
      Message d β port.2)
    (dst, tag) m

/-- `channel.recv(key)`. -/
def recv (src : Horizontal.Party clients) (tag : Tag) :
    Action clients d β (Message d β tag) :=
  Proc.get (μ := fun port : Horizontal.Party clients × Tag =>
      Message d β port.2)
    (src, tag)

/-- What the fit leaves in the encoder; nothing about infrequent categories
where they are not enabled. -/
structure Encoding (d : Nat) (β : Type) where
  categories : Fin d → List (Option β)
  missingIndices : Fin d → Option Nat
  infrequentIndices : Option (Fin d → Option (List Nat))
  mappings : Option (Fin d → Option (List Nat))

/-- `missing_indices`. -/
def Settings.missingIndices (self : Settings)
    (categories : Fin d → List (Option β)) (j : Fin d) : Option Nat :=
  if self.ignoreMissing then missingIndex (categories j) else none

/-- The end of the fit: `_infrequent_mappings`. -/
def encoding (settings : Settings) (categories : Fin d → List (Option β))
    (indices : Fin d → Option (List Nat)) :
    Except Raised (Encoding d β) := do
  let mappings ← traverseFin fun j =>
    infrequentMapping (categories j) (settings.missingIndices categories j)
      (indices j)
  pure
    { categories
      missingIndices := settings.missingIndices categories
      infrequentIndices := some indices
      mappings := some mappings }

/-- The counts a client puts in its sketch, `min_frequency` being what it
received: without `max_categories` only those below. -/
def localItems (results : FitResults d β) :
    Option Number → Except Raised (Fin d → List (Option β × Nat))
  | none => .error .typeError
  | some minFrequency => .ok fun j =>
      (removeMissing results j).filter fun row =>
        (row.2 : ℚ) < minFrequency.value

/-- A client's side of the search for infrequent categories. -/
def askInfrequent (settings : Settings) (results : FitResults d β) :
    Action clients d β (Fin d → Option (List Nat)) := do
  if settings.isFraction then send .server .nSamples results.nSamples
  let items ← match settings.maxCategories with
    | none => do
        let minFrequency ← recv .server .minFrequency
        Proc.lift (localItems results minFrequency)
    | some _ => pure (removeMissing results)
  send .server .localFiSketch (localFiSketch items)
  recv .server .infrequentIndices

/-- `min_frequency`, times the number of samples if it is a fraction. -/
def serverMinFrequency (settings : Settings) :
    Action clients d β (Option Number) :=
  match settings.minFrequency with
  | none => pure none
  | some (.count n _) => pure (some ⟨n, false⟩)
  | some (.fraction q _) => do
      let nSamples ← Peer.recvAll .nSamples (allClients clients)
      pure (some ⟨timesSamples q nSamples.sum, true⟩)

/-- The server's side of the search for infrequent categories. -/
def answerInfrequent (lib : SketchLib (Option β)) (settings : Settings)
    (categories : Fin d → List (Option β)) :
    Action clients d β (Fin d → Option (List Nat)) := do
  let minFrequency ← serverMinFrequency settings
  if settings.maxCategories = none then
    Peer.sendAll .minFrequency minFrequency (allClients clients)
  let sketches ← Peer.recvAll .localFiSketch (allClients clients)
  let indices ← Proc.lift (do
    let sketch ← mergeLocalFiSketch sketches
    infrequentIndices lib settings minFrequency categories
      (settings.missingIndices categories) sketch)
  Peer.sendAll .infrequentIndices indices (allClients clients)
  pure indices

/-- The rest of the fit, once the categories are known. -/
def group (settings : Settings) (categories : Fin d → List (Option β))
    (search : Action clients d β (Fin d → Option (List Nat))) :
    Action clients d β (Encoding d β) :=
  if settings.infrequentEnabled then
    if settings.maxCategories.any (·.1 = 1) then
      Proc.lift (encoding settings categories (allInfrequent categories))
    else do
      let indices ← search
      Proc.lift (encoding settings categories indices)
  else
    pure
      { categories
        missingIndices := settings.missingIndices categories
        infrequentIndices := none
        mappings := none }

/-- `_Hfit` of a client. -/
def hfitClient (settings : Settings) (X : Table d β) :
    Action clients d β (Encoding d β) := do
  let results ← Proc.lift (fit X)
  send .server .categories results.categories
  let categories ← recv .server .categories
  group settings categories (askInfrequent settings results)

/-- `_Hfit` of the server. -/
def hfitServer (lib : SketchLib (Option β)) (settings : Settings) :
    Action clients d β (Encoding d β) := do
  let clientCategories ← Peer.recvAll .categories (allClients clients)
  let categories ← Proc.lift (itemsUnion clientCategories)
  Peer.sendAll .categories categories (allClients clients)
  group settings categories (answerInfrequent lib settings categories)

/-- The fit of all parties. -/
def hfit (lib : SketchLib (Option β)) (settings : Settings)
    (parts : Fin clients → Table d β) :
    Horizontal.Party clients → Action clients d β (Encoding d β)
  | .server => hfitServer lib settings
  | .client i => hfitClient settings (parts i)

end PrimiHub.FL.Encoder
