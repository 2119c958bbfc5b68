/-
The data of secure logistic regression: `_LoadDataset` and
`_ConstructShares` of `algorithm/logistic.cc`. Every party cuts its own
table into training and test rows; the rows of the three parties are then
put below each other, in shares.

# Columns

A column of an Arrow table is a list of chunks. `Value(i)` does not look
at the validity bitmap, so a value is what the buffer has. A column of a
type that is neither `int64`, `int32` nor `double` is known by the lengths
of its chunks alone: the cast to a `DoubleArray` fails.

# Matrices

A matrix that has been resized has what the memory has until an entry is
written; the memory is an argument. A write outside of the matrix and a
negative size are undefined. The lengths of chunks and tables are natural
numbers here, the counts that the code keeps in an `int` are reduced to 32
bits.

# Shares

What `localInput` and `remoteInput` make of a matrix is a matrix of shares
of the same size, each of which reveals the fixed-point number of its
entry (`Sharing`).
-/
import Mathlib.Algebra.BigOperators.Fin
import PrimiHub.Aby3.Basic
import PrimiHub.Executor.Columns
import PrimiHub.Lib.Binary64
import PrimiHub.Lib.Grid

namespace PrimiHub.Algorithm.LogisticRegressionExecutor

open Executor (I64 Str text Fault)
open Lib (Grid traverseFin)

variable {D E S T : Type}

-- ================================================================ the table

/-- The chunks of a column. -/
inductive Chunks (D : Type)
  | int64 (chunks : List (List I64))
  | int32 (chunks : List (List (BitVec 32)))
  | double (chunks : List (List D))
  | other (typeName : Str) (lengths : List Nat)

structure TableColumn (D : Type) where
  name : Str
  chunks : Chunks D

/-- The conversions to `double`. -/
structure Doubles (D : Type) where
  ofInt64 : I64 → D
  ofInt32 : BitVec 32 → D

/-- The lengths of the chunks. -/
def Chunks.lengths : Chunks D → List Nat
  | .int64 chunks => chunks.map List.length
  | .int32 chunks => chunks.map List.length
  | .double chunks => chunks.map List.length
  | .other _ lengths => lengths

/-- Whether the table has one field of the name, so that `GetFieldIndex`
finds it. -/
def hasField (table : List (TableColumn D)) (colName : Str) : Bool :=
  table.countP (fun col => col.name == colName) == 1

/-- One turn of the loop over `columns_exclude_`. -/
def removeField (schema : List (TableColumn D)) (colName : Str) :
    List (TableColumn D) :=
  if hasField schema colName then
    schema.filter fun col => col.name != colName
  else schema

/-- The columns that are left. -/
def keptColumns (columnsExclude : List Str) (table : List (TableColumn D)) :
    List (TableColumn D) :=
  columnsExclude.foldl removeField table

/-- What `cursor->read(new_schema)` reads: a list of columns to include
that is empty includes every column. -/
def readColumns (columnsExclude : List Str) (table : List (TableColumn D)) :
    List (TableColumn D) :=
  let kept := keptColumns columnsExclude table
  if kept.isEmpty then table else kept

-- ============================================================= _LoadDataset

/-- `train_input_` and `test_input_`. -/
structure Inputs (D : Type) where
  train : Grid D
  test : Grid D

/-- `training_set_percentage`: the double next to 0.8. -/
def trainingSetPercentage : ℚ := 3602879701896397 / 2 ^ 52

/-- `floor(len * training_set_percentage)`. -/
def trainLength (len : Nat) : Nat :=
  ⌊Lib.roundToDouble (Lib.castDouble len * trainingSetPercentage)⌋.toNat

/-- `resize`. -/
def resize (memory : Nat → Nat → D) (rows cols : Int) :
    Except Fault (Grid D) :=
  if rows < 0 ∨ cols < 0 then .error .undefined
  else .ok ⟨rows.toNat, cols.toNat, memory⟩

/-- An `int` that counts to `n`. -/
def toInt32 (n : Nat) : Int := (BitVec.ofNat 32 n).toInt

def lengthMessage (name : Str) (colArrayLen arrayLen : Nat) : Str :=
  text "Column " ++ name ++ text " has " ++ Nat.toDigits 10 colArrayLen
    ++ text " value, " ++ text "but Label column has "
    ++ Nat.toDigits 10 arrayLen ++ text " value."

def convertMessage (name typeName : Str) : Str :=
  text "Column " ++ name ++ text ", " ++ text "Convert Data From "
    ++ typeName ++ text " To Double failed"

/-- One turn of the loop of column 0. -/
def fillOne (dbl : Doubles D) (trainLen : Nat) (s : Inputs D) (j : Nat) :
    Except Fault (Inputs D) :=
  if j < trainLen then do
    let train ← s.train.set .undefined j 0 (dbl.ofInt32 1)
    .ok { s with train := train }
  else do
    let test ← s.test.set .undefined (j - trainLen) 0 (dbl.ofInt32 1)
    .ok { s with test := test }

def fillOnes (dbl : Doubles D) (arrayLen trainLen : Nat) (s : Inputs D) :
    Except Fault (Inputs D) :=
  (List.range arrayLen).foldlM (fillOne dbl trainLen) s

/-- `FillTrainAndTestData`, of an array whose cast succeeds. -/
def fillTrainAndTestData (value : T → D) (array : List T)
    (trainFillStartPos testFillStartPos colIndex trainLen : Nat)
    (s : Inputs D) : Except Fault (Inputs D) :=
  -- reads past the end of the array
  if array.length < trainLen then .error .undefined
  else do
    let train ← s.train.fill .undefined colIndex trainFillStartPos
      ((array.take trainLen).map value)
    let test ← s.test.fill .undefined colIndex testFillStartPos
      ((array.drop trainLen).map value)
    .ok ⟨train, test⟩

/-- The loop over the chunks of a column, from `train_data_start` and
`test_data_start` on. -/
def fillChunks (value : T → D) (colIndex : Nat) :
    Nat → Nat → List (List T) → List Nat → Inputs D →
      Except Fault (Inputs D)
  | _, _, [], _, s => .ok s
  | _, _, _ :: _, [], _ => .error .undefined
  | trainDataStart, testDataStart, array :: chunks,
      trainLen :: trainDataEachChunk, s => do
      let s ← fillTrainAndTestData value array trainDataStart testDataStart
        colIndex trainLen s
      fillChunks value colIndex (trainDataStart + trainLen)
        (testDataStart + (array.length - trainLen)) chunks
        trainDataEachChunk s

/-- The loop body of one column. -/
def fillColumn (dbl : Doubles D) (trainDataEachChunk : List Nat)
    (colIndex : Nat) (col : TableColumn D) (s : Inputs D) :
    Except Fault (Inputs D) :=
  match col.chunks with
  | .int64 chunks =>
      fillChunks dbl.ofInt64 colIndex 0 0 chunks trainDataEachChunk s
  | .int32 chunks =>
      fillChunks dbl.ofInt32 colIndex 0 0 chunks trainDataEachChunk s
  | .double chunks => fillChunks id colIndex 0 0 chunks trainDataEachChunk s
  | .other typeName lengths =>
      match lengths, trainDataEachChunk with
      | [], _ => .ok s
      | _ :: _, [] => .error .undefined
      | _ :: _, _ :: _ => .error (.raised (convertMessage col.name typeName))

/-- The loop over the columns; `GetFieldByName` finds no field where two
have the name. -/
def fillColumns (dbl : Doubles D) (table : List (TableColumn D))
    (trainDataEachChunk : List Nat) :
    Nat → List (TableColumn D) → Inputs D → Except Fault (Inputs D)
  | _, [], s => .ok s
  | colIndex, col :: rest, s =>
      if hasField table col.name then do
        let s ← fillColumn dbl trainDataEachChunk colIndex col s
        fillColumns dbl table trainDataEachChunk (colIndex + 1) rest s
      else .error .undefined

/-- `_LoadDataset` of the columns that have been read. -/
def loadColumns (dbl : Doubles D) (memory : Nat → Nat → D)
    (table : List (TableColumn D)) : Except Fault (Int × Inputs D) :=
  match table.getLast? with
  | none => .error .undefined
  | some label =>
      let arrayLen := label.chunks.lengths.sum
      let trainDataEachChunk := label.chunks.lengths.map trainLength
      match table.dropLast.find? fun col =>
          col.chunks.lengths.sum != arrayLen with
      | some col => .error (.raised
          (lengthMessage col.name col.chunks.lengths.sum arrayLen))
      | none => do
          -- `std::accumulate` starts with the `int` 0 and goes on in `int`
          let trainLen := toInt32 trainDataEachChunk.sum
          let testLen := arrayLen - trainLen
          let train ← resize memory trainLen (table.length + 1)
          let test ← resize memory testLen (table.length + 1)
          let s ← fillOnes dbl arrayLen trainLen.toNat ⟨train, test⟩
          let s ← fillColumns dbl table trainDataEachChunk 1 table s
          .ok (toInt32 arrayLen, s)

/-- `_LoadDataset`, from the driver's table, if there is one: the return
code and what is in the matrices. -/
def loadDatasetById (dbl : Doubles D) (memory : Nat → Nat → D)
    (columnsExclude : List Str) (table : Option (List (TableColumn D))) :
    Except Fault (Int × Inputs D) :=
  match table with
  | none => .ok (-1, ⟨⟨0, 0, memory⟩, ⟨0, 0, memory⟩⟩)
  | some table => loadColumns dbl memory (readColumns columnsExclude table)

def dimensionMessage (trainCols testCols : Nat) : Str :=
  text "Dimension mismatch between local train dataset and test dataset."
    ++ text "local train dataset dims: " ++ Nat.toDigits 10 trainCols
    ++ text " " ++ text "local test dataset dims: "
    ++ Nat.toDigits 10 testCols

/-- `loadDataset`. -/
def loadDataset (dbl : Doubles D) (memory : Nat → Nat → D)
    (columnsExclude : List Str) (table : Option (List (TableColumn D))) :
    Except Fault (Inputs D) := do
  let (ret, s) ← loadDatasetById dbl memory columnsExclude table
  if ret ≤ 0 then .error (.returned (-1))
  else if s.train.cols ≠ s.test.cols then
    .error (.raised (dimensionMessage s.train.cols s.test.cols))
  else .ok s

-- ========================================================== _ConstructShares

/-- The shares of the entries of the input matrices, by the number of the
input and the place of the entry. -/
structure Sharing (D E S : Type) where
  encode : D → E
  reveal : S → E
  share : Nat → Nat → Nat → D → S
  reveal_share : ∀ n i j d, reveal (share n i j d) = encode d

/-- `localInput` at the party that has the matrix, `remoteInput` at the
others. -/
def Sharing.input (sh : Sharing D E S) (n : Nat) (m : Grid D) : Grid S :=
  ⟨m.rows, m.cols, fun i j => sh.share n i j (m.entry i j)⟩

/-- The examples and their labels. -/
structure Samples (S : Type) where
  data : Grid S
  label : Grid S

/-- A loop over the rows of the three inputs, with `row_index`. -/
def copyRows (shares : Fin 3 → Grid S)
    (copy : Nat → Fin 3 → Nat → Grid S → Except Fault (Grid S))
    (m : Grid S) : Except Fault (Grid S) := do
  let r ← (List.finRange 3).foldlM (fun acc h =>
    (List.range (shares h).rows).foldlM (fun acc i => do
      let m ← copy acc.1 h i acc.2
      .ok (acc.1 + 1, m)) acc) (0, m)
  .ok r.2

/-- The loop over the columns but the last. -/
def copyFeatures (shares : Fin 3 → Grid S) (rowIndex : Nat) (h : Fin 3)
    (i : Nat) (m : Grid S) : Except Fault (Grid S) :=
  (List.range ((shares h).cols - 1)).foldlM
    (fun m j => m.set .undefined rowIndex j ((shares h).entry i j)) m

def copyLabel (shares : Fin 3 → Grid S) (numCols : Nat) (rowIndex : Nat)
    (h : Fin 3) (i : Nat) (m : Grid S) : Except Fault (Grid S) :=
  m.set .undefined rowIndex 0 ((shares h).entry i numCols)

/-- The examples of one set, and their labels. -/
def constructSamples (memory : Nat → Nat → S) (shares : Fin 3 → Grid S) :
    Except Fault (Samples S) := do
  let numCols : Int := (shares 0).cols - 1
  let numRows :=
    toInt32 ((shares 0).rows + (shares 1).rows + (shares 2).rows)
  let data ← resize memory numRows numCols
  let label ← resize memory numRows 1
  let data ← copyRows shares (copyFeatures shares) data
  let label ← copyRows shares (copyLabel shares numCols.toNat) label
  .ok ⟨data, label⟩

def partyMessage (set : Str) (p q : Str) (pCols qCols : Nat) : Str :=
  text "Count of column in " ++ set
    ++ text " dataset mismatch between party " ++ p ++ text " and " ++ q
    ++ text ", " ++ text "party " ++ p ++ text " has "
    ++ Nat.toDigits 10 pCols ++ text " column, party " ++ q ++ text " has "
    ++ Nat.toDigits 10 qCols ++ text " column."

def trainTestMessage (trainCols testCols : Nat) : Str :=
  text "Count of column mismatch between train dataset and test dataset, "
    ++ text "train dataset has " ++ Nat.toDigits 10 trainCols
    ++ text ", test dataset has " ++ Nat.toDigits 10 testCols
    ++ text " column."

/-- A check that two counts are equal. -/
def checkCols (a b : Nat) (message : Str) : Except Fault Unit :=
  if a ≠ b then .error (.raised message) else .ok ()

/-- The training and the test set. -/
structure DataSets (S : Type) where
  train : Samples S
  test : Samples S

/-- `_ConstructShares`, without the model. -/
def constructShares (sh : Sharing D E S) (memory : Nat → Nat → S)
    (inputs : Fin 3 → Inputs D) : Except Fault (DataSets S) := do
  let trainShares : Fin 3 → Grid S := fun p => sh.input p (inputs p).train
  checkCols (trainShares 0).cols (trainShares 1).cols
    (partyMessage (text "train") (text "0") (text "1") (trainShares 0).cols
      (trainShares 1).cols)
  checkCols (trainShares 1).cols (trainShares 2).cols
    (partyMessage (text "train") (text "1") (text "2") (trainShares 1).cols
      (trainShares 2).cols)
  let train ← constructSamples memory trainShares
  let testShares : Fin 3 → Grid S := fun p => sh.input (3 + p) (inputs p).test
  checkCols (testShares 0).cols (testShares 1).cols
    (partyMessage (text "test") (text "0") (text "1") (testShares 0).cols
      (testShares 1).cols)
  checkCols (testShares 1).cols (trainShares 0).cols
    (trainTestMessage (trainShares 0).cols (testShares 1).cols)
  checkCols (testShares 1).cols (testShares 2).cols
    (partyMessage (text "test") (text "1") (text "2") (testShares 1).cols
      (testShares 2).cols)
  let test ← constructSamples memory testShares
  .ok ⟨train, test⟩

/-- `_LoadDataset` at the three parties and `_ConstructShares`. -/
def loadAndConstruct (dbl : Doubles D) (sh : Sharing D E S)
    (memory : Nat → Nat → D) (memory' : Nat → Nat → S)
    (columnsExclude : List Str) (tables : Fin 3 → List (TableColumn D)) :
    Except Fault (DataSets S) := do
  let inputs ← traverseFin fun p => do
    let r ← loadDatasetById dbl memory columnsExclude (some (tables p))
    .ok r.2
  constructShares sh memory' inputs

-- ============================================== what the split is there for

/-- A table of columns with a common layout. -/
structure Table (D : Type) where
  columns : List (TableColumn D)
  layout : List Nat
  common : ∀ col ∈ columns, col.chunks.lengths = layout

/-- The values of a column as doubles. -/
def Chunks.values (dbl : Doubles D) : Chunks D → List (List D)
  | .int64 chunks => chunks.map (List.map dbl.ofInt64)
  | .int32 chunks => chunks.map (List.map dbl.ofInt32)
  | .double chunks => chunks
  | .other _ _ => []

/-- A column of a type that is read, or without a chunk to read. -/
def Chunks.Readable : Chunks D → Prop
  | .other _ lengths => lengths = []
  | _ => True

/-- The value at a chunk and an offset. -/
def TableColumn.valueAt (dbl : Doubles D) (col : TableColumn D) (k o : Nat) :
    Option D :=
  ((col.chunks.values dbl)[k]?).bind fun values => values[o]?

/-- The places of the rows: the chunk, and the offset in it. -/
def Table.places (table : Table D) : List (Nat × Nat) :=
  table.layout.zipIdx.flatMap fun c => (List.range c.1).map fun o => (c.2, o)

/-- The places of the rows of all parties. -/
def allPlaces (tables : Fin 3 → Table D) : List (Fin 3 × Nat × Nat) :=
  (List.finRange 3).flatMap fun p =>
    (tables p).places.map fun place => (p, place)

/-- Example `n` is the row: 1 and the features in the order of the columns,
and the label beside it. -/
def Samples.Has (dbl : Doubles D) (sh : Sharing D E S) (set : Samples S)
    (n : Nat) (columns : List (TableColumn D)) (k o : Nat) : Prop :=
  ∃ features label,
    List.Forall₂ (fun col v => col.valueAt dbl k o = some v) columns
        (features ++ [label])
      ∧ (set.data.row set.data.cols n).map sh.reveal
        = (dbl.ofInt32 1 :: features).map sh.encode
      ∧ sh.reveal (set.label.entry n 0) = sh.encode label

/-- The set has the rows at the places, and nothing else. -/
structure Samples.Holds (dbl : Doubles D) (sh : Sharing D E S)
    (columns : Fin 3 → List (TableColumn D))
    (places : List (Fin 3 × Nat × Nat)) (set : Samples S) : Prop where
  dataRows : set.data.rows = places.length
  labelRows : set.label.rows = places.length
  dataCols : ∀ p, set.data.cols = (columns p).length
  labelCols : set.label.cols = 1
  has : ∀ n p k o, places[n]? = some (p, k, o) →
    set.Has dbl sh n (columns p) k o

/-- Every row is in one of the sets and there once, and of a chunk of
length `L` four fifths, rounded down, are training rows. -/
def DataSets.SplitRight (dbl : Doubles D) (sh : Sharing D E S)
    (columnsExclude : List Str) (tables : Fin 3 → Table D)
    (sets : DataSets S) : Prop :=
  let columns := fun p => keptColumns columnsExclude (tables p).columns
  ∃ trainPlaces testPlaces,
    List.Perm (trainPlaces ++ testPlaces) (allPlaces tables)
      ∧ (∀ p k L, (tables p).layout[k]? = some L →
          trainPlaces.countP (fun i => decide ((i.1, i.2.1) = (p, k)))
            = 4 * L / 5)
      ∧ sets.train.Holds dbl sh columns trainPlaces
      ∧ sets.test.Holds dbl sh columns testPlaces

/-- What the code can split: columns it can read, a label among them, the
same number of columns at all parties, and counts of training and test
rows that fit an `int`. -/
structure Splittable (columnsExclude : List Str) (tables : Fin 3 → Table D) :
    Prop where
  ne_nil : ∀ p, keptColumns columnsExclude (tables p).columns ≠ []
  nodup : ∀ p,
    ((keptColumns columnsExclude (tables p).columns).map TableColumn.name).Nodup
  readable : ∀ p, ∀ col ∈ keptColumns columnsExclude (tables p).columns,
    col.chunks.Readable
  width : ∀ p q, (keptColumns columnsExclude (tables p).columns).length
    = (keptColumns columnsExclude (tables q).columns).length
  train : ∑ p, ((tables p).layout.map fun L => 4 * L / 5).sum < 2 ^ 31
  test : ∑ p, ((tables p).layout.map fun L => L - 4 * L / 5).sum < 2 ^ 31

end PrimiHub.Algorithm.LogisticRegressionExecutor
