/-
The CMP task of `algorithm/arithmetic.cc`: how `loadParams` takes the two
column names out of the expression, which overload of `MPC_Compare` each
party then calls in `execute`, and what is revealed to whom. The columns
are int64 columns (`i64_cmp`).

# Who brings which column

A party that owns the first column brings it, else one that owns the
second brings that, else it runs the overload without a value. From there
on the operator knows the parties by their ids only.

# Maps

`col_and_owner_` is filled from one list of columns at every party, and
`col_and_val_int` from the party's own. The code reads both with
`operator[]`, which puts 0 and an empty column where nothing is.
-/
import PrimiHub.Aby3.Compare
import PrimiHub.Executor.Columns

namespace PrimiHub.Algorithm

open Aby3 (I64 DenseMatrix Shape BinLib CompareError announced shapeStep
  mpcCompare ShapeRing)
open Executor (Str text)

-- ============================================================== the names

/-- The conversion of an `int` to `size_t`. -/
def toSize (k : Int) : Nat := (k % 2 ^ 64).toNat

/-- `std::string::substr`; the position must not be past the end. -/
def substr (s : Str) (pos count : Nat) : Option Str :=
  if s.length < pos then none else some ((s.drop pos).take count)

/-- `expr_.find(",")` as an `int`, for a text an `int` can index. -/
def findComma (expr : Str) : Int :=
  match expr.findIdx? (· = ',') with
  | some i => i
  | none => -1

/-- `cmp_col1` and `cmp_col2`. An exception ends `loadParams`. -/
def cmpColumns (expr : Str) : Option (Str × Str) := do
  let commaIndex := findComma expr
  let cmpCol1 ← substr expr 4 (toSize (commaIndex - 4))
  let cmpCol2 ← substr expr (toSize (commaIndex + 1))
    (toSize (expr.length - commaIndex - 2))
  some (cmpCol1, cmpCol2)

/-- `is_cmp`. -/
def isCmp (expr : Str) : Bool := expr.take 3 = text "CMP"

-- ============================================================ the columns

/-- A column, the party it belongs to and its values. Its length is one a
vector can have. -/
structure IntColumn where
  name : Str
  owner : Fin 3
  values : List I64
  length_lt : values.length < 2 ^ 63

/-- `m.resize(1, count)` and the copy of the column. -/
def IntColumn.matrix (c : IntColumn) : DenseMatrix where
  shape := ⟨1, c.values.length⟩
  data := c.values
  length_data := (Nat.one_mul _).symm
  size_lt := by
    rw [Nat.one_mul]
    exact c.length_lt

/-- The matrix of a column that is not there. -/
def emptyMatrix : DenseMatrix := ⟨⟨1, 0⟩, [], rfl, by decide⟩

/-- `col_and_owner_[name]`. -/
def ownerOf (columns : List IntColumn) (name : Str) : Nat :=
  match columns.find? (·.name = name) with
  | some c => c.owner.val
  | none => 0

/-- `col_and_val_int[name]` of a party, as a matrix. -/
def valuesOf (columns : List IntColumn) (partyId : Fin 3) (name : Str) :
    DenseMatrix :=
  match (columns.filter (·.owner = partyId)).find? (·.name = name) with
  | some c => c.matrix
  | none => emptyMatrix

-- ================================================================ execute

/-- What a party brings to `MPC_Compare`, if anything. -/
def compareInput (columns : List IntColumn) (cmpCol1 cmpCol2 : Str)
    (partyId : Fin 3) : Option DenseMatrix :=
  if ownerOf columns cmpCol1 = partyId.val then
    some (valuesOf columns partyId cmpCol1)
  else if ownerOf columns cmpCol2 = partyId.val then
    some (valuesOf columns partyId cmpCol2)
  else none

/-- The reveal loop: `cmp_res_` of party `me`. -/
def revealTo (parties : List (Fin 3)) (me : Fin 3) (bits : List Bool) :
    List Bool :=
  parties.flatMap fun party => if me = party then bits else []

/-- `ArithmeticExecutor::execute` of a CMP task, from the shapes the three
parties have collected: `cmp_res_` of party `me`. -/
def executeCmp (lib : BinLib) (columns : List IntColumn)
    (cmpCol1 cmpCol2 : Str) (parties : List (Fin 3)) (me : Fin 3)
    (shapes : Fin 3 → List Shape) : Except CompareError (List Bool) := do
  let (_, bits) ← mpcCompare lib (compareInput columns cmpCol1 cmpCol2) shapes
  .ok (revealTo parties me bits)

/-- `me` gets `result` from the task, whatever the schedule of the
exchange: at its end nobody has raised, and `execute` leaves `result`. -/
def Reveals (lib : BinLib) (expr : Str) (columns : List IntColumn)
    (parties : List (Fin 3)) (me : Fin 3) (result : List Bool) : Prop :=
  isCmp expr = true ∧ ∃ cmpCol1 cmpCol2,
    cmpColumns expr = some (cmpCol1, cmpCol2)
    ∧ ∀ schedule s,
      Lib.run (shapeStep
          (announced (compareInput columns cmpCol1 cmpCol2))
          fun i => (compareInput columns cmpCol1 cmpCol2 i).isSome)
        .init schedule = some s →
      (∀ i, shapeStep (announced (compareInput columns cmpCol1 cmpCol2))
        (fun i => (compareInput columns cmpCol1 cmpCol2 i).isSome) s i
          = none) →
      (∀ i, s.raised i = none)
      ∧ executeCmp lib columns cmpCol1 cmpCol2 parties me s.shapes
        = .ok result

-- =============================================== what the task is there for

/-- A task that compares two columns. The first comma of its text ends the
first name, and an `int` indexes the text. -/
structure CmpExpr where
  c1 : Str
  c2 : Str
  comma_not_mem : ',' ∉ c1
  length_lt : c1.length + c2.length + 6 < 2 ^ 31

/-- How it is written. -/
def CmpExpr.text (e : CmpExpr) : Str :=
  Executor.text "CMP(" ++ (e.c1 ++ (',' :: (e.c2 ++ [')'])))

/-- Where the first column is smaller than the second. -/
def truths (xs ys : List I64) : List Bool :=
  List.zipWith (fun x y => decide (x.toInt < y.toInt)) xs ys

/-- The columns with the owners of two of them exchanged. -/
def exchangeOwners (c1 c2 : IntColumn) (columns : List IntColumn) :
    List IntColumn :=
  columns.map fun c =>
    if c.name = c1.name then { c with owner := c2.owner }
    else if c.name = c2.name then { c with owner := c1.owner }
    else c

/-- Subtracting one from the other gives the same sign both ways: they are
equal, or their difference is the one that is its own negative. -/
def SameBothWays (x y : I64) : Prop :=
  x = y ∨ x.toInt - y.toInt = -2 ^ 63

instance (x y : I64) : Decidable (SameBothWays x y) :=
  inferInstanceAs (Decidable (_ ∨ _))

end PrimiHub.Algorithm
