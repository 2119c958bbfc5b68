/-
`MPCOperator::MPC_Compare` of `operator/aby3_operator.cc`: the overload
for a party with a matrix and the one for the party without, run by all
three at once.

# The exchange of shapes

Every party first runs a loop over the three parties: at its own turn it
sends its shape over both of its links, at another's it receives that
party's shape over the link to it. The links are queues, a receive waits,
and the parties run in any order (`shapeStep`). The party without a
matrix sends the shape 0 × 0.

# The rest

From the three shapes on a party computes alone (`valuePlan`,
`blankPlan`): who has no value, whether the two others fit, whether to
negate its own matrix, and how many elements to share. The two sharings
and the circuit are again done by all three together.

# What is the library's

`localBinMatrix`, `remoteBinMatrix` and the evaluation of the circuit
belong to aby3. A sharing that the three parties set up for one and the
same number of rows shares the owner's matrix; otherwise it fails
(`BinLib`). `int_int_add_msb` is the top bit of the sum modulo 2^64.
Negating an element wraps around, as Eigen's product with -1 does.
-/
import Mathlib.Data.List.Basic
import PrimiHub.Aby3.Basic

namespace PrimiHub.Aby3

-- ============================================================== matrices

/-- The shape a party announces. -/
structure Shape where
  rows : Nat
  cols : Nat
  deriving DecidableEq, Repr

/-- An `i64Matrix` with its elements in storage order. Eigen counts
elements in a signed 64-bit index. -/
structure DenseMatrix where
  shape : Shape
  data : List I64
  length_data : data.length = shape.rows * shape.cols
  size_lt : shape.rows * shape.cols < 2 ^ 63

/-- The exceptions of the two overloads, and the failures below them. -/
inductive CompareError
  /-- "Message recv logic error." -/
  | recvLogic
  /-- "There are two party that don't provide any value at last, but
  compare operator require value from two party." -/
  | twoWithoutValue
  /-- "This operator is binary, can only handle value from two party." -/
  | notBinary
  /-- "Shape of matrix in two party must be the same." -/
  | shapeMismatch
  /-- the three parties are not in the same sharing -/
  | desync
  /-- a sharing of different row counts -/
  | misfit
  deriving DecidableEq, Repr

-- ================================================== the exchange of shapes

/-- The loop variable and `all_party_shape` of each party, what is on the
links (from, to), and the exceptions raised. -/
structure ShapeRing where
  turn : Fin 3 → Nat
  shapes : Fin 3 → List Shape
  wire : Fin 3 → Fin 3 → List Shape
  raised : Fin 3 → Option CompareError

def ShapeRing.init : ShapeRing where
  turn := fun _ => 0
  shapes := fun _ => []
  wire := fun _ _ => []
  raised := fun _ => none

/-- `asyncSendCopy` on the link from `p` to `q`. -/
def ShapeRing.send (s : ShapeRing) (p q : Fin 3) (shape : Shape) : ShapeRing :=
  { s with
    wire := Function.update s.wire p
      (Function.update (s.wire p) q (s.wire p q ++ [shape])) }

/-- The end of a turn: `all_party_shape.emplace_back`. -/
def ShapeRing.collect (s : ShapeRing) (p : Fin 3) (shape : Shape) : ShapeRing :=
  { s with
    turn := Function.update s.turn p (s.turn p + 1)
    shapes := Function.update s.shapes p (s.shapes p ++ [shape]) }

/-- `recv` at `p` on the link from `q`, if something is there. -/
def ShapeRing.recv (s : ShapeRing) (p q : Fin 3) : Option ShapeRing :=
  match s.wire q p with
  | [] => none
  | shape :: rest =>
      some ({ s with
        wire := Function.update s.wire q
          (Function.update (s.wire q) p rest) }.collect p shape)

/-- `mNext` leads to the party after, `mPrev` to the one before. -/
def mNext (p : Fin 3) : Fin 3 := p + 1

def mPrev (p : Fin 3) : Fin 3 := p + 2

/-- Party `p` goes through its loop once. `own` is the shape it announces
and `hasValue` the overload it runs: only the one with a value has the
branch that raises. -/
def shapeStep (own : Fin 3 → Shape) (hasValue : Fin 3 → Bool) (s : ShapeRing)
    (p : Fin 3) : Option ShapeRing :=
  let i := s.turn p
  if 3 ≤ i ∨ (s.raised p).isSome then none
  else if p.val = i then
    some (((s.send p (mNext p) (own p)).send p (mPrev p) (own p)).collect p
      (own p))
  else if p.val = (i + 1) % 3 then s.recv p (mPrev p)
  else if p.val = (i + 2) % 3 ∨ ¬hasValue p then s.recv p (mNext p)
  else some { s with raised := Function.update s.raised p (some .recvLogic) }

-- ================================================== what each party decides

/-- One of the two sharings, as a party takes part in it. -/
inductive ShareOp
  | localBinMatrix
  | remoteBinMatrix
  deriving DecidableEq, Repr

/-- What a party has decided before the first sharing. -/
structure Plan where
  /-- `all_party_shape[0]` and `[1]` at the end -/
  first : Shape
  second : Shape
  numElem : Nat
  /-- its own matrix is negated -/
  negated : Bool
  shares : List ShareOp
  deriving DecidableEq, Repr

/-- The loop that finds `skip_index`, from party `i` on. -/
def findSkip : List Shape → Nat → Option Nat →
    Except CompareError (Option Nat)
  | [], _, skip => .ok skip
  | shape :: rest, i, skip =>
      if shape.rows = 0 ∧ shape.cols = 0 then
        match skip with
        | some _ => .error .twoWithoutValue
        | none => findSkip rest (i + 1) (some i)
      else findSkip rest (i + 1) skip

/-- The first two shapes after the shift by the index of the party
without a value. -/
def shiftShapes (skip : Nat) (s₀ s₁ s₂ : Shape) : Shape × Shape :=
  if skip = 0 then (s₁, s₂)
  else if skip ≠ 2 then (s₀, s₂)
  else (s₀, s₁)

/-- Which party negates its matrix. -/
def negates (skip : Nat) (partyIdx : Fin 3) : Bool :=
  if skip = 0 ∨ skip = 1 then partyIdx.val = 2 else partyIdx.val = 1

/-- `MPC_Compare(i64Matrix&, sbMatrix&)` up to the sharings. -/
def valuePlan (partyIdx : Fin 3) (s₀ s₁ s₂ : Shape) :
    Except CompareError Plan := do
  match ← findSkip [s₀, s₁, s₂] 0 none with
  | none => .error .notBinary
  | some skip =>
      let (first, second) := shiftShapes skip s₀ s₁ s₂
      if first ≠ second then .error .shapeMismatch
      else
        .ok {
          first, second
          -- `uint64_t num_elem`
          numElem := first.rows * first.cols % 2 ^ 64
          negated := negates skip partyIdx
          shares := ((List.range 3).filter (· ≠ skip)).map fun i =>
            if i = partyIdx.val then .localBinMatrix else .remoteBinMatrix }

/-- `MPC_Compare(sbMatrix&)` up to the sharings. -/
def blankPlan (partyIdx : Fin 3) (s₀ s₁ s₂ : Shape) :
    Except CompareError Plan :=
  let (first, second) := shiftShapes partyIdx.val s₀ s₁ s₂
  if first ≠ second then .error .shapeMismatch
  else
    .ok {
      first, second
      -- `uint32_t num_elem`
      numElem := first.rows * first.cols % 2 ^ 64 % 2 ^ 32
      negated := false
      shares := [.remoteBinMatrix, .remoteBinMatrix] }

/-- The overload a party runs, after the exchange. -/
def comparePlan (value : Option DenseMatrix) (partyIdx : Fin 3) :
    List Shape → Except CompareError Plan
  | [s₀, s₁, s₂] =>
      match value with
      | some _ => valuePlan partyIdx s₀ s₁ s₂
      | none => blankPlan partyIdx s₀ s₁ s₂
  | _ => .error .desync

-- ================================================= sharings and the circuit

/-- The binary sharing of aby3: one party's matrix, with the number of
rows each of the three has set up. -/
structure BinLib where
  share : (Fin 3 → Nat) → List I64 → Except CompareError (List I64)
  share_fit : ∀ {rows vec}, (∀ p, rows p = vec.length) →
    share rows vec = .ok vec
  share_misfit : ∀ {rows vec}, (¬∀ p, rows p = vec.length) →
    ∃ e, share rows vec = .error e

/-- The matrix a party puts into its sharing. It has been resized to
`num_elem` rows, which are as many elements as it has. -/
def sharedData (value : Option DenseMatrix) (plan : Plan) : List I64 :=
  match value with
  | none => []
  | some m => if plan.negated then m.data.map (- ·) else m.data

/-- The `k`-th sharing of all three. -/
def jointShare (lib : BinLib) (value : Fin 3 → Option DenseMatrix)
    (plans : Fin 3 → Plan) (k : Nat) : Except CompareError (List I64) :=
  let share := fun p =>
    lib.share (fun i => (plans i).numElem) (sharedData (value p) (plans p))
  match (plans 0).shares[k]?, (plans 1).shares[k]?, (plans 2).shares[k]? with
  | some .localBinMatrix, some .remoteBinMatrix, some .remoteBinMatrix =>
      share 0
  | some .remoteBinMatrix, some .localBinMatrix, some .remoteBinMatrix =>
      share 1
  | some .remoteBinMatrix, some .remoteBinMatrix, some .localBinMatrix =>
      share 2
  | _, _, _ => .error .desync

/-- `KoggeStoneLibrary::int_int_add_msb(64)`. -/
def intIntAddMsb (x y : I64) : Bool := (x + y).msb

/-- The two sharings and the circuit: the bits of `sh_res`. -/
def compareBits (lib : BinLib) (value : Fin 3 → Option DenseMatrix)
    (plans : Fin 3 → Plan) : Except CompareError (List Bool) := do
  let x ← jointShare lib value plans 0
  let y ← jointShare lib value plans 1
  .ok (List.zipWith intIntAddMsb x y)

/-- The shape a party announces. -/
def announced (value : Fin 3 → Option DenseMatrix) (p : Fin 3) : Shape :=
  match value p with
  | some m => m.shape
  | none => ⟨0, 0⟩

/-- The whole operator from the shapes each party has collected: every
party's plan, and the bits. -/
def mpcCompare (lib : BinLib) (value : Fin 3 → Option DenseMatrix)
    (shapes : Fin 3 → List Shape) :
    Except CompareError ((Fin 3 → Plan) × List Bool) := do
  let plan0 ← comparePlan (value 0) 0 (shapes 0)
  let plan1 ← comparePlan (value 1) 1 (shapes 1)
  let plan2 ← comparePlan (value 2) 2 (shapes 2)
  let bits ← compareBits lib value ![plan0, plan1, plan2]
  .ok (![plan0, plan1, plan2], bits)

-- ==================================================== what it is there for

/-- The difference fits in int64. -/
def Fits (x y : I64) : Prop :=
  -2 ^ 63 ≤ x.toInt - y.toInt ∧ x.toInt - y.toInt < 2 ^ 63

instance (x y : I64) : Decidable (Fits x y) :=
  inferInstanceAs (Decidable (_ ∧ _))

/-- The two parties `p` and `q` with a matrix each, the third without. -/
def twoValues (p q : Fin 3) (a b : DenseMatrix) (i : Fin 3) :
    Option DenseMatrix :=
  if i = p then some a else if i = q then some b else none

/-- What a comparison owes: however the parties were scheduled, when none
of them can go on in the exchange, nobody has raised and nobody will, all
three agree on the shapes, the element count and the order of the two
inputs, and the bits tell where `a` is smaller. -/
def ComparesRight (lib : BinLib) (p q : Fin 3) (a b : DenseMatrix) : Prop :=
  let value := twoValues p q a b
  let step := shapeStep (announced value) fun i => (value i).isSome
  ∀ schedule s, Lib.run step .init schedule = some s →
    (∀ i, step s i = none) →
    (∀ i, s.raised i = none)
    ∧ ∃ plans bits, mpcCompare lib value s.shapes = .ok (plans, bits)
      ∧ (∀ i, (plans i).first = a.shape ∧ (plans i).second = b.shape
        ∧ (plans i).numElem = a.shape.rows * a.shape.cols
        ∧ (plans i).shares
          = [if i = p then .localBinMatrix else .remoteBinMatrix,
              if i = q then .localBinMatrix else .remoteBinMatrix])
      ∧ bits = List.zipWith (fun x y => decide (x.toInt < y.toInt))
          a.data b.data

end PrimiHub.Aby3
