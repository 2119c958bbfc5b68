/-
The secure evaluator of `executor/express.cc` in integer mode on the
shares themselves: `runMPCEvaluate` and `revealMPCResult` with the
operators of `operator/aby3_operator.cc` below them.

# What a party holds

`Evaluate.lean` takes a shared column for the vector it stands for. Here
it is what the parties have, three `si64Matrix` views of one column, and
an operator is what each party does to its own view: `MPC_Add` and
`MPC_Sub` of two views, and the constant operators at the party's own
number.

# The library

Sharing a column, `asyncDotMul` and revealing are protocols of the aby3
library, outside the repository. They enter as `RingLib`, with what they
are documented to do to a replicated sharing. They draw random numbers:
`Ω` is what one call draws, and a run takes the draws of every token
from a tape, so that a statement about all tapes is one about all
outcomes of the generators.

# The task

`arithmeticTask` is what `ArithmeticExecutor` of algorithm/arithmetic.cc
does with an expression: `loadParams` cuts the names of a comparison out
of the text before it knows whether there is one, `loadDataset` is the
one of `Algorithm/LoadDataset.lean`, run by each party on its own table,
and `execute` evaluates and reveals. It ignores the code of
`runMPCEvaluate`, but where this is not 0 there is no share to reveal, so
a fault ends the task here. A run in floating point mode is not modelled
and comes out as `none`.
-/
import PrimiHub.Algorithm.LoadDataset
import PrimiHub.Executor.Setup
import PrimiHub.Lib.Traverse

namespace PrimiHub.Executor.OnShares

open PrimiHub.Aby3 (Si64Matrix I64Matrix Sh3Lib Replicated)
open PrimiHub.Algorithm (cmpColumns isCmp)
open PrimiHub.Algorithm.ArithmeticExecutor (ExprTask MpcExec TableColumn
  loadDataset)

variable {D : Type} {Ω : Type}

-- ============================================================= columns

/-- The three parties' views of a shared column. -/
structure SharedColumn where
  rows : Nat
  view : Party → Si64Matrix rows 1

/-- The entries of a matrix with one column. -/
def colVec {r : Nat} (m : I64Matrix r 1) : List I64 := List.ofFn (m · 0)

/-- The views are a replicated sharing of the column. -/
def SharedColumn.Shares (m : SharedColumn) (vec : List I64) : Prop :=
  ∃ x : I64Matrix m.rows 1, Replicated m.view x ∧ colVec x = vec

/-- What the evaluator uses of the aby3 library besides the operators on
views: `localIntMatrix` with `remoteIntMatrix`, `asyncDotMul` and
`reveal`. -/
structure RingLib (Ω : Type) extends Sh3Lib where
  share : Ω → (Party → Nat) → List I64 → Except Fault SharedColumn
  asyncDotMul : ∀ {r : Nat}, Ω → (Party → Si64Matrix r 1) →
    (Party → Si64Matrix r 1) → Party → Si64Matrix r 1
  reveal : ∀ {r : Nat}, Party → (Party → Si64Matrix r 1) → I64Matrix r 1
  share_fit : ∀ {ω rows vec}, (∀ p, rows p = vec.length) →
    ∃ m, share ω rows vec = .ok m ∧ m.Shares vec
  share_misfit : ∀ {ω rows vec}, (¬∀ p, rows p = vec.length) →
    ∃ fault, share ω rows vec = .error fault
  asyncDotMul_replicated : ∀ {r : Nat} {ω} {v w : Party → Si64Matrix r 1}
    {x y : I64Matrix r 1}, Replicated v x → Replicated w y →
    Replicated (asyncDotMul ω v w) (Matrix.of fun i j => x i j * y i j)
  reveal_replicated : ∀ {r : Nat} {p} {v : Party → Si64Matrix r 1}
    {x : I64Matrix r 1}, Replicated v x → reveal p v = x

/-- What the calls of one token draw: for sharing the left operand and
the right one, and for the operator. -/
structure Draws (Ω : Type) where
  left : Ω
  right : Ω
  operator : Ω

variable (lib : RingLib Ω)

-- ============================================================== values

/-- The parties' values of one token: what `createTokenValue` makes of
an operand, or the views an operator leaves (type 6). -/
inductive Held
  | operand (val : JointValue)
  | share (m : SharedColumn)

/-- `constInt`, or the matrices behind `p_sh_val`. -/
inductive Operand
  | constInt (val : I64)
  | shared (m : SharedColumn)

/-- `createI64Shares` by the owner of the column and the two others. -/
def createI64Shares (ω : Ω) (valCount : Party → Nat) (vec : List I64) :
    Except Fault Operand := do
  let m ← lib.share ω valCount vec
  .ok (.shared m)

/-- How the operators prepare an operand. -/
def prepare (ω : Ω) (valCount : Party → Nat) : Held → Except Fault Operand
  | .share m => .ok (.shared m)
  | .operand val =>
      match val 0, val 1, val 2 with
      | .i64Vec vec, .remote, .remote => createI64Shares lib ω valCount vec
      | .remote, .i64Vec vec, .remote => createI64Shares lib ω valCount vec
      | .remote, .remote, .i64Vec vec => createI64Shares lib ω valCount vec
      | .i64Val k0, .i64Val k1, .i64Val k2 =>
          if k0 = k1 ∧ k1 = k2 then .ok (.constInt k0) else .error .undefined
      | _, _, _ => .error .undefined

-- =========================================================== operators

/-- An operator on two shared columns, which must have one shape. -/
def onRows (f : ∀ {r : Nat}, (Party → Si64Matrix r 1) →
      (Party → Si64Matrix r 1) → Party → Si64Matrix r 1)
    (m1 m2 : SharedColumn) : Except Fault SharedColumn :=
  if h : m1.rows = m2.rows then .ok ⟨m2.rows, f (h ▸ m1.view) m2.view⟩
  else .error .shape

/-- `MPC_Add` of the two views at every party. -/
def mpcAdd : SharedColumn → SharedColumn → Except Fault SharedColumn :=
  onRows fun v w p => (Aby3.mpcAdd lib.toSh3Lib [v p, w p]).get rfl

/-- `MPC_Sub` of one subtrahend. -/
def mpcSub : SharedColumn → SharedColumn → Except Fault SharedColumn :=
  onRows fun v w p => Aby3.mpcSub lib.toSh3Lib (v p) [w p]

/-- `MPC_Dot_Mul`. -/
def mpcDotMul (ω : Ω) : SharedColumn → SharedColumn →
    Except Fault SharedColumn :=
  onRows fun v w => lib.asyncDotMul ω v w

/-- `MPC_Add_Const` at every party. -/
def mpcAddConst (constInt : I64) (m : SharedColumn) : SharedColumn :=
  ⟨m.rows, fun p => Aby3.mpcAddConst p.val constInt (m.view p)⟩

/-- `MPC_Sub_Const` at every party. -/
def mpcSubConst (constInt : I64) (m : SharedColumn) (mode : Bool) :
    SharedColumn :=
  ⟨m.rows, fun p => Aby3.mpcSubConst p.val constInt (m.view p) mode⟩

/-- `MPC_Mul_Const` at every party. -/
def mpcMulConst (constInt : I64) (m : SharedColumn) : SharedColumn :=
  ⟨m.rows, fun p => Aby3.mpcMulConst lib.toSh3Lib constInt (m.view p)⟩

/-- The shape of `runMPCAddI64`, `runMPCSubI64` and `runMPCMulI64`. -/
def runMPCI64 (both : SharedColumn → SharedColumn → Except Fault SharedColumn)
    (constLeft constRight : I64 → SharedColumn → SharedColumn)
    (draws : Draws Ω) (valCount : Party → Nat) (val1 val2 : Held) :
    Except Fault Held := do
  let op1 ← prepare lib draws.left valCount val1
  let op2 ← prepare lib draws.right valCount val2
  match op1, op2 with
  | .shared m1, .shared m2 => do
      let res ← both m1 m2
      .ok (.share res)
  | .constInt k, .shared m => .ok (.share (constLeft k m))
  | .shared m, .constInt k => .ok (.share (constRight k m))
  | .constInt _, .constInt _ => .error .undefined

/-- `runMPCAddI64`. -/
def runMPCAddI64 : Draws Ω → (Party → Nat) → Held → Held →
    Except Fault Held :=
  runMPCI64 lib (mpcAdd lib) mpcAddConst mpcAddConst

/-- `runMPCSubI64`. -/
def runMPCSubI64 : Draws Ω → (Party → Nat) → Held → Held →
    Except Fault Held :=
  runMPCI64 lib (mpcSub lib) (mpcSubConst · · false) (mpcSubConst · · true)

/-- `runMPCMulI64`. -/
def runMPCMulI64 (draws : Draws Ω) : (Party → Nat) → Held → Held →
    Except Fault Held :=
  runMPCI64 lib (mpcDotMul lib draws.operator) (mpcMulConst lib)
    (mpcMulConst lib) draws

/-- The operator branches of `runMPCEvaluate` in integer mode. -/
def mpcOperator (draws : Draws Ω) (valCount : Party → Nat) (token : Str)
    (val1 val2 : Held) : Except Fault Held :=
  if token = ['+'] then runMPCAddI64 lib draws valCount val1 val2
  else if token = ['-'] then runMPCSubI64 lib draws valCount val1 val2
  else if token = ['*'] then runMPCMulI64 lib draws valCount val1 val2
  else .error .undefined

-- ================================================================ a run

/-- `createTokenValue` at the three parties. -/
def createHeld (env : Party → PartyEnv D) (token : Str) :
    Except Fault Held := do
  let val ← createJoint env token
  .ok (.operand val)

/-- `runMPCEvaluate` at the three parties; `tape i` is what the calls of
token `i` draw. -/
def runMPCEvaluate (env : Party → PartyEnv D) (tape : Nat → Draws Ω)
    (suffixStk : List Str) : Except Fault Held := do
  let s ← suffixStk.zipIdx.foldlM (fun s t =>
    Loop.step (createHeld env) (mpcOperator lib (tape t.2)
      fun p => (env p).feedDict.getColumnValuesCount) s t.1) ⟨[], [], []⟩
  s.final

/-- `revealMPCResult` at party `me`. -/
def revealMPCResult (parties : List Party) (me : Party) :
    Held → Except Fault (List I64)
  | .share m => .ok (parties.flatMap fun party =>
      if me = party then colVec (lib.reveal me m.view) else [])
  | .operand _ => .error .undefined

/-- The task at the three parties, from the columns to `val_vec` of
party `me`. -/
def secureRun (cast : I64 → D) (typeMap : Map TokenType)
    (columns : List Column) (tape : Nat → Draws Ω) (suffixStk : List Str)
    (parties : List Party) (me : Party) : Except Fault (List I64) := do
  let env0 ← partyEnv cast typeMap columns 0
  let env1 ← partyEnv cast typeMap columns 1
  let env2 ← partyEnv cast typeMap columns 2
  let val ← runMPCEvaluate lib ![env0, env1, env2] tape suffixStk
  revealMPCResult lib parties me val

-- ============================================================= the task

/-- `loadParams` on the expression: `substr` raises where a text is too
short to begin with the name of a comparison. -/
def loadParams (expr : Str) : Except Fault Unit :=
  match cmpColumns expr with
  | none => .error (.returned (-1))
  | some _ => .ok ()

/-- The task as party `p` receives it. -/
def atParty (task : ExprTask) (partyName : Party → Str) (p : Party) :
    ExprTask :=
  { task with partyName := partyName p, partyId := p.val }

/-- What the evaluator reads of an executor. -/
def envOf (exec : MpcExec D) : PartyEnv D :=
  ⟨exec.typeMap, exec.colConfig, exec.feedDict⟩

/-- `execute` at the three parties: `final_val_int64_` of party `me`. -/
def execute (execs : Party → MpcExec D) (tape : Nat → Draws Ω)
    (parties : List Party) (me : Party) : Except Fault (Option (List I64)) :=
  if (execs me).feedDict.floatRun then .ok none
  else do
    let val ← runMPCEvaluate lib (fun p => envOf (execs p)) tape
      (execs me).compiler.suffixStk
    let vec ← revealMPCResult lib parties me val
    .ok (some vec)

/-- `loadParams`, `loadDataset` and `execute` at the three parties, each
with the table its cursor has read. -/
def arithmeticTask (cast : I64 → D) (task : ExprTask)
    (partyName : Party → Str)
    (tables : Party → Option (List (TableColumn D))) (tape : Nat → Draws Ω)
    (parties : List Party) (me : Party) : Except Fault (Option (List I64)) := do
  loadParams task.expr
  let execs ← Lib.traverseFin fun p =>
    loadDataset cast (atParty task partyName p) (tables p)
  execute lib execs tape parties me

-- ===================================================== what it is there for

/-- An expression task over the columns of a pool. The text of a
comparison begins with CMP. -/
def exprTask {n : Nat} (pool : Pool n) (expr : Str)
    (not_cmp : isCmp expr = false) : ExprTask where
  partyName := []
  partyId := 0
  colAndOwner := pool.columns.map fun c => (c.name, c.owner.val)
  colAndDtype := pool.columns.map fun c => (c.name, false)
  expr := expr
  nodup_owner := by
    rw [List.map_map]
    exact pool.nodup
  nodup_dtype := by
    rw [List.map_map]
    exact pool.nodup
  not_cmp := not_cmp

/-- The table of party `p` has `n` rows, the party's own columns of the
pool, and integers wherever it has a column by the name of one; what else
it has does not matter. -/
structure Brings {n : Nat} (pool : Pool n) (p : Party)
    (table : List (TableColumn D)) : Prop where
  ne_nil : table ≠ []
  nodup : (table.map TableColumn.name).Nodup
  rows : ∀ col ∈ table, col.chunks.length = n
  own : ∀ c ∈ pool.columns, c.owner = p →
    ∃ col ∈ table, col.name = c.name ∧ col.chunks.ints = some c.values
  integers : ∀ col ∈ table, col.name ∈ pool.columns.map Column.name →
    ∃ vec, col.chunks.ints = some vec

end PrimiHub.Executor.OnShares
