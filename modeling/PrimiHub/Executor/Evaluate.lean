/-
The two evaluators of `executor/express.cc` in integer mode
(`fp64_run_` is false): `LocalExpressExecutor::runLocalEvaluate` on
plaintext columns, and `MPCExpressExecutor::runMPCEvaluate` with
`revealMPCResult` on shares.

# One loop, two value domains

Both evaluators run the same loop over the compiled expression: a stack
of token names, a stack of values and a map from names to values, where
an operator replaces its two operands by the name `(a+b)` and the value
of the combination. They differ in what a value is, in how an operand
token becomes one and in what an operator does, so the loop is one
definition with these as parameters (`Loop.step`).

# Values

A `TokenValue` is a tagged union; reading a member that is not the one
set is undefined behaviour. Integer mode uses the tags 1, 3, 4 and 6.

# The three parties

The parties execute the same tokens in the same order, so one joint
machine steps all of them: a joint value is each party's `TokenValue`.
Secret sharing is ideal. A shared matrix is the vector it stands for, an
operation on shares yields the ring result, and all three hold the same
one. What stays is the repository's part: who inputs a column and who
receives it, how many rows each party gives the matrix it shares into,
which operand is a constant, and which operator call that leads to. The
step from a column to a share is the aby3 library's, outside the
repository; it enters as `ShareLib` with the one condition the library
puts on its callers, that every party's matrix has the column's shape.
-/
import Mathlib.Data.Fin.VecNotation
import PrimiHub.Aby3.Basic
import PrimiHub.Executor.Columns

namespace PrimiHub.Executor

-- ============================================================ the loop

/-- The variables of the evaluation loop: `stk1`, `val_stk` and
`token_val_map_`, stacks with their top first. -/
structure Loop (V : Type) where
  stk1 : List Str
  valStk : List V
  valMap : Map V

/-- One token of the loop. For an operator, `BeforeMPCRun` pops two names
and two values and `AfterMPCRun` pushes the new ones; popping an empty
`std::stack` is undefined. -/
def Loop.step {V : Type} (createTokenValue : Str → Except Fault V)
    (calculate : Str → V → V → Except Fault V) (s : Loop V) (token : Str) :
    Except Fault (Loop V) :=
  if isOperatorToken token then
    match s.stk1, s.valStk with
    | b :: a :: stk1, val2 :: val1 :: valStk => do
        let res ← calculate token val1 val2
        let newToken := '(' :: a ++ token ++ b ++ [')']
        .ok ⟨newToken :: stk1, res :: valStk, (newToken, res) :: s.valMap⟩
    | _, _ => .error .undefined
  else do
    let val ← createTokenValue token
    .ok ⟨token :: s.stk1, val :: s.valStk, (token, val) :: s.valMap⟩

/-- The names move back to `suffix_stk_`, which puts the lowest one on
top; it is looked up for the result. -/
def Loop.final {V : Type} (s : Loop V) : Except Fault V :=
  match s.stk1.getLast? with
  | none => .error .undefined
  | some finalToken =>
      match s.valMap.lookup finalToken with
      | none => .error .undefined
      | some val => .ok val

/-- The whole loop over a compiled expression, and its result. -/
def evaluate {V : Type} (createTokenValue : Str → Except Fault V)
    (calculate : Str → V → V → Except Fault V) (suffixStk : List Str) :
    Except Fault V := do
  let s ← suffixStk.foldlM (Loop.step createTokenValue calculate) ⟨[], [], []⟩
  s.final

-- ============================================================== values

/-- `isspace` in the C locale. -/
def isSpace (c : Char) : Bool := c == ' ' || (9 ≤ c.toNat && c.toNat ≤ 13)

/-- The number a run of decimal digits stands for. -/
def digitsValue (digits : Str) : Nat :=
  digits.foldl (fun acc c => 10 * acc + (c.toNat - '0'.toNat)) 0

/-- `atol`: white space, a sign and the digits that follow; the rest is
ignored. The result is undefined when it does not fit in `int64_t`. -/
def atol (token : Str) : Except Fault I64 :=
  let s := token.dropWhile isSpace
  let negative := s.head? == some '-'
  let digits := if s.head? = some '-' ∨ s.head? = some '+' then s.tail else s
  let magnitude := digitsValue (digits.takeWhile Char.isDigit)
  let val : Int := if negative then -magnitude else magnitude
  if -2 ^ 63 ≤ val ∧ val < 2 ^ 63 then .ok (BitVec.ofInt 64 val)
  else .error .undefined

/-- `TokenValue` in integer mode. -/
inductive TokenValue
  /-- Type 1: `i64_vec` is set. -/
  | i64Vec (vec : List I64)
  /-- Type 3: `i64_val` is set. -/
  | i64Val (val : I64)
  /-- Type 4: a remote column, nothing is set. -/
  | remote
  /-- Type 6: `sh_i64_m` is set. -/
  | shI64 (m : List I64)
deriving DecidableEq

-- ======================================================= local evaluator

/-- What `runLocalEvaluate` reads besides the expression: the run's token
types and the executor's own configuration and columns. -/
structure LocalEnv (D : Type) where
  typeMap : Map TokenType
  newColCfg : ColumnConfig
  newFeed : FeedDict D

variable {D : Type}

/-- `LocalExpressExecutor::createTokenValue` in integer mode. -/
def LocalEnv.createTokenValue (env : LocalEnv D) (token : Str) :
    Except Fault TokenValue :=
  match tokenType env.typeMap token with
  | .column => do
      let vec ← env.newFeed.getColumnValuesI64 env.newColCfg token
      .ok (.i64Vec vec)
  | .value => do
      let val ← atol token
      .ok (.i64Val val)

/-- The three cases of a local operator: the result has the length of
the column whose size is taken, and two columns are read at every index
of the first. Two constants take the branch of a constant on the left,
which reads the right one as a column. -/
def localCalculate (vecVec : I64 → I64 → I64) (valVec : I64 → I64 → I64)
    (vecVal : I64 → I64 → I64) :
    TokenValue → TokenValue → Except Fault TokenValue
  | .i64Vec vec1, .i64Vec vec2 =>
      if vec1.length ≤ vec2.length then
        .ok (.i64Vec (List.zipWith vecVec vec1 vec2))
      else .error .undefined
  | .i64Val val1, .i64Vec vec2 => .ok (.i64Vec (vec2.map (valVec val1)))
  | .i64Vec vec1, .i64Val val2 =>
      .ok (.i64Vec (vec1.map fun x => vecVal x val2))
  | _, _ => .error .undefined

/-- The `+` branch of `runLocalEvaluate`. -/
def localAdd : TokenValue → TokenValue → Except Fault TokenValue :=
  localCalculate (fun x y => x + y) (fun k y => k + y) (fun x k => k + x)

/-- The `-` branch. -/
def localSub : TokenValue → TokenValue → Except Fault TokenValue :=
  localCalculate (fun x y => x - y) (fun k y => k - y) (fun x k => x - k)

/-- The `*` branch. -/
def localMul : TokenValue → TokenValue → Except Fault TokenValue :=
  localCalculate (fun x y => x * y) (fun k y => k * y) (fun x k => x * k)

/-- The operator branches. The one of `/` reads the `double` members,
which integer mode never sets. -/
def localOperator (token : Str) (val1 val2 : TokenValue) :
    Except Fault TokenValue :=
  if token = ['+'] then localAdd val1 val2
  else if token = ['-'] then localSub val1 val2
  else if token = ['*'] then localMul val1 val2
  else .error .undefined

/-- The loop of `runLocalEvaluate` on a compiled expression, and the copy
of the result's `i64_vec` into `final_val_int64`. -/
def runLocalLoop (env : LocalEnv D) (suffixStk : List Str) :
    Except Fault (List I64) := do
  let val ← evaluate env.createTokenValue localOperator suffixStk
  match val with
  | .i64Vec vec => .ok vec
  | _ => .error .undefined

/-- `runLocalEvaluate`: parse `expr_` again, on the `suffix_stk_` the
executor holds, and run the loop. -/
def runLocalEvaluate (env : LocalEnv D) (ex : Compiler) :
    Except Fault (List I64) := do
  let suffixStk ← parseExpress ex.expr ex.suffixStk
  runLocalLoop env suffixStk

-- ====================================================== secure evaluator

/-- A party id. -/
abbrev Party := Fin 3

/-- What one party's `runMPCEvaluate` reads besides the expression. -/
structure PartyEnv (D : Type) where
  typeMap : Map TokenType
  colConfig : ColumnConfig
  feedDict : FeedDict D

/-- `MPCExpressExecutor::createTokenValue` in integer mode. -/
def PartyEnv.createTokenValue (env : PartyEnv D) (token : Str) :
    Except Fault TokenValue :=
  match tokenType env.typeMap token with
  | .column => do
      let isLocal ← env.colConfig.getColumnLocality token
      if isLocal = false then .ok .remote
      else do
        let vec ← env.feedDict.getColumnValuesI64 env.colConfig token
        .ok (.i64Vec vec)
  | .value => do
      let val ← atol token
      .ok (.i64Val val)

/-- Each party's value of one token. -/
abbrev JointValue := Party → TokenValue

/-- The three calls of `createTokenValue`. -/
def createJoint (env : Party → PartyEnv D) (token : Str) :
    Except Fault JointValue := do
  let v0 ← (env 0).createTokenValue token
  let v1 ← (env 1).createTokenValue token
  let v2 ← (env 2).createTokenValue token
  .ok ![v0, v1, v2]

/-- An operand of `runMPCAddI64` and its siblings once it is prepared:
`constInt`, or the matrix behind `p_sh_val`. -/
inductive Operand
  | constInt (val : I64)
  | shared (m : List I64)

/-- `Sh3Encryptor::localIntMatrix` at the owner of a column together with
`remoteIntMatrix` at the two others, given the rows of the matrix each
party hands in: all three get a share of the column if their matrices
have its rows, and the call fails if one of them does not. -/
structure ShareLib where
  share : (Party → Nat) → List I64 → Except Fault (List I64)
  share_fit : ∀ {rows vec}, (∀ p, rows p = vec.length) →
    share rows vec = .ok vec
  share_misfit : ∀ {rows vec}, (¬∀ p, rows p = vec.length) →
    ∃ fault, share rows vec = .error fault

variable (lib : ShareLib)

/-- `createI64Shares` by the owner of the column and the two others: each
party has resized its matrix to its own `val_count` rows. -/
def createI64Shares (valCount : Party → Nat) (vec : List I64) :
    Except Fault Operand := do
  let m ← lib.share valCount vec
  .ok (.shared m)

/-- How `runMPCAddI64`, `runMPCSubI64` and `runMPCMulI64` prepare one
operand. A column is shared by the one party that has its values; a
constant is the same at all three; a share is one they already hold. -/
def prepare (valCount : Party → Nat) (val : JointValue) :
    Except Fault Operand :=
  match val 0, val 1, val 2 with
  | .i64Vec vec, .remote, .remote => createI64Shares lib valCount vec
  | .remote, .i64Vec vec, .remote => createI64Shares lib valCount vec
  | .remote, .remote, .i64Vec vec => createI64Shares lib valCount vec
  | .i64Val k0, .i64Val k1, .i64Val k2 =>
      if k0 = k1 ∧ k1 = k2 then .ok (.constInt k0) else .error .undefined
  | .shI64 m0, .shI64 m1, .shI64 m2 =>
      if m0 = m1 ∧ m1 = m2 then .ok (.shared m0) else .error .undefined
  | _, _, _ => .error .undefined

/-- An operator on two shared matrices, which must have one shape. -/
def sharedBinary (f : I64 → I64 → I64) (m1 m2 : List I64) :
    Except Fault (List I64) :=
  if m1.length = m2.length then .ok (List.zipWith f m1 m2)
  else .error .shape

/-- `MPC_Add` of two matrices, `MPC_Sub` of one subtrahend and
`MPC_Dot_Mul`, on ideal shares. -/
def mpcAdd : List I64 → List I64 → Except Fault (List I64) :=
  sharedBinary fun x y => x + y

@[inherit_doc mpcAdd]
def mpcSub : List I64 → List I64 → Except Fault (List I64) :=
  sharedBinary fun x y => x - y

@[inherit_doc mpcAdd]
def mpcDotMul : List I64 → List I64 → Except Fault (List I64) :=
  sharedBinary fun x y => x * y

/-- `MPC_Add_Const`. -/
def mpcAddConst (constInt : I64) (m : List I64) : List I64 :=
  m.map fun x => x + constInt

/-- `MPC_Sub_Const`: the constant is the subtrahend if `mode` is set and
the minuend if it is not. -/
def mpcSubConst (constInt : I64) (m : List I64) (mode : Bool) : List I64 :=
  m.map fun x => if mode then x - constInt else constInt - x

/-- `MPC_Mul_Const`. -/
def mpcMulConst (constInt : I64) (m : List I64) : List I64 :=
  m.map fun x => constInt * x

/-- The shape of `runMPCAddI64`, `runMPCSubI64` and `runMPCMulI64`: two
shares, a constant on the left or a constant on the right. Two constants
take the branch of a constant on the left with a null matrix. -/
def runMPCI64 (both : List I64 → List I64 → Except Fault (List I64))
    (constLeft constRight : I64 → List I64 → List I64)
    (valCount : Party → Nat) (val1 val2 : JointValue) :
    Except Fault JointValue := do
  let op1 ← prepare lib valCount val1
  let op2 ← prepare lib valCount val2
  match op1, op2 with
  | .shared m1, .shared m2 => do
      let res ← both m1 m2
      .ok fun _ => .shI64 res
  | .constInt k, .shared m => .ok fun _ => .shI64 (constLeft k m)
  | .shared m, .constInt k => .ok fun _ => .shI64 (constRight k m)
  | .constInt _, .constInt _ => .error .undefined

/-- `runMPCAddI64`. -/
def runMPCAddI64 : (Party → Nat) → JointValue → JointValue →
    Except Fault JointValue :=
  runMPCI64 lib mpcAdd mpcAddConst mpcAddConst

/-- `runMPCSubI64`. -/
def runMPCSubI64 : (Party → Nat) → JointValue → JointValue →
    Except Fault JointValue :=
  runMPCI64 lib mpcSub (mpcSubConst · · false) (mpcSubConst · · true)

/-- `runMPCMulI64`. -/
def runMPCMulI64 : (Party → Nat) → JointValue → JointValue →
    Except Fault JointValue :=
  runMPCI64 lib mpcDotMul mpcMulConst mpcMulConst

/-- The operator branches of `runMPCEvaluate`. The one of `/` works on
the members of floating point mode, which integer mode never sets. -/
def mpcOperator (valCount : Party → Nat) (token : Str)
    (val1 val2 : JointValue) : Except Fault JointValue :=
  if token = ['+'] then runMPCAddI64 lib valCount val1 val2
  else if token = ['-'] then runMPCSubI64 lib valCount val1 val2
  else if token = ['*'] then runMPCMulI64 lib valCount val1 val2
  else .error .undefined

/-- `runMPCEvaluate` at all three parties, and the value that
`revealMPCResult` finds for the final token. -/
def runMPCEvaluate (env : Party → PartyEnv D) (suffixStk : List Str) :
    Except Fault JointValue :=
  evaluate (createJoint env)
    (mpcOperator lib fun p => (env p).feedDict.getColumnValuesCount) suffixStk

/-- `revealMPCResult` with `val_vec` of party `me`: the final value is
used as a share at every party whatever its type is, and `val_vec` grows
by the result each time the party is listed. -/
def revealMPCResult (parties : List Party) (me : Party) (val : JointValue) :
    Except Fault (List I64) :=
  match val 0, val 1, val 2 with
  | .shI64 m0, .shI64 m1, .shI64 m2 =>
      if m0 = m1 ∧ m1 = m2 then
        .ok (parties.flatMap fun party => if me = party then m0 else [])
      else .error .undefined
  | _, _, _ => .error .undefined

end PrimiHub.Executor
