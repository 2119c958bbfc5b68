/-
The expression compiler of `executor/express.cc`: `parseExpress`,
`checkExpress` and `importExpress`.

# The scanner

`parseExpress` walks the expression once. Its loop body looks at one
character, except for a minus sign that it takes for a sign: one at the
very start makes an inner loop swallow everything up to the next
operator, one directly after `(` makes an inner loop swallow everything
up to the next `)`. Both inner loops only append to `temp`, so they are
modelled as modes of one machine that reads one character per step:
`Mode` says which of the three loops is running.

The inner loops test no bound. When the character they wait for does not
come, they read past the end of the string; that is `Fault.undefined`.

# Stacks

`suffix_stk_` is used twice: as the operator stack during the scan, and
for the finished postfix form. It is a list with its top first. `stk2`
is a list with its bottom first, since moving it onto `suffix_stk_`
turns it around.
-/
import Mathlib.Algebra.Ring.Nat

namespace PrimiHub.Executor

/-- `std::string`. -/
abbrev Str := List Char

/-- How a method of the executors ends other than by returning 0. -/
inductive Fault
  /-- `RaiseException` with its message. -/
  | raised (message : Str)
  /-- A non-zero return code. -/
  | returned (code : Int)
  /-- Behaviour that C++ leaves undefined. -/
  | undefined
  /-- A matrix whose shape the sharing library does not accept. -/
  | shape
deriving DecidableEq

-- ======================================================== characters

/-- `isOperator(char)`. -/
def isOperator (op : Char) : Bool :=
  op == '+' || op == '-' || op == '*' || op == '/'

/-- `isOperator(const std::string&)`. -/
def isOperatorToken (op : Str) : Bool :=
  op == ['+'] || op == ['-'] || op == ['*'] || op == ['/']

/-- `Priority`. -/
def priority (op : Char) : Nat :=
  if op = '+' then 1
  else if op = '-' then 1
  else if op = '*' then 2
  else if op = '/' then 2
  else 0

/-- `c_str()[0]`, which is the terminator for an empty string. -/
def firstChar (token : Str) : Char := token.headD '\x00'

-- ============================================================ parsing

/-- Which loop of `parseExpress` reads the next character. -/
inductive Mode
  /-- The outer loop. -/
  | outer
  /-- `while (!isOperator(expr[i]))`, after a leading minus. -/
  | untilOperator
  /-- `while (expr[i] != ')')`, after a minus behind `(`. -/
  | untilClose
deriving DecidableEq

/-- The variables of `parseExpress` before the character at `i`; `prev`
is `expr[i - 1]`, and `none` at the start. -/
@[ext] structure Scan where
  prev : Option Char
  mode : Mode
  temp : Str
  stk2 : List Str
  suffixStk : List Str

/-- `if (!temp.empty()) stk2.push(temp)`. -/
def flush (temp : Str) (stk2 : List Str) : List Str :=
  if temp = [] then stk2 else stk2 ++ [temp]

/-- The `while (1)` of an operator `op`: operators of at least its
priority move to `stk2`, then `op` is pushed. Returns `suffix_stk_` and
`stk2`. -/
def pushOperator (op : Char) : List Str → List Str → List Str × List Str
  | [], stk2 => ([[op]], stk2)
  | top :: rest, stk2 =>
      if firstChar top = '(' then ([op] :: top :: rest, stk2)
      else if priority op > priority (firstChar top) then
        ([op] :: top :: rest, stk2)
      else pushOperator op rest (stk2 ++ [top])

/-- The loop of a `)`: operators move to `stk2` down to the `(`, which
is dropped. `temp` is pushed by the first operator moved, and is kept
when there is none. Returns `suffix_stk_`, `temp` and `stk2`. -/
def closeBracket : List Str → Str → List Str → List Str × Str × List Str
  | [], temp, stk2 => ([], temp, stk2)
  | top :: rest, temp, stk2 =>
      if firstChar top = '(' then (rest, temp, stk2)
      else closeBracket rest [] (flush temp stk2 ++ [top])

/-- The branches of the outer loop for a character that is no sign. -/
def Scan.token (s : Scan) (c : Char) : Scan :=
  if isOperator c then
    let r := pushOperator c s.suffixStk (flush s.temp s.stk2)
    { s with temp := [], stk2 := r.2, suffixStk := r.1 }
  else if c = '(' then { s with suffixStk := [c] :: s.suffixStk }
  else if c = ')' then
    let r := closeBracket s.suffixStk s.temp s.stk2
    { s with temp := r.2.1, stk2 := r.2.2, suffixStk := r.1 }
  else { s with temp := s.temp ++ [c] }

/-- The body of the outer loop. -/
def Scan.body (s : Scan) (c : Char) : Scan :=
  if c = '-' ∧ s.prev = none then
    { s with temp := s.temp ++ [c], mode := .untilOperator }
  else if c = '-' ∧ s.prev = some '(' then
    { s with temp := s.temp ++ [c], mode := .untilClose }
  else s.token c

/-- Append to `temp`, as both inner loops do. -/
def Scan.append (s : Scan) (c : Char) : Scan :=
  { s with temp := s.temp ++ [c] }

/-- One character, in whichever loop is running. An inner loop that stops
leaves its last character to the outer loop. -/
def Scan.read (s : Scan) (c : Char) : Scan :=
  match s.mode with
  | .outer => s.body c
  | .untilOperator =>
      if isOperator c then { s with mode := .outer }.body c else s.append c
  | .untilClose =>
      if c = ')' then { s with mode := .outer }.body c else s.append c

/-- `read`, and on to the next index. -/
def Scan.step (s : Scan) (c : Char) : Scan :=
  { s.read c with prev := some c }

/-- The variables before the first character. -/
def Scan.start (suffixStk : List Str) : Scan :=
  ⟨none, .outer, [], [], suffixStk⟩

/-- `parseExpress`, from the `suffix_stk_` it finds to the one it
leaves. -/
def parseExpress (expr : Str) (suffixStk : List Str) :
    Except Fault (List Str) :=
  let s := expr.foldl Scan.step (Scan.start suffixStk)
  match s.mode with
  | .outer => .ok (flush s.temp s.stk2 ++ s.suffixStk)
  | .untilOperator => .error .undefined
  | .untilClose => .error .undefined

-- =========================================================== checking

/-- `checkExpress` on the tokens of `suffix_stk_`. The operators are
counted in a `uint16_t`. -/
def checkExpress (suffixVec : List Str) : Bool :=
  let numOp := suffixVec.countP isOperatorToken % 2 ^ 16
  !suffixVec.any (fun str => str == ['('] || str == [')'])
    && suffixVec.length - numOp == numOp + 1
    && !suffixVec.any (fun str => str.contains '(' || str.contains ')')

/-- The part of `MPCExpressExecutor` that `importExpress` works on. -/
structure Compiler where
  suffixStk : List Str
  expr : Str

/-- A new executor. -/
def Compiler.fresh : Compiler := ⟨[], []⟩

/-- `importExpress`: the return code and the executor after the call. A
rejected expression leaves its tokens on `suffix_stk_`. -/
def importExpress (expr : Str) (ex : Compiler) :
    Except Fault (Int × Compiler) := do
  let suffixStk ← parseExpress expr ex.suffixStk
  if checkExpress suffixStk then .ok (0, ⟨suffixStk, expr⟩)
  else .ok (-1, { ex with suffixStk := suffixStk })

end PrimiHub.Executor
