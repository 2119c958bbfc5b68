/-
`parseExpress` by its index: which places of the expression it reads.

The scan of `Parse.lean` is given its characters one by one. Here the
loops fetch them: `Cursor` has the index `i` that all three loops share,
and one `step` is one round of the loop that is running, so a loop that
leaves a character to the outer one stays at its index. `expr[i]` reads
the characters of the expression, the terminator behind them, and behind
that whatever the memory holds, which is a parameter.
-/
import Mathlib.Computability.StateTransition
import PrimiHub.Executor.Parse

namespace PrimiHub.Executor

open StateTransition

/-- `expr[k]`. -/
def charAt (expr : Str) (beyond : Nat → Char) (k : Nat) : Char :=
  if k < expr.length then expr.getD k '\x00'
  else if k = expr.length then '\x00'
  else beyond k

/-- The variables of `parseExpress`, and the indices it has read, the last
one first. -/
@[ext] structure Cursor where
  i : Nat
  mode : Mode
  temp : Str
  stk2 : List Str
  suffixStk : List Str
  reads : List Nat

/-- The variables before the first round. -/
def Cursor.start (suffixStk : List Str) : Cursor :=
  ⟨0, .outer, [], [], suffixStk, []⟩

/-- An index is read. -/
def Cursor.look (c : Cursor) (k : Nat) : Cursor :=
  { c with reads := k :: c.reads }

/-- The branches for a character that is no sign. -/
def Cursor.token (c : Cursor) (char : Char) : Cursor :=
  let s := Scan.token ⟨none, c.mode, c.temp, c.stk2, c.suffixStk⟩ char
  { c with temp := s.temp, stk2 := s.stk2, suffixStk := s.suffixStk,
           i := c.i + 1 }

/-- A round of the outer loop inside the expression. -/
def Cursor.body (memory : Nat → Char) (c : Cursor) : Cursor :=
  let here := c.look c.i
  if memory c.i = '-' then
    if c.i = 0 then
      { here with temp := c.temp ++ [memory c.i], i := c.i + 1,
                  mode := .untilOperator }
    else
      let before := here.look (c.i - 1)
      if memory (c.i - 1) = '(' then { before with mode := .untilClose }
      else before.token (memory c.i)
  else here.token (memory c.i)

/-- A round of an inner loop, which ends at a character that `stop`
finds; the `i--` behind it and the `i++` of the outer loop cancel out. -/
def Cursor.inner (memory : Nat → Char) (stop : Char → Bool) (c : Cursor) :
    Cursor :=
  if stop (memory c.i) then { c.look c.i with mode := .outer }
  else { c.look c.i with temp := c.temp ++ [memory c.i], i := c.i + 1 }

/-- One round of the loop that is running; `none` where the outer loop
ends. -/
def Cursor.step (memory : Nat → Char) (length : Nat) (c : Cursor) :
    Option Cursor :=
  match c.mode with
  | .outer =>
      if length < c.i then none
      else if c.i = length then
        some { c with temp := [], stk2 := flush c.temp c.stk2,
                      i := c.i + 1 }
      else some (c.body memory)
  | .untilOperator => some (c.inner memory isOperator)
  | .untilClose => some (c.inner memory (· == ')'))

/-- The loops end, and have read no index behind the terminator. -/
def ParsesWithin (expr : Str) (beyond : Nat → Char)
    (suffixStk : List Str) : Prop :=
  ∃ last ∈ eval (Cursor.step (charAt expr beyond) expr.length)
      (.start suffixStk),
    ∀ k ∈ last.reads, k ≤ expr.length

/-- A leading minus has an operator somewhere behind it, and every `(-` a
`)`. -/
def SignsClose (expr : Str) : Prop :=
  (∀ rest, expr = '-' :: rest → ∃ c ∈ rest, isOperator c = true)
    ∧ ∀ front back, expr = front ++ '(' :: '-' :: back → ')' ∈ back

end PrimiHub.Executor
