/-
Infix expressions as users write them: syntax trees, their text, their
postfix form and their value. This is what the compiler and the local
evaluator are measured against, and nothing in this file is taken from
their code.

A tree is well formed when its text reads back as the tree: `*` and `/`
bind tighter than `+` and `-`, operators of one level associate to the
left, and a unary minus binds tighter than both and stands only at the
start of the expression or of a bracket.

The token language of the compiler has no unary operator. The postfix
form of a negated number is the number with its sign; any other negation
is a subtraction from 0.
-/
import Mathlib.Data.Nat.Digits.Defs
import PrimiHub.Executor.Columns

namespace PrimiHub.Executor

-- ============================================================== tokens

/-- The binary operators. -/
inductive BinOp
  | add
  | sub
  | mul
  | div
deriving DecidableEq

/-- How an operator is written. -/
def BinOp.char : BinOp → Char
  | .add => '+'
  | .sub => '-'
  | .mul => '*'
  | .div => '/'

/-- How tightly an operator binds. -/
def BinOp.prec : BinOp → Nat
  | .add => 1
  | .sub => 1
  | .mul => 2
  | .div => 2

/-- A column name has no operator and no bracket in it, and is not made
of digits and points only. -/
structure ColumnName where
  text : Str
  plain : ∀ c ∈ text, isOperator c = false ∧ c ≠ '(' ∧ c ≠ ')'
  named : ∃ c ∈ text, c.isDigit = false ∧ c ≠ '.'

/-- A numeric literal: digits, and after a point more digits. -/
structure Literal where
  whole : List (Fin 10)
  frac : List (Fin 10)
  whole_ne_nil : whole ≠ []

/-- The text of a run of digits. -/
def digitChars (digits : List (Fin 10)) : Str :=
  digits.map fun d : Fin 10 => Nat.digitChar d.val

/-- How a literal is written. -/
def Literal.text (l : Literal) : Str :=
  digitChars l.whole ++ if l.frac = [] then [] else '.' :: digitChars l.frac

/-- The number before the point, most significant digit first. -/
def Literal.value (l : Literal) : Nat :=
  Nat.ofDigits 10 (l.whole.reverse.map fun d : Fin 10 => d.val)

-- =============================================================== trees

inductive Expr
  | col (c : ColumnName)
  | lit (l : Literal)
  | neg (e : Expr)
  | paren (e : Expr)
  | bin (op : BinOp) (l r : Expr)

namespace Expr

/-- The text of a tree. -/
def render : Expr → Str
  | .col c => c.text
  | .lit l => l.text
  | .neg e => '-' :: e.render
  | .paren e => '(' :: e.render ++ [')']
  | .bin op l r => l.render ++ op.char :: r.render

/-- How tightly the outermost construct binds. -/
def prec : Expr → Nat
  | .bin op _ _ => op.prec
  | _ => 3

/-- The tree is what its text says; `start` tells whether it begins the
expression or a bracket. -/
def WellFormed : Bool → Expr → Prop
  | _, .col _ => True
  | _, .lit _ => True
  | start, .neg e => start = true ∧ e.prec = 3 ∧ e.WellFormed false
  | _, .paren e => e.WellFormed true
  | start, .bin op l r =>
      op.prec ≤ l.prec ∧ op.prec < r.prec
        ∧ l.WellFormed start ∧ r.WellFormed false

/-- The postfix form of a tree. -/
def postfixForm : Expr → List Str
  | .col c => [c.text]
  | .lit l => [l.text]
  | .neg (.lit l) => ['-' :: l.text]
  | .neg e => ['0'] :: e.postfixForm ++ [['-']]
  | .paren e => e.postfixForm
  | .bin op l r => l.postfixForm ++ r.postfixForm ++ [[op.char]]

/-- The value of a tree in one row of the columns, in the ring
Z/2^64. -/
def denote (row : Str → I64) : Expr → I64
  | .col c => row c.text
  | .lit l => BitVec.ofNat 64 l.value
  | .neg e => -e.denote row
  | .paren e => e.denote row
  | .bin .add l r => l.denote row + r.denote row
  | .bin .sub l r => l.denote row - r.denote row
  | .bin .mul l r => l.denote row * r.denote row
  | .bin .div l r => BitVec.sdiv (l.denote row) (r.denote row)

/-- An expression of integer mode: no division and no literal with a
point. -/
def IntegerOnly : Expr → Prop
  | .col _ => True
  | .lit l => l.frac = []
  | .neg e => e.IntegerOnly
  | .paren e => e.IntegerOnly
  | .bin op l r => op ≠ .div ∧ l.IntegerOnly ∧ r.IntegerOnly

/-- The columns of a tree. -/
def columns : Expr → List ColumnName
  | .col c => [c]
  | .lit _ => []
  | .neg e => e.columns
  | .paren e => e.columns
  | .bin _ l r => l.columns ++ r.columns

/-- The numbers of a tree, as tokens: the literals, with the sign of
those that are negated. -/
def numbers : Expr → List Str
  | .col _ => []
  | .lit l => [l.text]
  | .neg (.lit l) => ['-' :: l.text]
  | .neg e => ['0'] :: e.numbers
  | .paren e => e.numbers
  | .bin _ l r => l.numbers ++ r.numbers

/-- The number of binary operators of a tree. -/
def operators : Expr → Nat
  | .col _ => 0
  | .lit _ => 0
  | .neg e => e.operators
  | .paren e => e.operators
  | .bin _ l r => l.operators + r.operators + 1

end Expr

end PrimiHub.Executor
