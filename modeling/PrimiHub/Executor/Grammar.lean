/-
Which strings are expressions, and what decides whether the compiler
takes a string for one.

`Derives` is the grammar of infix expressions over strings: operands
without operators and brackets, the four binary operators, balanced
brackets, and a minus sign at the start or directly behind a `(`.

The compiler has no grammar. It reads a character as part of an operand,
as an operator or as a bracket (`classify`), and accepts when operands
and operators balance. `operands` cuts a string into the operands it
counts, without its stacks: an operator ends an operand, and so does a
`)` if an operator stands in its own bracket before it; any other bracket
is passed over.
-/
import PrimiHub.Executor.Syntax

namespace PrimiHub.Executor

-- ============================================================== grammar

/-- The nonterminals. -/
inductive Phrase
  /-- an operand or a bracket -/
  | atom
  /-- atoms with binary operators between them -/
  | chain
  /-- a chain, with or without a minus sign before it -/
  | expression
deriving DecidableEq, Repr

/-- The strings of each nonterminal. -/
inductive Derives : Phrase → Str → Prop
  | operand {t : Str} (hne : t ≠ [])
      (h : ∀ c ∈ t, isOperator c = false ∧ c ≠ '(' ∧ c ≠ ')') :
      Derives .atom t
  | bracket {t : Str} (h : Derives .expression t) :
      Derives .atom ('(' :: (t ++ [')']))
  | single {t : Str} (h : Derives .atom t) : Derives .chain t
  | binary {t t' : Str} (op : BinOp) (h : Derives .chain t)
      (h' : Derives .atom t') : Derives .chain (t ++ op.char :: t')
  | plain {t : Str} (h : Derives .chain t) : Derives .expression t
  | signed {t : Str} (h : Derives .chain t) : Derives .expression ('-' :: t)

/-- A new executor does with the string what the grammar says: it
returns 0 for an expression, and -1 for any other string. -/
def Conforms (expr : Str) : Prop :=
  (Derives .expression expr ∧ ∃ ex, importExpress expr .fresh = .ok (0, ex))
    ∨ (¬ Derives .expression expr
      ∧ ∃ ex, importExpress expr .fresh = .ok (-1, ex))

-- ======================================================== classification

/-- What a character is read as. -/
inductive Part
  | char (c : Char)
  | op (c : Char)
  | opening
  | closing
deriving DecidableEq, Repr

/-- What the outer loop takes a character for, and the loop that reads
the next one. -/
def classifyOuter (prev : Option Char) (c : Char) : Part × Mode :=
  if c = '-' ∧ prev = none then (.char c, .untilOperator)
  else if c = '-' ∧ prev = some '(' then (.char c, .untilClose)
  else if isOperator c then (.op c, .outer)
  else if c = '(' then (.opening, .outer)
  else if c = ')' then (.closing, .outer)
  else (.char c, .outer)

/-- A leading minus takes all up to the next operator into its operand,
one behind a `(` all up to the next `)`. -/
def classify (prev : Option Char) : Mode → Char → Part × Mode
  | .outer, c => classifyOuter prev c
  | .untilOperator, c =>
      if isOperator c then classifyOuter prev c else (.char c, .untilOperator)
  | .untilClose, c =>
      if c = ')' then classifyOuter prev c else (.char c, .untilClose)

/-- The parts of a text. -/
def parts (prev : Option Char) (mode : Mode) : Str → List Part
  | [] => []
  | c :: rest =>
      (classify prev mode c).1
        :: parts (some c) (classify prev mode c).2 rest

/-- The loop that runs after a text. -/
def modeAfter (prev : Option Char) (mode : Mode) : Str → Mode
  | [] => mode
  | c :: rest => modeAfter (some c) (classify prev mode c).2 rest

/-- The parts of a whole string. -/
def readParts (expr : Str) : List Part := parts none .outer expr

-- =============================================================== counting

/-- Whether an operator stands in the bracket `depth` levels out, before
this point; `before` are the parts before it, the nearest first. -/
def operatorAt : Nat → List Part → Bool
  | _, [] => false
  | 0, .op _ :: _ => true
  | depth + 1, .op _ :: before => operatorAt (depth + 1) before
  | 0, .opening :: _ => false
  | depth + 1, .opening :: before => operatorAt depth before
  | depth, .closing :: before => operatorAt (depth + 1) before
  | depth, .char _ :: before => operatorAt depth before

/-- Whether the part ends the operand before it. -/
def endsOperand (before : List Part) : Part → Bool
  | .op _ => true
  | .closing => operatorAt 0 before
  | _ => false

/-- The operand after the part. -/
def nextOperand (before : List Part) (operand : Str) (p : Part) : Str :=
  match p with
  | .char c => operand ++ [c]
  | _ => if endsOperand before p then [] else operand

/-- The operands that end from here on; `operand` is what has been read
of the first one. -/
def operands (before : List Part) (operand : Str) : List Part → List Str
  | [] => flush operand []
  | p :: rest =>
      (if endsOperand before p then flush operand [] else [])
        ++ operands (p :: before) (nextOperand before operand p) rest

/-- The brackets still open, the nearest part first. -/
def unclosed : List Part → Nat
  | [] => 0
  | .opening :: before => unclosed before + 1
  | .closing :: before => unclosed before - 1
  | _ :: before => unclosed before

/-- The closing brackets that close nothing, the nearest part first. -/
def surplus : List Part → Nat
  | [] => 0
  | .closing :: before =>
      if unclosed before = 0 then surplus before + 1 else surplus before
  | _ :: before => surplus before

/-- The binary operators. -/
def operatorTokens : List Part → List Str
  | [] => []
  | .op c :: rest => [c] :: operatorTokens rest
  | _ :: rest => operatorTokens rest

-- ============================================================= conditions

/-- Every sign finds the character its loop waits for: a leading minus
an operator, a minus behind a `(` a `)`. -/
def SignsEnd (expr : Str) : Prop := modeAfter none .outer expr = .outer

/-- No operand has a bracket in it, which only a sign takes in. -/
def NoBracketTaken (ps : List Part) : Prop :=
  ∀ c, Part.char c ∈ ps → c ≠ '(' ∧ c ≠ ')'

/-- One operand more than operators; the count of operators is 16 bits
wide, and 131071 of them look like one less than none. -/
def Balance (operands operators : Nat) : Prop :=
  (operands = operators + 1 ∧ operators < 2 ^ 16)
    ∨ (operands = 0 ∧ operators = 2 ^ 17 - 1)

/-- Operands and operators balance, although a lone sign counts as an
operator, and no bracket is left open or taken into an operand. -/
structure Balanced (expr : Str) : Prop where
  closed : unclosed (readParts expr).reverse = 0
  untaken : NoBracketTaken (readParts expr)
  balance : Balance
    ((operands [] [] (readParts expr)).countP fun t => !isOperatorToken t)
    ((operands [] [] (readParts expr)).countP isOperatorToken
      + (operatorTokens (readParts expr)).length)

-- ================================================================= reuse

/-- What a call of `importExpress` shows: its code and `suffix_stk_`. -/
def shown (r : Int × Compiler) : Int × List Str := (r.1, r.2.suffixStk)

/-- The next expression comes out on the executor as it does on a new
one. -/
def Unaffected (ex : Compiler) (expr : Str) : Prop :=
  (importExpress expr ex).map shown = (importExpress expr .fresh).map shown

/-- Nothing but brackets. -/
def OnlyBrackets (expr : Str) : Prop := ∀ c ∈ expr, c = '(' ∨ c = ')'

end PrimiHub.Executor
