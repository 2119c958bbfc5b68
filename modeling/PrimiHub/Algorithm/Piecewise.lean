/-
The shared piecewise engine of `algorithm/aby3ML.h`: `logisticFunc` and
every overload of `lt` write their thresholds and coefficients into the
one member `mLogistic` and evaluate it, `gt` and `Sign` by way of `lt`.

`Sh3Piecewise` belongs to aby3. It evaluates, at each input, the
polynomial of the interval the input lies in, and a coefficient that is
not there is 0. A value is an element of an ordered field here: secret
sharing and fixed point are the engine's business, and nothing below
depends on them. Vectors are lists, `resize` cuts them off or fills them
up with zeros or empty lists.
-/
import Mathlib.Algebra.Order.Field.Basic
import Mathlib.Data.List.Basic

namespace PrimiHub.Algorithm

-- ============================================================= the engine

/-- `Sh3Piecewise`. -/
structure Sh3Piecewise (K : Type) where
  /-- `mThresholds` -/
  thresholds : List K
  /-- `mCoefficients`: of each interval, the constant first -/
  coefficients : List (List K)
  deriving DecidableEq, Repr

/-- `std::vector::resize`. -/
def resize {α : Type} (n : Nat) (fill : α) (xs : List α) : List α :=
  xs.take n ++ List.replicate (n - xs.length) fill

variable {K : Type} [Field K] [LinearOrder K]

namespace Sh3Piecewise

/-- An engine as it is constructed. -/
def init : Sh3Piecewise K := ⟨[], []⟩

/-- The polynomial with these coefficients. -/
def polynomial (coefficients : List K) (x : K) : K :=
  coefficients.foldr (fun c rest => c + x * rest) 0

/-- The interval of `x`: the number of the first threshold above it. -/
def interval (e : Sh3Piecewise K) (x : K) : Nat :=
  e.thresholds.findIdx (x < ·)

/-- `Sh3Piecewise::eval` at one input. -/
def eval (e : Sh3Piecewise K) (x : K) : K :=
  polynomial ((e.coefficients[e.interval x]?).getD []) x

/-- How `logisticFunc` prepares the engine. -/
def configureLogistic (e : Sh3Piecewise K) : Sh3Piecewise K :=
  if e.thresholds.length = 0 then
    let coefficients := resize 3 [] e.coefficients
    let coefficients := coefficients.set 1
      (((resize 2 0 ((coefficients[1]?).getD [])).set 0 (1 / 2)).set 1 1)
    let coefficients := coefficients.set 2
      ((resize 1 0 ((coefficients[2]?).getD [])).set 0 1)
    ⟨((resize 2 0 e.thresholds).set 0 (-(1 / 2))).set 1 (1 / 2), coefficients⟩
  else e

/-- How `lt` prepares it. -/
def configureLt (e : Sh3Piecewise K) (threshold : K) : Sh3Piecewise K :=
  let coefficients := resize 2 [] e.coefficients
  ⟨(resize 1 0 e.thresholds).set 0 threshold,
    coefficients.set 0 ((resize 1 0 ((coefficients[0]?).getD [])).set 0 1)⟩

-- ============================================================= operations

/-- `aby3ML::logisticFunc`. -/
def logisticFunc (e : Sh3Piecewise K) (ys : List K) :
    List K × Sh3Piecewise K :=
  let e := e.configureLogistic
  (ys.map e.eval, e)

/-- `aby3ML::lt(Y, threshold)` on a shared matrix, of either kind. -/
def ltMatrix (e : Sh3Piecewise K) (ys : List K) (threshold : K) :
    List K × Sh3Piecewise K :=
  let e := e.configureLt threshold
  (ys.map e.eval, e)

/-- `aby3ML::lt(X, threshold)` on a shared value. -/
def ltScalar (e : Sh3Piecewise K) (x threshold : K) : Bool × Sh3Piecewise K :=
  let (out, e) := e.ltMatrix [x] threshold
  (out ≠ [0], e)

/-- `aby3ML::lt(X, Y)` on two shared values. -/
def ltPair (e : Sh3Piecewise K) (x y : K) : Bool × Sh3Piecewise K :=
  let (out, e) := e.ltMatrix [x - y] 0
  (out ≠ [0], e)

/-- `aby3ML::gt`. -/
def gt (e : Sh3Piecewise K) (x threshold : K) : Bool × Sh3Piecewise K :=
  let (ltFlag, e) := e.ltScalar x threshold
  (if ltFlag then false else !decide (x = 0), e)

/-- `aby3ML::Sign`. -/
def sign (e : Sh3Piecewise K) (x : K) : Int × Sh3Piecewise K :=
  let (ltFlag, e) := e.ltScalar x 0
  (if ltFlag then -1 else if x = 0 then 0 else 1, e)

end Sh3Piecewise

-- ============================================================= the states

/-- The engine `logisticFunc` means. -/
def logisticEngine : Sh3Piecewise K :=
  ⟨[-(1 / 2), 1 / 2], [[], [1 / 2, 1], [1]]⟩

/-- The engine after an `lt`, with the coefficients of its second
interval. -/
def ltEngine (threshold : K) (second : List K) : Sh3Piecewise K :=
  ⟨[threshold], [[1], second]⟩

-- =============================================================== histories

/-- A call, with its arguments. -/
inductive EngineCall (K : Type)
  | logisticFunc (ys : List K)
  | ltMatrix (ys : List K) (threshold : K)
  | ltScalar (x threshold : K)
  | ltPair (x y : K)
  | gt (x threshold : K)
  | sign (x : K)

/-- The engine after a call. -/
def afterCall (e : Sh3Piecewise K) : EngineCall K → Sh3Piecewise K
  | .logisticFunc ys => (e.logisticFunc ys).2
  | .ltMatrix ys threshold => (e.ltMatrix ys threshold).2
  | .ltScalar x threshold => (e.ltScalar x threshold).2
  | .ltPair x y => (e.ltPair x y).2
  | .gt x threshold => (e.gt x threshold).2
  | .sign x => (e.sign x).2

/-- The engine after a history of calls. -/
def afterCalls (history : List (EngineCall K)) : Sh3Piecewise K :=
  history.foldl afterCall .init

/-- Whether a call is one to `logisticFunc`. -/
def EngineCall.isLogistic : EngineCall K → Bool
  | .logisticFunc _ => true
  | _ => false

-- =============================================== what they are there for

/-- The piecewise logistic function. -/
def logistic (x : K) : K :=
  if x < -(1 / 2) then 0 else if x < 1 / 2 then x + 1 / 2 else 1

/-- `logisticFunc` is right on every input. -/
def LogisticRight (e : Sh3Piecewise K) : Prop :=
  ∀ ys, (e.logisticFunc ys).1 = ys.map logistic

/-- Every overload of `lt` is right on every input. -/
def LtRight (e : Sh3Piecewise K) : Prop :=
  (∀ ys threshold, (e.ltMatrix ys threshold).1
      = ys.map fun y => if y < threshold then 1 else 0)
    ∧ (∀ x threshold, (e.ltScalar x threshold).1 = decide (x < threshold))
    ∧ ∀ x y, (e.ltPair x y).1 = decide (x < y)

end PrimiHub.Algorithm
