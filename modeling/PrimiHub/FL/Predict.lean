/-
`predict` of the vertical logistic regression
(python/primihub/FL/logistic_regression/vfl_host.py and vfl_guest.py), from
the parties' tables to the table the host writes.

With PSI each party keeps the rows whose id is common (`sample_alignment`).
The guest sends one number for each row it kept, the host adds them to its
own by position. The predictions become columns of a new table and
`pd.concat(axis=1)` puts them beside the table as it was read, by the row
numbers of both.

What scaler and weights make of a row is a parameter, `VerticalModel`:
scaling, the product with the weights and the functions applied to the sum
work row by row.
-/
import PrimiHub.FL.Alignment

namespace PrimiHub.FL.Vertical

variable {ι β γ Z P : Type}

/-- The stored models of host and guest. -/
structure VerticalModel (β γ Z P : Type) where
  hostZ : β → Z
  guestZ : γ → Z
  /-- `pred_prob` and `pred_y`, from the host's part and the guest's. -/
  predict : Z → Z → P

/-- The prediction of a host's row with a guest's row. -/
def VerticalModel.score (model : VerticalModel β γ Z P) (a : Sample ι β)
    (b : Sample ι γ) : P :=
  model.predict (model.hostZ a.rest) (model.guestZ b.rest)

/-- A party's part of the PSI: its arguments and what it returns. -/
structure PsiRun (ι : Type) where
  dtype : IdDtype
  roles : Roles
  protocol : String
  intersection : List ι
  deriving DecidableEq, Repr

/-- What `predict` raises. -/
inductive PredictError
  | alignment (e : AlignmentError)
  /-- "Found array with 0 sample(s)" -/
  | noRows
  /-- "operands could not be broadcast together" -/
  | shapes
  deriving DecidableEq, Repr

/-- The rows left to a party: all of them where no PSI is configured. -/
def psiRows [DecidableEq ι] (psi : Option (PsiRun ι))
    (x : List (Sample ι β)) : Except PredictError (List (Sample ι β)) :=
  match psi with
  | none => .ok x
  | some run =>
      match sampleAlignment x run.dtype run.roles run.protocol
          run.intersection with
      | .error e => .error (.alignment e)
      | .ok (x, _) => .ok x

/-- `check_array`. -/
def checkArray {α : Type} (x : List α) : Except PredictError (List α) :=
  if x.isEmpty then .error .noRows else .ok x

/-- `LogisticRegressionGuest.predict`: what the guest sends. -/
def guestPredict [DecidableEq ι] (model : VerticalModel β γ Z P)
    (psi : Option (PsiRun ι)) (data : List (Sample ι γ)) :
    Except PredictError (List Z) := do
  let x ← psiRows psi data
  let x ← checkArray x
  pure (x.map fun row => model.guestZ row.rest)

/-- `compute_z` and `predict_prob`: the guest's numbers are added by
position, a single one to all rows. -/
def addGuestZ (model : VerticalModel β γ Z P) (z guestZ : List Z) :
    Except PredictError (List P) :=
  if z.length = guestZ.length then .ok (List.zipWith model.predict z guestZ)
  else
    match guestZ with
    | [one] => .ok (z.map fun z => model.predict z one)
    | _ => .error .shapes

/-- `pd.concat([left, right], axis=1)` of two tables with row numbers as
labels; what one of them does not have is missing. -/
def concatColumns {α α' : Type} (left : List α) (right : List α') :
    List (Option α × Option α') :=
  (List.range (max left.length right.length)).map fun i =>
    (left[i]?, right[i]?)

/-- `LogisticRegressionHost.predict`, when the guest has sent `guestZ`. -/
def hostPredict [DecidableEq ι] (model : VerticalModel β γ Z P)
    (psi : Option (PsiRun ι)) (originData : List (Sample ι β))
    (guestZ : List Z) :
    Except PredictError (List (Option (Sample ι β) × Option P)) := do
  let x ← psiRows psi originData
  let x ← checkArray x
  let result ← addGuestZ model (x.map fun row => model.hostZ row.rest) guestZ
  pure (concatColumns originData result)

/-- The prediction task: the table that the host writes. -/
def predict [DecidableEq ι] (model : VerticalModel β γ Z P)
    (psi : Option (PsiRun ι × PsiRun ι)) (host : List (Sample ι β))
    (guest : List (Sample ι γ)) :
    Except PredictError (List (Option (Sample ι β) × Option P)) := do
  let guestZ ← guestPredict model (psi.map Prod.snd) guest
  hostPredict model (psi.map Prod.fst) host guestZ

-- =========================================================== specification

/-- The PSI runs at both parties, for two parties and with types it
supports, and is exact. -/
structure PsiExact [DecidableEq ι] (psi : PsiRun ι × PsiRun ι)
    (host : List (Sample ι β)) (guest : List (Sample ι γ)) : Prop where
  hostRuns : ∃ x, psiRows (some psi.1) host = .ok x
  guestRuns : ∃ x, psiRows (some psi.2) guest = .ok x
  hostIds : ExactIntersection host guest psi.1.intersection
  guestIds : ExactIntersection host guest psi.2.intersection

/-- Each row of the host's table whose id the guest has carries the
prediction of this row with the guest's row of the same id, and the other
rows carry none. -/
structure Attributed (model : VerticalModel β γ Z P)
    (host : List (Sample ι β)) (guest : List (Sample ι γ))
    (out : List (Option (Sample ι β) × Option P)) : Prop where
  rows : out.map Prod.fst = host.map some
  common : ∀ (i : Nat) (a : Sample ι β) (b : Sample ι γ),
    host[i]? = some a → b ∈ guest → b.id = a.id →
    out[i]? = some (some a, some (model.score a b))
  other : ∀ (i : Nat) (a : Sample ι β), host[i]? = some a →
    a.id ∉ guest.map Sample.id → out[i]? = some (some a, none)

/-- The host's rows with a common id stand before the others. -/
def CommonFirst (host : List (Sample ι β)) (guest : List (Sample ι γ)) :
    Prop :=
  host.Pairwise fun a b =>
    b.id ∈ guest.map Sample.id → a.id ∈ guest.map Sample.id

/-- The rows of `x` a party works on, when `other` is the other party's
table. -/
def keptRows [DecidableEq ι] (psi : Bool) (other : List (Sample ι γ))
    (x : List (Sample ι β)) : List (Sample ι β) :=
  if psi then x.filter fun row => row.id ∈ other.map Sample.id else x

/-- What the tables have to be like for right predictions. -/
structure Predictable [DecidableEq ι] (psi : Bool)
    (model : VerticalModel β γ Z P) (host : List (Sample ι β))
    (guest : List (Sample ι γ)) : Prop where
  /-- there is a common id -/
  nonempty : ∃ a ∈ host, a.id ∈ guest.map Sample.id
  /-- without PSI the tables have the same ids -/
  sameIds : psi = false → host.length = guest.length
    ∧ ∀ a ∈ host, a.id ∈ guest.map Sample.id
  first : CommonFirst host guest
  /-- the guest's row at the same place predicts what the guest's row of
  the same id does -/
  places : ∀ (i : Nat) (a : Sample ι β) (b b' : Sample ι γ),
    (keptRows psi guest host)[i]? = some a →
    (keptRows psi host guest)[i]? = some b →
    b' ∈ guest → b'.id = a.id → model.score a b = model.score a b'

/-- The model tells the guest's rows apart. -/
def Distinguishes (model : VerticalModel β γ Z P) (host : List (Sample ι β))
    (guest : List (Sample ι γ)) : Prop :=
  ∀ a ∈ host, ∀ b ∈ guest, ∀ b' ∈ guest,
    model.score a b = model.score a b' → b.id = b'.id

end PrimiHub.FL.Vertical
