/-
`sample_alignment` (python/primihub/FL/psi/psi.py): each party of a
vertical learning task keeps the rows of its own table whose id is in the
intersection.

A table is its rows in order. The PSI itself is outside and gives each
party the common ids, in an order of its own; what a party does with them
is `X[input.isin(intersection)]`, a filter. `roles.copy()` copies the
dictionary and not the list of guests in it, so `guest.append(host)`
changes the caller's roles when they hold a list: the roles after the
call are part of the result.
-/
import Mathlib.Data.List.Basic

namespace PrimiHub.FL

/-- A row: the id column and the rest. -/
structure Sample (ι β : Type) where
  id : ι
  rest : β
  deriving DecidableEq, Repr

/-- `roles["guest"]`, a name or a list of names. -/
inductive Guests
  | name (guest : String)
  | names (guests : List String)
  deriving DecidableEq, Repr

/-- The roles of a task. -/
structure Roles where
  host : String
  guest : Guests
  deriving DecidableEq, Repr

/-- `guest`, made a list. -/
def Guests.toList : Guests → List String
  | .name guest => [guest]
  | .names guests => guests

/-- The caller's roles after `guest.append(host)`. -/
def Roles.appendHost (roles : Roles) : Roles :=
  match roles.guest with
  | .name _ => roles
  | .names guests => { roles with guest := .names (guests ++ [roles.host]) }

/-- What pandas says of the id column's type. -/
inductive IdDtype
  | integer
  | string
  | other (name : String)
  deriving DecidableEq, Repr

/-- `PsiType`. -/
inductive PsiProtocol
  | ecdh
  | kkrt
  deriving DecidableEq, Repr

/-- What `sample_alignment` raises. -/
inductive AlignmentError
  /-- "The current PSI only support two parties." -/
  | onlyTwoParties
  /-- "Invalid PSI protocol ..., use ... instead." -/
  | invalidProtocol (protocol : String)
  /-- "Unsupported data type: ..." -/
  | unsupportedDtype (dtype : String)
  deriving DecidableEq, Repr

/-- The protocol by its name. -/
def psiProtocol (protocol : String) : Except AlignmentError PsiProtocol :=
  if protocol = "ECDH" then .ok .ecdh
  else if protocol = "KKRT" then .ok .kkrt
  else .error (.invalidProtocol protocol)

/-- `sample_alignment`; `intersection` is what the PSI returns to this
party. The result is the table and the caller's roles. -/
def sampleAlignment {ι β : Type} [DecidableEq ι] (x : List (Sample ι β))
    (dtype : IdDtype) (roles : Roles) (protocol : String)
    (intersection : List ι) :
    Except AlignmentError (List (Sample ι β) × Roles) :=
  if 1 < roles.guest.toList.length then .error .onlyTwoParties
  else
    match psiProtocol protocol.toUpper with
    | .error e => .error e
    | .ok _ =>
        match dtype with
        | .other name => .error (.unsupportedDtype name)
        | _ => .ok (x.filter fun row => row.id ∈ intersection,
            roles.appendHost)

/-- The PSI gives exactly the ids both tables have. -/
def ExactIntersection {ι β γ : Type} (host : List (Sample ι β))
    (guest : List (Sample ι γ)) (intersection : List ι) : Prop :=
  ∀ id, id ∈ intersection
    ↔ id ∈ host.map Sample.id ∧ id ∈ guest.map Sample.id

/-- The tables can be combined by position: as many rows, and the same id
at every place. -/
structure Aligned {ι β γ : Type} (host : List (Sample ι β))
    (guest : List (Sample ι γ)) : Prop where
  sameLength : host.length = guest.length
  sameId : ∀ (i : Nat) (a : Sample ι β) (b : Sample ι γ),
    host[i]? = some a → guest[i]? = some b → a.id = b.id

/-- Any two common ids stand in the same order in both tables. -/
def SameOrder {ι β γ : Type} [DecidableEq ι] (host : List (Sample ι β))
    (guest : List (Sample ι γ)) : Prop :=
  ∀ x y, x ∈ host.map Sample.id → x ∈ guest.map Sample.id →
    y ∈ host.map Sample.id → y ∈ guest.map Sample.id →
    ((host.map Sample.id).idxOf x < (host.map Sample.id).idxOf y
      ↔ (guest.map Sample.id).idxOf x < (guest.map Sample.id).idxOf y)

end PrimiHub.FL
