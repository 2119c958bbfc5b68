/-
The statistics of the rows of a vertically partitioned table: `row_min`,
`row_max` and `row_min_max` (python/primihub/FL/stats/min_max.py), and the
two classes of channels they are called with
(python/primihub/FL/utils/net_work.py).

A host and its guests hold different columns of the same rows. Each guest
reduces its rows and sends the result to the host; the host reduces what
it received together with its own and sends the result to all guests. The
host's channel is a `MultiGrpcClients`, which has `recv_all` and
`send_all`; a guest's is a `GrpcClient`, which has `recv` and `send`. What
a channel does not have is an `AttributeError` when it is called.

The parties are those of `Horizontal`, with the host in the server's place
and the guests in the clients'. Entries and reductions are those of
`Stats`.
-/
import Mathlib.Order.Bounds.Basic
import PrimiHub.FL.Stats

namespace PrimiHub.FL.RowStats

open Lib Horizontal
open Stats (Entry Cols Table Stat ValueError axis0 checkArray)

/-- The columns a party has, of `n` rows. -/
structure Part (n : Nat) where
  cols : Nat
  entries : Fin n → Cols cols

/-- An array with an entry for each row. -/
abbrev Rows (n : Nat) := Fin n → Entry

/-- What a row has at a party. -/
def Part.row {n : Nat} (X : Part n) (i : Fin n) : List Entry :=
  List.ofFn (X.entries i)

/-- A reduction of each row, `axis=1`. -/
def axis1 {n : Nat} (f : List Entry → Entry) (X : Part n) : Rows n :=
  fun i => f (X.row i)

/-- The keys of the messages: `guest_row_min` and `guest_row_max` are
`guestRow`, and so for the host. -/
inductive Tag
  | guestRow (stat : Stat)
  | guestRowMinMax
  | globalRow (stat : Stat)
  | globalRowMinMax
  deriving DecidableEq, Repr

/-- The messages under each key. -/
abbrev Message (n : Nat) : Tag → Type
  | .guestRow _ | .globalRow _ => Rows n
  | .guestRowMinMax | .globalRowMinMax => Rows n × Rows n

/-- The exceptions: of `check_array`, of a channel without the method, and
of an array whose items are not of one shape. -/
inductive RowError
  | check (e : ValueError)
  | attributeError
  | inhomogeneous
  deriving DecidableEq, Repr

variable {guests n : Nat}

/-- A party's program. -/
abbrev Action (guests n : Nat) (β : Type) : Type :=
  Peer (Horizontal.Party guests) (Message n) RowError β

/-- The program ends with the exception. -/
def raise {β : Type} (e : RowError) : Action guests n β :=
  Proc.lift (.error e)

-- ================================================================ channels

/-- The class of the host's channel. -/
inductive HostChannel (guests : Nat)
  | grpcClient (guest : Fin guests)
  | multiGrpcClients
  deriving DecidableEq, Repr

/-- `channel.recv(key)`. -/
def HostChannel.recv (tag : Tag) :
    HostChannel guests → Action guests n (Message n tag)
  | .grpcClient guest =>
      Proc.get (μ := fun port : Horizontal.Party guests × Tag =>
          Message n port.2)
        (.client guest, tag)
  | .multiGrpcClients => raise .attributeError

/-- `channel.recv_all(key)`. -/
def HostChannel.recvAll (tag : Tag) :
    HostChannel guests → Action guests n (List (Message n tag))
  | .grpcClient _ => raise .attributeError
  | .multiGrpcClients => Peer.recvAll tag (allClients guests)

/-- `channel.send_all(key, val)`. -/
def HostChannel.sendAll (tag : Tag) (m : Message n tag) :
    HostChannel guests → Action guests n Unit
  | .grpcClient _ => raise .attributeError
  | .multiGrpcClients => Peer.sendAll tag m (allClients guests)

/-- `channel.send(key, val)` of a guest. -/
def sendHost (tag : Tag) (m : Message n tag) : Action guests n Unit :=
  Proc.put (μ := fun port : Horizontal.Party guests × Tag =>
      Message n port.2)
    (.server, tag) m

/-- `channel.recv(key)` of a guest. -/
def recvHost (tag : Tag) : Action guests n (Message n tag) :=
  Proc.get (μ := fun port : Horizontal.Party guests × Tag =>
      Message n port.2)
    (.server, tag)

-- ============================================================= min and max

/-- `check_array` on the columns of a party. -/
def checkPart (ignoreNan : Bool) (X : Part n) : Except RowError Unit :=
  match checkArray ignoreNan (List.ofFn X.entries : Stats.Table X.cols) with
  | .ok _ => .ok ()
  | .error e => .error (.check e)

/-- The guest's side of a reduction. -/
def rowStatGuest (stat : Stat) (X : Part n) (ignoreNan : Bool) :
    Action guests n (Rows n) := do
  Proc.lift (checkPart ignoreNan X)
  let guestRow := axis1 (stat.reduce ignoreNan) X
  sendHost (.guestRow stat) guestRow
  recvHost (.globalRow stat)

/-- The host's side of a reduction. -/
def rowStatHost (stat : Stat) (channel : HostChannel guests) (X : Part n)
    (ignoreNan : Bool) : Action guests n (Rows n) := do
  Proc.lift (checkPart ignoreNan X)
  let hostRow := axis1 (stat.reduce ignoreNan) X
  let guestRow ← channel.recvAll (.guestRow stat)
  let globalRow := axis0 (stat.reduce ignoreNan) (guestRow ++ [hostRow])
  channel.sendAll (.globalRow stat) globalRow
  pure globalRow

/-- `row_min_guest`. -/
def rowMinGuest : Part n → Bool → Action guests n (Rows n) :=
  rowStatGuest .min

/-- `row_min_host`. -/
def rowMinHost : HostChannel guests → Part n → Bool →
    Action guests n (Rows n) :=
  rowStatHost .min

/-- `row_max_guest`. -/
def rowMaxGuest : Part n → Bool → Action guests n (Rows n) :=
  rowStatGuest .max

/-- `row_max_host`. -/
def rowMaxHost : HostChannel guests → Part n → Bool →
    Action guests n (Rows n) :=
  rowStatHost .max

-- ============================================================ both at once

/-- An item of `guest_row_min_max`: an array, or a list of two. -/
inductive Item (n : Nat)
  | array (row : Rows n)
  | pair (rowMin rowMax : Rows n)

/-- `np.array(guest_row_min_max)`, an array with three axes when all items
are lists of two. -/
def npArray : List (Item n) → Except RowError (List (Rows n × Rows n))
  | [] => .ok []
  | .array _ :: _ => .error .inhomogeneous
  | .pair rowMin rowMax :: rest => do
      let rest ← npArray rest
      .ok ((rowMin, rowMax) :: rest)

/-- `row_min_max_guest`. -/
def rowMinMaxGuest (X : Part n) (ignoreNan : Bool) :
    Action guests n (Rows n × Rows n) := do
  Proc.lift (checkPart ignoreNan X)
  let guestRowMin := axis1 (Stat.min.reduce ignoreNan) X
  let guestRowMax := axis1 (Stat.max.reduce ignoreNan) X
  sendHost .guestRowMinMax (guestRowMin, guestRowMax)
  recvHost .globalRowMinMax

/-- `row_min_max_host`. It receives the list of two arrays that one guest
has sent, and appends to that. -/
def rowMinMaxHost (channel : HostChannel guests) (X : Part n)
    (ignoreNan : Bool) : Action guests n (Rows n × Rows n) := do
  Proc.lift (checkPart ignoreNan X)
  let hostRowMin := axis1 (Stat.min.reduce ignoreNan) X
  let hostRowMax := axis1 (Stat.max.reduce ignoreNan) X
  let received ← channel.recv .guestRowMinMax
  let guestRowMinMax : List (Item n) :=
    [.array received.1, .array received.2, .pair hostRowMin hostRowMax]
  let guestRowMinMax ← Proc.lift (npArray guestRowMinMax)
  let globalRowMin :=
    axis0 (Stat.min.reduce ignoreNan) (guestRowMinMax.map Prod.fst)
  let globalRowMax :=
    axis0 (Stat.max.reduce ignoreNan) (guestRowMinMax.map Prod.snd)
  channel.sendAll .globalRowMinMax (globalRowMin, globalRowMax)
  pure (globalRowMin, globalRowMax)

/-- The vertical protocol: the host and all guests call their sides. -/
def vertical {β : Type} (guest : Part n → Bool → Action guests n β)
    (host : Part n → Bool → Action guests n β)
    (parts : Horizontal.Party guests → Part n) (ignoreNan : Bool) :
    Horizontal.Party guests → Action guests n β
  | .server => host (parts .server) ignoreNan
  | .client i => guest (parts (.client i)) ignoreNan

-- ============================================================= the meaning

/-- The present entries of a row, over all parties. -/
def rowValues (parts : Horizontal.Party guests → Part n) (i : Fin n) :
    Set ℚ :=
  {x | ∃ p, some x ∈ (parts p).row i}

/-- All parties return the pair of what `row_min` and `row_max` give all of
them, the least and the greatest entry of each row. -/
structure JointExtremes (channel : HostChannel guests)
    (parts : Horizontal.Party guests → Part n) (v : Rows n × Rows n) :
    Prop where
  joint : Agree
    (vertical rowMinMaxGuest (rowMinMaxHost channel) parts true) (· = v)
  separateMin : Agree
    (vertical rowMinGuest (rowMinHost .multiGrpcClients) parts true)
    (· = v.1)
  separateMax : Agree
    (vertical rowMaxGuest (rowMaxHost .multiGrpcClients) parts true)
    (· = v.2)
  least : ∀ i, ∃ x, v.1 i = some x ∧ IsLeast (rowValues parts i) x
  greatest : ∀ i, ∃ x, v.2 i = some x ∧ IsGreatest (rowValues parts i) x

end PrimiHub.FL.RowStats
