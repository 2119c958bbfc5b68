/-
The descriptive statistics of the columns of a horizontally partitioned
table: `col_sum`, `col_mean`, `col_var`, `col_min`, `col_max` and
`col_min_max` (sum.py, mean_var.py and min_max.py in
python/primihub/FL/stats).

Each client holds some rows. It reduces each of its columns, sends the
result to the server and waits; the server reduces what the clients sent
and sends the result to all of them. The mean and the variance also need
how many entries the clients' columns have, which travel as a number of
rows where nothing is missing and as one number for each column otherwise.

Numbers are exact rationals, and `none` is numpy's nan.
-/
import Mathlib.Algebra.Order.Ring.Rat
import Mathlib.Data.Fintype.Basic
import Mathlib.Data.List.ReduceOption
import PrimiHub.FL.Horizontal

namespace PrimiHub.FL.Stats

open Lib Horizontal

-- ================================================================== arrays

/-- An entry of an array; `none` is nan. -/
abbrev Entry := Option ℚ

/-- An array with an entry for each of `d` columns. -/
abbrev Cols (d : Nat) := Fin d → Entry

/-- A table with `d` columns: its rows. -/
abbrev Table (d : Nat) := List (Cols d)

/-- `np.nansum`: nan counts as zero. -/
def nansum (xs : List Entry) : Entry := some xs.reduceOption.sum

/-- `np.nanmin`: nan where every entry is nan, with a warning. -/
def nanmin (xs : List Entry) : Entry := xs.reduceOption.min?

/-- `np.nanmax`. -/
def nanmax (xs : List Entry) : Entry := xs.reduceOption.max?

/-- A reduction that nan makes nan. -/
def reduceAll (f : List ℚ → Entry) (xs : List Entry) : Entry :=
  (xs.mapM id).bind f

/-- A reduction of each column, `axis=0`. -/
def axis0 {d : Nat} (f : List Entry → Entry) (X : Table d) : Cols d :=
  fun j => f (X.map (· j))

/-- `np.square`. -/
def square {d : Nat} (row : Cols d) : Cols d :=
  fun j => (row j).map (· ^ 2)

/-- The reductions that have their own function in the source. -/
inductive Stat
  | sum
  | min
  | max
  deriving DecidableEq, Repr

/-- `np.nansum`, `np.nanmin`, `np.nanmax` and, unless nan is ignored,
`np.sum`, `np.min`, `np.max`. -/
def Stat.reduce (ignoreNan : Bool) : Stat → List Entry → Entry
  | .sum => if ignoreNan then nansum else reduceAll fun xs => some xs.sum
  | .min => if ignoreNan then nanmin else reduceAll List.min?
  | .max => if ignoreNan then nanmax else reduceAll List.max?

/-- How many entries a client has: one number for all columns, or one for
each. -/
inductive Count (d : Nat)
  | scalar (n : Nat)
  | vector (ns : Fin d → Nat)

namespace Count

variable {d : Nat}

/-- The number of a column. -/
def forCol : Count d → Fin d → Nat
  | scalar n, _ => n
  | vector ns, j => ns j

/-- `+`, which spreads a number over the columns. -/
def add : Count d → Count d → Count d
  | scalar m, scalar n => scalar (m + n)
  | m, n => vector fun j => m.forCol j + n.forCol j

end Count

/-- `/` of an array by a count; `0 / 0` is nan. -/
def divide {d : Nat} (s : Cols d) (n : Count d) : Cols d := fun j =>
  (s j).bind fun s => if n.forCol j = 0 then none else some (s / n.forCol j)

/-- `var`. -/
def var {d : Nat} (s sSquare : Cols d) (n : Count d) : Cols d := fun j => do
  let meanSquare ← divide sSquare n j
  let mean ← divide s n j
  pure (meanSquare - mean ^ 2)

-- ================================================================ messages

/-- The keys of the messages: `client_col_sum`, `client_col_min` and
`client_col_max` are `clientCol`, and so for the server. -/
inductive Tag
  | clientCol (stat : Stat)
  | clientColN
  | clientColSumSumSquare
  | clientColMinMax
  | serverCol (stat : Stat)
  | serverColMean
  | serverColVar
  | serverColMinMax
  deriving DecidableEq, Repr

/-- The messages under each key. -/
abbrev Message (d : Nat) : Tag → Type
  | .clientCol _ | .serverCol _ | .serverColMean | .serverColVar => Cols d
  | .clientColN => Count d
  | .clientColSumSumSquare | .clientColMinMax | .serverColMinMax =>
      Cols d × Cols d

/-- What `check_array` does not accept. -/
inductive ValueError
  | containsNan
  | noSamples
  | noFeatures
  deriving DecidableEq, Repr

variable {clients d : Nat}

/-- A party's program. -/
abbrev Action (clients d : Nat) (β : Type) : Type :=
  Peer (Horizontal.Party clients) (Message d) ValueError β

/-- `channel.send(key, val)`. -/
def send (dst : Horizontal.Party clients) (tag : Tag) (m : Message d tag) :
    Action clients d Unit :=
  Proc.put (μ := fun port : Horizontal.Party clients × Tag =>
      Message d port.2)
    (dst, tag) m

/-- `channel.recv(key)`. -/
def recv (src : Horizontal.Party clients) (tag : Tag) :
    Action clients d (Message d tag) :=
  Proc.get (μ := fun port : Horizontal.Party clients × Tag =>
      Message d port.2)
    (src, tag)

/-- `check_array` of scikit-learn: no nan unless `force_all_finite` allows
it, a row and a column. -/
def checkArray (ignoreNan : Bool) (X : Table d) :
    Except ValueError (Table d) :=
  if ignoreNan = false ∧ ∃ row ∈ X, ∃ j, row j = none then
    .error .containsNan
  else if X = [] then .error .noSamples
  else if d = 0 then .error .noFeatures
  else .ok X

-- ========================================================= sum, min and max

/-- The client's side of a reduction. -/
def colStatClient (stat : Stat) (X : Table d) (ignoreNan sendServer
    recvServer : Bool) : Action clients d (Cols d) := do
  let X ← Proc.lift (checkArray ignoreNan X)
  let clientCol := axis0 (stat.reduce ignoreNan) X
  if sendServer then send .server (.clientCol stat) clientCol
  if recvServer then recv .server (.serverCol stat) else pure clientCol

/-- The server's side of a reduction. -/
def colStatServer (stat : Stat) (ignoreNan : Bool) :
    Action clients d (Cols d) := do
  let clientCol ← Peer.recvAll (.clientCol stat) (allClients clients)
  let serverCol := axis0 (stat.reduce ignoreNan) clientCol
  Peer.sendAll (.serverCol stat) serverCol (allClients clients)
  pure serverCol

/-- `col_sum_client`. -/
def colSumClient (X : Table d) (ignoreNan sendServer recvServer : Bool) :
    Action clients d (Cols d) :=
  colStatClient .sum X ignoreNan sendServer recvServer

/-- `col_sum_server`. -/
def colSumServer (ignoreNan : Bool) : Action clients d (Cols d) :=
  colStatServer .sum ignoreNan

/-- `col_min_client`. -/
def colMinClient (X : Table d) (ignoreNan sendServer recvServer : Bool) :
    Action clients d (Cols d) :=
  colStatClient .min X ignoreNan sendServer recvServer

/-- `col_min_server`, which checks what it received. -/
def colMinServer (ignoreNan : Bool) : Action clients d (Cols d) := do
  let clientColMin ← Peer.recvAll (.clientCol .min) (allClients clients)
  let clientColMin ← Proc.lift (checkArray ignoreNan clientColMin)
  let serverColMin := axis0 (Stat.min.reduce ignoreNan) clientColMin
  Peer.sendAll (.serverCol .min) serverColMin (allClients clients)
  pure serverColMin

/-- `col_max_client`. -/
def colMaxClient (X : Table d) (ignoreNan sendServer recvServer : Bool) :
    Action clients d (Cols d) :=
  colStatClient .max X ignoreNan sendServer recvServer

/-- `col_max_server`. -/
def colMaxServer (ignoreNan : Bool) : Action clients d (Cols d) :=
  colStatServer .max ignoreNan

/-- `col_min_max_client`. -/
def colMinMaxClient (X : Table d) (ignoreNan sendServer
    recvServer : Bool) : Action clients d (Cols d × Cols d) := do
  let X ← Proc.lift (checkArray ignoreNan X)
  let clientColMin := axis0 (Stat.min.reduce ignoreNan) X
  let clientColMax := axis0 (Stat.max.reduce ignoreNan) X
  if sendServer then
    send .server .clientColMinMax (clientColMin, clientColMax)
  if recvServer then recv .server .serverColMinMax
  else pure (clientColMin, clientColMax)

/-- `col_min_max_server`. -/
def colMinMaxServer (ignoreNan : Bool) :
    Action clients d (Cols d × Cols d) := do
  let clientColMinMax ← Peer.recvAll .clientColMinMax (allClients clients)
  let serverColMin :=
    axis0 (Stat.min.reduce ignoreNan) (clientColMinMax.map Prod.fst)
  let serverColMax :=
    axis0 (Stat.max.reduce ignoreNan) (clientColMinMax.map Prod.snd)
  Peer.sendAll .serverColMinMax (serverColMin, serverColMax)
    (allClients clients)
  pure (serverColMin, serverColMax)

-- ======================================================== mean and variance

/-- `np.isnan(X).sum(axis=0)`. -/
def colNNan (X : Table d) : Fin d → Nat :=
  fun j => (X.map (· j)).countP Option.isNone

/-- `client_col_n`: the rows, less the nan of each column if there are
any. -/
def clientColN (ignoreNan : Bool) (X : Table d) : Count d :=
  if ignoreNan ∧ ∃ j, colNNan X j ≠ 0 then
    .vector fun j => X.length - colNNan X j
  else .scalar X.length

/-- `server_col_n`. -/
def serverColN (ns : List (Count d)) : Count d :=
  ns.foldl Count.add (.scalar 0)

/-- `col_mean_client`. -/
def colMeanClient (X : Table d) (ignoreNan sendServer recvServer : Bool) :
    Action clients d (Cols d) := do
  let X ← Proc.lift (checkArray ignoreNan X)
  let n := clientColN ignoreNan X
  let clientColSum := axis0 (Stat.sum.reduce ignoreNan) X
  if sendServer then
    send .server (.clientCol .sum) clientColSum
    send .server .clientColN n
  if recvServer then recv .server .serverColMean
  else pure (divide clientColSum n)

/-- `col_mean_server`. -/
def colMeanServer (ignoreNan : Bool) : Action clients d (Cols d) := do
  let clientColSum ← Peer.recvAll (.clientCol .sum) (allClients clients)
  let ns ← Peer.recvAll .clientColN (allClients clients)
  let serverColSum := axis0 (Stat.sum.reduce ignoreNan) clientColSum
  let serverColMean := divide serverColSum (serverColN ns)
  Peer.sendAll .serverColMean serverColMean (allClients clients)
  pure serverColMean

/-- `col_var_client`. -/
def colVarClient (X : Table d) (ignoreNan sendServer recvServer : Bool) :
    Action clients d (Cols d) := do
  let X ← Proc.lift (checkArray ignoreNan X)
  let n := clientColN ignoreNan X
  let clientColSum := axis0 (Stat.sum.reduce ignoreNan) X
  let clientColSumSquare :=
    axis0 (Stat.sum.reduce ignoreNan) (X.map square)
  if sendServer then
    send .server .clientColSumSumSquare (clientColSum, clientColSumSquare)
    send .server .clientColN n
  if recvServer then recv .server .serverColVar
  else pure (var clientColSum clientColSumSquare n)

/-- `col_var_server`. -/
def colVarServer (ignoreNan : Bool) : Action clients d (Cols d) := do
  let sums ← Peer.recvAll .clientColSumSumSquare (allClients clients)
  let ns ← Peer.recvAll .clientColN (allClients clients)
  let serverColSum :=
    axis0 (Stat.sum.reduce ignoreNan) (sums.map Prod.fst)
  let serverColSumSquare :=
    axis0 (Stat.sum.reduce ignoreNan) (sums.map Prod.snd)
  let serverColVar := var serverColSum serverColSumSquare (serverColN ns)
  Peer.sendAll .serverColVar serverColVar (allClients clients)
  pure serverColVar

-- =================================================================== roles

/-- The valid roles. -/
inductive Role
  | client
  | server
  | guest
  | host
  deriving DecidableEq, Repr

/-- A function with a side for each role: guest and host are on their
own. -/
def byRole {β : Type}
    (client : Table d → Bool → Bool → Bool → Action clients d β)
    (server : Bool → Action clients d β) (role : Role) (X : Table d)
    (ignoreNan : Bool) : Action clients d β :=
  match role with
  | .client => client X ignoreNan true true
  | .server => server ignoreNan
  | .guest | .host => client X ignoreNan false false

/-- `col_sum`. -/
def colSum : Role → Table d → Bool → Action clients d (Cols d) :=
  byRole colSumClient colSumServer

/-- `col_min`. -/
def colMin : Role → Table d → Bool → Action clients d (Cols d) :=
  byRole colMinClient colMinServer

/-- `col_max`. -/
def colMax : Role → Table d → Bool → Action clients d (Cols d) :=
  byRole colMaxClient colMaxServer

/-- `col_min_max`. -/
def colMinMax : Role → Table d → Bool → Action clients d (Cols d × Cols d) :=
  byRole colMinMaxClient colMinMaxServer

/-- `col_mean`. -/
def colMean : Role → Table d → Bool → Action clients d (Cols d) :=
  byRole colMeanClient colMeanServer

/-- `col_var`. -/
def colVar : Role → Table d → Bool → Action clients d (Cols d) :=
  byRole colVarClient colVarServer

/-- The role of a party. -/
def role : Horizontal.Party clients → Role
  | .server => .server
  | .client _ => .client

/-- The rows of a party; the server has none. -/
def rowsOf (parts : Fin clients → Table d) :
    Horizontal.Party clients → Table d
  | .server => []
  | .client i => parts i

/-- The horizontal protocol: every party calls the function in its role. -/
def horizontal {β : Type}
    (f : Role → Table d → Bool → Action clients d β)
    (parts : Fin clients → Table d) (ignoreNan : Bool)
    (party : Horizontal.Party clients) : Action clients d β :=
  f (role party) (rowsOf parts party) ignoreNan

end PrimiHub.FL.Stats
