/-
The share machine of `operator/aby3_operator.cc`: what each of the three
parties does locally in `MPC_Add`, `MPC_Sub`, `MPC_Add_Const`,
`MPC_Sub_Const` and `MPC_Mul_Const` on `si64Matrix`, and straight-line
programs of these operations.

# What is the repository's and what is the library's

`si64Matrix` and its `operator+`, `operator-` and
`Sh3Evaluator::asyncConstMul` live in the aby3 library, outside the
repository. They enter as `Sh3Lib`, a record of the three functions
together with the one thing the operators rely on: each acts on the two
local shares separately. Everything else, which party touches which of
its two shares and in which mode, is the repository's code and is
written out below, one definition per source function.

# Layout of a sharing

A shared matrix `x = x₀ + x₁ + x₂` (mod 2^64) is stored twice: party `i`
keeps `xᵢ` in `mShares[0]` and `xᵢ₋₁` in `mShares[1]`. `Replicated` is
that statement; it is what every operation has to keep although no party
sees more than its own two matrices.
-/
import Mathlib.Data.BitVec
import Mathlib.Data.Fin.Basic
import Mathlib.LinearAlgebra.Matrix.Defs
import Mathlib.Data.Matrix.Basic
import PrimiHub.Lib.Run

namespace PrimiHub.Aby3

/-- The parties are the numbers 0, 1 and 2 of `Fin 3`. -/
instance neZeroThree : NeZero 3 := ⟨by decide⟩

-- ============================================================= matrices

/-- The 64-bit ring element behind `i64`: all arithmetic on shares is
modulo 2^64. -/
abbrev I64 := BitVec 64

/-- `i64Matrix`: a dense integer matrix of a fixed shape. -/
abbrev I64Matrix (r c : Nat) := Matrix (Fin r) (Fin c) I64

/-- `si64Matrix`, one party's view: `mShares[0]` and `mShares[1]`. -/
@[ext] structure Si64Matrix (r c : Nat) where
  share0 : I64Matrix r c
  share1 : I64Matrix r c

/-- The part of the aby3 library the operators call. Each function acts
on the two shares separately, which is all the operators use. -/
structure Sh3Lib where
  /-- `operator+(const si64Matrix&, const si64Matrix&)`. -/
  add : ∀ {r c : Nat}, Si64Matrix r c → Si64Matrix r c → Si64Matrix r c
  /-- `operator-(const si64Matrix&, const si64Matrix&)`. -/
  sub : ∀ {r c : Nat}, Si64Matrix r c → Si64Matrix r c → Si64Matrix r c
  /-- `Sh3Evaluator::asyncConstMul`. -/
  asyncConstMul : ∀ {r c : Nat}, I64 → Si64Matrix r c → Si64Matrix r c
  add_shares : ∀ {r c : Nat} (a b : Si64Matrix r c),
    add a b = ⟨a.share0 + b.share0, a.share1 + b.share1⟩
  sub_shares : ∀ {r c : Nat} (a b : Si64Matrix r c),
    sub a b = ⟨a.share0 - b.share0, a.share1 - b.share1⟩
  asyncConstMul_shares : ∀ {r c : Nat} (k : I64) (a : Si64Matrix r c),
    asyncConstMul k a = ⟨k • a.share0, k • a.share1⟩

-- ========================================================= the operators

variable (lib : Sh3Lib) {r c : Nat}

/-- `MPCOperator::MPC_Add`: the sum starts at `sharedInt[0]`, which does
not exist for an empty vector. -/
def mpcAdd : List (Si64Matrix r c) → Option (Si64Matrix r c)
  | [] => none
  | first :: rest => some (rest.foldl lib.add first)

/-- `MPCOperator::MPC_Sub`: subtract every subtrahend in turn. -/
def mpcSub (minuend : Si64Matrix r c) (subtrahends : List (Si64Matrix r c)) :
    Si64Matrix r c :=
  subtrahends.foldl lib.sub minuend

/-- `MPCOperator::MPC_Add_Const`: party 0 adds to its own share, party 1
to its copy of the same share, party 2 leaves both alone. -/
def mpcAddConst (partyIdx : Nat) (constInt : I64) (shared : Si64Matrix r c) :
    Si64Matrix r c :=
  if partyIdx = 0 then
    { shared with share0 := Matrix.of fun i j => shared.share0 i j + constInt }
  else if partyIdx = 1 then
    { shared with share1 := Matrix.of fun i j => shared.share1 i j + constInt }
  else shared

/-- `MPCOperator::MPC_Sub_Const`: subtract the constant as
`MPC_Add_Const` adds it; when `mode` is not set, the constant was the
minuend, so every party then negates both of its shares. -/
def mpcSubConst (partyIdx : Nat) (constInt : I64) (shared : Si64Matrix r c)
    (mode : Bool) : Si64Matrix r c :=
  let temp : Si64Matrix r c :=
    if partyIdx = 0 then
      { shared with
        share0 := Matrix.of fun i j => shared.share0 i j - constInt }
    else if partyIdx = 1 then
      { shared with
        share1 := Matrix.of fun i j => shared.share1 i j - constInt }
    else shared
  if mode ≠ true then ⟨-temp.share0, -temp.share1⟩ else temp

/-- `MPCOperator::MPC_Mul_Const`. -/
def mpcMulConst (constInt : I64) (shared : Si64Matrix r c) :
    Si64Matrix r c :=
  lib.asyncConstMul constInt shared

-- ============================================================= programs

/-- Numbered variables for every matrix shape. -/
abbrev Store (V : Nat → Nat → Type) := (r c : Nat) → Nat → V r c

/-- Assign one variable of one shape. -/
def Store.set {V : Nat → Nat → Type} (st : Store V) (dst : Nat) (v : V r c) :
    Store V := fun r' c' k =>
  if h : (r' = r ∧ c' = c) ∧ k = dst then
    cast (by rw [h.1.1, h.1.2]) v
  else st r' c' k

/-- One operation on variables of shape `r × c`, written to `dst`. -/
inductive Op (r c : Nat)
  | add (dst : Nat) (srcs : List Nat)
  | sub (dst minuend : Nat) (subtrahends : List Nat)
  | addConst (dst : Nat) (constInt : I64) (src : Nat)
  | subConst (dst : Nat) (constInt : I64) (src : Nat) (mode : Bool)
  | mulConst (dst : Nat) (constInt : I64) (src : Nat)

/-- An operation at some shape: what a program is made of. -/
structure Instr where
  {rows cols : Nat}
  op : Op rows cols

/-- What party `partyIdx` does for one instruction, on its own store. -/
def partyStep (partyIdx : Nat) (st : Store Si64Matrix) (i : Instr) :
    Option (Store Si64Matrix) :=
  let get := st i.rows i.cols
  match i.op with
  | .add dst srcs => (mpcAdd lib (srcs.map get)).map (st.set dst)
  | .sub dst minuend subtrahends =>
      some (st.set dst (mpcSub lib (get minuend) (subtrahends.map get)))
  | .addConst dst k src => some (st.set dst (mpcAddConst partyIdx k (get src)))
  | .subConst dst k src mode =>
      some (st.set dst (mpcSubConst partyIdx k (get src) mode))
  | .mulConst dst k src => some (st.set dst (mpcMulConst lib k (get src)))

-- ================================================ the abstract behaviour

/-- The plain matrix with the same entry everywhere. -/
def constMatrix (k : I64) : I64Matrix r c := Matrix.of fun _ _ => k

/-- The same instruction on plain matrices over Z/2^64: the meaning the
share operations are supposed to have. -/
def plainStep (st : Store I64Matrix) (i : Instr) : Option (Store I64Matrix) :=
  let get := st i.rows i.cols
  match i.op with
  | .add dst srcs =>
      if srcs = [] then none else some (st.set dst (srcs.map get).sum)
  | .sub dst minuend subtrahends =>
      some (st.set dst (get minuend - (subtrahends.map get).sum))
  | .addConst dst k src => some (st.set dst (get src + constMatrix k))
  | .subConst dst k src mode =>
      some (st.set dst
        (if mode then get src - constMatrix k else constMatrix k - get src))
  | .mulConst dst k src => some (st.set dst (k • get src))

/-- Three local views form a replicated sharing of `x`: party `i` holds
`(xᵢ, xᵢ₋₁)` for three summands of `x`. -/
def Replicated (view : Fin 3 → Si64Matrix r c) (x : I64Matrix r c) : Prop :=
  ∃ s : Fin 3 → I64Matrix r c,
    (∀ i, view i = ⟨s i, s (i - 1)⟩) ∧ s 0 + s 1 + s 2 = x

/-- Every variable of the three stores is a replicated sharing of the
plain store's variable. -/
def Consistent (views : Fin 3 → Store Si64Matrix) (plain : Store I64Matrix) :
    Prop :=
  ∀ r c k, Replicated (fun i => views i r c k) (plain r c k)

end PrimiHub.Aby3
