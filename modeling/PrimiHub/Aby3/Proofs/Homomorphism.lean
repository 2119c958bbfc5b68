/-
Local share operations keep a replicated sharing and compute on what it
reconstructs to.

The sweep is one lemma per operation over `Replicated`, a store lemma,
one step lemma (`party_step_consistent`) and the run
(`party_run_consistent`). The summands of the result are always named
explicitly: for the linear operations they are the operation applied to
the three summands, and for the constant operations only summand 0
moves, which party 0 holds first and party 1 holds second. That is
exactly the pair of places the code writes to.

A program can also be stuck, at an `MPC_Add` of no matrices at all. Then
all three parties are stuck at the same instruction and so is the plain
program: the run theorem says so instead of assuming it away.
-/
import Mathlib.Tactic.Abel
import Mathlib.Tactic.FinCases
import PrimiHub.Aby3.Basic

namespace PrimiHub.Aby3

open Lib

variable (lib : Sh3Lib) {r c : Nat}

-- ===================================================== linear operations

/-- Adding two sharings locally shares the sum. -/
theorem replicated_add {v w : Fin 3 → Si64Matrix r c} {x y : I64Matrix r c}
    (hv : Replicated v x) (hw : Replicated w y) :
    Replicated (fun i => lib.add (v i) (w i)) (x + y) := by
  obtain ⟨s, hs, rfl⟩ := hv
  obtain ⟨t, ht, rfl⟩ := hw
  refine ⟨fun i => s i + t i, fun i => ?_, ?_⟩
  · show lib.add (v i) (w i) = _
    rw [lib.add_shares, hs i, ht i]
  · show s 0 + t 0 + (s 1 + t 1) + (s 2 + t 2) = _
    abel

/-- Subtracting two sharings locally shares the difference. -/
theorem replicated_sub {v w : Fin 3 → Si64Matrix r c} {x y : I64Matrix r c}
    (hv : Replicated v x) (hw : Replicated w y) :
    Replicated (fun i => lib.sub (v i) (w i)) (x - y) := by
  obtain ⟨s, hs, rfl⟩ := hv
  obtain ⟨t, ht, rfl⟩ := hw
  refine ⟨fun i => s i - t i, fun i => ?_, ?_⟩
  · show lib.sub (v i) (w i) = _
    rw [lib.sub_shares, hs i, ht i]
  · show s 0 - t 0 + (s 1 - t 1) + (s 2 - t 2) = _
    abel

/-- Negating both local shares at every party shares the negation. -/
theorem replicated_neg {v : Fin 3 → Si64Matrix r c} {x : I64Matrix r c}
    (hv : Replicated v x) :
    Replicated (fun i => ⟨-(v i).share0, -(v i).share1⟩) (-x) := by
  obtain ⟨s, hs, rfl⟩ := hv
  refine ⟨fun i => -s i, fun i => ?_, ?_⟩
  · show Si64Matrix.mk (-(v i).share0) (-(v i).share1) = _
    rw [hs i]
  · show -s 0 + -s 1 + -s 2 = _
    abel

/-- `MPC_Mul_Const` shares the scaled matrix. -/
theorem replicated_mulConst {v : Fin 3 → Si64Matrix r c} {x : I64Matrix r c}
    (k : I64) (hv : Replicated v x) :
    Replicated (fun i => mpcMulConst lib k (v i)) (k • x) := by
  obtain ⟨s, hs, rfl⟩ := hv
  refine ⟨fun i => k • s i, fun i => ?_, ?_⟩
  · show lib.asyncConstMul k (v i) = _
    rw [lib.asyncConstMul_shares, hs i]
  · rw [smul_add, smul_add]

/-- Folding `operator+` over a list of sharings shares the sum. -/
theorem replicated_foldl_add {views : Fin 3 → Nat → Si64Matrix r c}
    {plain : Nat → I64Matrix r c}
    (h : ∀ k, Replicated (fun i => views i k) (plain k)) (ks : List Nat) :
    ∀ {v : Fin 3 → Si64Matrix r c} {x : I64Matrix r c}, Replicated v x →
      Replicated (fun i => (ks.map (views i)).foldl lib.add (v i))
        (x + (ks.map plain).sum) := by
  induction ks with
  | nil =>
      intro v x hv
      rw [List.map_nil, List.sum_nil, add_zero]
      exact hv
  | cons k ks ih =>
      intro v x hv
      rw [List.map_cons, List.sum_cons, ← add_assoc]
      exact ih (replicated_add lib hv (h k))

/-- Folding `operator-` over a list of sharings shares the difference. -/
theorem replicated_foldl_sub {views : Fin 3 → Nat → Si64Matrix r c}
    {plain : Nat → I64Matrix r c}
    (h : ∀ k, Replicated (fun i => views i k) (plain k)) (ks : List Nat) :
    ∀ {v : Fin 3 → Si64Matrix r c} {x : I64Matrix r c}, Replicated v x →
      Replicated (fun i => (ks.map (views i)).foldl lib.sub (v i))
        (x - (ks.map plain).sum) := by
  induction ks with
  | nil =>
      intro v x hv
      rw [List.map_nil, List.sum_nil, sub_zero]
      exact hv
  | cons k ks ih =>
      intro v x hv
      rw [List.map_cons, List.sum_cons, ← sub_sub]
      exact ih (replicated_sub lib hv (h k))

-- =================================================== constant operations

/-- Moving summand 0 by `d`, where party 0 changes its first share and
party 1 its second, shares the moved matrix. -/
theorem replicated_shift {v w : Fin 3 → Si64Matrix r c} {x : I64Matrix r c}
    (d : I64Matrix r c) (hv : Replicated v x)
    (h0 : w 0 = { v 0 with share0 := (v 0).share0 + d })
    (h1 : w 1 = { v 1 with share1 := (v 1).share1 + d })
    (h2 : w 2 = v 2) : Replicated w (x + d) := by
  obtain ⟨s, hs, rfl⟩ := hv
  refine ⟨![s 0 + d, s 1, s 2], fun i => ?_, ?_⟩
  · fin_cases i
    · show w 0 = _
      rw [h0, hs 0]
      rfl
    · show w 1 = _
      rw [h1, hs 1]
      rfl
    · show w 2 = _
      rw [h2, hs 2]
      rfl
  · show s 0 + d + s 1 + s 2 = s 0 + s 1 + s 2 + d
    abel

/-- `MPC_Add_Const` shares the matrix plus the constant. -/
theorem replicated_addConst {v : Fin 3 → Si64Matrix r c} {x : I64Matrix r c}
    (k : I64) (hv : Replicated v x) :
    Replicated (fun i => mpcAddConst i k (v i)) (x + constMatrix k) :=
  replicated_shift (constMatrix k) hv rfl rfl rfl

/-- `MPC_Sub_Const` with the flag set shares the matrix minus the
constant. -/
theorem replicated_subConst_true {v : Fin 3 → Si64Matrix r c}
    {x : I64Matrix r c} (k : I64) (hv : Replicated v x) :
    Replicated (fun i => mpcSubConst i k (v i) true) (x - constMatrix k) := by
  rw [sub_eq_add_neg]
  refine replicated_shift (-constMatrix k) hv ?_ ?_ rfl
  · show Si64Matrix.mk (Matrix.of fun i j => (v 0).share0 i j - k) _ = _
    congr 1
    exact Matrix.ext fun i j => sub_eq_add_neg (_ : I64) k
  · show Si64Matrix.mk _ (Matrix.of fun i j => (v 1).share1 i j - k) = _
    congr 1
    exact Matrix.ext fun i j => sub_eq_add_neg (_ : I64) k

/-- `MPC_Sub_Const` in both modes: the cleared flag negates the
subtraction at every party. -/
theorem replicated_subConst {v : Fin 3 → Si64Matrix r c}
    {x : I64Matrix r c} (k : I64) (mode : Bool) (hv : Replicated v x) :
    Replicated (fun i => mpcSubConst i k (v i) mode)
      (if mode then x - constMatrix k else constMatrix k - x) := by
  have htrue := replicated_subConst_true k hv
  cases mode with
  | true => exact htrue
  | false =>
      have hneg := replicated_neg htrue
      rw [neg_sub] at hneg
      exact hneg

-- ================================================================ stores

/-- Reading back the variable that was just assigned. -/
@[simp] theorem Store.set_self {V : Nat → Nat → Type} (st : Store V)
    (dst : Nat) (v : V r c) : st.set dst v r c dst = v := by
  simp [Store.set]

/-- Every other variable keeps its value. -/
theorem Store.set_other {V : Nat → Nat → Type} (st : Store V) (dst : Nat)
    (v : V r c) {r' c' k : Nat} (h : ¬((r' = r ∧ c' = c) ∧ k = dst)) :
    st.set dst v r' c' k = st r' c' k := by
  rw [Store.set, dif_neg h]

/-- Assigning a sharing and what it reconstructs to keeps the stores
consistent. -/
theorem consistent_set {views : Fin 3 → Store Si64Matrix}
    {plain : Store I64Matrix} (h : Consistent views plain) (dst : Nat)
    {v : Fin 3 → Si64Matrix r c} {x : I64Matrix r c} (hv : Replicated v x) :
    Consistent (fun i => (views i).set dst (v i)) (plain.set dst x) := by
  intro r' c' k
  by_cases hk : (r' = r ∧ c' = c) ∧ k = dst
  · obtain ⟨⟨rfl, rfl⟩, rfl⟩ := hk
    simp only [Store.set_self]
    exact hv
  · simp only [Store.set_other _ _ _ hk]
    exact h r' c' k

-- ================================================== one step, whole runs

/-- The outcomes of the three parties next to the plain outcome: all
four proceed, consistently, or all four are stuck. -/
inductive JointOutcome (o : Fin 3 → Option (Store Si64Matrix)) :
    Option (Store I64Matrix) → Prop
  | proceed {views : Fin 3 → Store Si64Matrix} {plain : Store I64Matrix}
      (hparty : ∀ i, o i = some (views i)) (hc : Consistent views plain) :
      JointOutcome o (some plain)
  | stuck (hparty : ∀ i, o i = none) : JointOutcome o none

/-- One instruction, executed by all three parties from consistent
stores. -/
theorem party_step_consistent {views : Fin 3 → Store Si64Matrix}
    {plain : Store I64Matrix} (h : Consistent views plain) (ins : Instr) :
    JointOutcome (fun i => partyStep lib i (views i) ins)
      (plainStep plain ins) := by
  obtain ⟨op⟩ := ins
  cases op with
  | add dst srcs =>
      cases srcs with
      | nil => exact .stuck fun i => rfl
      | cons k ks =>
          refine .proceed (fun i => rfl) (consistent_set h dst ?_)
          exact replicated_foldl_add lib (h _ _) ks (h _ _ k)
  | sub dst minuend subtrahends =>
      refine .proceed (fun i => rfl) (consistent_set h dst ?_)
      exact replicated_foldl_sub lib (h _ _) subtrahends (h _ _ minuend)
  | addConst dst k src =>
      exact .proceed (fun i => rfl)
        (consistent_set h dst (replicated_addConst k (h _ _ src)))
  | subConst dst k src mode =>
      exact .proceed (fun i => rfl)
        (consistent_set h dst (replicated_subConst k mode (h _ _ src)))
  | mulConst dst k src =>
      exact .proceed (fun i => rfl)
        (consistent_set h dst (replicated_mulConst lib k (h _ _ src)))

/-- Every program, executed by the three parties independently from
consistent stores, leaves consistent stores that reconstruct to the
plain program's store, or is stuck everywhere. -/
theorem party_run_consistent {views : Fin 3 → Store Si64Matrix}
    {plain : Store I64Matrix} (h : Consistent views plain)
    (prog : List Instr) :
    JointOutcome (fun i => run (partyStep lib i) (views i) prog)
      (run plainStep plain prog) := by
  induction prog generalizing views plain with
  | nil => exact .proceed (fun i => rfl) h
  | cons ins prog ih =>
      have hstep := party_step_consistent lib h ins
      cases hp : plainStep plain ins with
      | none =>
          rw [hp] at hstep
          cases hstep with
          | stuck hparty =>
              rw [run_cons_none hp]
              exact .stuck fun i => run_cons_none (hparty i)
      | some plain' =>
          rw [hp] at hstep
          cases hstep with
          | proceed hparty hc =>
              rw [run_cons hp]
              simp only [run_cons (hparty _)]
              exact ih hc

/-- The share-wise library: what the aby3 functions compute. -/
def sharewise : Sh3Lib where
  add a b := ⟨a.share0 + b.share0, a.share1 + b.share1⟩
  sub a b := ⟨a.share0 - b.share0, a.share1 - b.share1⟩
  asyncConstMul k a := ⟨k • a.share0, k • a.share1⟩
  add_shares _ _ := rfl
  sub_shares _ _ := rfl
  asyncConstMul_shares _ _ := rfl

/-- Summand `i` of variable `k` in the sample stores. -/
def sampleSummand (k : Nat) (i : Fin 3) : I64Matrix r c :=
  constMatrix (BitVec.ofNat 64 (7 * k + i.val + 1))

/-- Sample stores of the three parties. -/
def sampleViews (i : Fin 3) : Store Si64Matrix := fun _ _ k =>
  ⟨sampleSummand k i, sampleSummand k (i - 1)⟩

/-- What the sample stores share. -/
def samplePlain : Store I64Matrix := fun _ _ k =>
  sampleSummand k 0 + sampleSummand k 1 + sampleSummand k 2

/-- A program that uses every operation, on 2 × 1 matrices:
`v₃ = 9 - 3 * ((v₀ + v₁ + v₂ + 5) - v₀)`. -/
def sampleProgram : List Instr :=
  [⟨(.add 3 [0, 1, 2] : Op 2 1)⟩, ⟨(.addConst 3 5 3 : Op 2 1)⟩,
   ⟨(.sub 3 3 [0] : Op 2 1)⟩, ⟨(.mulConst 3 3 3 : Op 2 1)⟩,
   ⟨(.subConst 3 9 3 false : Op 2 1)⟩]

/-- The run theorem at the sample stores and program. -/
theorem party_run_consistent_sample :
    Consistent sampleViews samplePlain ∧
    JointOutcome
      (fun i => run (partyStep sharewise i) (sampleViews i) sampleProgram)
      (run plainStep samplePlain sampleProgram) :=
  have h : Consistent sampleViews samplePlain := fun _ _ k =>
    ⟨sampleSummand k, fun _ => rfl, rfl⟩
  ⟨h, party_run_consistent sharewise h sampleProgram⟩

end PrimiHub.Aby3
