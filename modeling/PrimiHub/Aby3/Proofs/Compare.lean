/-
The comparison of two parties' matrices.

# The exchange

A party waits for another one only if that one has not had its own turn
yet, and party 0 has it first, so the exchange cannot get stuck
(`stuck_done`); what travels on a link is the sender's shape, once
(`RingOk`). So all three start the second half with the same three
shapes, whatever the schedule.

# The element count

The second half is three computations from the same shapes. They agree on
everything but the element count, which the party without a matrix keeps
in 32 bits and the two others in 64. Below 2^32 elements that makes no
difference and the comparison is right; from there on the three set up
sharings of different sizes.
-/
import Mathlib.Data.Fin.VecNotation
import Mathlib.Tactic.FinCases
import PrimiHub.Aby3.Compare

namespace PrimiHub.Aby3

open Lib

-- ========================================================== the exchange

section Exchange

variable {own : Fin 3 → Shape} {hasValue : Fin 3 → Bool}

/-- What holds throughout the exchange: a party has the shapes of those
whose turn it has seen, in order, and a link holds the sender's shape
from the sender's own turn until the receiver gets there. -/
structure RingOk (own : Fin 3 → Shape) (s : ShapeRing) : Prop where
  turn_le : ∀ p, s.turn p ≤ 3
  shapes : ∀ p, s.shapes p = [own 0, own 1, own 2].take (s.turn p)
  wire : ∀ p q, p ≠ q → s.wire p q
    = if p.val < s.turn p ∧ s.turn q ≤ p.val then [own p] else []
  behind : ∀ p q, p.val < s.turn q → p.val < s.turn p
  raised : ∀ p, s.raised p = none

/-- Nothing has been sent yet. -/
theorem ringOk_init : RingOk own .init := by
  refine ⟨fun _ => Nat.zero_le _, fun _ => rfl, ?_, ?_, fun _ => rfl⟩
  · intro p q _
    simp [ShapeRing.init]
  · intro p q h
    cases h

/-- The links lead where the turn says. -/
theorem mPrev_eq : ∀ p i : Fin 3, p.val = (i.val + 1) % 3 → mPrev p = i := by
  decide

/-- Who is neither a party nor the next one is the one before it. -/
theorem mNext_eq : ∀ p i : Fin 3, p ≠ i → p.val ≠ (i.val + 1) % 3 →
    mNext p = i ∧ p.val = (i.val + 2) % 3 := by
  decide

theorem party_cases : ∀ p : Fin 3, p = 0 ∨ p = 1 ∨ p = 2 := by
  decide

/-- Any other party is one of the two neighbours. -/
theorem links_ne : ∀ p q : Fin 3, p ≠ q → q = mNext p ∨ q = mPrev p := by
  decide

/-- The two neighbours of a party are different. -/
theorem mNext_ne_mPrev : ∀ p : Fin 3, mNext p ≠ mPrev p := by
  decide

/-- What a party does at the turn of `i`: the branch that raises is never
taken. -/
theorem shapeStep_eq {s : ShapeRing} {p i : Fin 3} (hs : RingOk own s)
    (hturn : s.turn p = i.val) :
    shapeStep own hasValue s p
      = if p = i then
          some (((s.send p (mNext p) (own p)).send p (mPrev p)
            (own p)).collect p (own p))
        else s.recv p i := by
  have hgoing : ¬(3 ≤ i.val ∨ (s.raised p).isSome) := by
    rw [hs.raised p]
    have := i.isLt
    simp
  simp only [shapeStep, hturn, if_neg hgoing]
  by_cases hown : p = i
  · rw [if_pos (congrArg Fin.val hown), if_pos hown]
  · rw [if_neg (fun heq => hown (Fin.ext heq)), if_neg hown]
    by_cases hprev : p.val = (i.val + 1) % 3
    · rw [if_pos hprev, mPrev_eq p i hprev]
    · obtain ⟨hlink, hnext⟩ := mNext_eq p i hown hprev
      rw [if_neg hprev, if_pos (Or.inl hnext), hlink]

/-- A party that goes on has a turn to go through. -/
theorem turn_lt_of_shapeStep {s s' : ShapeRing} {p : Fin 3}
    (h : shapeStep own hasValue s p = some s') : s.turn p < 3 := by
  by_contra hdone
  rw [shapeStep, if_pos (Or.inl (Nat.not_lt.1 hdone))] at h
  cases h

/-- What a party does at its own turn and at another's. -/
theorem shapeStep_cases {s s' : ShapeRing} {p : Fin 3} (hs : RingOk own s)
    (h : shapeStep own hasValue s p = some s') :
    ∃ i : Fin 3, s.turn p = i.val
      ∧ ((p = i ∧ s' = (((s.send p (mNext p) (own p)).send p (mPrev p)
            (own p)).collect p (own p)))
        ∨ (p ≠ i ∧ s.recv p i = some s')) := by
  refine ⟨⟨s.turn p, turn_lt_of_shapeStep h⟩, rfl, ?_⟩
  rw [shapeStep_eq hs (i := ⟨s.turn p, turn_lt_of_shapeStep h⟩) rfl] at h
  split_ifs at h with hown
  · exact Or.inl ⟨hown, (Option.some.inj h).symm⟩
  · exact Or.inr ⟨hown, h⟩

/-- The shapes a party has after the turn of `i`. -/
theorem take_collect (own : Fin 3 → Shape) (i : Fin 3) :
    [own 0, own 1, own 2].take i.val ++ [own i]
      = [own 0, own 1, own 2].take (i.val + 1) := by
  match i with
  | 0 => rfl
  | 1 => rfl
  | 2 => rfl

/-- One turn of a party that ends with the shape of the party whose turn
it was, given what it did to the links. -/
theorem ringOk_collect {s s' : ShapeRing} {p i : Fin 3} (hs : RingOk own s)
    (hturn : s.turn p = i.val) (hsent : p ≠ i → i.val < s.turn i)
    (hturn' : s'.turn = Function.update s.turn p (s.turn p + 1))
    (hshapes' : s'.shapes = Function.update s.shapes p (s.shapes p ++ [own i]))
    (hraised' : s'.raised = s.raised)
    (hwire' : ∀ a b, a ≠ b → s'.wire a b
      = if a.val < s'.turn a ∧ s'.turn b ≤ a.val then [own a] else []) :
    RingOk own s' := by
  refine ⟨?_, ?_, hwire', ?_, ?_⟩
  · intro q
    rw [hturn']
    by_cases hq : q = p
    · subst hq
      rw [Function.update_self, hturn]
      exact i.isLt
    · rw [Function.update_of_ne hq]
      exact hs.turn_le q
  · intro q
    rw [hturn', hshapes']
    by_cases hq : q = p
    · subst hq
      rw [Function.update_self, Function.update_self, hs.shapes, hturn,
        take_collect]
    · rw [Function.update_of_ne hq, Function.update_of_ne hq]
      exact hs.shapes q
  · intro a b hlt
    have hgrows : s.turn a ≤ s'.turn a := by
      rw [hturn']
      by_cases ha : a = p
      · subst ha
        rw [Function.update_self]
        exact Nat.le_succ _
      · rw [Function.update_of_ne ha]
    rw [hturn'] at hlt
    by_cases hb : b = p
    · subst hb
      rw [Function.update_self] at hlt
      by_cases hai : a = i
      · subst hai
        by_cases hbi : b = a
        · subst hbi
          rw [hturn', Function.update_self]
          exact hlt
        · exact Nat.lt_of_lt_of_le (hsent hbi) hgrows
      · have hne : a.val ≠ i.val := fun heq => hai (Fin.ext heq)
        exact Nat.lt_of_lt_of_le (hs.behind a b (by omega)) hgrows
    · rw [Function.update_of_ne hb] at hlt
      exact Nat.lt_of_lt_of_le (hs.behind a b hlt) hgrows
  · rw [hraised']
    exact hs.raised

/-- In its turn a party sends its shape to both neighbours and keeps its
own. -/
theorem ringOk_send {s : ShapeRing} {p : Fin 3} (hs : RingOk own s)
    (hturn : s.turn p = p.val) :
    RingOk own (((s.send p (mNext p) (own p)).send p (mPrev p) (own p)).collect
      p (own p)) := by
  refine ringOk_collect hs hturn (fun hne => absurd rfl hne) rfl rfl rfl ?_
  intro a b hab
  have hbefore := hs.wire a b hab
  by_cases ha : a = p
  · subst ha
    have hbehind : s.turn b ≤ a.val := by
      by_contra hlt
      have hlater := hs.behind a b (Nat.not_le.1 hlt)
      omega
    rw [if_neg (by omega)] at hbefore
    rcases links_ne a b hab with rfl | rfl
    · simp [ShapeRing.send, ShapeRing.collect, hbefore, hturn,
        Function.update_of_ne (mNext_ne_mPrev a),
        Function.update_of_ne (Ne.symm hab), hbehind]
    · simp [ShapeRing.send, ShapeRing.collect, hbefore, hturn,
        Function.update_of_ne (Ne.symm (mNext_ne_mPrev a)),
        Function.update_of_ne (Ne.symm hab), hbehind]
  · have hval : a.val ≠ p.val := fun heq => ha (Fin.ext heq)
    have hwire : (((s.send p (mNext p) (own p)).send p (mPrev p)
        (own p)).collect p (own p)).wire a b = s.wire a b := by
      simp [ShapeRing.send, ShapeRing.collect, ha]
    rw [hwire, hbefore]
    simp only [ShapeRing.send, ShapeRing.collect, Function.update_of_ne ha]
    by_cases hb : b = p
    · subst hb
      rw [Function.update_self]
      congr 1
      simp only [eq_iff_iff]
      omega
    · rw [Function.update_of_ne hb]

/-- In the turn of another a party takes that one's shape. -/
theorem ringOk_recv {s s' : ShapeRing} {p i : Fin 3} (hs : RingOk own s)
    (hturn : s.turn p = i.val) (hne : p ≠ i) (h : s.recv p i = some s') :
    RingOk own s' := by
  have hwire := hs.wire i p (Ne.symm hne)
  have hval : p.val ≠ i.val := fun heq => hne (Fin.ext heq)
  unfold ShapeRing.recv at h
  by_cases hsent : i.val < s.turn i ∧ s.turn p ≤ i.val
  · rw [if_pos hsent] at hwire
    rw [hwire] at h
    cases h
    refine ringOk_collect hs hturn (fun _ => hsent.1) rfl rfl rfl ?_
    intro a b hab
    have hbefore := hs.wire a b hab
    simp only [ShapeRing.collect]
    by_cases hlink : a = i ∧ b = p
    · obtain ⟨rfl, rfl⟩ := hlink
      simp [hturn]
    · have hsame : Function.update s.wire i (Function.update (s.wire i) p [])
          a b = s.wire a b := by
        by_cases ha : a = i
        · subst ha
          have hb : b ≠ p := fun heq => hlink ⟨rfl, heq⟩
          simp [hb]
        · simp [ha]
      rw [hsame, hbefore]
      congr 1
      simp only [eq_iff_iff]
      by_cases ha : a = p
      · subst ha
        rw [Function.update_self, Function.update_of_ne (Ne.symm hab)]
        omega
      · rw [Function.update_of_ne ha]
        by_cases hb : b = p
        · subst hb
          have hai : a.val ≠ i.val := fun heq => hlink ⟨Fin.ext heq, rfl⟩
          rw [Function.update_self]
          omega
        · rw [Function.update_of_ne hb]
  · rw [if_neg hsent] at hwire
    rw [hwire] at h
    cases h

/-- Every step keeps the invariant. -/
theorem ringOk_step {s s' : ShapeRing} {p : Fin 3} (hs : RingOk own s)
    (h : shapeStep own hasValue s p = some s') : RingOk own s' := by
  obtain ⟨i, hturn, ⟨rfl, rfl⟩ | ⟨hne, hrecv⟩⟩ := shapeStep_cases hs h
  · exact ringOk_send hs hturn
  · exact ringOk_recv hs hturn hne hrecv

/-- A party that cannot go on waits for one that has not had its own
turn. -/
theorem waits_behind {s : ShapeRing} {p : Fin 3} (hs : RingOk own s)
    (hlt : s.turn p < 3) (h : shapeStep own hasValue s p = none) :
    ∃ i : Fin 3, s.turn p = i.val ∧ p ≠ i ∧ s.turn i ≤ i.val := by
  rw [shapeStep_eq hs (i := ⟨s.turn p, hlt⟩) rfl] at h
  split_ifs at h with hown
  refine ⟨⟨s.turn p, hlt⟩, rfl, hown, ?_⟩
  -- had that one had its turn, its shape would be on the link
  by_contra hsent
  have hwire := hs.wire ⟨s.turn p, hlt⟩ p (Ne.symm hown)
  rw [if_pos ⟨Nat.not_le.1 hsent, Nat.le_refl _⟩] at hwire
  rw [ShapeRing.recv, hwire] at h
  cases h

/-- If no party can go on, all are through. -/
theorem stuck_done {s : ShapeRing} (hs : RingOk own s)
    (hstuck : ∀ p, shapeStep own hasValue s p = none) (p : Fin 3) :
    s.turn p = 3 := by
  -- a party that has not had its turn waits for one before it
  have hturn : ∀ n, ∀ q : Fin 3, q.val = n → q.val < s.turn q := by
    intro n
    induction n using Nat.strong_induction_on with
    | _ n ih =>
        intro q hq
        by_contra hlt
        have hlt' : s.turn q < 3 := by
          have := q.isLt
          omega
        obtain ⟨i, hi, hne, hbehind⟩ := waits_behind hs hlt' (hstuck q)
        have hval : q.val ≠ i.val := fun heq => hne (Fin.ext heq)
        have := ih i.val (by omega) i rfl
        omega
  by_contra hdone
  have hle := hs.turn_le p
  obtain ⟨i, -, -, hbehind⟩ := waits_behind hs (by omega) (hstuck p)
  have := hturn i.val i rfl
  omega

/-- After the exchange every party has all three shapes, and nobody has
raised. -/
theorem exchange_spec {schedule : List (Fin 3)} {s : ShapeRing}
    (h : run (shapeStep own hasValue) .init schedule = some s)
    (hstuck : ∀ p, shapeStep own hasValue s p = none) :
    (∀ p, s.shapes p = [own 0, own 1, own 2]) ∧ ∀ p, s.raised p = none := by
  have hs : RingOk own s :=
    run_invariant (fun _ _ _ hs hstep => ringOk_step hs hstep) ringOk_init h
  refine ⟨?_, hs.raised⟩
  intro p
  rw [hs.shapes, stuck_done hs hstuck p]
  rfl

/-- Every step is a turn of one party. -/
theorem exchange_turns {s t : ShapeRing} {schedule : List (Fin 3)}
    (hs : RingOk own s)
    (h : run (shapeStep own hasValue) s schedule = some t) :
    RingOk own t ∧ t.turn 0 + t.turn 1 + t.turn 2
      = s.turn 0 + s.turn 1 + s.turn 2 + schedule.length := by
  induction schedule generalizing s with
  | nil =>
      rw [run_nil, Option.some.injEq] at h
      subst h
      exact ⟨hs, rfl⟩
  | cons p schedule ih =>
      obtain ⟨s', hstep, hrest⟩ := run_cons_inv h
      obtain ⟨ht, hsum⟩ := ih (ringOk_step hs hstep) hrest
      refine ⟨ht, ?_⟩
      have hturn : s'.turn = Function.update s.turn p (s.turn p + 1) := by
        obtain ⟨i, -, ⟨-, rfl⟩ | ⟨-, hrecv⟩⟩ := shapeStep_cases hs hstep
        · rfl
        · unfold ShapeRing.recv at hrecv
          split at hrecv <;> cases hrecv
          rfl
      rw [hsum, hturn, List.length_cons]
      match p with
      | 0 => simp; omega
      | 1 => simp; omega
      | 2 => simp; omega

/-- There is a schedule that takes everybody through; it has nine turns,
as many as any. -/
theorem exchange_ends (own : Fin 3 → Shape) (hasValue : Fin 3 → Bool) :
    ∃ schedule s, run (shapeStep own hasValue) .init schedule = some s
      ∧ ∀ p, shapeStep own hasValue s p = none := by
  obtain ⟨s, hrun⟩ : ∃ s, run (shapeStep own hasValue) .init
      [0, 1, 2, 1, 0, 2, 2, 0, 1] = some s := by
    simp [run, shapeStep, ShapeRing.init, ShapeRing.send, ShapeRing.collect,
      ShapeRing.recv, mNext, mPrev]
  refine ⟨_, s, hrun, ?_⟩
  obtain ⟨hs, hsum⟩ := exchange_turns ringOk_init hrun
  have h0 := hs.turn_le 0
  have h1 := hs.turn_le 1
  have h2 := hs.turn_le 2
  simp only [ShapeRing.init, List.length_cons, List.length_nil] at hsum
  have hdone : ∀ p, 3 ≤ s.turn p := by
    intro p
    obtain rfl | rfl | rfl := party_cases p
    · omega
    · omega
    · omega
  intro p
  unfold shapeStep
  rw [if_pos (Or.inl (hdone p))]

end Exchange

-- ============================================================== the circuit

/-- The top bit of the difference, where it fits: the first is smaller. -/
theorem msb_of_fits {x y : I64} (h : Fits x y) :
    intIntAddMsb x (-y) = decide (x.toInt < y.toInt) := by
  unfold Fits at h
  rw [intIntAddMsb, ← BitVec.sub_eq_add_neg, BitVec.msb_eq_toInt,
    BitVec.toInt_sub, Int.bmod_eq_of_le (by omega) (by omega)]
  rw [decide_eq_decide]
  omega

/-- And where it does not: the second is. -/
theorem msb_of_not_fits {x y : I64} (h : ¬Fits x y) :
    intIntAddMsb x (-y) = decide (y.toInt < x.toInt) := by
  unfold Fits at h
  have hx := BitVec.toInt_lt (x := x)
  have hx' := BitVec.le_toInt x
  have hy := BitVec.toInt_lt (x := y)
  have hy' := BitVec.le_toInt y
  rw [intIntAddMsb, ← BitVec.sub_eq_add_neg, BitVec.msb_eq_toInt,
    BitVec.toInt_sub, decide_eq_decide, Int.bmod_def]
  omega

/-- Where the differences fit, the sign bits are the comparisons. -/
theorem zipWith_msb {xs ys : List I64} (h : List.Forall₂ Fits xs ys) :
    List.zipWith intIntAddMsb xs (ys.map (- ·))
      = List.zipWith (fun x y => decide (x.toInt < y.toInt)) xs ys := by
  induction h with
  | nil => rfl
  | cons hfits _ ih =>
      rw [List.map_cons, List.zipWith_cons_cons, List.zipWith_cons_cons,
        msb_of_fits hfits, ih]

-- ========================================================= the second half

section TwoValues

variable (lib : BinLib) {p q : Fin 3} {a b : DenseMatrix}

/-- What party `i` has decided when `p` and `q` bring matrices of the
shape of `a`. -/
def jointPlan (p q : Fin 3) (a : DenseMatrix) (i : Fin 3) : Plan where
  first := a.shape
  second := a.shape
  numElem :=
    if i = p ∨ i = q then a.shape.rows * a.shape.cols
    else a.shape.rows * a.shape.cols % 2 ^ 32
  negated := i = q
  shares := [if i = p then .localBinMatrix else .remoteBinMatrix,
    if i = q then .localBinMatrix else .remoteBinMatrix]

/-- The party that brings no matrix. -/
theorem exists_third : ∀ p q : Fin 3, p < q → ∃ r : Fin 3, r ≠ p ∧ r ≠ q
    ∧ (∀ i, i = p ∨ i = q ∨ i = r)
    ∧ ((List.range 3).filter (· ≠ r.val)) = [p.val, q.val]
    ∧ negates r.val p = false ∧ negates r.val q = true := by
  decide

/-- It is the only one to announce 0 × 0, so the two others find it, and
the shift leaves their shapes. -/
theorem findSkip_third {s : Fin 3 → Shape} {r : Fin 3} {shape : Shape}
    (hzero : ¬(shape.rows = 0 ∧ shape.cols = 0)) (hr : s r = ⟨0, 0⟩)
    (hother : ∀ i, i ≠ r → s i = shape) :
    findSkip [s 0, s 1, s 2] 0 none = .ok (some r.val)
      ∧ shiftShapes r.val (s 0) (s 1) (s 2) = (shape, shape) := by
  match r with
  | 0 =>
      rw [hr, hother 1 (by decide), hother 2 (by decide)]
      simp [findSkip, shiftShapes, hzero]
  | 1 =>
      rw [hr, hother 0 (by decide), hother 2 (by decide)]
      simp [findSkip, shiftShapes, hzero]
  | 2 =>
      rw [hr, hother 0 (by decide), hother 1 (by decide)]
      simp [findSkip, shiftShapes, hzero]

/-- The plan of a party, once the shapes say who has no value. -/
theorem valuePlan_of_skip {s₀ s₁ s₂ shape : Shape} {skip : Nat} {i : Fin 3}
    (hskip : findSkip [s₀, s₁, s₂] 0 none = .ok (some skip))
    (hshift : shiftShapes skip s₀ s₁ s₂ = (shape, shape)) :
    valuePlan i s₀ s₁ s₂ = .ok ⟨shape, shape, shape.rows * shape.cols % 2 ^ 64,
      negates skip i, ((List.range 3).filter (· ≠ skip)).map fun k =>
        if k = i.val then .localBinMatrix else .remoteBinMatrix⟩ := by
  unfold valuePlan
  rw [hskip]
  simp [bind, Except.bind, hshift]

/-- The plan that a party makes for two owners. -/
theorem comparePlan_eq (hpq : p < q) (hshape : a.shape = b.shape)
    (hzero : ¬(a.shape.rows = 0 ∧ a.shape.cols = 0)) (i : Fin 3) :
    comparePlan (twoValues p q a b i) i
        [announced (twoValues p q a b) 0, announced (twoValues p q a b) 1,
          announced (twoValues p q a b) 2]
      = .ok (jointPlan p q a i) := by
  have hsize : a.shape.rows * a.shape.cols % 2 ^ 64
      = a.shape.rows * a.shape.cols :=
    Nat.mod_eq_of_lt (Nat.lt_trans a.size_lt (by decide))
  obtain ⟨r, hrp, hrq, hall, hlist, hnegp, hnegq⟩ := exists_third p q hpq
  have hne : p ≠ q := Fin.ne_of_lt hpq
  have hannounced : ∀ i, i ≠ r → announced (twoValues p q a b) i = a.shape := by
    intro i hi
    rcases hall i with rfl | rfl | rfl
    · simp [announced, twoValues]
    · simp [announced, twoValues, Ne.symm hne, hshape]
    · exact absurd rfl hi
  obtain ⟨hskip, hshift⟩ := findSkip_third hzero
    (by simp [announced, twoValues, hrp, hrq]) hannounced
  have hlocal : ∀ i : Fin 3, ((List.range 3).filter (· ≠ r.val)).map
      (fun k => if k = i.val then ShareOp.localBinMatrix else .remoteBinMatrix)
      = (jointPlan p q a i).shares := by
    intro i
    rw [hlist]
    simp [jointPlan, Fin.ext_iff, eq_comm]
  rcases hall i with rfl | rfl | rfl
  · have hvalue : twoValues i q a b i = some a := by simp [twoValues]
    rw [hvalue, comparePlan, valuePlan_of_skip hskip hshift, hsize, hnegp,
      hlocal]
    simp [jointPlan, hne]
  · have hvalue : twoValues p i a b i = some b := by
      simp [twoValues, Ne.symm hne]
    rw [hvalue, comparePlan, valuePlan_of_skip hskip hshift, hsize, hnegq,
      hlocal]
    simp [jointPlan]
  · have hvalue : twoValues p q a b i = none := by simp [twoValues, hrp, hrq]
    rw [hvalue, comparePlan]
    simp only [blankPlan, hshift, hsize]
    simp [jointPlan, hrp, hrq]

/-- In the first sharing everybody is with `p`, in the second with `q`. -/
theorem jointShare_eq (hpq : p < q) :
    jointShare lib (twoValues p q a b) (jointPlan p q a) 0
        = lib.share (fun i => (jointPlan p q a i).numElem) a.data
      ∧ jointShare lib (twoValues p q a b) (jointPlan p q a) 1
        = lib.share (fun i => (jointPlan p q a i).numElem)
            (b.data.map (- ·)) := by
  have hcases : ∀ p q : Fin 3, p < q →
      (p = 0 ∧ q = 1) ∨ (p = 0 ∧ q = 2) ∨ (p = 1 ∧ q = 2) := by decide
  obtain ⟨rfl, rfl⟩ | ⟨rfl, rfl⟩ | ⟨rfl, rfl⟩ := hcases p q hpq <;>
    constructor <;> rfl

/-- Both sharings and the circuit, with the plans of all three. -/
theorem mpcCompare_eq (hpq : p < q) (hshape : a.shape = b.shape)
    (hzero : ¬(a.shape.rows = 0 ∧ a.shape.cols = 0))
    {shapes : Fin 3 → List Shape}
    (hshapes : ∀ i, shapes i = [announced (twoValues p q a b) 0,
      announced (twoValues p q a b) 1, announced (twoValues p q a b) 2]) :
    mpcCompare lib (twoValues p q a b) shapes = (do
      let x ← lib.share (fun i => (jointPlan p q a i).numElem) a.data
      let y ← lib.share (fun i => (jointPlan p q a i).numElem)
        (b.data.map (- ·))
      .ok (jointPlan p q a, List.zipWith intIntAddMsb x y)) := by
  have hplans : ![jointPlan p q a 0, jointPlan p q a 1, jointPlan p q a 2]
      = jointPlan p q a := by
    funext i
    match i with
    | 0 => rfl
    | 1 => rfl
    | 2 => rfl
  obtain ⟨hfirst, hsecond⟩ := jointShare_eq lib (a := a) (b := b) hpq
  unfold mpcCompare
  rw [hshapes, hshapes, hshapes, comparePlan_eq hpq hshape hzero,
    comparePlan_eq hpq hshape hzero, comparePlan_eq hpq hshape hzero]
  change (do
    let bits ← compareBits lib (twoValues p q a b)
      ![jointPlan p q a 0, jointPlan p q a 1, jointPlan p q a 2]
    .ok (![jointPlan p q a 0, jointPlan p q a 1, jointPlan p q a 2], bits)) = _
  rw [hplans, compareBits, hfirst, hsecond]
  simp only [bind_assoc]
  rfl

/-- With fewer than 2^32 elements all three set up the same sharings. -/
theorem mpcCompare_of_lt (hpq : p < q) (hshape : a.shape = b.shape)
    (hzero : ¬(a.shape.rows = 0 ∧ a.shape.cols = 0))
    {shapes : Fin 3 → List Shape}
    (hshapes : ∀ i, shapes i = [announced (twoValues p q a b) 0,
      announced (twoValues p q a b) 1, announced (twoValues p q a b) 2])
    (hlt : a.shape.rows * a.shape.cols < 2 ^ 32) :
    mpcCompare lib (twoValues p q a b) shapes
      = .ok (jointPlan p q a,
          List.zipWith intIntAddMsb a.data (b.data.map (- ·))) := by
  have hcount : ∀ i, (jointPlan p q a i).numElem = a.data.length := by
    intro i
    simp only [jointPlan, Nat.mod_eq_of_lt hlt, ite_self, a.length_data]
  have hlength : a.data.length = (b.data.map (- ·)).length := by
    rw [List.length_map, a.length_data, b.length_data, hshape]
  rw [mpcCompare_eq lib hpq hshape hzero hshapes, lib.share_fit hcount,
    lib.share_fit (fun i => (hcount i).trans hlength)]
  rfl

/-- From 2^32 elements on the party without a matrix sets up another
sharing than the two others, and nothing comes of it. -/
theorem mpcCompare_of_le (hpq : p < q) (hshape : a.shape = b.shape)
    (hzero : ¬(a.shape.rows = 0 ∧ a.shape.cols = 0))
    {shapes : Fin 3 → List Shape}
    (hshapes : ∀ i, shapes i = [announced (twoValues p q a b) 0,
      announced (twoValues p q a b) 1, announced (twoValues p q a b) 2])
    (hle : 2 ^ 32 ≤ a.shape.rows * a.shape.cols) :
    ∃ e, mpcCompare lib (twoValues p q a b) shapes = .error e := by
  obtain ⟨r, hrp, hrq, -⟩ := exists_third p q hpq
  have hmisfit : ¬∀ i, (jointPlan p q a i).numElem = a.data.length := by
    intro hall
    have hr := hall r
    have hmod := Nat.mod_lt (a.shape.rows * a.shape.cols)
      (show 0 < 2 ^ 32 by decide)
    simp only [jointPlan, hrp, hrq, or_self, if_false, a.length_data] at hr
    omega
  obtain ⟨e, herror⟩ := lib.share_misfit hmisfit
  exact ⟨e, by rw [mpcCompare_eq lib hpq hshape hzero hshapes, herror]; rfl⟩

/-- A matrix with elements has rows and columns. -/
theorem zero_ne_of_pos {shape : Shape} (hpos : 0 < shape.rows * shape.cols) :
    ¬(shape.rows = 0 ∧ shape.cols = 0) := by
  intro h
  obtain ⟨hrows, -⟩ := h
  simp [hrows] at hpos

/-- Below 2^32 elements the comparison is right. -/
theorem comparesRight_of_lt (hpq : p < q) (hshape : a.shape = b.shape)
    (hpos : 0 < a.shape.rows * a.shape.cols)
    (hfits : List.Forall₂ Fits a.data b.data)
    (hlt : a.shape.rows * a.shape.cols < 2 ^ 32) :
    ComparesRight lib p q a b := by
  intro schedule s hrun hstuck
  obtain ⟨hshapes, hraised⟩ := exchange_spec hrun hstuck
  have hcount : ∀ i, (jointPlan p q a i).numElem
      = a.shape.rows * a.shape.cols := by
    intro i
    simp only [jointPlan, Nat.mod_eq_of_lt hlt, ite_self]
  refine ⟨hraised, jointPlan p q a, _, ?_, ?_, zipWith_msb hfits⟩
  · exact mpcCompare_of_lt lib hpq hshape (zero_ne_of_pos hpos) hshapes hlt
  · intro i
    exact ⟨rfl, hshape, hcount i, rfl⟩

/-- From 2^32 elements on the comparison fails. -/
theorem not_comparesRight_of_le (hpq : p < q) (hshape : a.shape = b.shape)
    (hle : 2 ^ 32 ≤ a.shape.rows * a.shape.cols) :
    ¬ComparesRight lib p q a b := by
  intro hright
  obtain ⟨schedule, s, hrun, hstuck⟩ :=
    exchange_ends (announced (twoValues p q a b)) fun i =>
      (twoValues p q a b i).isSome
  obtain ⟨-, plans, bits, hcompare, -⟩ := hright schedule s hrun hstuck
  obtain ⟨e, herror⟩ := mpcCompare_of_le lib hpq hshape
    (zero_ne_of_pos (by omega)) (exchange_spec hrun hstuck).1 hle
  rw [herror] at hcompare
  cases hcompare

end TwoValues

-- ================================================================= result

/-- The comparison of two matrices whose differences fit is right exactly
if they have fewer than 2^32 elements. -/
theorem comparesRight_iff (lib : BinLib) {p q : Fin 3} (hpq : p < q)
    {a b : DenseMatrix} (hshape : a.shape = b.shape)
    (hpos : 0 < a.shape.rows * a.shape.cols)
    (hfits : List.Forall₂ Fits a.data b.data) :
    ComparesRight lib p q a b ↔ a.shape.rows * a.shape.cols < 2 ^ 32 := by
  constructor
  · intro hright
    by_contra hle
    exact not_comparesRight_of_le lib hpq hshape (Nat.not_lt.1 hle) hright
  · exact comparesRight_of_lt lib hpq hshape hpos hfits

/-- A library that fails on every misfit. -/
def strictLib : BinLib where
  share := fun rows vec =>
    if ∀ p, rows p = vec.length then .ok vec else .error .misfit
  share_fit := fun h => if_pos h
  share_misfit := fun h => ⟨.misfit, if_neg h⟩

/-- A row of two elements. -/
def rowMatrix (x y : I64) : DenseMatrix := ⟨⟨1, 2⟩, [x, y], rfl, by decide⟩

/-- Two matrices of one row, at the first and the third party. -/
theorem rows_comparesRight :
    ComparesRight strictLib 0 2 (rowMatrix 3 (-5)) (rowMatrix 4 (-9)) := by
  have hfits : List.Forall₂ Fits (rowMatrix 3 (-5)).data
      (rowMatrix 4 (-9)).data :=
    .cons (by decide) (.cons (by decide) .nil)
  have hshape : (rowMatrix 3 (-5)).shape = (rowMatrix 4 (-9)).shape := rfl
  exact (comparesRight_iff strictLib (by decide) hshape (by decide) hfits).2
    (by decide)

/-- A square matrix of 2^32 zeros. -/
def largeMatrix : DenseMatrix :=
  ⟨⟨65536, 65536⟩, List.replicate (65536 * 65536) 0, List.length_replicate,
    by decide⟩

/-- All differences fit, and the comparison fails: the party without a
matrix counts no elements at all. -/
theorem largeMatrix_fails :
    List.Forall₂ Fits largeMatrix.data largeMatrix.data
      ∧ (jointPlan 0 1 largeMatrix 2).numElem = 0
      ∧ ¬ComparesRight strictLib 0 1 largeMatrix largeMatrix := by
  refine ⟨?_, by decide, ?_⟩
  · rw [List.forall₂_same]
    intro x hx
    rw [(List.mem_replicate.1 hx).2]
    decide
  · exact not_comparesRight_of_le strictLib (by decide) rfl (by decide)

end PrimiHub.Aby3
