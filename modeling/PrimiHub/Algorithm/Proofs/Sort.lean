/-
`aby3ML::sort` is the exchange sort of the first entries.

# Chain

1. `copy_eq`, `exchange_eq`: one copy and one exchange, at places of which
   the entries are known; the loops stay within their vectors.
2. `round_eq`, `rounds_eq`: the inner loop is a round and the outer one all
   of them, by induction on the entries still to be done; `sort_eq`.
3. `exceeds_of_near`, `exceeds_of_far`: the test takes the sign of a
   difference, so it compares two entries unless their difference wraps.

Where nothing that is compared wraps, `sort` is right
(`sortRight_of_fits`). A comparison that wraps need not show in the result,
as later ones may make up for it; but some order of the same entries is
then left unsorted (`exists_unsorted`), and so the condition is exact over
their orders (`sortRight_orders_iff`).
-/
import PrimiHub.Algorithm.Sort

namespace PrimiHub.Algorithm.Aby3ML

open Aby3 (I64)
open Lib

-- ==================================================================== loops

/-- The last turn of the copying loop. -/
theorem copy_succ (src : List I64) (n : Nat) (dest : List I64) :
    copy src (n + 1) dest = (copy src n dest).bind fun dest =>
      src[n]?.bind fun x =>
        if n < dest.length then some (dest.set n x) else none := by
  simp only [copy, List.range_succ, List.foldlM_append]
  simp only [List.foldlM_cons, List.foldlM_nil, bind_pure]
  rfl

/-- The first `n` entries go in front, if there is room. -/
theorem copy_eq {src : List I64} {n : Nat} (h : n ≤ src.length)
    (dest : List I64) :
    copy src n dest = if n ≤ dest.length then
      some (src.take n ++ dest.drop n) else none := by
  induction n with
  | zero => simp [copy]
  | succ n ih =>
      have hsrc : src[n]? = some src[n] := List.getElem?_eq_getElem h
      rw [copy_succ, ih (Nat.le_of_succ_le h), hsrc]
      rcases Nat.lt_trichotomy n dest.length with hlt | heq | hgt
      · have htake : (src.take n).length = n := by
          rw [List.length_take, Nat.min_eq_left (Nat.le_of_succ_le h)]
        have hset : (src.take n ++ dest.drop n).set n src[n]
            = src.take (n + 1) ++ dest.drop (n + 1) := by
          rw [List.set_append_right _ _ (Nat.le_of_eq htake), htake,
            Nat.sub_self, List.drop_eq_getElem_cons hlt, List.set_cons_zero,
            ← List.take_append_getElem h, List.append_assoc,
            List.singleton_append]
        have hlen : n < (src.take n ++ dest.drop n).length := by
          rw [List.length_append, htake, List.length_drop]
          omega
        rw [if_pos (Nat.le_of_lt hlt), if_pos (Nat.succ_le_of_lt hlt),
          Option.bind_some, Option.bind_some, if_pos hlen, hset]
      · simp [heq]
      · simp [Nat.not_le_of_lt hgt, Nat.not_le_of_lt (Nat.lt_succ_of_lt hgt)]

/-- The working copy. -/
theorem copy_replicate {src : List I64} {n : Nat} (h : n ≤ src.length) :
    copy src n (List.replicate n 0) = some (src.take n) := by
  rw [copy_eq h]
  simp

theorem getElem?_front (front tail : List I64) (c : I64) :
    (front ++ c :: tail)[front.length]? = some c := by
  simp

/-- An entry behind another one. -/
theorem getElem?_behind (front mid rest : List I64) (c x : I64) :
    (front ++ c :: (mid ++ x :: rest))[front.length + 1 + mid.length]?
      = some x := by
  have hplace : front.length + 1 + mid.length - front.length
      = mid.length + 1 := by omega
  simp [List.getElem?_append_right
    (show front.length ≤ front.length + 1 + mid.length by omega), hplace]

/-- One exchange, at two places of which the entries are known. -/
theorem exchange_eq (front mid rest : List I64) (c x : I64) :
    exchange front.length (front ++ c :: (mid ++ x :: rest))
      (front.length + 1 + mid.length)
    = some (if gt (c - x) 0 then front ++ x :: (mid ++ c :: rest)
        else front ++ c :: (mid ++ x :: rest)) := by
  have hplace : front.length + 1 + mid.length - front.length
      = mid.length + 1 := by omega
  have hle : front.length ≤ front.length + 1 + mid.length := by omega
  simp only [exchange, getElem?_front, getElem?_behind, Option.bind_eq_bind,
    Option.bind_some]
  split
  · rw [List.set_append_right _ _ (Nat.le_refl _), Nat.sub_self,
      List.set_cons_zero, List.set_append_right _ _ hle, hplace]
    simp
  · rfl

-- ===================================================================== sort

/-- The test of `sort`. -/
def exceeds (a b : I64) : Bool := gt (a - b) 0

/-- The inner loop is a round of the exchange sort. -/
theorem round_eq (front mid rest : List I64) (c : I64) :
    (List.range' (front.length + 1 + mid.length) rest.length).foldlM
        (exchange front.length) (front ++ c :: (mid ++ rest))
      = some (front ++ (sweep exceeds c rest).1 ::
          (mid ++ (sweep exceeds c rest).2)) := by
  induction rest generalizing c mid with
  | nil => rfl
  | cons x rest ih =>
      rw [List.length_cons, List.range'_succ, List.foldlM_cons, exchange_eq,
        Option.bind_eq_bind, Option.bind_some, sweep]
      by_cases h : gt (c - x) 0 = true
      · have htail := ih (mid ++ [c]) x
        simp only [List.length_append, List.length_singleton,
          List.append_assoc, List.singleton_append] at htail
        rw [if_pos h, if_pos (show exceeds c x = true from h)]
        exact htail
      · have htail := ih (mid ++ [x]) c
        simp only [List.length_append, List.length_singleton,
          List.append_assoc, List.singleton_append] at htail
        rw [if_neg h, if_neg (show ¬exceeds c x = true from h)]
        exact htail

/-- The outer loop, with the places before `todo` done. -/
theorem rounds_eq {size : Nat} (done todo : List I64)
    (hsize : done.length + todo.length = size) :
    (List.range' done.length todo.length).foldlM (fun Y i =>
        (List.range' (i + 1) (size - (i + 1))).foldlM (exchange i) Y)
        (done ++ todo)
      = some (done ++ exchangeSort exceeds todo) := by
  induction todo using exchangeSort.induct exceeds generalizing done with
  | case1 => simp [exchangeSort]
  | case2 x xs ih =>
      have hleft : size - (done.length + 1) = xs.length := by
        rw [List.length_cons] at hsize
        omega
      have hround := round_eq done [] xs x
      rw [List.length_nil, Nat.add_zero, List.nil_append,
        List.nil_append] at hround
      have htail := ih (done ++ [(sweep exceeds x xs).1]) (by
        simp only [List.length_append, length_sweep, List.length_cons,
          List.length_nil] at hsize ⊢
        omega)
      simp only [List.length_append, List.length_singleton, length_sweep,
        List.append_assoc, List.singleton_append] at htail
      rw [List.length_cons, List.range'_succ, List.foldlM_cons, hleft, hround,
        Option.bind_eq_bind, Option.bind_some, exchangeSort]
      exact htail

theorem sortLoops_eq {size : Nat} {Y : List I64} (h : Y.length = size) :
    sortLoops size Y = some (exchangeSort exceeds Y) := by
  have hall := rounds_eq [] Y (by simpa using h)
  rw [← h, sortLoops, List.range_eq_range']
  rw [← h] at hall
  exact hall

/-- What `sort` comes to. -/
theorem sort_eq {X : List I64} {n : Nat} (h : n ≤ X.length) (hX : X ≠ [])
    (dest : List I64) :
    sort X n dest = if n < 2 ^ 31 ∧ n ≤ dest.length then
      some (1, exchangeSort exceeds (X.take n) ++ dest.drop n) else none := by
  have hpos : ¬X.length < 1 := by
    have := List.length_pos_iff.mpr hX
    omega
  have htake : (X.take n).length = n := by simpa using h
  have hsorted : (exchangeSort exceeds (X.take n)).length = n := by
    rw [(exchangeSort_perm exceeds _).length_eq, htake]
  rw [sort, if_neg hpos]
  by_cases hn : n < 2 ^ 31
  · simp only [Nat.not_le_of_lt hn, hn, copy_replicate h, sortLoops_eq htake,
      copy_eq (Nat.le_of_eq hsorted.symm), Option.bind_eq_bind,
      Option.bind_some, if_false, true_and]
    split
    · simp [List.take_of_length_le (Nat.le_of_eq hsorted)]
    · rfl
  · rw [if_pos (Nat.le_of_not_lt hn), if_neg fun hall => hn hall.1]

-- ================================================================== wrapping

theorem gt_zero (Z : I64) : gt Z 0 = decide (0 < Z.toInt) := by
  have hzero : Z = 0 ↔ Z.toInt = 0 := by
    rw [← BitVec.toInt_inj]
    rfl
  rw [gt, lt, isZero]
  rcases lt_trichotomy Z.toInt 0 with hneg | hz | hpos
  · simp [hneg]
    omega
  · simp [hzero.mpr hz]
  · have hne : Z ≠ 0 := fun h => by
      rw [hzero.mp h] at hpos
      exact lt_irrefl 0 hpos
    simpa [not_lt.mpr (le_of_lt hpos), hpos] using hne

/-- Where the difference does not wrap. -/
theorem exceeds_of_near {a b : I64} (hle : -2 ^ 63 ≤ a.toInt - b.toInt)
    (hlt : a.toInt - b.toInt < 2 ^ 63) :
    exceeds a b = decide (b.toInt < a.toInt) := by
  have hsub : (a - b).toInt = a.toInt - b.toInt := by
    rw [BitVec.toInt_sub, Int.bmod]
    omega
  rw [exceeds, gt_zero, hsub]
  simp [Int.sub_pos]

/-- Where it does. -/
theorem exceeds_of_far {a b : I64} (h : 2 ^ 63 ≤ a.toInt - b.toInt) :
    exceeds a b = false := by
  have ha := BitVec.toInt_lt (x := a)
  have hb := BitVec.le_toInt b
  have hsub : (a - b).toInt < 0 := by
    rw [BitVec.toInt_sub, Int.bmod]
    omega
  rw [exceeds, gt_zero, decide_eq_false_iff_not]
  omega

-- ============================================================ the property

/-- `sort` is right if it has a result and the exchange sort sorts. -/
theorem sortRight_iff {X : List I64} {n : Nat} (h : n ≤ X.length)
    (hX : X ≠ []) (dest : List I64) :
    SortRight X n dest ↔ n < 2 ^ 31 ∧ n ≤ dest.length
      ∧ (exchangeSort exceeds (X.take n)).Pairwise
          fun a b => a.toInt ≤ b.toInt := by
  have hperm := exchangeSort_perm exceeds (X.take n)
  have hlen : (exchangeSort exceeds (X.take n)).length = n := by
    rw [hperm.length_eq, List.length_take, Nat.min_eq_left h]
  have htake : (exchangeSort exceeds (X.take n) ++ dest.drop n).take n
      = exchangeSort exceeds (X.take n) := List.take_left' hlen
  rw [SortRight, sort_eq h hX]
  by_cases hfits : n < 2 ^ 31 ∧ n ≤ dest.length
  · rw [if_pos hfits]
    constructor
    · rintro ⟨ret, stored, heq, -, -, hsorted⟩
      cases heq
      rw [htake] at hsorted
      exact ⟨hfits.1, hfits.2, hsorted⟩
    · rintro ⟨-, -, hsorted⟩
      refine ⟨1, _, rfl, ?_, ?_, ?_⟩
      · rw [List.length_append, hlen]
        exact Nat.le_add_right ..
      · rw [htake]
        exact hperm
      · rw [htake]
        exact hsorted
  · rw [if_neg hfits]
    constructor
    · rintro ⟨ret, stored, heq, -⟩
      cases heq
    · rintro ⟨hn, hdest, -⟩
      exact absurd ⟨hn, hdest⟩ hfits

theorem sortRight_of_fits {X : List I64} {n : Nat} (h : n ≤ X.length)
    {dest : List I64} (hfits : SortFits X n dest) : SortRight X n dest := by
  rcases eq_or_ne X [] with rfl | hX
  · have hn : n = 0 := Nat.le_zero.mp h
    refine ⟨0, dest, by simp [sort], ?_, ?_, ?_⟩ <;> simp [hn]
  · have hsame : exchangeSort exceeds (X.take n)
        = exchangeSort (keyGt BitVec.toInt) (X.take n) :=
      exchangeSort_congr fun p hp =>
        exceeds_of_near (hfits.2.2 p hp).1 (hfits.2.2 p hp).2
    rw [sortRight_iff h hX, hsame]
    exact ⟨hfits.1, hfits.2.1, exchangeSort_sorted BitVec.toInt _⟩

/-- Where an entry is 2^63 or more above another: it first, then those it
is so far above, then the others. The first round ends with one of the
others in front, since no comparison moves the far ones. -/
theorem exists_unsorted {L : List I64} {a b : I64} (ha : a ∈ L) (hb : b ∈ L)
    (hfar : 2 ^ 63 ≤ a.toInt - b.toInt) :
    ∃ Y : List I64, Y.Perm L ∧
      ¬(exchangeSort exceeds Y).Pairwise fun x y => x.toInt ≤ y.toInt := by
  let far : I64 → Bool := fun w => decide (2 ^ 63 ≤ a.toInt - w.toInt)
  let low := (L.erase a).filter far
  let others := (L.erase a).filter fun w => !far w
  refine ⟨a :: (low ++ others), ?_, ?_⟩
  · exact ((List.filter_append_perm far _).cons a).trans
      (List.perm_cons_erase ha).symm
  · have hlow : ∀ w ∈ low, exceeds a w = false := by
      intro w hw
      exact exceeds_of_far (of_decide_eq_true (List.mem_filter.mp hw).2)
    have hfront : (sweep exceeds a others).1 ∈ a :: others :=
      (sweep_perm exceeds a others).subset (List.mem_cons_self ..)
    have hclose : a.toInt - (sweep exceeds a others).1.toInt < 2 ^ 63 := by
      rcases List.mem_cons.mp hfront with heq | hmem
      · rw [heq, Int.sub_self]
        omega
      · have hnot := (List.mem_filter.mp hmem).2
        simpa [far] using hnot
    have hbelow : b ∈ exchangeSort exceeds
        (low ++ (sweep exceeds a others).2) := by
      have hne : b ≠ a := by
        rintro rfl
        omega
      have hbL : b ∈ L.erase a := (List.mem_erase_of_ne hne).mpr hb
      have hblow : b ∈ low :=
        List.mem_filter.mpr ⟨hbL, decide_eq_true hfar⟩
      exact (exchangeSort_perm exceeds _).symm.subset
        (List.mem_append_left _ hblow)
    intro hsorted
    rw [exchangeSort, sweep_append hlow, List.pairwise_cons] at hsorted
    have hle := hsorted.1 b hbelow
    dsimp only at hle
    omega

/-- With all entries near each other. -/
theorem sortFits_of_near {X : List I64} {n : Nat} {dest : List I64}
    (hn : n < 2 ^ 31) (hdest : n ≤ dest.length)
    (hnear : ∀ a ∈ X.take n, ∀ b ∈ X.take n, a.toInt - b.toInt < 2 ^ 63) :
    SortFits X n dest := by
  refine ⟨hn, hdest, fun p hp => ?_⟩
  obtain ⟨hp1, hp2⟩ := mem_of_mem_comparedPairs hp
  have hback := hnear p.2 hp2 p.1 hp1
  exact ⟨by omega, hnear p.1 hp1 p.2 hp2⟩

/-- Every order of the entries fits if `sort` is right for every order. -/
theorem sortRight_orders_iff {X : List I64} {n : Nat} (h : n ≤ X.length)
    (dest : List I64) :
    (∀ Y : List I64, Y.Perm (X.take n) → SortRight (Y ++ X.drop n) n dest)
      ↔ ∀ Y : List I64, Y.Perm (X.take n) →
          SortFits (Y ++ X.drop n) n dest := by
  have htake : ∀ Y : List I64, Y.Perm (X.take n) → Y.length = n := by
    intro Y hY
    rw [hY.length_eq, List.length_take, Nat.min_eq_left h]
  have hall : ∀ Y : List I64, Y.Perm (X.take n) →
      (Y ++ X.drop n).length = X.length := by
    intro Y hY
    rw [List.length_append, htake Y hY, List.length_drop]
    omega
  constructor
  · intro hright Y hY
    rcases eq_or_ne X [] with rfl | hX
    · have hn : n = 0 := Nat.le_zero.mp h
      simp [SortFits, comparedPairs, hn]
    have hsorted : ∀ Z : List I64, Z.Perm (X.take n) → n < 2 ^ 31
        ∧ n ≤ dest.length
        ∧ (exchangeSort exceeds Z).Pairwise
            fun a b => a.toInt ≤ b.toInt := by
      intro Z hZ
      have hne : Z ++ X.drop n ≠ [] := by
        rw [← List.length_pos_iff, hall Z hZ]
        exact List.length_pos_iff.mpr hX
      have hiff := sortRight_iff ((hall Z hZ).symm ▸ h) hne dest
      rw [List.take_left' (htake Z hZ)] at hiff
      exact hiff.mp (hright Z hZ)
    have hnear : ∀ a ∈ Y, ∀ b ∈ Y, a.toInt - b.toInt < 2 ^ 63 := by
      intro a ha b hb
      by_contra hfar
      obtain ⟨Z, hZ, hnot⟩ := exists_unsorted ha hb (not_lt.mp hfar)
      exact hnot (hsorted Z (hZ.trans hY)).2.2
    apply sortFits_of_near (hsorted Y hY).1 (hsorted Y hY).2.1
    rw [List.take_left' (htake Y hY)]
    exact hnear
  · intro hfits Y hY
    exact sortRight_of_fits ((hall Y hY).symm ▸ h) (hfits Y hY)

end PrimiHub.Algorithm.Aby3ML
