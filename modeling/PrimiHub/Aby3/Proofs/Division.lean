/-
The rank of a denominator, and what it does for the division.

# The search

Both searches are bitwise, entry by entry (`mpcPow_eq`, `mpcPow2_eq`). With
`n` for the integer behind the absolute value, the test of `MPC_Pow2` is
`n * 2^r ≤ 2^16`, and that of `MPC_Pow` is `2^(r + 16) ≤ n` as long as the
power fits in the signed range. From `r = 48` on nothing is left of it, and
the test is always passed: a number from 2^32 on gets rank 64
(`rank_huge`). Between one half and one no bit is set, and the rank is 1,
where 0 is needed (`rank_half`).

# The iteration

With `c` for the normalised denominator the first error is
`1 - (2.9142 - 2c)c`, and two rounds raise it to the fourth power
(`mpcDivValue_eq`).
-/
import Mathlib.Algebra.Order.Field.Power
import Mathlib.Data.Nat.Log
import Mathlib.Tactic.Linarith
import Mathlib.Tactic.NormNum
import Mathlib.Tactic.Positivity
import Mathlib.Tactic.Ring
import PrimiHub.Aby3.Division
import PrimiHub.Lib.BitSearch

namespace PrimiHub.Aby3

open Lib (positions mem_positions writeAt getElem?_writeAt bitSearch
  bitSearch_set bitSearch_clear bitSearch_eq bitSearch_full)

-- ============================================================== entry by entry

/-- The test as the search asks it. -/
def passes (drelu : I64 → Nat → Nat) (y : I64) (rank : Nat) : Bool :=
  drelu y rank == 1

/-- One round of the search, entry by entry. -/
theorem alphaRound_map {drelu : I64 → Nat → Nat} (f : I64 → Nat)
    (ys : List I64) (i : Nat) :
    alphaRound drelu ys (ys.map f) i
      = ys.map fun y => f y + 2 ^ i * drelu y (f y + 2 ^ i) := by
  unfold alphaRound
  dsimp only
  induction ys with
  | nil => rfl
  | cons y ys ih => exact congrArg _ ih

/-- The rounds from bit `k - 1` down are the search of every entry. -/
theorem foldl_alphaRound {drelu : I64 → Nat → Nat}
    (hbit : ∀ y r, drelu y r = 0 ∨ drelu y r = 1) (ys : List I64) (k : Nat)
    (f : I64 → Nat) :
    (List.range k).reverse.foldl (alphaRound drelu ys) (ys.map f)
      = ys.map fun y => bitSearch (passes drelu y) k (f y) := by
  induction k generalizing f with
  | zero => rfl
  | succ k ih =>
      rw [List.range_succ, List.reverse_append, List.reverse_singleton,
        List.singleton_append, List.foldl_cons, alphaRound_map, ih]
      refine List.map_congr_left fun y _ => ?_
      obtain hclear | hset := hbit y (f y + 2 ^ k)
      · rw [hclear, Nat.mul_zero, Nat.add_zero, bitSearch_clear]
        rw [passes, hclear]
        rfl
      · rw [hset, Nat.mul_one, bitSearch_set]
        rw [passes, hset]
        rfl

/-- Six rounds. -/
theorem alphaRounds_eq {drelu : I64 → Nat → Nat}
    (hbit : ∀ y r, drelu y r = 0 ∨ drelu y r = 1) (ys : List I64) :
    alphaRounds drelu ys
      = ys.map fun y => bitSearch (passes drelu y) 6 0 :=
  foldl_alphaRound hbit ys 6 fun _ => 0

/-- The comparison answers with a bit. -/
theorem mpcDReLu_bit (y : I64) : mpcDReLu y = 0 ∨ mpcDReLu y = 1 := by
  unfold mpcDReLu
  split
  · exact Or.inl rfl
  · exact Or.inr rfl

/-- The search for large denominators, entry by entry. -/
theorem mpcPow_eq (ys : List I64) :
    mpcPow ys = ys.map fun y =>
      (bitSearch (passes powTest y) 6 0 : Int) + 1 := by
  have hbit : ∀ y r, powTest y r = 0 ∨ powTest y r = 1 :=
    fun _ _ => mpcDReLu_bit _
  rw [mpcPow, alphaRounds_eq hbit, List.map_map]
  rfl

/-- The search for small denominators, entry by entry. -/
theorem mpcPow2_eq (ys : List I64) :
    mpcPow2 ys = ys.map fun y =>
      (bitSearch (passes pow2Test y) 6 0 : Int) * (-1) := by
  have hbit : ∀ y r, pow2Test y r = 0 ∨ pow2Test y r = 1 :=
    fun _ _ => mpcDReLu_bit _
  rw [mpcPow2, alphaRounds_eq hbit, List.map_map]
  rfl

/-- The rank of one denominator. -/
def rankOf (b : I64) : Int :=
  if mpcDReLu (mpcAbs b - fixed 1 2) = 0 then
    (bitSearch (passes pow2Test (mpcAbs b)) 6 0 : Int) * (-1)
  else (bitSearch (passes powTest (mpcAbs b)) 6 0 : Int) + 1

/-- A rank function of the split rows, where there are rows of the kind. -/
theorem ranks_eq {rank : List I64 → List Int} {f : I64 → Int}
    (hrank : ∀ ys, rank ys = ys.map f) (is : List Nat) (g : Nat → I64) :
    (if 0 < is.length then rank (is.map g) else [])
      = is.map fun i => f (g i) := by
  split
  · rw [hrank, List.map_map]
    rfl
  · have hnil : is = [] := List.eq_nil_of_length_eq_zero (by omega)
    rw [hnil]
    rfl

/-- Every row has the rank of its own entry. -/
theorem mpcDivRank_eq {uninit : List Int} {bs : List I64}
    (hlength : uninit.length = bs.length) :
    mpcDivRank uninit bs = bs.map rankOf := by
  unfold mpcDivRank
  dsimp only
  rw [ranks_eq mpcPow2_eq, ranks_eq mpcPow_eq]
  refine List.ext_getElem? fun j => ?_
  rw [getElem?_writeAt, getElem?_writeAt, List.getElem?_map]
  have hdenominator : (bs.map mpcAbs).getD j 0
      = ((bs[j]?).map mpcAbs).getD 0 := by
    rw [List.getD_eq_getElem?_getD, List.getElem?_map]
  cases hb : bs[j]? with
  | none =>
      have hu : uninit[j]? = none := by
        rw [List.getElem?_eq_none_iff] at hb ⊢
        omega
      rw [hu]
      split
      · split
        · rfl
        · rfl
      · split
        · rfl
        · rfl
  | some b =>
      obtain ⟨u, hu⟩ : ∃ u, uninit[j]? = some u := by
        have hlt := (List.getElem?_eq_some_iff.mp hb).1
        exact ⟨_, List.getElem?_eq_getElem (by omega)⟩
      have hless : j ∈ positions (· == 0)
          ((bs.map mpcAbs).map fun y => mpcDReLu (y - fixed 1 2))
          ↔ mpcDReLu (mpcAbs b - fixed 1 2) = 0 := by
        rw [mem_positions, List.getElem?_map, List.getElem?_map, hb]
        simp
      have hmore : j ∈ positions (· != 0)
          ((bs.map mpcAbs).map fun y => mpcDReLu (y - fixed 1 2))
          ↔ mpcDReLu (mpcAbs b - fixed 1 2) ≠ 0 := by
        rw [mem_positions, List.getElem?_map, List.getElem?_map, hb]
        simp
      rw [hb] at hdenominator
      rw [hu, hdenominator]
      simp only [hless, hmore, Option.map_some, Option.getD_some, rankOf]
      by_cases hzero : mpcDReLu (mpcAbs b - fixed 1 2) = 0
      · rw [if_neg (not_not.mpr hzero), if_pos hzero, if_pos hzero]
      · rw [if_pos hzero, if_neg hzero, if_neg hzero]
        rfl

-- ================================================================== the tests

theorem toInt_natCast {n : Nat} (h : n < 2 ^ 63) :
    (BitVec.ofNat 64 n).toInt = n := by
  have htoNat : (BitVec.ofNat 64 n).toNat = n := by
    rw [BitVec.toNat_ofNat]
    exact Nat.mod_eq_of_lt (by omega)
  rw [BitVec.toInt_eq_toNat_of_lt (by omega), htoNat]

/-- The sign test of a difference compares. -/
theorem mpcDReLu_sub {n m : Nat} (hn : n < 2 ^ 63) (hm : m < 2 ^ 63) :
    mpcDReLu (BitVec.ofNat 64 n - BitVec.ofNat 64 m)
      = if n < m then 0 else 1 := by
  have hdiff : (BitVec.ofNat 64 n - BitVec.ofNat 64 m).toInt
      = (n : Int) - m := by
    rw [BitVec.toInt_sub, toInt_natCast hn, toInt_natCast hm]
    exact Int.bmod_eq_of_le (by omega) (by omega)
  unfold mpcDReLu
  rw [hdiff]
  by_cases hlt : n < m
  · rw [if_pos hlt, if_pos (by omega)]
  · rw [if_neg hlt, if_neg (by omega)]

/-- The absolute value, unless it is 2^63. -/
theorem mpcAbs_eq {b : I64} (h : b.toInt.natAbs < 2 ^ 63) :
    mpcAbs b = BitVec.ofNat 64 b.toInt.natAbs := by
  refine BitVec.eq_of_toInt_eq ?_
  rw [toInt_natCast h]
  unfold mpcAbs
  split
  · rw [BitVec.toInt_neg, Int.bmod_eq_of_le (by omega) (by omega)]
    omega
  · omega

/-- The test of `MPC_Pow`, while its power fits. -/
theorem passes_pow {n r : Nat} (hn : n < 2 ^ 63) (hr : r < 47) :
    passes powTest (BitVec.ofNat 64 n) r = true ↔ 2 ^ (r + 16) ≤ n := by
  have hpow : 2 ^ (r + 16) < 2 ^ 63 :=
    Nat.pow_lt_pow_right (by decide) (by omega)
  have hfixed : fixed (2 ^ r) 1 = BitVec.ofNat 64 (2 ^ (r + 16)) := by
    rw [fixed, Nat.div_one, ← Nat.pow_add]
  unfold passes powTest
  rw [hfixed, mpcDReLu_sub hn hpow, beq_iff_eq]
  by_cases hlt : n < 2 ^ (r + 16)
  · rw [if_pos hlt]
    exact iff_of_false (by decide) (by omega)
  · rw [if_neg hlt]
    exact iff_of_true rfl (by omega)

/-- A power past the last bit leaves nothing to subtract. -/
theorem passes_pow_past {n r : Nat} (hn : n < 2 ^ 63) (hr : 48 ≤ r) :
    passes powTest (BitVec.ofNat 64 n) r = true := by
  have hfixed : fixed (2 ^ r) 1 = BitVec.ofNat 64 0 := by
    obtain ⟨k, rfl⟩ := Nat.exists_eq_add_of_le hr
    have hpow : 2 ^ (48 + k) * 2 ^ 16 = 2 ^ 64 * 2 ^ k := by
      rw [← Nat.pow_add, ← Nat.pow_add]
      congr 1
      omega
    refine BitVec.eq_of_toNat_eq ?_
    rw [fixed, Nat.div_one, hpow, BitVec.toNat_ofNat, Nat.mul_mod_right]
    rfl
  unfold passes powTest
  rw [hfixed, mpcDReLu_sub hn (by decide), if_neg (Nat.not_lt_zero n)]
  rfl

/-- The test of `MPC_Pow2`. -/
theorem passes_pow2 {n r : Nat} (hn : n < 2 ^ 63) :
    passes pow2Test (BitVec.ofNat 64 n) r = true ↔ n * 2 ^ r ≤ 2 ^ 16 := by
  have hfixed : fixed 1 (2 ^ r) = BitVec.ofNat 64 (2 ^ 16 / 2 ^ r) := by
    rw [fixed, Nat.one_mul]
  have hlt : 2 ^ 16 / 2 ^ r < 2 ^ 63 :=
    Nat.lt_of_le_of_lt (Nat.div_le_self _ _) (by decide)
  have hle := Nat.le_div_iff_mul_le (x := n) (y := 2 ^ 16) (Nat.two_pow_pos r)
  unfold passes pow2Test
  rw [hfixed, mpcDReLu_sub hlt hn, beq_iff_eq, ← hle]
  by_cases hsmall : 2 ^ 16 / 2 ^ r < n
  · rw [if_pos hsmall]
    exact iff_of_false (by decide) (by omega)
  · rw [if_neg hsmall]
    exact iff_of_true rfl (by omega)

/-- The test at one half. -/
theorem mpcDReLu_half {n : Nat} (hn : n < 2 ^ 63) :
    mpcDReLu (BitVec.ofNat 64 n - fixed 1 2) = if n < 2 ^ 15 then 0 else 1 :=
  mpcDReLu_sub hn (by decide)

-- ================================================================== the ranks

/-- Below one half: the last power of one half that is not below. -/
theorem rank_small {b : I64} {n : Nat} (hb : mpcAbs b = BitVec.ofNat 64 n)
    (hpos : 0 < n) (hn : n < 2 ^ 15) :
    ∃ t : Nat, rankOf b = -(t : Int) ∧ n * 2 ^ t ≤ 2 ^ 16
      ∧ 2 ^ 16 < n * 2 ^ (t + 1) := by
  have hbig : n < 2 ^ 63 := Nat.lt_trans hn (by decide)
  obtain ⟨t, ht⟩ : ∃ t, t = Nat.log 2 (2 ^ 16 / n) := ⟨_, rfl⟩
  have hne : 2 ^ 16 / n ≠ 0 :=
    Nat.pos_iff_ne_zero.mp (Nat.div_pos (by omega) hpos)
  have hbound : ∀ r, n * 2 ^ r ≤ 2 ^ 16 ↔ r ≤ t := by
    intro r
    rw [ht, Nat.le_log_iff_pow_le (by decide) hne,
      Nat.le_div_iff_mul_le hpos, Nat.mul_comm]
  have ht16 : t ≤ 16 := by
    rw [ht]
    refine Nat.le_trans (Nat.log_mono_right (Nat.div_le_self _ _)) ?_
    rw [Nat.log_pow (by decide)]
  have hsearch : bitSearch (passes pow2Test (BitVec.ofNat 64 n)) 6 0 = t :=
    bitSearch_eq (Nat.zero_le t) (by omega) fun r _ _ =>
      (passes_pow2 hbig).trans (hbound r)
  refine ⟨t, ?_, (hbound t).mpr (Nat.le_refl t), ?_⟩
  · rw [rankOf, hb, mpcDReLu_half hbig, if_pos hn, if_pos rfl, hsearch]
    omega
  · have hover := mt (hbound (t + 1)).mp (by omega)
    omega

/-- What `MPC_Pow` finds, from one half on. -/
theorem rank_large {b : I64} {n : Nat} (hb : mpcAbs b = BitVec.ofNat 64 n)
    (hhalf : 2 ^ 15 ≤ n) (hn : n < 2 ^ 63) :
    rankOf b
      = (bitSearch (passes powTest (BitVec.ofNat 64 n)) 6 0 : Int) + 1 := by
  rw [rankOf, hb, mpcDReLu_half hn, if_neg (Nat.not_lt.mpr hhalf),
    if_neg Nat.one_ne_zero]

/-- Below 2^48 the highest bit of the search is not set. -/
theorem pow_clear_high {n : Nat} (hn : n < 2 ^ 48) :
    bitSearch (passes powTest (BitVec.ofNat 64 n)) 6 0
      = bitSearch (passes powTest (BitVec.ofNat 64 n)) 5 0 := by
  refine bitSearch_clear (Bool.eq_false_iff.mpr fun hset => ?_)
  have hle := (passes_pow (by omega) (by decide)).mp hset
  omega

/-- Between one half and one: no bit is set. -/
theorem rank_half {b : I64} {n : Nat} (hb : mpcAbs b = BitVec.ofNat 64 n)
    (hhalf : 2 ^ 15 ≤ n) (hn : n < 2 ^ 16) : rankOf b = 1 := by
  have hsearch : bitSearch (passes powTest (BitVec.ofNat 64 n)) 5 0 = 0 := by
    refine bitSearch_eq (Nat.le_refl 0) (by decide) fun r hr hlt => ?_
    rw [passes_pow (by omega) (by omega)]
    have hpow : 2 ^ 16 ≤ 2 ^ (r + 16) :=
      Nat.pow_le_pow_right (by decide) (by omega)
    exact iff_of_false (by omega) (by omega)
  rw [rank_large hb hhalf (by omega), pow_clear_high (by omega), hsearch]
  rfl

/-- From one on, below 2^32: one more than the last power of two that is
not above. -/
theorem rank_middle {b : I64} {n : Nat} (hb : mpcAbs b = BitVec.ofNat 64 n)
    (hone : 2 ^ 16 ≤ n) (hn : n < 2 ^ 48) :
    ∃ t : Nat, rankOf b = (t : Int) + 1 ∧ 2 ^ (t + 16) ≤ n
      ∧ n < 2 ^ (t + 17) := by
  have hne : n ≠ 0 := by omega
  have hbound : ∀ r, 2 ^ r ≤ n ↔ r ≤ Nat.log 2 n := fun r =>
    (Nat.le_log_iff_pow_le (by decide) hne).symm
  have hlow : 16 ≤ Nat.log 2 n := (hbound 16).mp hone
  have hhigh : Nat.log 2 n < 48 := Nat.log_lt_of_lt_pow hne hn
  obtain ⟨t, ht⟩ := Nat.exists_eq_add_of_le hlow
  have hsearch : bitSearch (passes powTest (BitVec.ofNat 64 n)) 5 0 = t := by
    refine bitSearch_eq (Nat.zero_le t) (by omega) fun r _ hlt => ?_
    rw [passes_pow (by omega) (by omega), hbound]
    omega
  refine ⟨t, ?_, (hbound (t + 16)).mpr (by omega), ?_⟩
  · rw [rank_large hb (by omega) (by omega), pow_clear_high hn, hsearch]
  · have hover := mt (hbound (t + 17)).mp (by omega)
    omega

/-- From 2^32 on: every bit is set. -/
theorem rank_huge {b : I64} {n : Nat} (hb : mpcAbs b = BitVec.ofNat 64 n)
    (hlarge : 2 ^ 48 ≤ n) (hn : n < 2 ^ 63) : rankOf b = 64 := by
  have hset : passes powTest (BitVec.ofNat 64 n) (0 + 2 ^ 5) = true :=
    (passes_pow hn (by decide)).mpr hlarge
  have hnext : passes powTest (BitVec.ofNat 64 n) (0 + 2 ^ 5 + 2 ^ 4) = true :=
    passes_pow_past hn (by decide)
  have hrest : ∀ r, 0 + 2 ^ 5 + 2 ^ 4 < r → r < 0 + 2 ^ 5 + 2 ^ 4 + 2 ^ 4 →
      passes powTest (BitVec.ofNat 64 n) r = true := by
    intro r hr _
    exact passes_pow_past hn (by omega)
  rw [rank_large hb (by omega) hn, bitSearch_set hset, bitSearch_set hnext,
    bitSearch_full hrest]
  rfl

-- ============================================================== the iteration

/-- The sign times the absolute value. -/
theorem quoDetermine_mul_abs (x : ℚ) : mpcQuoDetermine x * |x| = x := by
  unfold mpcQuoDetermine
  split
  · rename_i hneg
    rw [abs_of_neg hneg, neg_mul_neg, one_mul]
  · rename_i hpos
    rw [abs_of_nonneg (not_lt.mp hpos), one_mul]

theorem quoDetermine_mul_self (x : ℚ) :
    mpcQuoDetermine x * mpcQuoDetermine x = 1 := by
  unfold mpcQuoDetermine
  split
  · norm_num
  · norm_num

/-- The first error, as a function of the normalised denominator. -/
def firstError (c : ℚ) : ℚ := 1 - (29142 / 10000 - 2 * c) * c

/-- Two rounds leave the fourth power of the first error. -/
theorem mpcDivValue_eq {a b : ℚ} (hb : b ≠ 0) (rank : Int) :
    mpcDivValue a b rank
      = (1 - firstError (|b| * 2 ^ (-rank)) ^ 4) * (a / b) := by
  have hpos : |b| ≠ 0 := abs_ne_zero.mpr hb
  have hquotient : a / b
      = mpcQuoDetermine b * mpcQuoDetermine a * (|a| / |b|) := by
    have hsign := quoDetermine_mul_self b
    have ha := quoDetermine_mul_abs a
    have hb' := quoDetermine_mul_abs b
    rw [div_eq_iff hb]
    calc a = mpcQuoDetermine a * |a| * (mpcQuoDetermine b
            * mpcQuoDetermine b) * (|b| / |b|) := by
          rw [ha, hsign, div_self hpos, mul_one, mul_one]
      _ = mpcQuoDetermine b * mpcQuoDetermine a * (|a| / |b|)
            * (mpcQuoDetermine b * |b|) := by ring
      _ = mpcQuoDetermine b * mpcQuoDetermine a * (|a| / |b|) * b := by
          rw [hb']
  unfold mpcDivValue
  dsimp only
  rw [hquotient, mul_neg_one]
  generalize (2 : ℚ) ^ (-rank) = w
  have hnumerator : |a| = |a| / |b| * |b| := (div_mul_cancel₀ _ hpos).symm
  generalize |a| / |b| = q at hnumerator ⊢
  rw [hnumerator, firstError]
  ring

/-- The first error where the denominator is normalised. -/
theorem firstError_le {c : ℚ} (hlower : 1 / 2 ≤ c) (hupper : c ≤ 1) :
    |firstError c| ≤ 858 / 10000 := by
  rw [firstError, abs_le]
  constructor
  · nlinarith [sq_nonneg (c - 29142 / 40000)]
  · nlinarith [mul_nonneg (sub_nonneg.mpr hlower) (sub_nonneg.mpr hupper)]

/-- The relative error after both rounds of the iteration. -/
theorem mpcDivValue_close {b : ℚ} {rank : Int} (hb : b ≠ 0)
    (hlower : 1 / 2 ≤ |b| * 2 ^ (-rank)) (hupper : |b| * 2 ^ (-rank) ≤ 1)
    (a : ℚ) : |mpcDivValue a b rank - a / b| ≤ |a / b| / 10 ^ 4 := by
  have herror := firstError_le hlower hupper
  have hfourth : |firstError (|b| * 2 ^ (-rank))| ^ 4 ≤ (858 / 10000) ^ 4 :=
    pow_le_pow_left₀ (abs_nonneg _) herror 4
  have hdiff : mpcDivValue a b rank - a / b
      = -(firstError (|b| * 2 ^ (-rank)) ^ 4 * (a / b)) := by
    rw [mpcDivValue_eq hb]
    ring
  rw [hdiff, abs_neg, abs_mul, abs_pow]
  calc |firstError (|b| * 2 ^ (-rank))| ^ 4 * |a / b|
      ≤ (858 / 10000) ^ 4 * |a / b| :=
        mul_le_mul_of_nonneg_right hfourth (abs_nonneg _)
    _ ≤ 1 / 10 ^ 4 * |a / b| := by
        refine mul_le_mul_of_nonneg_right ?_ (abs_nonneg _)
        norm_num
    _ = |a / b| / 10 ^ 4 := by ring

-- ================================================================= main result

/-- The absolute value in fixed point. -/
theorem abs_value (b : I64) : |value b| = (b.toInt.natAbs : ℚ) / 2 ^ 16 := by
  rw [value, abs_div, Nat.cast_natAbs, Int.cast_abs]
  norm_num

/-- Bounds on the value are bounds on the integer behind it. -/
theorem lt_value_iff (b : I64) (q : ℚ) :
    q < |value b| ↔ q * 2 ^ 16 < b.toInt.natAbs := by
  rw [abs_value, lt_div_iff₀ (by positivity)]

theorem value_lt_iff (b : I64) (q : ℚ) :
    |value b| < q ↔ (b.toInt.natAbs : ℚ) < q * 2 ^ 16 := by
  rw [abs_value, div_lt_iff₀ (by positivity)]

theorem le_value_iff (b : I64) (q : ℚ) :
    q ≤ |value b| ↔ q * 2 ^ 16 ≤ b.toInt.natAbs := by
  rw [abs_value, le_div_iff₀ (by positivity)]

/-- The normalised denominator for a rank of either sign. -/
theorem value_mul_small {b : I64} {n t : Nat}
    (hvalue : |value b| = (n : ℚ) / 2 ^ 16) (hle : n * 2 ^ t ≤ 2 ^ 16)
    (hlt : 2 ^ 16 < n * 2 ^ (t + 1)) :
    1 / 2 ≤ |value b| * 2 ^ (-(-(t : Int)))
      ∧ |value b| * 2 ^ (-(-(t : Int))) ≤ 1 := by
  have hle : (n : ℚ) * 2 ^ t ≤ 2 ^ 16 := by exact_mod_cast hle
  have hlt : (2 : ℚ) ^ 16 < n * 2 ^ (t + 1) := by exact_mod_cast hlt
  rw [pow_succ (2 : ℚ) t] at hlt
  rw [neg_neg, zpow_natCast, hvalue, div_mul_eq_mul_div]
  constructor
  · rw [le_div_iff₀ (by positivity)]
    linarith
  · rw [div_le_iff₀ (by positivity)]
    linarith

/-- Above one half: the rank is the position of the highest bit. -/
theorem value_mul_large {b : I64} {n t : Nat}
    (hvalue : |value b| = (n : ℚ) / 2 ^ 16) (hle : 2 ^ (t + 16) ≤ n)
    (hlt : n < 2 ^ (t + 17)) :
    1 / 2 ≤ |value b| * 2 ^ (-((t : Int) + 1))
      ∧ |value b| * 2 ^ (-((t : Int) + 1)) ≤ 1 := by
  have hle : (2 : ℚ) ^ (t + 16) ≤ n := by exact_mod_cast hle
  have hlt : (n : ℚ) < 2 ^ (t + 17) := by exact_mod_cast hlt
  rw [pow_add] at hle hlt
  have hpow : (2 : ℚ) ^ (-((t : Int) + 1)) = (2 ^ t * 2)⁻¹ := by
    rw [zpow_neg, zpow_add_one₀ two_ne_zero, zpow_natCast]
  have ht : (0 : ℚ) < 2 ^ t := by positivity
  rw [hpow, hvalue, ← div_eq_mul_inv, div_div]
  constructor
  · rw [le_div_iff₀ (by positivity)]
    linarith
  · rw [div_le_iff₀ (by positivity)]
    linarith

/-- The rank of a denominator is right exactly outside the two ranges. -/
theorem rankRight_iff {b : I64} (hpos : 0 < |value b|)
    (hlt : |value b| < 2 ^ 46) :
    RankRight b (rankOf b) ↔ Normalised b := by
  have hvalue := abs_value b
  have hzero : value b ≠ 0 := abs_pos.mp hpos
  rw [lt_value_iff, zero_mul] at hpos
  rw [value_lt_iff] at hlt
  unfold Normalised
  rw [value_lt_iff, le_value_iff, value_lt_iff]
  generalize hn : b.toInt.natAbs = n at hvalue hpos hlt ⊢
  have hpos : 0 < n := by exact_mod_cast hpos
  have hlt : n < 2 ^ 62 := by
    have hcast : (n : ℚ) < (2 ^ 62 : Nat) := by
      push_cast
      linarith
    exact_mod_cast hcast
  have habs : mpcAbs b = BitVec.ofNat 64 n :=
    hn ▸ mpcAbs_eq (hn.symm ▸ Nat.lt_trans hlt (by decide))
  have hright : 1 / 2 ≤ |value b| * 2 ^ (-rankOf b)
      ∧ |value b| * 2 ^ (-rankOf b) ≤ 1 → RankRight b (rankOf b) :=
    fun h => ⟨fun _ => mpcDivRank_eq rfl, h.1, h.2,
      mpcDivValue_close hzero h.1 h.2⟩
  -- hhalf | four ranges: small, between one half and one, large, and where the
  -- shift is through
  obtain hsmall | hhalf := Nat.lt_or_ge n (2 ^ 15)
  · obtain ⟨t, hrank, hle, hgt⟩ := rank_small habs hpos hsmall
    have hcast : (n : ℚ) < (2 ^ 15 : Nat) := by exact_mod_cast hsmall
    push_cast at hcast
    refine iff_of_true (hright ?_) (Or.inl (by linarith))
    rw [hrank]
    exact value_mul_small hvalue hle hgt
  have hcast : ((2 ^ 15 : Nat) : ℚ) ≤ n := by exact_mod_cast hhalf
  push_cast at hcast
  obtain hone | hone := Nat.lt_or_ge n (2 ^ 16)
  · -- rank 1, and less than one half is left
    have hbelow : (n : ℚ) < (2 ^ 16 : Nat) := by exact_mod_cast hone
    push_cast at hbelow
    refine iff_of_false (fun h => ?_) ?_
    · have hlower := h.lower
      rw [rank_half habs hhalf hone, hvalue] at hlower
      norm_num at hlower
      linarith
    · rintro (h | h)
      · linarith
      · linarith [h.1]
  obtain hmiddle | hhuge := Nat.lt_or_ge n (2 ^ 48)
  · obtain ⟨t, hrank, hle, hgt⟩ := rank_middle habs hone hmiddle
    have hbelow : (n : ℚ) < (2 ^ 48 : Nat) := by exact_mod_cast hmiddle
    have habove : ((2 ^ 16 : Nat) : ℚ) ≤ n := by exact_mod_cast hone
    push_cast at hbelow habove
    refine iff_of_true (hright ?_) (Or.inr ⟨by linarith, by linarith⟩)
    rw [hrank]
    exact value_mul_large hvalue hle hgt
  · -- rank 64, and almost nothing is left
    have habove : ((2 ^ 48 : Nat) : ℚ) ≤ n := by exact_mod_cast hhuge
    have hbelow : (n : ℚ) < (2 ^ 62 : Nat) := by exact_mod_cast hlt
    push_cast at habove hbelow
    refine iff_of_false (fun h => ?_) ?_
    · have hlower := h.lower
      rw [rank_huge habs hhuge (Nat.lt_trans hlt (by decide)), hvalue]
        at hlower
      norm_num at hlower
      linarith
    · rintro (h | h)
      · linarith
      · linarith [h.2]

/-- The ranks of a column are right exactly if no entry is in one of the
two ranges. -/
theorem mpcDivRank_right_iff {uninit : List Int} {bs : List I64}
    (hlength : uninit.length = bs.length)
    (hbs : ∀ b ∈ bs, 0 < |value b| ∧ |value b| < 2 ^ 46) :
    List.Forall₂ RankRight bs (mpcDivRank uninit bs)
      ↔ ∀ b ∈ bs, Normalised b := by
  rw [mpcDivRank_eq hlength, List.forall₂_map_right_iff, List.forall₂_same]
  exact forall₂_congr fun b hb => rankRight_iff (hbs b hb).1 (hbs b hb).2

/-- The denominators 3 and -1/4. -/
theorem mpcDivRank_right_two :
    List.Forall₂ RankRight [fixed 3 1, -fixed 1 4]
      (mpcDivRank [0, 0] [fixed 3 1, -fixed 1 4]) := by
  have hthree : value (fixed 3 1) = 3 := by
    have hint : (fixed 3 1).toInt = 3 * 2 ^ 16 := by decide
    rw [value, hint]
    norm_num
  have hquarter : value (-fixed 1 4) = -(1 / 4) := by
    have hint : (-fixed 1 4).toInt = -(2 ^ 14) := by decide
    rw [value, hint]
    norm_num
  refine (mpcDivRank_right_iff rfl ?_).mpr ?_
  · simp only [List.forall_mem_cons, hthree, hquarter]
    norm_num
  · simp only [List.forall_mem_cons, Normalised, hthree, hquarter]
    norm_num

/-- The denominator 1/2: its rank is 1, and a quarter is left. -/
theorem not_mpcDivRank_right_half :
    ¬ ∀ (uninit : List Int) (bs : List I64), uninit.length = bs.length →
      (∀ b ∈ bs, 0 < |value b| ∧ |value b| < 2 ^ 46) →
        List.Forall₂ RankRight bs (mpcDivRank uninit bs) := by
  intro h
  have hhalf : value (fixed 1 2) = 1 / 2 := by
    have hint : (fixed 1 2).toInt = 2 ^ 15 := by decide
    rw [value, hint]
    norm_num
  have hright := h [0] [fixed 1 2] rfl (by
    simp only [List.forall_mem_cons, hhalf]
    norm_num)
  have hrank : mpcDivRank [0] [fixed 1 2] = [1] := by decide
  rw [hrank, List.forall₂_cons] at hright
  have hlower := hright.1.lower
  rw [hhalf] at hlower
  norm_num at hlower

end PrimiHub.Aby3
