/-
Doubles by their values: what conversions from integers and additions do,
how far rounding moves, and the ends of the range.

A finite double is a rational here. Comparisons, negation and assignment
are exact; the conversion of an integer rounds to 53 significant bits, to
nearest and ties to even, and is exact below 2^53.
-/
import Mathlib.Algebra.Order.Ring.Rat
import Mathlib.Data.Int.Log
import Mathlib.Data.Nat.Cast.Order.Ring
import Mathlib.Data.Nat.Log
import Mathlib.Data.Rat.Floor
import Mathlib.Tactic.Linarith
import Mathlib.Tactic.NormNum
import Mathlib.Tactic.Positivity

namespace PrimiHub.Lib

/-- `n / d`, rounded to nearest, ties to even. -/
def divRound (n d : Nat) : Nat :=
  if 2 * (n % d) < d then n / d
  else if d < 2 * (n % d) then n / d + 1
  else n / d + n / d % 2

/-- A number with 53 significant bits. -/
def roundDouble (n : Nat) : Nat :=
  divRound n (2 ^ (Nat.log 2 n - 52)) * 2 ^ (Nat.log 2 n - 52)

/-- `static_cast<double>(v)`. -/
def castDouble (v : Int) : ℚ := v.sign * roundDouble v.natAbs

/-- `std::numeric_limits<double>::min()`: the smallest positive normal
number. -/
def doubleMin : ℚ := 1 / 2 ^ 1022

/-- `std::numeric_limits<double>::max()`. -/
def doubleMax : ℚ := 2 ^ 1024 - 2 ^ 971

theorem roundDouble_of_lt {n : Nat} (h : n < 2 ^ 53) : roundDouble n = n := by
  have hlog : Nat.log 2 n - 52 = 0 := by
    have := Nat.log_lt_of_lt_pow' (by decide) h
    omega
  unfold roundDouble divRound
  rw [hlog, Nat.pow_zero, Nat.mod_one, Nat.div_one, Nat.mul_one]
  rfl

/-- Small integers are doubles. -/
theorem castDouble_of_lt {v : Int} (h : v.natAbs < 2 ^ 53) :
    castDouble v = v := by
  unfold castDouble
  rw [roundDouble_of_lt h, ← Int.cast_natCast, ← Int.cast_mul,
    Int.sign_mul_natAbs]

/-- The conversion keeps the sign. -/
theorem castDouble_nonpos {v : Int} (h : v ≤ 0) : castDouble v ≤ 0 := by
  unfold castDouble
  have hsign : (v.sign : ℚ) ≤ 0 := by
    exact_mod_cast Int.sign_nonpos_iff.mpr h
  exact mul_nonpos_of_nonpos_of_nonneg hsign (Nat.cast_nonneg _)

theorem doubleMin_pos : 0 < doubleMin :=
  div_pos one_pos (pow_pos two_pos _)

/-- `q`, rounded to nearest, ties to even. -/
def roundEven (q : ℚ) : Int :=
  if q - ⌊q⌋ < 1 / 2 then ⌊q⌋
  else if 1 / 2 < q - ⌊q⌋ then ⌊q⌋ + 1
  else ⌊q⌋ + ⌊q⌋ % 2

theorem roundEven_intCast (k : Int) : roundEven k = k := by
  unfold roundEven
  rw [Int.floor_intCast, sub_self, if_pos one_half_pos]

/-- The distance of the doubles around `x`. -/
def ulp (x : ℚ) : ℚ := 2 ^ max (Int.log 2 |x| - 52) (-1074)

/-- A finite sum, as the double that stands for it. -/
def roundToDouble (x : ℚ) : ℚ := roundEven (x / ulp x) * ulp x

/-- The addition of two doubles. -/
def addDouble (x y : ℚ) : ℚ := roundToDouble (x + y)

/-- Small integers are doubles. -/
theorem roundToDouble_of_lt {v : Int} (h : v.natAbs < 2 ^ 53) :
    roundToDouble v = v := by
  have habs : |(v : ℚ)| = (v.natAbs : ℚ) := by
    rw [Nat.cast_natAbs, Int.cast_abs]
  have hlog : Int.log 2 |(v : ℚ)| ≤ 52 := by
    rw [habs, Int.log_natCast]
    have hnat := Nat.log_lt_of_lt_pow' (by decide) h
    omega
  obtain ⟨k, hk⟩ : ∃ k : Nat, max (Int.log 2 |(v : ℚ)| - 52) (-1074)
      = -(k : Int) :=
    ⟨(-max (Int.log 2 |(v : ℚ)| - 52) (-1074)).toNat, by omega⟩
  have hulp : ulp v = (2 ^ k)⁻¹ := by
    rw [ulp, hk, zpow_neg, zpow_natCast]
  have hne : (2 : ℚ) ^ k ≠ 0 := pow_ne_zero k two_ne_zero
  have hscaled : (v : ℚ) / ulp v = ((v * 2 ^ k : Int) : ℚ) := by
    rw [hulp, div_inv_eq_mul, Int.cast_mul, Int.cast_pow, Int.cast_ofNat]
  rw [roundToDouble, hscaled, roundEven_intCast, hulp, Int.cast_mul,
    Int.cast_pow, Int.cast_ofNat, mul_inv_cancel_right₀ hne]

/-- Rounding goes to one of the two neighbours. -/
theorem roundEven_mem (q : ℚ) : ⌊q⌋ ≤ roundEven q ∧ roundEven q ≤ ⌊q⌋ + 1 := by
  have hmod : 0 ≤ ⌊q⌋ % 2 ∧ ⌊q⌋ % 2 < 2 := by omega
  unfold roundEven
  split
  · omega
  · split
    · omega
    · omega

/-- The doubles below 2^33 are less than 2^-19 apart. -/
theorem exists_ulp_of_lt {x : ℚ} (h0 : 0 ≤ x) (h : x < 2 ^ 33) :
    ∃ m : Nat, 20 ≤ m ∧ ulp x = (2 ^ m)⁻¹ := by
  have hlog : Int.log 2 |x| ≤ 32 := by
    rw [abs_of_nonneg h0]
    rcases h0.eq_or_lt with hx | hx
    · rw [← hx, Int.log_zero_right]
      decide
    · have hlt : Int.log 2 x < 33 := by
        rw [← Int.lt_zpow_iff_log_lt (by decide) hx]
        exact_mod_cast h
      omega
  obtain ⟨m, hm⟩ : ∃ m : Nat, max (Int.log 2 |x| - 52) (-1074) = -(m : Int) :=
    ⟨(-max (Int.log 2 |x| - 52) (-1074)).toNat, by omega⟩
  refine ⟨m, by omega, ?_⟩
  rw [ulp, hm, zpow_neg, zpow_natCast]

/-- Rounding to a double does not reach the next integer from a distance. -/
theorem floor_roundToDouble {x : ℚ} {k : Nat} (hlo : k ≤ x)
    (hhi : x + 1 / 2 ^ 19 ≤ k + 1) (h : x < 2 ^ 33) :
    ⌊roundToDouble x⌋ = k := by
  obtain ⟨m, hm, hulp⟩ :=
    exists_ulp_of_lt (le_trans (Nat.cast_nonneg k) hlo) h
  have hpow : (0 : ℚ) < 2 ^ m := pow_pos two_pos m
  have hstep : (2 : ℚ) ^ 20 ≤ 2 ^ m := pow_le_pow_right₀ one_le_two hm
  have hscaled : x / ulp x = x * 2 ^ m := by rw [hulp, div_inv_eq_mul]
  obtain ⟨hdown, hup⟩ := roundEven_mem (x * 2 ^ m)
  have hfloor : (k * 2 ^ m : Int) ≤ ⌊x * 2 ^ m⌋ := by
    rw [Int.le_floor]
    push_cast
    exact mul_le_mul_of_nonneg_right hlo hpow.le
  have hbelow : (⌊x * 2 ^ m⌋ : ℚ) ≤ x * 2 ^ m := Int.floor_le _
  rw [roundToDouble, hscaled, hulp, Int.floor_eq_iff]
  constructor
  · have hle : ((k * 2 ^ m : Int) : ℚ) ≤ roundEven (x * 2 ^ m) := by
      exact_mod_cast le_trans hfloor hdown
    push_cast at hle
    rw [← div_eq_mul_inv, le_div_iff₀ hpow]
    exact_mod_cast hle
  · have hle : (roundEven (x * 2 ^ m) : ℚ) ≤ ⌊x * 2 ^ m⌋ + 1 := by
      exact_mod_cast hup
    have hgap : (x + 1 / 2 ^ 19) * 2 ^ m ≤ (k + 1) * 2 ^ m :=
      mul_le_mul_of_nonneg_right hhi hpow.le
    have htwo : (2 : ℚ) ≤ 1 / 2 ^ 19 * 2 ^ m := by
      calc (2 : ℚ) = 1 / 2 ^ 19 * 2 ^ 20 := by norm_num
        _ ≤ 1 / 2 ^ 19 * 2 ^ m :=
            mul_le_mul_of_nonneg_left hstep (by positivity)
    rw [← div_eq_mul_inv, div_lt_iff₀ hpow]
    push_cast
    rw [add_mul] at hgap
    linarith

/-- Rounding does not go below the power of two there is. -/
theorem pow_log_le_roundDouble {n : Nat} (h : n ≠ 0) :
    2 ^ Nat.log 2 n ≤ roundDouble n := by
  have hdvd : 2 ^ (Nat.log 2 n - 52) ∣ 2 ^ Nat.log 2 n :=
    Nat.pow_dvd_pow 2 (Nat.sub_le _ _)
  have hquot : 2 ^ Nat.log 2 n / 2 ^ (Nat.log 2 n - 52)
      ≤ divRound n (2 ^ (Nat.log 2 n - 52)) := by
    have hdiv := Nat.div_le_div_right (c := 2 ^ (Nat.log 2 n - 52))
      (Nat.pow_log_le_self 2 h)
    unfold divRound
    split
    · exact hdiv
    · split
      · omega
      · omega
  calc 2 ^ Nat.log 2 n
      = 2 ^ Nat.log 2 n / 2 ^ (Nat.log 2 n - 52)
          * 2 ^ (Nat.log 2 n - 52) := (Nat.div_mul_cancel hdvd).symm
    _ ≤ roundDouble n := Nat.mul_le_mul_right _ hquot

theorem zpow_log_le_roundToDouble {x : ℚ} (h : 1 ≤ x) :
    2 ^ Int.log 2 x ≤ roundToDouble x := by
  have hpos : 0 < x := lt_of_lt_of_le one_pos h
  have hlog : 0 ≤ Int.log 2 x := by
    rw [← Int.zpow_le_iff_le_log (by decide) hpos]
    exact_mod_cast h
  have hulp : ulp x = 2 ^ (Int.log 2 x - 52) := by
    rw [ulp, abs_of_pos hpos, max_eq_left (by omega)]
  have hulppos : (0 : ℚ) < 2 ^ (Int.log 2 x - 52) := zpow_pos two_pos _
  have hscale : (2 : ℚ) ^ Int.log 2 x = 2 ^ 52 * 2 ^ (Int.log 2 x - 52) := by
    rw [← zpow_natCast, ← zpow_add₀ two_ne_zero]
    congr 1
    omega
  have hfloor : (2 ^ 52 : Int) ≤ ⌊x / ulp x⌋ := by
    rw [Int.le_floor, hulp, le_div_iff₀ hulppos, Int.cast_pow,
      Int.cast_ofNat, ← hscale]
    exact Int.zpow_log_le_self (by decide) hpos
  have hround : ((2 ^ 52 : Int) : ℚ) ≤ roundEven (x / ulp x) := by
    exact_mod_cast le_trans hfloor (roundEven_mem _).1
  rw [Int.cast_pow, Int.cast_ofNat, hulp] at hround
  rw [roundToDouble, hscale, hulp]
  exact mul_le_mul_of_nonneg_right hround hulppos.le

theorem ulp_pos (x : ℚ) : 0 < ulp x := zpow_pos two_pos _

/-- Rounding keeps the sign. -/
theorem roundToDouble_nonneg {x : ℚ} (h : 0 ≤ x) : 0 ≤ roundToDouble x := by
  have hfloor : (0 : Int) ≤ roundEven (x / ulp x) :=
    le_trans (Int.floor_nonneg.mpr (div_nonneg h (ulp_pos x).le))
      (roundEven_mem _).1
  exact mul_nonneg (by exact_mod_cast hfloor) (ulp_pos x).le

/-- A number is no smaller than the distance of the doubles around it, from
the smallest positive double on. -/
theorem ulp_le {x : ℚ} (h : 2 ^ (-1074 : Int) ≤ x) : ulp x ≤ x := by
  have hpos : 0 < x := lt_of_lt_of_le (zpow_pos two_pos _) h
  rw [ulp, abs_of_pos hpos]
  rcases le_total (Int.log 2 x - 52) (-1074) with hlow | hhigh
  · rwa [max_eq_right hlow]
  · rw [max_eq_left hhigh]
    have hstep : (2 : ℚ) ^ (Int.log 2 x - 52) ≤ 2 ^ Int.log 2 x :=
      zpow_le_zpow_right₀ one_le_two (by omega)
    exact le_trans hstep (Int.zpow_log_le_self (by decide) hpos)

/-- Such a number is not rounded to zero. -/
theorem roundToDouble_pos {x : ℚ} (h : 2 ^ (-1074 : Int) ≤ x) :
    0 < roundToDouble x := by
  have hfloor : (1 : Int) ≤ ⌊x / ulp x⌋ := by
    rw [Int.le_floor, Int.cast_one, le_div_iff₀ (ulp_pos x), one_mul]
    exact ulp_le h
  have hround : (1 : ℚ) ≤ roundEven (x / ulp x) := by
    exact_mod_cast le_trans hfloor (roundEven_mem _).1
  exact mul_pos (lt_of_lt_of_le one_pos hround) (ulp_pos x)

/-- No positive double is smaller. -/
theorem le_of_roundToDouble_eq {x : ℚ} (hpos : 0 < x)
    (h : roundToDouble x = x) : 2 ^ (-1074 : Int) ≤ x := by
  have hround : 0 < (roundEven (x / ulp x) : ℚ) := by
    rw [← h] at hpos
    exact pos_of_mul_pos_left hpos (ulp_pos x).le
  have hone : (1 : ℚ) ≤ roundEven (x / ulp x) := by
    have hint : 0 < roundEven (x / ulp x) := by exact_mod_cast hround
    exact_mod_cast (by omega : 1 ≤ roundEven (x / ulp x))
  calc (2 : ℚ) ^ (-1074 : Int) ≤ ulp x :=
        zpow_le_zpow_right₀ one_le_two (le_max_right _ _)
    _ ≤ roundEven (x / ulp x) * ulp x :=
        le_mul_of_one_le_left (ulp_pos x).le hone
    _ = x := h

theorem one_le_castDouble {n : Nat} (h : 0 < n) : 1 ≤ castDouble n := by
  have hsign : ((n : Int).sign : ℚ) = 1 := by
    rw [Int.sign_eq_one_of_pos (by omega), Int.cast_one]
  have hround : 1 ≤ roundDouble n :=
    le_trans Nat.one_le_two_pow (pow_log_le_roundDouble h.ne')
  rw [castDouble, hsign, one_mul, Int.natAbs_natCast]
  exact_mod_cast hround

theorem one_le_roundToDouble {x : ℚ} (h : 1 ≤ x) : 1 ≤ roundToDouble x := by
  refine le_trans ?_ (zpow_log_le_roundToDouble h)
  refine one_le_zpow₀ one_le_two ?_
  rw [← Int.zpow_le_iff_le_log (by decide) (lt_of_lt_of_le one_pos h)]
  exact_mod_cast h

theorem roundToDouble_le_one {x : ℚ} (h0 : 0 ≤ x) (h : x ≤ 1) :
    roundToDouble x ≤ 1 := by
  rcases h0.eq_or_lt with hzero | hpos
  · rw [← hzero, roundToDouble, zero_div]
    have hround : roundEven 0 = 0 := by
      rw [← Int.cast_zero, roundEven_intCast]
    rw [hround, Int.cast_zero, zero_mul]
    exact zero_le_one
  · rcases h.eq_or_lt with hone | hlt
    · have hexact := roundToDouble_of_lt (v := 1) (by decide)
      rw [Int.cast_one] at hexact
      rw [hone, hexact]
    · -- the next power of two above `x` is a multiple of the distance
      have hlog : Int.log 2 x < 0 := by
        rw [← Int.lt_zpow_iff_log_lt (by decide) hpos]
        exact_mod_cast hlt
      have hnext : x < 2 ^ 53 * ulp x := by
        have hup := Int.lt_zpow_succ_log_self (b := 2) (by decide) x
        refine lt_of_lt_of_le hup ?_
        rw [ulp, abs_of_pos hpos, ← zpow_natCast, ← zpow_add₀ two_ne_zero]
        exact zpow_le_zpow_right₀ one_le_two (by omega)
      have hunit : 2 ^ 53 * ulp x ≤ 1 := by
        rw [ulp, abs_of_pos hpos, ← zpow_natCast, ← zpow_add₀ two_ne_zero]
        exact zpow_le_one_of_nonpos₀ one_le_two (by omega)
      have hfloor : ⌊x / ulp x⌋ < 2 ^ 53 := by
        rw [Int.floor_lt, div_lt_iff₀ (ulp_pos x), Int.cast_pow,
          Int.cast_ofNat]
        exact hnext
      have hround : (roundEven (x / ulp x) : ℚ) ≤ ((2 ^ 53 : Int) : ℚ) := by
        have hmem := (roundEven_mem (x / ulp x)).2
        exact_mod_cast (by omega : roundEven (x / ulp x) ≤ 2 ^ 53)
      rw [Int.cast_pow, Int.cast_ofNat] at hround
      exact le_trans (mul_le_mul_of_nonneg_right hround (ulp_pos x).le) hunit

end PrimiHub.Lib
