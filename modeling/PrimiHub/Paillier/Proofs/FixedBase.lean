/-
Fixed-base exponentiation is exponentiation.

The digits that `fbpowmod_extend` collects are the digits of the exponent
base `m_h` (`fbDigits_eq`), and the buffer has room for all of them when
the exponent has at most `maxbits` bits. The two nested loops then compute
the product of `g ^ digit` over the columns of digits and table entries:
after the digit values above `j` have been visited, what the rest of the
loop contributes is `temp ^ j` for the entries already collected, and
`g ^ digit` for the entries still to come (`fbLoop_modEq`). And the table
entries being `base ^ (m_h ^ i)`, that product is the power of the base
whose exponent has these digits (`fbpowmodExtend_ofDigits`).

# The widest windows

`winsize` is a `size_t` and so is `m_h`, but `1 << winsize` is an int.
From 32 on the shift is undefined. At 31 the entries of the table are
those of digits base 2^31, while the digits are remainders by
2^64 - 2^31: one digit is read right, and from the second on the first
comes out too large (`fbDigits_wide_two`). The other end is `maxbits` 0,
where rounding up wraps and, but for windows of one bit, no `malloc`
serves the table (`not_tableFits_zero`).
-/
import Mathlib.Data.Nat.Digits.Lemmas
import Mathlib.Tactic.Ring
import PrimiHub.Paillier.FixedBase

namespace PrimiHub.Paillier

open Lib

-- ================================================================ digits

/-- The digit loop computes the digits, if the buffer has room. -/
theorem fbDigits_eq {w room exp : Nat} (hw : 1 ≤ w) (hw32 : w ≤ 32)
    (hexp : exp < (2 ^ w) ^ room) :
    fbDigits (2 ^ w) w room exp = some (Nat.digits (2 ^ w) exp) := by
  have hbase : 1 < 2 ^ w := Nat.one_lt_two_pow (by omega)
  have h32 : 2 ^ w ≤ 2 ^ 32 := Nat.pow_le_pow_right (by decide) hw32
  induction room generalizing exp with
  | zero =>
      have hzero : exp = 0 := by simpa using hexp
      subst hzero
      simp [fbDigits]
  | succ room ih =>
      rw [fbDigits]
      by_cases hzero : exp = 0
      · rw [if_pos hzero, hzero, Nat.digits_zero]
      · have hrest : exp / 2 ^ w < (2 ^ w) ^ room := by
          rw [Nat.div_lt_iff_lt_mul (by omega), ← Nat.pow_succ]
          exact hexp
        have hdigit : exp % 2 ^ w < 2 ^ 32 :=
          Nat.lt_of_lt_of_le (Nat.mod_lt _ (by omega)) h32
        have hdigits := Nat.digits_def' hbase (Nat.pos_of_ne_zero hzero)
        rw [if_neg hzero, ih hrest, hdigits, Nat.mod_eq_of_lt hdigit]
        rfl

/-- The buffer holds what was written. -/
theorem length_fbDigits {mH mW room exp : Nat} {mE : List Nat}
    (h : fbDigits mH mW room exp = some mE) : mE.length ≤ room := by
  induction room generalizing exp mE with
  | zero =>
      rw [fbDigits] at h
      split at h
      · obtain rfl := Option.some.inj h
        exact Nat.le_refl 0
      · cases h
  | succ room ih =>
      rw [fbDigits] at h
      split at h
      · obtain rfl := Option.some.inj h
        exact Nat.zero_le _
      · obtain ⟨rest, hrest, rfl⟩ := Option.map_eq_some_iff.mp h
        exact Nat.succ_le_succ (ih hrest)

/-- The digits are below the digit base. -/
theorem mem_fbDigits_lt {mH mW room exp : Nat} {mE : List Nat}
    (hpos : 0 < mH) (h : fbDigits mH mW room exp = some mE) {d : Nat}
    (hd : d ∈ mE) : d < mH := by
  induction room generalizing exp mE with
  | zero =>
      have hnil := length_fbDigits h
      rw [List.length_eq_zero_iff.mp (Nat.le_zero.mp hnil)] at hd
      cases hd
  | succ room ih =>
      rw [fbDigits] at h
      split at h
      · obtain rfl := Option.some.inj h
        cases hd
      · obtain ⟨rest, hrest, rfl⟩ := Option.map_eq_some_iff.mp h
        rcases List.mem_cons.mp hd with rfl | hd
        · exact Nat.lt_of_le_of_lt (Nat.mod_le _ _) (Nat.mod_lt _ hpos)
        · exact ih hrest hd

/-- The loops read at the positions of digits. -/
theorem mem_fbReads_lt {mE : List Nat} {j i : Nat} (h : i ∈ fbReads mE j) :
    i < mE.length := by
  induction j with
  | zero => cases h
  | succ j ih =>
      rw [fbReads, List.mem_append] at h
      rcases h with h | h
      · obtain ⟨d, hd, -⟩ := mem_positions.mp h
        exact (List.getElem?_eq_some_iff.mp hd).1
      · exact ih h

-- ================================================================= loops

/-- The entries whose digit is `j`. -/
def columnAt (j : Nat) (columns : List (Nat × Nat)) : Nat :=
  (columns.map fun c => if c.1 = j then c.2 else 1).prod

/-- The entries whose digit is at most `j`, each to the power of its
digit. -/
def columnsUpTo (j : Nat) (columns : List (Nat × Nat)) : Nat :=
  (columns.map fun c => if c.1 ≤ j then c.2 ^ c.1 else 1).prod

theorem columnsUpTo_zero (columns : List (Nat × Nat)) :
    columnsUpTo 0 columns = 1 := by
  refine List.prod_eq_one ?_
  intro x hx
  obtain ⟨c, -, rfl⟩ := List.mem_map.mp hx
  split
  · rename_i hc
    rw [Nat.le_zero.mp hc, Nat.pow_zero]
  · rfl

/-- A column of digit at most `j` is a factor of the columns up to `j`. -/
theorem columnsUpTo_cons {d j : Nat} (hd : d ≤ j) (g : Nat)
    (columns : List (Nat × Nat)) :
    columnsUpTo j ((d, g) :: columns) = g ^ d * columnsUpTo j columns := by
  rw [columnsUpTo, List.map_cons, List.prod_cons, if_pos hd, columnsUpTo]

/-- The entries of one more digit value. -/
theorem columnsUpTo_succ (j : Nat) (columns : List (Nat × Nat)) :
    columnsUpTo (j + 1) columns
      = columnAt (j + 1) columns ^ (j + 1) * columnsUpTo j columns := by
  induction columns with
  | nil => simp [columnsUpTo, columnAt]
  | cons c rest ih =>
      simp only [columnsUpTo, columnAt, List.map_cons, List.prod_cons] at ih ⊢
      rw [ih, Nat.mul_pow]
      by_cases heq : c.1 = j + 1
      · rw [if_pos (by omega), if_pos heq, if_neg (by omega), heq]
        ring
      · rw [if_neg heq, Nat.one_pow, Nat.one_mul]
        by_cases hle : c.1 ≤ j
        · rw [if_pos (by omega), if_pos hle]
          ring
        · rw [if_neg (by omega), if_neg hle]
          ring

/-- The inner loop multiplies the entries with digit `j` into `temp`. -/
theorem fbColumn_modEq (mMod j : Nat) (columns : List (Nat × Nat))
    (temp : Nat) :
    fbColumn mMod j columns temp ≡ temp * columnAt j columns [MOD mMod] := by
  induction columns generalizing temp with
  | nil =>
      rw [fbColumn, columnAt, List.map_nil, List.prod_nil, Nat.mul_one]
  | cons c rest ih =>
      obtain ⟨digit, g⟩ := c
      rw [fbColumn]
      refine (ih _).trans ?_
      rw [columnAt, columnAt, List.map_cons, List.prod_cons, ← Nat.mul_assoc]
      refine Nat.ModEq.mul_right _ ?_
      dsimp only
      split
      · exact Nat.mod_modEq _ _
      · rw [Nat.mul_one]

/-- The outer loop: what is collected counts once for every digit value
left, what is not yet collected counts as often as its digit says. -/
theorem fbLoop_modEq (mMod : Nat) (columns : List (Nat × Nat))
    (j temp result : Nat) :
    fbLoop mMod columns j temp result
      ≡ result * temp ^ j * columnsUpTo j columns [MOD mMod] := by
  induction j generalizing temp result with
  | zero =>
      rw [fbLoop, columnsUpTo_zero, Nat.pow_zero, Nat.mul_one, Nat.mul_one]
  | succ j ih =>
      have htemp := fbColumn_modEq mMod (j + 1) columns temp
      rw [fbLoop]
      refine (ih _ _).trans ?_
      calc result * fbColumn mMod (j + 1) columns temp % mMod
            * fbColumn mMod (j + 1) columns temp ^ j * columnsUpTo j columns
          ≡ result * fbColumn mMod (j + 1) columns temp
            * fbColumn mMod (j + 1) columns temp ^ j
            * columnsUpTo j columns [MOD mMod] :=
            ((Nat.mod_modEq _ _).mul_right _).mul_right _
        _ = result * fbColumn mMod (j + 1) columns temp ^ (j + 1)
            * columnsUpTo j columns := by
            rw [Nat.mul_assoc result, ← Nat.pow_succ']
        _ ≡ result * (temp * columnAt (j + 1) columns) ^ (j + 1)
            * columnsUpTo j columns [MOD mMod] :=
            ((htemp.pow _).mul_left _).mul_right _
        _ = result * temp ^ (j + 1) * columnsUpTo (j + 1) columns := by
            rw [columnsUpTo_succ, Nat.mul_pow]
            ring

/-- After one round the result is reduced. -/
theorem fbLoop_lt {mMod : Nat} (hpos : 0 < mMod)
    (columns : List (Nat × Nat)) (j temp result : Nat)
    (h : 0 < j ∨ result < mMod) : fbLoop mMod columns j temp result < mMod := by
  induction j generalizing temp result with
  | zero =>
      rw [fbLoop]
      exact h.resolve_left (Nat.lt_irrefl 0)
  | succ j ih =>
      rw [fbLoop]
      exact ih _ _ (Or.inr (Nat.mod_lt _ hpos))

-- ================================================================= table

/-- The table entries of the digits from position `i` on. -/
theorem columnsUpTo_table {mMod h j : Nat} (base : Int) (hpos : 0 < mMod)
    (digits : List Nat) (hdigits : ∀ d ∈ digits, d ≤ j) (i k : Nat)
    (hlen : digits.length ≤ k) :
    (columnsUpTo j (digits.zip ((List.range' i k).map fun i =>
        powm base (h ^ i) mMod)) : Int)
      ≡ base ^ (h ^ i * Nat.ofDigits h digits) [ZMOD mMod] := by
  induction digits generalizing i k with
  | nil => simp [columnsUpTo]
  | cons d rest ih =>
      cases k with
      | zero => cases hlen
      | succ k =>
          have hd : d ≤ j := hdigits d (List.mem_cons_self ..)
          have hrest := ih (fun d' hd' =>
            hdigits d' (List.mem_cons_of_mem _ hd')) (i + 1) k
            (Nat.le_of_succ_le_succ hlen)
          rw [List.range'_succ, List.map_cons, List.zip_cons_cons,
            columnsUpTo_cons hd, Nat.ofDigits_cons, Nat.cast_mul, Nat.cast_pow]
          have hhead := (powm_modEq base (h ^ i) hpos).pow d
          calc (powm base (h ^ i) mMod : Int) ^ d * _
              ≡ (base ^ h ^ i) ^ d
                * base ^ (h ^ (i + 1) * Nat.ofDigits h rest) [ZMOD mMod] :=
                hhead.mul hrest
            _ = base ^ (h ^ i * (d + h * Nat.ofDigits h rest)) := by
                rw [← pow_mul, ← pow_add]
                congr 1
                ring

-- ========================================================= one table

/-- The table does not fit exactly if it is larger than `PTRDIFF_MAX`. -/
theorem tableRoom_le_iff (mT : Nat) :
    tableRoom mT ≤ mT ↔ ptrdiffMax < sizeofMpz * (mT + 1) := by
  unfold tableRoom sizeofMpz ptrdiffMax
  dsimp only
  split <;> omega

/-- What a call that returns has made. -/
theorem fbpowmodInitExtend_eq_some_iff {base : Int} {mod maxbits w : Nat}
    {fb : FbInstance} :
    fbpowmodInitExtend base mod maxbits w = some fb ↔
      ∃ mH, oneShl w = some mH ∧ TableFits maxbits w
        ∧ fb = ⟨mod, (List.range (roundup maxbits w + 1)).map fun i =>
            powm base ((mH % 2 ^ 32) ^ i) mod, mH, roundup maxbits w, w⟩ := by
  unfold fbpowmodInitExtend TableFits
  simp only [Option.bind_eq_some_iff, tableRoom_le_iff]
  constructor
  · rintro ⟨mH, hshift, h⟩
    split at h
    · cases h
    · rename_i hroom
      exact ⟨mH, hshift, Nat.le_of_not_lt hroom, (Option.some.inj h).symm⟩
  · rintro ⟨mH, hshift, hfits, rfl⟩
    exact ⟨mH, hshift, if_neg (Nat.not_lt.mpr hfits)⟩

/-- Rounded up, the digits cover the bits. -/
theorem le_mul_roundup {maxbits w : Nat} (hw : 1 ≤ w)
    (hmax : maxbits < 2 ^ 64) : maxbits ≤ w * roundup maxbits w := by
  rcases Nat.eq_zero_or_pos maxbits with rfl | hbits
  · exact Nat.zero_le _
  have hdiv := Nat.div_add_mod (maxbits - 1) w
  have hmod := Nat.mod_lt (maxbits - 1) hw
  have hle : (maxbits - 1) / w ≤ maxbits - 1 := Nat.div_le_self _ _
  unfold roundup
  rw [show (maxbits + (2 ^ 64 - 1)) % 2 ^ 64 = maxbits - 1 by omega,
    Nat.mod_eq_of_lt (by omega), Nat.mul_add, Nat.mul_one]
  omega

/-- What `fbpowmod_extend` computes from the digits it finds: the power
whose exponent has these digits. -/
theorem fbpowmodExtend_ofDigits {base : Int} {mod maxbits w exp : Nat}
    {fb : FbInstance} {mE : List Nat} (hpos : 0 < mod) (hH : 1 < fb.mH)
    (hinit : fbpowmodInitExtend base mod maxbits w = some fb)
    (hdigits : fbDigits fb.mH fb.mW (fb.mT + 1) exp = some mE) :
    fbpowmodExtend fb exp
      = some (powm base (Nat.ofDigits (fb.mH % 2 ^ 32) mE) mod) := by
  have hlen := length_fbDigits hdigits
  have hle : ∀ d ∈ mE, d ≤ fb.mH - 1 := by
    intro d hd
    have := mem_fbDigits_lt (Nat.lt_trans Nat.one_pos hH) hdigits hd
    omega
  obtain ⟨mH, -, -, rfl⟩ := fbpowmodInitExtend_eq_some_iff.mp hinit
  dsimp only at hH hdigits hlen hle ⊢
  have htable := columnsUpTo_table (h := mH % 2 ^ 32) base hpos _ hle 0 _ hlen
  rw [Nat.pow_zero, Nat.one_mul] at htable
  rw [fbpowmodExtend, hdigits, Option.map_some, Option.some.injEq]
  dsimp only
  rw [List.range_eq_range']
  -- both sides are reduced and congruent to the power
  generalize hcolumns : mE.zip ((List.range' 0 (roundup maxbits w + 1)).map
    fun i => powm base ((mH % 2 ^ 32) ^ i) mod) = columns at htable ⊢
  have hloop := fbLoop_modEq mod columns (mH - 1) 1 1
  rw [Nat.one_pow, Nat.one_mul] at hloop
  have hlt := fbLoop_lt hpos columns (mH - 1) 1 1 (Or.inl (by omega))
  have hmod := (Int.natCast_modEq_iff.mpr hloop).trans
    (htable.trans (powm_modEq base _ hpos).symm)
  exact Nat.ModEq.eq_of_lt_of_lt (Int.natCast_modEq_iff.mp hmod) hlt
    (powm_lt base _ hpos)

/-- Only entries of the table are read. -/
theorem fbReads_inside {base : Int} {mod maxbits w exp : Nat}
    {fb : FbInstance} {mE : List Nat}
    (hinit : fbpowmodInitExtend base mod maxbits w = some fb)
    (hdigits : fbDigits fb.mH fb.mW (fb.mT + 1) exp = some mE) :
    ∃ reads, fbpowmodExtendReads fb exp = some reads
      ∧ ∀ i ∈ reads, i < fb.mTableG.length := by
  have hlen := length_fbDigits hdigits
  refine ⟨_, by rw [fbpowmodExtendReads, hdigits, Option.map_some], ?_⟩
  intro i hi
  have htable : fb.mTableG.length = fb.mT + 1 := by
    obtain ⟨mH, -, -, rfl⟩ := fbpowmodInitExtend_eq_some_iff.mp hinit
    rw [List.length_map, List.length_range]
  have := mem_fbReads_lt hi
  omega

-- =============================================================== windows

/-- The digit base of a window of at most 30 bits is exact. -/
theorem oneShl_of_lt {w : Nat} (hw31 : w < 31) :
    oneShl w = some (2 ^ w) ∧ 2 ^ w % 2 ^ 32 = 2 ^ w :=
  ⟨if_pos hw31,
    Nat.mod_eq_of_lt (Nat.pow_lt_pow_right (by decide) (by omega))⟩

/-- At 31 bits the digits are still those of the exponent as long as there
is only one. -/
theorem fbDigits_wide {exp : Nat} (room : Nat) (hexp : exp < 2 ^ 31) :
    fbDigits (2 ^ 64 - 2 ^ 31) 31 (room + 1) exp
      = some (Nat.digits (2 ^ 31) exp) := by
  rw [fbDigits]
  by_cases hzero : exp = 0
  · rw [if_pos hzero, hzero, Nat.digits_zero]
  · have hrest : fbDigits (2 ^ 64 - 2 ^ 31) 31 room 0 = some [] := by
      cases room <;> rfl
    rw [if_neg hzero, Nat.div_eq_of_lt hexp, hrest, Option.map_some,
      Nat.digits_of_lt _ _ hzero hexp, Nat.mod_eq_of_lt (by omega),
      Nat.mod_eq_of_lt (by omega)]

/-- `fbpowmod_extend` on a table of `fbpowmod_init_extend` is modular
exponentiation, for every exponent of at most `maxbits` bits. -/
theorem fbpowmodExtend_right {base : Int} {mod maxbits w exp : Nat}
    {fb : FbInstance} (hpos : 0 < mod) (hw : 1 ≤ w)
    (hfits : WindowFits maxbits w) (hbits64 : maxbits < 2 ^ 64)
    (hinit : fbpowmodInitExtend base mod maxbits w = some fb)
    (hexp : exp < 2 ^ maxbits) : PowerRight base mod exp fb := by
  suffices h : 1 < fb.mH ∧ fbDigits fb.mH fb.mW (fb.mT + 1) exp
      = some (Nat.digits (fb.mH % 2 ^ 32) exp) by
    have hpower := fbpowmodExtend_ofDigits hpos h.1 hinit h.2
    rw [Nat.ofDigits_digits] at hpower
    exact ⟨hpower, fbReads_inside hinit h.2⟩
  obtain ⟨mH, hshift, -, rfl⟩ := fbpowmodInitExtend_eq_some_iff.mp hinit
  dsimp only
  rcases hfits with hw30 | ⟨rfl, hsmall⟩
  · obtain ⟨hshift', h32⟩ := oneShl_of_lt (Nat.lt_succ_of_le hw30)
    obtain rfl := Option.some.inj (hshift.symm.trans hshift')
    have hroom : exp < (2 ^ w) ^ (roundup maxbits w + 1) := by
      refine Nat.lt_of_lt_of_le hexp ?_
      rw [← Nat.pow_mul]
      refine Nat.pow_le_pow_right (by decide) ?_
      have := le_mul_roundup hw hbits64
      rw [Nat.mul_add]
      omega
    rw [h32]
    exact ⟨Nat.one_lt_two_pow (by omega), fbDigits_eq hw (by omega) hroom⟩
  · obtain rfl := Option.some.inj (hshift.symm.trans
      (show oneShl 31 = some (2 ^ 64 - 2 ^ 31) from rfl))
    refine ⟨by decide, fbDigits_wide _ ?_⟩
    exact Nat.lt_of_lt_of_le hexp (Nat.pow_le_pow_right (by decide) hsmall)

/-- The powers the Paillier tables are made for. -/
theorem fbpowmodExtend_eq {base : Int} {mod maxbits w exp : Nat}
    {fb : FbInstance} (hpos : 0 < mod) (hw : 1 ≤ w) (hw31 : w < 31)
    (hbits64 : maxbits < 2 ^ 64)
    (hinit : fbpowmodInitExtend base mod maxbits w = some fb)
    (hexp : exp < 2 ^ maxbits) :
    fbpowmodExtend fb exp = some (powm base exp mod) :=
  (fbpowmodExtend_right hpos hw (Or.inl (Nat.le_of_lt_succ hw31)) hbits64
    hinit hexp).power

-- ============================================== when every table is right

/-- Two digits where there should be 0 and 1: at 31 bits the digit base is
no power of two, and the first digit is not cut down to 31 bits. -/
theorem fbDigits_wide_two (room : Nat) :
    fbDigits (2 ^ 64 - 2 ^ 31) 31 (room + 2) (2 ^ 31) = some [2 ^ 31, 1] := by
  have hrest : fbDigits (2 ^ 64 - 2 ^ 31) 31 room 0 = some [] := by
    cases room <;> rfl
  rw [fbDigits, if_neg (by decide), fbDigits, if_neg (by decide),
    show 2 ^ 31 / 2 ^ 31 / 2 ^ 31 = 0 by decide, hrest]
  decide

/-- Two is a cube root of one modulo seven. -/
theorem powm_two_seven (k r : Nat) : powm 2 (3 * k + r) 7 = powm 2 r 7 := by
  have hcube : ((2 : Int) ^ 3) ^ k ≡ 1 ^ k [ZMOD 7] :=
    Int.ModEq.pow k (by decide)
  have hpow : (2 : Int) ^ (3 * k + r) ≡ 2 ^ r [ZMOD 7] := by
    rw [pow_add, pow_mul]
    simpa only [one_pow, one_mul] using hcube.mul_right (2 ^ r)
  have hpos : 0 < 7 := by decide
  have hleft := powm_eq_of_modEq hpos hpow
  have hright := powm_eq_of_modEq hpos (Int.ModEq.refl ((2 : Int) ^ r))
  exact_mod_cast hleft.trans hright.symm

/-- With 31 bits and more than one digit, two to the power of 2^31 comes
out as two to the power of 2^32. -/
theorem not_power_wide {maxbits : Nat} (hmax : maxbits < 2 ^ 64)
    (hmore : 31 < maxbits) {fb : FbInstance}
    (hinit : fbpowmodInitExtend 2 7 maxbits 31 = some fb) :
    fbpowmodExtend fb (2 ^ 31) ≠ some (powm 2 (2 ^ 31) 7) := by
  have hcover := le_mul_roundup (w := 31) (by decide) hmax
  have hdigits : fbDigits fb.mH fb.mW (fb.mT + 1) (2 ^ 31)
      = some [2 ^ 31, 1] ∧ fb.mH = 2 ^ 64 - 2 ^ 31 := by
    obtain ⟨mH, hshift, -, rfl⟩ := fbpowmodInitExtend_eq_some_iff.mp hinit
    obtain rfl := Option.some.inj hshift
    obtain ⟨room, hroom⟩ : ∃ room, roundup maxbits 31 = room + 1 :=
      ⟨roundup maxbits 31 - 1, by omega⟩
    exact ⟨by rw [hroom]; exact fbDigits_wide_two room, rfl⟩
  rw [fbpowmodExtend_ofDigits (by decide) (by rw [hdigits.2]; decide) hinit
    hdigits.1, hdigits.2]
  have hwrong : Nat.ofDigits ((2 ^ 64 - 2 ^ 31) % 2 ^ 32) [2 ^ 31, 1]
      = 3 * 1431655765 + 1 := by decide
  have hright : 2 ^ 31 = 3 * 715827882 + 2 := by decide
  rw [hwrong, hright, powm_two_seven, powm_two_seven]
  decide

/-- Without bits, a window of more than one bit and at most 31 asks for more
than there can be. -/
theorem not_tableFits_zero {winsize : Nat} (hmore : 1 < winsize)
    (hwindow : winsize ≤ 31) : ¬TableFits 0 winsize := by
  unfold TableFits roundup sizeofMpz ptrdiffMax
  have hdiv : (2 ^ 64 - 1) / 31 ≤ (2 ^ 64 - 1) / winsize :=
    Nat.div_le_div_left hwindow (by omega)
  have hhalf : (2 ^ 64 - 1) / winsize ≤ (2 ^ 64 - 1) / 2 :=
    Nat.div_le_div_left hmore (by decide)
  rw [Nat.zero_add, Nat.mod_eq_of_lt (a := 2 ^ 64 - 1) (by decide)]
  omega

/-- The tables for a number of bits and a window are right exactly if
`malloc` serves their size and the window leaves the digits whole. -/
theorem fixedBaseRight_iff {maxbits winsize : Nat} (hmax : maxbits < 2 ^ 64)
    (hwin : 1 ≤ winsize) :
    FixedBaseRight maxbits winsize ↔
      TableFits maxbits winsize ∧ WindowFits maxbits winsize := by
  constructor
  · intro h
    obtain ⟨fb, hinit, hpowers⟩ := h 2 7 (by decide)
    obtain ⟨mH, hshift, hfits, -⟩ := fbpowmodInitExtend_eq_some_iff.mp hinit
    refine ⟨hfits, ?_⟩
    rcases Nat.lt_trichotomy winsize 31 with hlt | rfl | hgt
    · exact Or.inl (Nat.le_of_lt_succ hlt)
    · refine Or.inr ⟨rfl, Nat.le_of_not_lt fun hmore => ?_⟩
      have hexp : 2 ^ 31 < 2 ^ maxbits :=
        Nat.pow_lt_pow_right (by decide) hmore
      exact not_power_wide hmax hmore hinit (hpowers _ hexp).power
    · rw [oneShl, if_neg (by omega), if_neg (by omega)] at hshift
      cases hshift
  · rintro ⟨hfits, hwindow⟩ base mod hmod
    obtain ⟨mH, hshift⟩ : ∃ mH, oneShl winsize = some mH := by
      rcases hwindow with hw30 | ⟨rfl, -⟩
      · exact ⟨_, (oneShl_of_lt (Nat.lt_succ_of_le hw30)).1⟩
      · exact ⟨_, rfl⟩
    obtain ⟨fb, hinit⟩ :
        ∃ fb, fbpowmodInitExtend base mod maxbits winsize = some fb :=
      ⟨_, fbpowmodInitExtend_eq_some_iff.mpr ⟨mH, hshift, hfits, rfl⟩⟩
    exact ⟨fb, hinit, fun exp hexp =>
      fbpowmodExtend_right (by omega) hwin hwindow hmax hinit hexp⟩

/-- Ten bits in windows of four. -/
theorem fixedBaseRight_ten : FixedBaseRight 10 4 :=
  (fixedBaseRight_iff (by decide) (by decide)).mpr
    ⟨by unfold TableFits; decide, Or.inl (by decide)⟩

/-- 32 bits in windows of 31. -/
theorem not_fixedBaseRight_wide : ¬FixedBaseRight 32 31 := by
  intro h
  obtain ⟨fb, hinit, hpowers⟩ := h 2 7 (by decide)
  exact not_power_wide (by decide) (by decide) hinit
    (hpowers (2 ^ 31) (Nat.pow_lt_pow_right (by decide) (by decide))).power

end PrimiHub.Paillier
