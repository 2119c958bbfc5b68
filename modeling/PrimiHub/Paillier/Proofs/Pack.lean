/-
Packed addition, end to end.

Three layers meet here. Packing solves a system of congruences, one per
number of the block, with a solution below the product of the moduli
(`dataPackingCrt_spec`). Two packed plaintexts may be added without
wrapping modulo `n`, because that product is small against `n`: the
moduli are 28 consecutive primes above a number of 71 bits, there are
enough primes of 72 bits for all of them (`crtMods_lt`), and `n` has more
than 2048 bits. And unpacking decodes each remainder into the balanced
range of its modulus, with the same `>=` as the signed encoding, so it
misses the largest number of the range (`retrieve_block`).

Blocks are handled by the same recursion that cuts the lists, so the
position of a number in its block is its index modulo 28.
-/
import PrimiHub.Paillier.Pack
import PrimiHub.Paillier.Proofs.Encrypt
import PrimiHub.Paillier.Proofs.Signed

namespace PrimiHub.Paillier

open Lib

variable {pub : OptPublicKey} {prv : OptSecretKey}

-- ========================================================== the property

/-- The modulus for the number at index `j` of a list. -/
def CrtMod.modulusAt (crtmod : CrtMod) (j : Nat) : Nat :=
  crtmod.crtMod.getD (j % crtModMaxDimension) 0

/-- Every number lies in the balanced range of its modulus. -/
def InPackRange (crtmod : CrtMod) (xs : List Int) : Prop :=
  ∀ j x, xs[j]? = some x → InBalancedRange (crtmod.modulusAt j) x

/-- A number as it comes back: the largest of the balanced range as a
negative one. -/
def comesBackAs (mod : Nat) (x : Int) : Int :=
  if x = balancedMax mod then x - mod else x

/-- A list of numbers as it comes back. -/
def decodedList (crtmod : CrtMod) (xs : List Int) : List Int :=
  xs.mapIdx fun j x => comesBackAs (crtmod.modulusAt j) x

-- ================================================================ moduli

/-- Exponents of 28 primes `2 ^ a * 3 ^ b * 5 ^ c + 1` of 72 bits, in
ascending order, each with a base for its certificate. -/
def smoothPrimes : List (Nat × Nat × Nat × Nat) :=
  [(11, 26, 24, 3), (11, 7, 36, 3), (21, 57, 3, 4), (11, 42, 11, 5),
    (13, 34, 19, 3), (11, 20, 22, 7), (11, 23, 4, 18), (7, 19, 8, 17),
    (7, 57, 6, 2), (17, 51, 1, 8), (11, 26, 8, 14), (37, 14, 20, 11),
    (19, 6, 28, 9), (13, 7, 1, 27), (11, 33, 11, 9), (21, 44, 7, 7),
    (11, 31, 24, 1), (7, 36, 15, 5), (13, 3, 8, 24), (7, 31, 5, 14),
    (19, 10, 8, 21), (26, 42, 1, 12), (2, 2, 16, 19), (31, 11, 3, 24),
    (17, 49, 1, 9), (11, 30, 13, 9), (11, 3, 11, 22), (7, 11, 25, 9)]

/-- The number an entry of the table stands for. -/
def smoothValue : Nat × Nat × Nat × Nat → Nat
  | (_, a, b, c) => 2 ^ a * 3 ^ b * 5 ^ c + 1

theorem smoothPrimes_prime :
    ∀ r ∈ smoothPrimes.map smoothValue, r.Prime := by
  have hcheck : ∀ t ∈ smoothPrimes,
      smoothCheck t.1 t.2.1 t.2.2.1 t.2.2.2 = true := by
    decide +kernel
  intro r hr
  obtain ⟨t, ht, rfl⟩ := List.mem_map.mp hr
  exact prime_of_smoothCheck (hcheck t ht)

/-- The next primes after `cur` are bounded by any list of larger primes
that is long enough. -/
theorem initCrtLoop_lt {bound k cur : Nat} {primes : List Nat}
    (hprime : ∀ r ∈ primes, r.Prime) (hsorted : primes.Pairwise (· < ·))
    (hgt : ∀ r ∈ primes, cur < r) (hlt : ∀ r ∈ primes, r < bound)
    (hlen : k ≤ primes.length) : ∀ m ∈ initCrtLoop k cur, m < bound := by
  induction primes generalizing k cur with
  | nil =>
      cases Nat.le_zero.mp hlen
      intro m hm
      cases hm
  | cons r rest ih =>
      cases k with
      | zero =>
          intro m hm
          cases hm
      | succ k =>
          have hr := List.mem_cons_self (a := r) (l := rest)
          have hnext : nextprime cur ≤ r :=
            nextprime_le (hgt r hr) (hprime r hr)
          rw [List.pairwise_cons] at hsorted
          have hrest : ∀ m ∈ initCrtLoop k (nextprime cur), m < bound := ih
            (fun r' h => hprime r' (List.mem_cons_of_mem _ h)) hsorted.2
            (fun r' h => Nat.lt_of_le_of_lt hnext (hsorted.1 r' h))
            (fun r' h => hlt r' (List.mem_cons_of_mem _ h))
            (Nat.le_of_succ_le_succ hlen)
          intro m hm
          rw [initCrtLoop, List.mem_cons] at hm
          rcases hm with rfl | hm
          · exact Nat.lt_of_le_of_lt hnext (hlt r hr)
          · exact hrest m hm

theorem initCrtLoop_length (k cur : Nat) : (initCrtLoop k cur).length = k := by
  induction k generalizing cur with
  | zero => rfl
  | succ k ih => rw [initCrtLoop, List.length_cons, ih]

theorem initCrtLoop_prime (k cur : Nat) :
    ∀ m ∈ initCrtLoop k cur, m.Prime ∧ cur < m := by
  induction k generalizing cur with
  | zero =>
      intro m hm
      cases hm
  | succ k ih =>
      intro m hm
      rw [initCrtLoop, List.mem_cons] at hm
      rcases hm with rfl | hm
      · exact ⟨nextprime_prime cur, lt_nextprime cur⟩
      · have h := ih (nextprime cur) m hm
        exact ⟨h.1, Nat.lt_trans (lt_nextprime cur) h.2⟩

/-- The moduli are different primes. -/
theorem initCrtLoop_pairwise (k cur : Nat) :
    (initCrtLoop k cur).Pairwise (· ≠ ·) := by
  induction k generalizing cur with
  | zero => exact List.Pairwise.nil
  | succ k ih =>
      rw [initCrtLoop, List.pairwise_cons]
      exact ⟨fun m hm =>
        Nat.ne_of_lt (initCrtLoop_prime k (nextprime cur) m hm).2, ih _⟩

/-- What the packing relies on in its moduli. -/
structure GoodCrt (crtmod : CrtMod) : Prop where
  size : crtmod.crtSize = crtModMaxDimension
  length : crtmod.crtMod.length = crtModMaxDimension
  half : crtmod.crtHalfMod = crtmod.crtMod.map (· / 2)
  prime : ∀ m ∈ crtmod.crtMod, m.Prime
  odd : ∀ m ∈ crtmod.crtMod, m % 2 = 1
  distinct : crtmod.crtMod.Pairwise (· ≠ ·)
  lt : ∀ m ∈ crtmod.crtMod, m < 2 ^ 72
  gt : ∀ m ∈ crtmod.crtMod, 2 ^ 70 < m

/-- The moduli of `init_crt` are such. -/
theorem initCrt_good (draw : Nat) :
    GoodCrt (initCrt crtModMaxDimension crtModSize draw) := by
  have hdraw : abyPrng draw crtModSize < 2 ^ crtModSize :=
    Nat.mod_lt _ (Nat.two_pow_pos _)
  have hcur : setbit (abyPrng draw crtModSize) crtModSize
      = 2 ^ crtModSize + abyPrng draw crtModSize := setbit_of_lt hdraw
  have hcur71 : setbit (abyPrng draw crtModSize) crtModSize < 2 ^ 71 := by
    rw [hcur]
    unfold crtModSize at *
    omega
  have hcur70 : 2 ^ 70 ≤ setbit (abyPrng draw crtModSize) crtModSize := by
    rw [hcur]
    exact Nat.le_add_right _ _
  refine ⟨rfl, initCrtLoop_length _ _, rfl, ?_, ?_, initCrtLoop_pairwise _ _,
    ?_, fun m hm => hcur70.trans_lt (initCrtLoop_prime _ _ m hm).2⟩
  · intro m hm
    exact (initCrtLoop_prime _ _ m hm).1
  · intro m hm
    obtain ⟨hprime, hgt⟩ := initCrtLoop_prime _ _ m hm
    exact hprime.eq_two_or_odd.resolve_left (by omega)
  · refine initCrtLoop_lt smoothPrimes_prime (by decide +kernel) ?_
      (by decide +kernel) (by decide)
    intro r hr
    have hbig : ∀ r ∈ smoothPrimes.map smoothValue, 2 ^ 71 < r := by
      decide +kernel
    exact Nat.lt_trans hcur71 (hbig r hr)

-- =============================================================== packing

/-- One summand of the packed number. -/
def packTerm (muls : Nat) (x : Int) (mod : Nat) : Int :=
  (if x < 0 then (x + mod) % mod else x) * (muls / mod : Nat)
    * invert (muls / mod : Nat) mod

/-- The packing loop adds up the summands. -/
theorem dataPackingLoop_modEq (muls : Nat) (pairs : List (Int × Nat))
    (res : Int) :
    dataPackingLoop muls pairs res
      ≡ res + (pairs.map fun z => packTerm muls z.1 z.2).sum [ZMOD muls] := by
  induction pairs generalizing res with
  | nil => rw [dataPackingLoop, List.map_nil, List.sum_nil, add_zero]
  | cons z rest ih =>
      obtain ⟨x, mod⟩ := z
      rw [dataPackingLoop]
      refine (ih _).trans ?_
      rw [List.map_cons, List.sum_cons, ← add_assoc]
      exact (Int.mod_modEq _ _).add_right _

/-- The packed number is reduced. -/
theorem dataPackingLoop_bounds {muls : Nat} (hpos : 0 < muls)
    (pairs : List (Int × Nat)) {res : Int} (h0 : 0 ≤ res) (hlt : res < muls) :
    0 ≤ dataPackingLoop muls pairs res
      ∧ dataPackingLoop muls pairs res < muls := by
  induction pairs generalizing res with
  | nil => exact ⟨h0, hlt⟩
  | cons z rest ih =>
      rw [dataPackingLoop]
      exact ih (Int.emod_nonneg _ (by omega)) (Int.emod_lt_of_pos _ (by omega))

/-- The summand of a modulus gives the number there. -/
theorem packTerm_self {muls mod : Nat} (hpos : 0 < mod)
    (hcop : Nat.Coprime (muls / mod) mod) (x : Int) :
    packTerm muls x mod ≡ x [ZMOD mod] := by
  have hx : (if x < 0 then (x + mod) % mod else x) ≡ x [ZMOD mod] := by
    split
    · refine (Int.mod_modEq _ _).trans ?_
      rw [Int.ModEq, Int.add_emod_right]
    · rfl
  exact (mul_inv_cancel_modEq (invert_natCast hpos hcop)).trans hx

/-- The summand of a modulus is zero for the others. -/
theorem packTerm_other {muls mod other : Nat} (hdvd : other ∣ muls / mod)
    (x : Int) : packTerm muls x mod ≡ 0 [ZMOD other] := by
  refine Int.modEq_zero_iff_dvd.mpr ?_
  exact ((Int.natCast_dvd_natCast.mpr hdvd).mul_left _).mul_right _

/-- A sum of such summands is zero. -/
theorem packSum_zero {muls m : Nat} (pairs : List (Int × Nat))
    (hdvd : ∀ z ∈ pairs, m ∣ muls / z.2) :
    (pairs.map fun z => packTerm muls z.1 z.2).sum ≡ 0 [ZMOD m] := by
  induction pairs with
  | nil => rfl
  | cons z rest ih =>
      rw [List.map_cons, List.sum_cons]
      exact (packTerm_other (hdvd z (List.mem_cons_self ..)) z.1).add
        (ih fun z' h => hdvd z' (List.mem_cons_of_mem _ h))

/-- The sum of the summands, for one modulus among different primes. -/
theorem packSum_modEq {muls m : Nat} {x : Int} (pairs : List (Int × Nat))
    (hprime : ∀ z ∈ pairs, z.2.Prime)
    (hdistinct : (pairs.map Prod.snd).Pairwise (· ≠ ·))
    (hmuls : muls = (pairs.map Prod.snd).prod) (hmem : (x, m) ∈ pairs) :
    (pairs.map fun z => packTerm muls z.1 z.2).sum ≡ x [ZMOD m] := by
  have hm := hprime _ hmem
  obtain ⟨pre, post, rfl⟩ := List.append_of_mem hmem
  have hsplit : muls = m * ((pre ++ post).map Prod.snd).prod := by
    rw [hmuls, List.map_append, List.prod_append, List.map_cons,
      List.prod_cons, List.map_append, List.prod_append]
    ring
  have hothers : ∀ z ∈ pre ++ post, z ∈ pre ++ (x, m) :: post := by
    intro z hz
    rw [List.mem_append, List.mem_cons]
    exact (List.mem_append.mp hz).imp_right Or.inr
  have hcop : ∀ z ∈ pre ++ post, Nat.Coprime z.2 m := by
    rw [List.map_append, List.map_cons, List.pairwise_append,
      List.pairwise_cons] at hdistinct
    obtain ⟨-, ⟨hpost, -⟩, hpre⟩ := hdistinct
    intro z hz
    refine (Nat.coprime_primes (hprime z (hothers z hz)) hm).mpr ?_
    rcases List.mem_append.mp hz with hz | hz
    · exact hpre z.2 (List.mem_map_of_mem hz) m (List.mem_cons_self ..)
    · exact (hpost z.2 (List.mem_map_of_mem hz)).symm
  -- the other summands vanish modulo `m`
  have hdvd : ∀ z ∈ pre ++ post, m ∣ muls / z.2 := by
    intro z hz
    have hzmul : z.2 ∣ muls := by
      rw [hmuls]
      exact List.dvd_prod (List.mem_map_of_mem (hothers z hz))
    refine (hcop z hz).symm.dvd_of_dvd_mul_left ?_
    rw [Nat.mul_div_cancel' hzmul]
    exact ⟨_, hsplit⟩
  have hpre := packSum_zero pre fun z h => hdvd z (List.mem_append_left _ h)
  have hpost := packSum_zero post fun z h => hdvd z (List.mem_append_right _ h)
  -- and the one of `m` is the number
  have hself : packTerm muls x m ≡ x [ZMOD m] := packTerm_self hm.pos (by
    rw [hsplit, Nat.mul_div_cancel_left _ hm.pos]
    refine Nat.coprime_list_prod_left_iff.mpr ?_
    intro r hr
    obtain ⟨z, hz, rfl⟩ := List.mem_map.mp hr
    exact hcop z hz) x
  rw [List.map_append, List.sum_append, List.map_cons, List.sum_cons]
  simpa using hpre.add (hself.add hpost)

/-- A bound on the product of the moduli. -/
def packBound : Nat := 2 ^ (72 * crtModMaxDimension)

theorem GoodCrt.prod_le {crtmod : CrtMod} (hcrt : GoodCrt crtmod) {k : Nat}
    (hk : k ≤ crtModMaxDimension) :
    (crtmod.crtMod.take k).prod ≤ packBound := by
  have hprod := List.prod_le_pow_card (crtmod.crtMod.take k) (2 ^ 72)
    fun m hm => Nat.le_of_lt (hcrt.lt m (List.mem_of_mem_take hm))
  refine hprod.trans ?_
  rw [packBound, ← Nat.pow_mul]
  refine Nat.pow_le_pow_right (by decide) (Nat.mul_le_mul_left 72 ?_)
  rw [List.length_take]
  omega

/-- Within a block the modulus of a position is the list's. -/
theorem GoodCrt.modulusAt_block {crtmod : CrtMod} (hcrt : GoodCrt crtmod)
    {j : Nat} (hj : j < crtModMaxDimension) :
    crtmod.crtMod[j]? = some (crtmod.modulusAt j)
      ∧ crtmod.modulusAt j ∈ crtmod.crtMod := by
  have hlt : j < crtmod.crtMod.length := by
    rw [hcrt.length]
    exact hj
  have hget : crtmod.crtMod[j]? = some (crtmod.modulusAt j) := by
    rw [CrtMod.modulusAt, Nat.mod_eq_of_lt hj, List.getD_eq_getElem?_getD,
      List.getElem?_eq_getElem hlt, Option.getD_some]
  exact ⟨hget, List.mem_of_getElem? hget⟩

/-- Packing a block solves its congruences, below the bound. -/
theorem dataPackingCrt_spec {crtmod : CrtMod} (hcrt : GoodCrt crtmod)
    {seq : List Int} (hlen : seq.length ≤ crtModMaxDimension) :
    ∃ pack : Int, dataPackingCrt seq crtmod = some pack ∧ 0 ≤ pack
      ∧ pack < packBound
      ∧ ∀ j x, seq[j]? = some x → pack ≡ x [ZMOD crtmod.modulusAt j] := by
  have htake : (crtmod.crtMod.take seq.length).length = seq.length := by
    rw [List.length_take, hcrt.length]
    omega
  have hsnd : (seq.zip (crtmod.crtMod.take seq.length)).map Prod.snd
      = crtmod.crtMod.take seq.length :=
    List.map_snd_zip (by omega)
  have hprime : ∀ z ∈ seq.zip (crtmod.crtMod.take seq.length),
      z.2.Prime := by
    intro h hz
    obtain ⟨x, m⟩ := h
    exact hcrt.prime m (List.mem_of_mem_take (List.of_mem_zip hz).2)
  have hdistinct : ((seq.zip (crtmod.crtMod.take seq.length)).map
      Prod.snd).Pairwise (· ≠ ·) := by
    rw [hsnd]
    exact hcrt.distinct.sublist (List.take_sublist ..)
  have hpos : 0 < (crtmod.crtMod.take seq.length).prod :=
    List.prod_pos fun m hm =>
      (hcrt.prime m (List.mem_of_mem_take hm)).pos
  have hbounds := dataPackingLoop_bounds hpos
    (seq.zip (crtmod.crtMod.take seq.length)) (Int.le_refl 0)
    (by exact_mod_cast hpos)
  refine ⟨_, ?_, hbounds.1, ?_, ?_⟩
  · rw [dataPackingCrt, if_neg (by rw [hcrt.size]; omega)]
  · have hle := hcrt.prod_le hlen
    exact Int.lt_of_lt_of_le hbounds.2 (by exact_mod_cast hle)
  · intro j x hx
    have hj : j < seq.length := (List.getElem?_eq_some_iff.mp hx).1
    have hmod := (hcrt.modulusAt_block (Nat.lt_of_lt_of_le hj hlen)).1
    have hmem : (x, crtmod.modulusAt j)
        ∈ seq.zip (crtmod.crtMod.take seq.length) := by
      refine List.mem_of_getElem? (i := j) ?_
      rw [List.getElem?_zip_eq_some]
      refine ⟨hx, ?_⟩
      rw [List.getElem?_take_of_lt hj]
      exact hmod
    have hsum := packSum_modEq _ hprime hdistinct (by rw [hsnd]) hmem
    have hloop := dataPackingLoop_modEq (crtmod.crtMod.take seq.length).prod
      (seq.zip (crtmod.crtMod.take seq.length)) 0
    have hdvd : (crtmod.modulusAt j : Int)
        ∣ (crtmod.crtMod.take seq.length).prod := by
      refine Int.natCast_dvd_natCast.mpr (List.dvd_prod ?_)
      exact (List.of_mem_zip hmem).2
    rw [zero_add] at hloop
    exact (hloop.of_dvd hdvd).trans hsum

-- ============================================================= unpacking

/-- Unpacking a block: each number comes back, or its wrapped image. -/
theorem retrieve_block {crtmod : CrtMod} (hcrt : GoodCrt crtmod)
    {zs : List Int} (hlen : zs.length ≤ crtModMaxDimension) {v : Int}
    (hv : ∀ j z, zs[j]? = some z → v ≡ z [ZMOD crtmod.modulusAt j])
    (hrange : InPackRange crtmod zs) :
    dataRetrieveCrt v crtmod zs.length = some (decodedList crtmod zs) := by
  rw [dataRetrieveCrt, if_neg (by rw [hcrt.size]; omega), Option.some.injEq]
  refine List.ext_getElem? ?_
  intro j
  rw [decodedList, List.getElem?_mapIdx, List.getElem?_map]
  by_cases hj : j < zs.length
  · obtain ⟨hmod, hmem⟩ := hcrt.modulusAt_block (Nat.lt_of_lt_of_le hj hlen)
    have hz := List.getElem?_eq_getElem hj
    have hzip : (crtmod.crtMod.zip crtmod.crtHalfMod)[j]?
        = some (crtmod.modulusAt j, crtmod.modulusAt j / 2) := by
      rw [List.getElem?_zip_eq_some, hcrt.half, List.getElem?_map, hmod]
      exact ⟨rfl, rfl⟩
    have hres : v % crtmod.modulusAt j = zs[j] % crtmod.modulusAt j :=
      hv j zs[j] hz
    rw [List.getElem?_take_of_lt hj, hzip, hz, Option.map_some,
      Option.map_some, Option.some.injEq, retrieveOne, comesBackAs]
    dsimp only
    rw [hres]
    exact balanced_emod (hcrt.odd _ hmem) (hrange j zs[j] hz)
  · have htake : ((crtmod.crtMod.zip crtmod.crtHalfMod).take zs.length)[j]?
        = none :=
      List.getElem?_eq_none (by rw [List.length_take]; omega)
    rw [htake, List.getElem?_eq_none (by omega)]
    rfl

-- ================================================================ blocks

/-- The first block of a list and the rest, as they come back. -/
theorem decodedList_split (crtmod : CrtMod) (zs : List Int) :
    decodedList crtmod zs
      = decodedList crtmod (zs.take crtModMaxDimension)
        ++ decodedList crtmod (zs.drop crtModMaxDimension) := by
  by_cases hlen : zs.length ≤ crtModMaxDimension
  · rw [List.take_of_length_le hlen, List.drop_of_length_le hlen]
    exact (List.append_nil _).symm
  · have htake : (zs.take crtModMaxDimension).length = crtModMaxDimension := by
      rw [List.length_take]
      omega
    conv_lhs => rw [← List.take_append_drop crtModMaxDimension zs]
    rw [decodedList, List.mapIdx_append, htake]
    congr 1
    refine List.mapIdx_eq_mapIdx_iff.mpr ?_
    intro j hj
    rw [CrtMod.modulusAt, Nat.add_mod_right, ← CrtMod.modulusAt]

/-- The range condition passes to the first block and to the rest. -/
theorem InPackRange.split {crtmod : CrtMod} {zs : List Int}
    (h : InPackRange crtmod zs) :
    InPackRange crtmod (zs.take crtModMaxDimension)
      ∧ InPackRange crtmod (zs.drop crtModMaxDimension) := by
  constructor
  · intro j x hx
    rw [List.getElem?_take] at hx
    split at hx
    · exact h j x hx
    · cases hx
  · intro j x hx
    rw [List.getElem?_drop] at hx
    have hrange := h _ x hx
    rwa [CrtMod.modulusAt, Nat.add_mod_left, ← CrtMod.modulusAt] at hrange

/-- Component-wise sums. -/
def sums (xs ys : List Int) : List Int := List.zipWith (· + ·) xs ys

/-- Two packed blocks, added and unpacked. -/
theorem block_add (hkey : GeneratedKey pub prv) {crtmod : CrtMod}
    (hcrt : GoodCrt crtmod) {xs ys : List Int} {px py : Int} {c₁ c₂ : Nat}
    (hlen : xs.length = ys.length) (hmax : xs.length ≤ crtModMaxDimension)
    (hx0 : 0 ≤ px) (hxb : px < packBound) (hy0 : 0 ≤ py) (hyb : py < packBound)
    (hpx : ∀ j x, xs[j]? = some x → px ≡ x [ZMOD crtmod.modulusAt j])
    (hpy : ∀ j y, ys[j]? = some y → py ≡ y [ZMOD crtmod.modulusAt j])
    (h₁ : Carries pub prv c₁ px) (h₂ : Carries pub prv c₂ py)
    (hrange : InPackRange crtmod (sums xs ys)) :
    dataRetrieveCrt (optPaillierDecryptCrt pub prv (optPaillierAdd pub c₁ c₂))
        crtmod xs.length
      = some (decodedList crtmod (sums xs ys)) := by
  -- the sum of the two packed numbers does not reach `n`
  have hn : 2 * packBound < pub.n := by
    refine Nat.lt_of_le_of_lt ?_ hkey.n_large
    rw [packBound, ← Nat.pow_succ']
    exact Nat.pow_le_pow_right (by decide)
      (Nat.le_trans (by decide) hkey.nbits_ge)
  have hdec : optPaillierDecryptCrt pub prv (optPaillierAdd pub c₁ c₂)
      = px + py := by
    rw [(h₁.add hkey h₂).decryptCrt hkey]
    exact Int.emod_eq_of_lt (by omega) (by omega)
  have hsums : (sums xs ys).length = xs.length := by
    rw [sums, List.length_zipWith, hlen, Nat.min_self]
  rw [hdec, ← hsums]
  refine retrieve_block hcrt (by omega) ?_ hrange
  intro j z hz
  obtain ⟨x, y, hx, hy, rfl⟩ := List.getElem?_zipWith_eq_some.mp hz
  exact (hpx j x hx).add (hpy j y hy)

/-- Sums of the first blocks and of the rests. -/
theorem sums_take (xs ys : List Int) (k : Nat) :
    (sums xs ys).take k = sums (xs.take k) (ys.take k) :=
  List.take_zipWith ..

theorem sums_drop (xs ys : List Int) (k : Nat) :
    (sums xs ys).drop k = sums (xs.drop k) (ys.drop k) :=
  List.drop_zipWith ..

/-- An encryption whose ciphertexts carry their plaintexts. -/
def Encrypts (pub : OptPublicKey) (prv : OptSecretKey)
    (encrypt : Int → Nat → Nat) : Prop :=
  ∀ m r, Carries pub prv (encrypt m r) m

/-- One turn of the encryption loop. -/
theorem packEncryptLoop_cons {encrypt : Int → Nat → Nat} {lbits : Nat}
    {crtmod : CrtMod} {draws : Nat → Nat} {block : Nat} {xs : List Int}
    (hne : xs ≠ []) {pack : Int} {rest : List Nat}
    (hpack : dataPackingCrt (xs.take crtModMaxDimension) crtmod = some pack)
    (hrest : packEncryptLoop encrypt lbits crtmod draws (block + 1)
      (xs.drop crtModMaxDimension) = some rest) :
    packEncryptLoop encrypt lbits crtmod draws block xs
      = some (encrypt pack (abyPrng (draws block) lbits) :: rest) := by
  rw [packEncryptLoop, if_neg hne, hpack, hrest]
  rfl

/-- Two packs of the same length, added and decrypted: every sum comes
back, or its wrapped image. -/
theorem pack_loop (hkey : GeneratedKey pub prv) {crtmod : CrtMod}
    (hcrt : GoodCrt crtmod) {encrypt₁ encrypt₂ : Int → Nat → Nat}
    (h₁ : Encrypts pub prv encrypt₁) (h₂ : Encrypts pub prv encrypt₂)
    (lbits : Nat) (draws₁ draws₂ : Nat → Nat) (block₁ block₂ : Nat)
    (xs ys : List Int) (hlen : xs.length = ys.length)
    (hrange : InPackRange crtmod (sums xs ys)) :
    ∃ cs₁ cs₂,
      packEncryptLoop encrypt₁ lbits crtmod draws₁ block₁ xs = some cs₁
      ∧ packEncryptLoop encrypt₂ lbits crtmod draws₂ block₂ ys = some cs₂
      ∧ cs₁.length = cs₂.length
      ∧ packDecryptLoop pub prv crtmod
          (List.zipWith (optPaillierAdd pub) cs₁ cs₂) xs.length
        = some (decodedList crtmod (sums xs ys)) := by
  -- the recursion is the loop's: on the rest after the first block
  induction hn : xs.length using Nat.strong_induction_on
    generalizing xs ys block₁ block₂ with
  | h n ih =>
      by_cases hnil : xs = []
      · subst hnil
        have hys : ys = [] := List.length_eq_zero_iff.mp hlen.symm
        subst hys
        exact ⟨[], [], by rw [packEncryptLoop, if_pos rfl],
          by rw [packEncryptLoop, if_pos rfl], rfl, rfl⟩
      have hpos := List.length_pos_iff.mpr hnil
      have hynil : ys ≠ [] := by
        rintro rfl
        rw [List.length_nil] at hlen
        omega
      obtain ⟨hrange₁, hrange₂⟩ := hrange.split
      rw [sums_take] at hrange₁
      rw [sums_drop] at hrange₂
      -- the rest of both lists
      have hdrop : (xs.drop crtModMaxDimension).length
          = (ys.drop crtModMaxDimension).length := by
        rw [List.length_drop, List.length_drop, hlen]
      have hlt : (xs.drop crtModMaxDimension).length < n := by
        rw [List.length_drop, crtModMaxDimension]
        omega
      obtain ⟨cs₁, cs₂, he₁, he₂, hcs, hdec⟩ := ih _ hlt (block₁ + 1)
        (block₂ + 1) _ _ hdrop hrange₂ rfl
      -- the first block
      have htake : (xs.take crtModMaxDimension).length
          = (ys.take crtModMaxDimension).length := by
        rw [List.length_take, List.length_take, hlen]
      have hx_le : (xs.take crtModMaxDimension).length
          ≤ crtModMaxDimension := by
        rw [List.length_take]
        exact Nat.min_le_left ..
      obtain ⟨px, hpx, hx0, hxb, hxmod⟩ := dataPackingCrt_spec hcrt hx_le
      obtain ⟨py, hpy, hy0, hyb, hymod⟩ :=
        dataPackingCrt_spec hcrt (htake ▸ hx_le)
      have hblock := block_add hkey hcrt htake hx_le hx0 hxb hy0 hyb hxmod hymod
        (h₁ px (abyPrng (draws₁ block₁) lbits))
        (h₂ py (abyPrng (draws₂ block₂) lbits)) hrange₁
      refine ⟨_, _, packEncryptLoop_cons hnil hpx he₁,
        packEncryptLoop_cons hynil hpy he₂, by simp [hcs], ?_⟩
      -- decrypting: the size of the first block, and the count for the rest
      have hsize : min crtModMaxDimension n
          = (xs.take crtModMaxDimension).length := by
        rw [List.length_take, hn]
      have hrest : packDecryptLoop pub prv crtmod
          (List.zipWith (optPaillierAdd pub) cs₁ cs₂)
          (sizeSub n crtModMaxDimension)
          = some (decodedList crtmod (sums (xs.drop crtModMaxDimension)
            (ys.drop crtModMaxDimension))) := by
        by_cases hfull : crtModMaxDimension ≤ n
        · rw [sizeSub, if_pos hfull, ← hn, ← List.length_drop]
          exact hdec
        · have hxnil : xs.drop crtModMaxDimension = [] :=
            List.drop_of_length_le (by omega)
          rw [hxnil, packEncryptLoop, if_pos rfl, Option.some.injEq] at he₁
          subst he₁
          rw [hxnil]
          rfl
      rw [List.zipWith_cons_cons, packDecryptLoop, hsize, hblock, hrest,
        decodedList_split crtmod (sums xs ys), sums_take, sums_drop]
      rfl

-- ================================================================ results

theorem GoodCrt.modulusAt_mem {crtmod : CrtMod} (hcrt : GoodCrt crtmod)
    (j : Nat) : crtmod.modulusAt j ∈ crtmod.crtMod := by
  have hj : j % crtModMaxDimension < crtModMaxDimension :=
    Nat.mod_lt _ (by decide)
  have hmem := (hcrt.modulusAt_block hj).2
  rwa [CrtMod.modulusAt, Nat.mod_mod, ← CrtMod.modulusAt] at hmem

theorem GoodCrt.modulusAt_pos {crtmod : CrtMod} (hcrt : GoodCrt crtmod)
    (j : Nat) : 0 < crtmod.modulusAt j :=
  (hcrt.prime _ (hcrt.modulusAt_mem j)).pos

/-- Numbers of 69 bits lie in the balanced ranges of all moduli. -/
theorem GoodCrt.inPackRange {crtmod : CrtMod} (hcrt : GoodCrt crtmod)
    {xs : List Int} (h : ∀ x ∈ xs, -2 ^ 69 ≤ x ∧ x ≤ 2 ^ 69) :
    InPackRange crtmod xs := by
  intro j x hx
  have hbounds := h x (List.mem_of_getElem? hx)
  have hgt := hcrt.gt _ (hcrt.modulusAt_mem j)
  unfold InBalancedRange balancedMax
  rw [abs_le]
  omega

/-- A list comes back as it is exactly if none of its numbers is the
largest of its range. -/
theorem decodedList_eq_iff {crtmod : CrtMod} (hcrt : GoodCrt crtmod)
    (zs : List Int) :
    decodedList crtmod zs = zs
      ↔ ∀ j z, zs[j]? = some z → z ≠ balancedMax (crtmod.modulusAt j) := by
  constructor
  · intro heq j z hz
    have hj := congrArg (fun l : List Int => l[j]?) heq
    simp only [decodedList, List.getElem?_mapIdx, hz, Option.map_some,
      Option.some.injEq] at hj
    exact (ite_sub_eq_iff (hcrt.modulusAt_pos j)).mp hj
  · intro hne
    refine List.ext_getElem? ?_
    intro j
    rw [decodedList, List.getElem?_mapIdx]
    cases hz : zs[j]? with
    | none => rfl
    | some z =>
        rw [Option.map_some, Option.some.injEq]
        exact (ite_sub_eq_iff (hcrt.modulusAt_pos j)).mpr (hne j z hz)

/-- Either of the two pack encryptions. -/
def packEncrypt (pub : OptPublicKey) (prv : OptSecretKey) (crt : Bool) :=
  if crt then optPaillierPackEncryptCrtWarpper pub prv
  else optPaillierPackEncryptWarpper pub

/-- Both pack encryptions are the common body over an encryption that
carries its plaintexts. -/
theorem packEncrypt_eq (hkey : GeneratedKey pub prv) (crt : Bool) :
    ∃ encrypt, Encrypts pub prv encrypt
      ∧ packEncrypt pub prv crt = packEncryptWith encrypt pub.lbits := by
  cases crt with
  | false => exact ⟨_, carries_encrypt hkey, rfl⟩
  | true =>
      refine ⟨_, ?_, rfl⟩
      intro m r
      rw [optPaillierEncryptCrt, modNSquaredCrt_eq hkey]
      exact carries_encrypt hkey m r

/-- Encrypting two lists of one length under the same moduli, adding the
packs and decrypting the sum. -/
theorem pack_add_decoded (hkey : GeneratedKey pub prv) (crt₁ crt₂ : Bool)
    (crtDraw crtDraw' : Nat) (draws₁ draws₂ : Nat → Nat) {xs ys : List Int}
    (hlen : xs.length = ys.length)
    (hrange : InPackRange (initCrt crtModMaxDimension crtModSize crtDraw)
      (sums xs ys)) :
    ∃ p₁ p₂ p,
      packEncrypt pub prv crt₁ crtDraw draws₁ xs none = some p₁
      ∧ packEncrypt pub prv crt₂ crtDraw' draws₂ ys (some p₁.crtMod) = some p₂
      ∧ optPaillierPackAddWarpper pub p₁ p₂ = some p
      ∧ optPaillierPackDecryptCrtWarpper pub prv p
        = some (decodedList (initCrt crtModMaxDimension crtModSize crtDraw)
          (sums xs ys)) := by
  obtain ⟨encrypt₁, h₁, heq₁⟩ := packEncrypt_eq hkey crt₁
  obtain ⟨encrypt₂, h₂, heq₂⟩ := packEncrypt_eq hkey crt₂
  obtain ⟨cs₁, cs₂, he₁, he₂, hcs, hdec⟩ := pack_loop hkey
    (initCrt_good crtDraw) h₁ h₂ pub.lbits draws₁ draws₂ 0 0 xs ys hlen hrange
  refine ⟨⟨cs₁, initCrt crtModMaxDimension crtModSize crtDraw, xs.length⟩,
    ⟨cs₂, initCrt crtModMaxDimension crtModSize crtDraw, ys.length⟩,
    ⟨List.zipWith (optPaillierAdd pub) cs₁ cs₂,
      initCrt crtModMaxDimension crtModSize crtDraw, xs.length⟩, ?_, ?_, ?_,
    hdec⟩
  · rw [heq₁, packEncryptWith, Option.getD_none, he₁, Option.map_some]
  · rw [heq₂, packEncryptWith, Option.getD_some, he₂, Option.map_some]
  · rw [optPaillierPackAddWarpper, if_neg (not_not.mpr hlen),
      if_neg (not_not.mpr rfl), if_neg (Nat.not_lt.mpr (Nat.le_of_eq hcs))]

/-- For every generated key, every choice of the two pack encryptions,
every draw of the moduli and every two lists of one length whose
component-wise sums lie in the balanced ranges of the moduli: encrypting,
adding and decrypting succeeds, with as many numbers as before, and
returns exactly the sums if and only if no sum is the end `(m - 1) / 2` of
the range of its modulus `m`. -/
theorem pack_add_iff {kSec : Nat} {tape : List Nat}
    (h : optPaillierKeygen kSec tape = some (pub, prv)) (crt₁ crt₂ : Bool)
    (crtDraw crtDraw' : Nat) (draws₁ draws₂ : Nat → Nat) {xs ys : List Int}
    (hlen : xs.length = ys.length)
    (hrange : InPackRange (initCrt crtModMaxDimension crtModSize crtDraw)
      (sums xs ys)) :
    ∃ p₁ p₂ p zs,
      packEncrypt pub prv crt₁ crtDraw draws₁ xs none = some p₁
      ∧ packEncrypt pub prv crt₂ crtDraw' draws₂ ys (some p₁.crtMod) = some p₂
      ∧ optPaillierPackAddWarpper pub p₁ p₂ = some p
      ∧ optPaillierPackDecryptCrtWarpper pub prv p = some zs
      ∧ zs.length = xs.length
      ∧ (zs = sums xs ys ↔ ∀ j z, (sums xs ys)[j]? = some z →
        z ≠ balancedMax ((initCrt crtModMaxDimension crtModSize
          crtDraw).modulusAt j)) := by
  obtain ⟨p₁, p₂, p, hp₁, hp₂, hp, hzs⟩ := pack_add_decoded
    (keygen_generated h) crt₁ crt₂ crtDraw crtDraw' draws₁ draws₂ hlen hrange
  refine ⟨p₁, p₂, p, _, hp₁, hp₂, hp, hzs, ?_,
    decodedList_eq_iff (initCrt_good crtDraw) _⟩
  rw [decodedList, List.length_mapIdx, sums, List.length_zipWith, hlen,
    Nat.min_self]

/-- A draw just below a prime, for the first modulus. -/
def sampleCrtDraw : Nat := 1186523437500000000000

/-- The first modulus is the first prime drawn. -/
theorem modulusAt_zero (draw : Nat) :
    (initCrt crtModMaxDimension crtModSize draw).modulusAt 0
      = randomPrime draw crtModSize := rfl

/-- The first modulus of the sample draw. -/
theorem sample_modulusAt :
    (initCrt crtModMaxDimension crtModSize sampleCrtDraw).modulusAt 0
      = sampleCrtDraw + 1 := by
  have hprime : (2 ^ 11 * 3 ^ 5 * 5 ^ 22 + 1).Prime :=
    prime_of_smoothCheck (show smoothCheck 7 11 5 22 = true by decide +kernel)
  have hvalue : 2 ^ 11 * 3 ^ 5 * 5 ^ 22 + 1 = sampleCrtDraw + 1 := by
    decide +kernel
  rw [hvalue] at hprime
  rw [modulusAt_zero]
  exact randomPrime_of_prime hprime (by decide +kernel) (by decide +kernel)

/-- A list of one number, in the range of the first modulus. -/
theorem inPackRange_singleton {crtmod : CrtMod} {x : Int}
    (h : InBalancedRange (crtmod.modulusAt 0) x) : InPackRange crtmod [x] := by
  intro j y hy
  match j with
  | 0 =>
      cases hy
      exact h
  | j + 1 => cases hy

/-- The balanced range of the sample modulus. -/
theorem sample_inBalancedRange {x : Int}
    (hlo : -593261718750000000000 ≤ x) (hhi : x ≤ 593261718750000000000) :
    InBalancedRange ((initCrt crtModMaxDimension crtModSize
      sampleCrtDraw).modulusAt 0) x := by
  rw [sample_modulusAt, InBalancedRange, abs_le, balancedMax, sampleCrtDraw]
  omega

/-- Two lists of 30 numbers, which make two packs each. -/
def sampleSummands₁ : List Int :=
  (List.range 30).map fun i => 1000 * i - 7

def sampleSummands₂ : List Int :=
  (List.range 30).map fun i => 5 - 3000 * i

/-- With the sample key, the sums of two lists are in range. -/
theorem pack_add_iff_sample :
    ∃ pub prv, optPaillierKeygen 112 sampleTape = some (pub, prv)
      ∧ ∃ p₁ p₂ p zs,
        packEncrypt pub prv false sampleCrtDraw (5 + ·) sampleSummands₁ none
          = some p₁
        ∧ packEncrypt pub prv true 0 (60 + ·) sampleSummands₂
            (some p₁.crtMod) = some p₂
        ∧ optPaillierPackAddWarpper pub p₁ p₂ = some p
        ∧ optPaillierPackDecryptCrtWarpper pub prv p = some zs
        ∧ zs.length = 30
        ∧ (zs = sums sampleSummands₁ sampleSummands₂
          ↔ ∀ j z, (sums sampleSummands₁ sampleSummands₂)[j]? = some z →
            z ≠ balancedMax ((initCrt crtModMaxDimension crtModSize
              sampleCrtDraw).modulusAt j)) := by
  obtain ⟨pub, prv, h⟩ := keygen_sample
  have hrange : InPackRange (initCrt crtModMaxDimension crtModSize
      sampleCrtDraw) (sums sampleSummands₁ sampleSummands₂) :=
    (initCrt_good sampleCrtDraw).inPackRange (by decide +kernel)
  exact ⟨pub, prv, h, pack_add_iff h false true sampleCrtDraw 0 (5 + ·)
    (60 + ·) rfl hrange⟩

/-- With the sample key and moduli, the lists `[(m - 1) / 2]` and `[0]` are
in range with their sum, and come back as `[-(m + 1) / 2]`. -/
theorem pack_add_boundary :
    ∃ pub prv, optPaillierKeygen 112 sampleTape = some (pub, prv)
      ∧ InPackRange (initCrt crtModMaxDimension crtModSize sampleCrtDraw)
        [593261718750000000000]
      ∧ InPackRange (initCrt crtModMaxDimension crtModSize sampleCrtDraw) [0]
      ∧ InPackRange (initCrt crtModMaxDimension crtModSize sampleCrtDraw)
        (sums [593261718750000000000] [0])
      ∧ ∃ p₁ p₂ p,
        packEncrypt pub prv false sampleCrtDraw (fun _ => 5)
          [593261718750000000000] none = some p₁
        ∧ packEncrypt pub prv false 0 (fun _ => 6) [0] (some p₁.crtMod)
          = some p₂
        ∧ optPaillierPackAddWarpper pub p₁ p₂ = some p
        ∧ optPaillierPackDecryptCrtWarpper pub prv p
          = some [-593261718750000000001]
        ∧ [-593261718750000000001] ≠ sums [593261718750000000000] [0] := by
  obtain ⟨pub, prv, h⟩ := keygen_sample
  have hmax := sample_inBalancedRange (x := 593261718750000000000) (by decide)
    (by decide)
  have hzero := sample_inBalancedRange (x := 0) (by decide) (by decide)
  have hsum : InPackRange (initCrt crtModMaxDimension crtModSize sampleCrtDraw)
      (sums [593261718750000000000] [0]) := inPackRange_singleton hmax
  have hlen : [(593261718750000000000 : Int)].length = [(0 : Int)].length := rfl
  obtain ⟨p₁, p₂, p, hp₁, hp₂, hp, hzs⟩ := pack_add_decoded
    (keygen_generated h) false false sampleCrtDraw 0 (fun _ => 5) (fun _ => 6)
    hlen hsum
  refine ⟨pub, prv, h, inPackRange_singleton hmax, inPackRange_singleton hzero,
    hsum, p₁, p₂, p, hp₁, hp₂, hp, ?_, by decide⟩
  have hback : decodedList (initCrt crtModMaxDimension crtModSize sampleCrtDraw)
      (sums [593261718750000000000] [0])
      = [comesBackAs ((initCrt crtModMaxDimension crtModSize
        sampleCrtDraw).modulusAt 0) 593261718750000000000] := rfl
  rw [hzs, hback, sample_modulusAt]
  decide

end PrimiHub.Paillier
