/-
The meaning of a CMP task.

`loadParams` reads the two names as they are written, and `execute` gives
`MPC_Compare` the two columns by their owners (`compareInput_eq`). The
operator subtracts the column of the party with the larger id, so the
bits say `c1 < c2` if the owner of the first column comes first
(`cmpBits`), and the reverse otherwise. The reverse is the same only for
rows that give the same sign both ways. What a party gets to see is the
bits, once for every time it is listed.
-/
import PrimiHub.Aby3.Proofs.Compare
import PrimiHub.Algorithm.Arithmetic

namespace PrimiHub.Algorithm

open Aby3 Lib
open Executor (Str)

-- ============================================================== the names

theorem findComma_text (e : CmpExpr) :
    findComma e.text = (4 + e.c1.length : Nat) := by
  have hname : e.c1.findIdx? (· = ',') = none := by
    rw [List.findIdx?_eq_none_iff]
    intro c hc
    simpa using fun heq : c = ',' => e.comma_not_mem (heq ▸ hc)
  have hidx : e.text.findIdx? (· = ',') = some (4 + e.c1.length) := by
    rw [CmpExpr.text, List.findIdx?_append, List.findIdx?_append, hname]
    simp [Executor.text, List.findIdx?_cons, Nat.add_comm]
  unfold findComma
  rw [hidx]

/-- The names are read as they are written. -/
theorem cmpColumns_text (e : CmpExpr) :
    cmpColumns e.text = some (e.c1, e.c2) := by
  have hlt := e.length_lt
  have hlength : e.text.length = e.c1.length + e.c2.length + 6 := by
    simp [CmpExpr.text, Executor.text]
    omega
  have hfirst : toSize (findComma e.text - 4) = e.c1.length := by
    rw [findComma_text]
    unfold toSize
    omega
  have hsecond : toSize (findComma e.text + 1) = e.c1.length + 5 := by
    rw [findComma_text]
    unfold toSize
    omega
  have hcount : toSize (e.text.length - findComma e.text - 2)
      = e.c2.length := by
    rw [findComma_text, hlength]
    unfold toSize
    omega
  unfold cmpColumns substr
  dsimp only
  rw [hfirst, hsecond, hcount, hlength, if_neg (by omega), if_neg (by omega)]
  simp [CmpExpr.text, Executor.text]

theorem isCmp_text (e : CmpExpr) : isCmp e.text = true := by
  simp [isCmp, CmpExpr.text, Executor.text]

-- ============================================================ the columns

/-- A column is found by its name. -/
theorem find_name {columns : List IntColumn} {c : IntColumn}
    (hnodup : (columns.map IntColumn.name).Nodup) (hmem : c ∈ columns) :
    columns.find? (·.name = c.name) = some c := by
  induction columns with
  | nil => cases hmem
  | cons d columns ih =>
      obtain ⟨hnot, hrest⟩ := List.nodup_cons.1 hnodup
      rcases List.mem_cons.1 hmem with rfl | hmem
      · simp
      · have hne : d.name ≠ c.name := fun heq =>
          hnot (heq ▸ List.mem_map_of_mem hmem)
        rw [List.find?_cons_of_neg (by simpa using hne), ih hrest hmem]

theorem ownerOf_eq {columns : List IntColumn} {c : IntColumn}
    (hnodup : (columns.map IntColumn.name).Nodup) (hmem : c ∈ columns) :
    ownerOf columns c.name = c.owner.val := by
  rw [ownerOf, find_name hnodup hmem]

theorem valuesOf_eq {columns : List IntColumn} {c : IntColumn}
    (hnodup : (columns.map IntColumn.name).Nodup) (hmem : c ∈ columns) :
    valuesOf columns c.owner c.name = c.matrix := by
  have hsub : (columns.filter (·.owner = c.owner)).Sublist columns :=
    List.filter_sublist
  have hmem' : c ∈ columns.filter (·.owner = c.owner) :=
    List.mem_filter.2 ⟨hmem, by simp⟩
  rw [valuesOf, find_name (hnodup.sublist (hsub.map _)) hmem']

/-- Two columns of different parties are what the two bring. -/
theorem compareInput_eq {columns : List IntColumn} {c1 c2 : IntColumn}
    (hnodup : (columns.map IntColumn.name).Nodup) (h1 : c1 ∈ columns)
    (h2 : c2 ∈ columns) :
    compareInput columns c1.name c2.name
      = twoValues c1.owner c2.owner c1.matrix c2.matrix := by
  funext i
  unfold compareInput twoValues
  rw [ownerOf_eq hnodup h1, ownerOf_eq hnodup h2]
  by_cases hi1 : i = c1.owner
  · subst hi1
    rw [if_pos rfl, if_pos rfl, valuesOf_eq hnodup h1]
  · rw [if_neg (fun heq => hi1 (Fin.ext heq.symm)), if_neg hi1]
    by_cases hi2 : i = c2.owner
    · subst hi2
      rw [if_pos rfl, if_pos rfl, valuesOf_eq hnodup h2]
    · rw [if_neg (fun heq => hi2 (Fin.ext heq.symm)), if_neg hi2]

-- =============================================================== the bits

/-- The bits of the operator, by the owners of the two columns. -/
def cmpBits (o1 o2 : Fin 3) (xs ys : List I64) : List Bool :=
  if o1 < o2 then List.zipWith intIntAddMsb xs (ys.map (- ·))
  else List.zipWith intIntAddMsb ys (xs.map (- ·))

theorem length_cmpBits {o1 o2 : Fin 3} {xs ys : List I64}
    (hlength : xs.length = ys.length) :
    (cmpBits o1 o2 xs ys).length = xs.length := by
  unfold cmpBits
  split_ifs <;> simp [hlength]

theorem twoValues_comm {p q : Fin 3} (hne : p ≠ q) (a b : DenseMatrix) :
    twoValues p q a b = twoValues q p b a := by
  funext i
  unfold twoValues
  by_cases hp : i = p
  · subst hp
    simp [hne]
  · by_cases hq : i = q
    · subst hq
      simp [hp]
    · simp [hp, hq]

section Task

variable (lib : BinLib) {e : CmpExpr} {columns : List IntColumn}
  {c1 c2 : IntColumn} {parties : List (Fin 3)} {me : Fin 3}

/-- What the task leaves with party `me`, if anything. -/
theorem executeCmp_eq (hnodup : (columns.map IntColumn.name).Nodup)
    (h1 : c1 ∈ columns) (h2 : c2 ∈ columns) (howner : c1.owner ≠ c2.owner)
    (hlength : c1.values.length = c2.values.length)
    {shapes : Fin 3 → List Shape}
    (hshapes : ∀ i, shapes i
      = [announced (compareInput columns c1.name c2.name) 0,
        announced (compareInput columns c1.name c2.name) 1,
        announced (compareInput columns c1.name c2.name) 2]) :
    (c1.values.length < 2 ^ 32 →
      executeCmp lib columns c1.name c2.name parties me shapes
        = .ok (revealTo parties me
            (cmpBits c1.owner c2.owner c1.values c2.values)))
    ∧ (2 ^ 32 ≤ c1.values.length →
      ∃ fault, executeCmp lib columns c1.name c2.name parties me shapes
        = .error fault) := by
  have hshape : c1.matrix.shape = c2.matrix.shape := by
    simp [IntColumn.matrix, hlength]
  have hzero1 : ¬(c1.matrix.shape.rows = 0 ∧ c1.matrix.shape.cols = 0) := by
    simp [IntColumn.matrix]
  have hzero2 : ¬(c2.matrix.shape.rows = 0 ∧ c2.matrix.shape.cols = 0) := by
    simp [IntColumn.matrix]
  have hsize1 : c1.matrix.shape.rows * c1.matrix.shape.cols
      = c1.values.length := Nat.one_mul _
  have hsize2 : c2.matrix.shape.rows * c2.matrix.shape.cols
      = c1.values.length := (Nat.one_mul _).trans hlength.symm
  rw [compareInput_eq hnodup h1 h2] at hshapes
  unfold executeCmp
  rw [compareInput_eq hnodup h1 h2]
  rcases lt_or_gt_of_ne howner with hlt | hgt
  · refine ⟨?_, ?_⟩
    · intro hsmall
      rw [mpcCompare_of_lt lib hlt hshape hzero1 hshapes (hsize1 ▸ hsmall),
        cmpBits, if_pos hlt]
      rfl
    · intro hlarge
      obtain ⟨fault, herror⟩ :=
        mpcCompare_of_le lib hlt hshape hzero1 hshapes (hsize1 ▸ hlarge)
      exact ⟨fault, by rw [herror]; rfl⟩
  · rw [twoValues_comm howner] at hshapes ⊢
    refine ⟨?_, ?_⟩
    · intro hsmall
      rw [mpcCompare_of_lt lib hgt hshape.symm hzero2 hshapes (hsize2 ▸ hsmall),
        cmpBits, if_neg (lt_asymm hgt)]
      rfl
    · intro hlarge
      obtain ⟨fault, herror⟩ :=
        mpcCompare_of_le lib hgt hshape.symm hzero2 hshapes (hsize2 ▸ hlarge)
      exact ⟨fault, by rw [herror]; rfl⟩

/-- The task reveals its bits, up to 2^32 rows. -/
theorem reveals_iff (hnodup : (columns.map IntColumn.name).Nodup)
    (h1 : c1 ∈ columns) (h2 : c2 ∈ columns) (hname1 : c1.name = e.c1)
    (hname2 : c2.name = e.c2) (howner : c1.owner ≠ c2.owner)
    (hlength : c1.values.length = c2.values.length) (result : List Bool) :
    Reveals lib e.text columns parties me result
      ↔ c1.values.length < 2 ^ 32
        ∧ revealTo parties me (cmpBits c1.owner c2.owner c1.values c2.values)
          = result := by
  have hparse := cmpColumns_text e
  rw [← hname1, ← hname2] at hparse
  constructor
  · intro h
    obtain ⟨-, cmpCol1, cmpCol2, hparse', hreveals⟩ := h
    rw [hparse] at hparse'
    cases hparse'
    obtain ⟨schedule, s, hrun, hstuck⟩ := exchange_ends
      (announced (compareInput columns c1.name c2.name))
      fun i => (compareInput columns c1.name c2.name i).isSome
    obtain ⟨-, hresult⟩ := hreveals schedule s hrun hstuck
    obtain ⟨hsmall, hlarge⟩ := executeCmp_eq lib hnodup h1 h2 howner hlength
      (exchange_spec hrun hstuck).1
    by_cases hlt : c1.values.length < 2 ^ 32
    · rw [hsmall hlt] at hresult
      cases hresult
      exact ⟨hlt, rfl⟩
    · obtain ⟨fault, herror⟩ := hlarge (Nat.not_lt.1 hlt)
      rw [herror] at hresult
      cases hresult
  · intro h
    obtain ⟨hlt, rfl⟩ := h
    refine ⟨isCmp_text e, c1.name, c2.name, hparse, ?_⟩
    intro schedule s hrun hstuck
    obtain ⟨hshapes, hraised⟩ := exchange_spec hrun hstuck
    exact ⟨hraised,
      (executeCmp_eq lib hnodup h1 h2 howner hlength hshapes).1 hlt⟩

end Task

-- ================================================================ the rows

/-- One row of the comparison the wrong way round. -/
theorem msb_reversed_iff {x y : I64} (h : Fits x y) :
    intIntAddMsb y (-x) = intIntAddMsb x (-y) ↔ SameBothWays x y := by
  rw [msb_of_fits h]
  unfold SameBothWays
  rw [← BitVec.toInt_inj]
  by_cases hrev : Fits y x
  · rw [msb_of_fits hrev, decide_eq_decide]
    unfold Fits at h hrev
    omega
  · rw [msb_of_not_fits hrev]
    unfold Fits at h hrev
    simp only [true_iff]
    omega

theorem zipWith_reversed_iff {xs ys : List I64} (h : List.Forall₂ Fits xs ys) :
    List.zipWith intIntAddMsb ys (xs.map (- ·))
        = List.zipWith intIntAddMsb xs (ys.map (- ·))
      ↔ List.Forall₂ SameBothWays xs ys := by
  induction h with
  | nil => simp
  | cons hfits _ ih =>
      rw [List.map_cons, List.map_cons, List.zipWith_cons_cons,
        List.zipWith_cons_cons, List.cons_eq_cons, msb_reversed_iff hfits, ih,
        List.forall₂_cons]

/-- The bits are the truth values if the owners come in the order of the
columns, or if the order makes no difference. -/
theorem cmpBits_eq_truths_iff {o1 o2 : Fin 3} {xs ys : List I64}
    (h : List.Forall₂ Fits xs ys) :
    cmpBits o1 o2 xs ys = truths xs ys
      ↔ o1 < o2 ∨ List.Forall₂ SameBothWays xs ys := by
  unfold cmpBits truths
  rw [← zipWith_msb h]
  by_cases ho : o1 < o2
  · simp [ho]
  · rw [if_neg ho, zipWith_reversed_iff h]
    simp [ho]

/-- Exchanging the owners reverses the comparison. -/
theorem cmpBits_exchange_iff {o1 o2 : Fin 3} (hne : o1 ≠ o2)
    {xs ys : List I64} (h : List.Forall₂ Fits xs ys) :
    cmpBits o2 o1 xs ys = cmpBits o1 o2 xs ys
      ↔ List.Forall₂ SameBothWays xs ys := by
  unfold cmpBits
  rcases lt_or_gt_of_ne hne with hlt | hgt
  · rw [if_neg (lt_asymm hlt), if_pos hlt, zipWith_reversed_iff h]
  · rw [if_pos hgt, if_neg (lt_asymm hgt), eq_comm, zipWith_reversed_iff h]

-- ============================================================== the reveal

theorem revealTo_eq (parties : List (Fin 3)) (me : Fin 3) (bits : List Bool) :
    revealTo parties me bits
      = (List.replicate (parties.count me) bits).flatten := by
  induction parties with
  | nil => rfl
  | cons party parties ih =>
      have hcons : revealTo (party :: parties) me bits
          = (if me = party then bits else []) ++ revealTo parties me bits := rfl
      rw [hcons, ih]
      by_cases heq : me = party
      · subst heq
        rw [List.count_cons_self, List.replicate_succ, List.flatten_cons,
          if_pos rfl]
      · rw [List.count_cons_of_ne (Ne.symm heq), if_neg heq, List.nil_append]

/-- What a listed party sees determines the bits. -/
theorem revealTo_inj {parties : List (Fin 3)} {me : Fin 3}
    (hme : me ∈ parties) {bits bits' : List Bool}
    (hlength : bits.length = bits'.length) :
    revealTo parties me bits = revealTo parties me bits' ↔ bits = bits' := by
  constructor
  · intro heq
    obtain ⟨k, hk⟩ := Nat.exists_eq_succ_of_ne_zero
      (Nat.ne_of_gt (List.count_pos_iff.2 hme))
    rw [revealTo_eq, revealTo_eq, hk, List.replicate_succ, List.replicate_succ,
      List.flatten_cons, List.flatten_cons] at heq
    exact (List.append_inj heq hlength).1
  · rintro rfl
    rfl

/-- A party that is listed sees the bits themselves if it is listed once,
or if there are none. -/
theorem revealTo_eq_iff {parties : List (Fin 3)} {me : Fin 3}
    (hme : me ∈ parties) {bits wanted : List Bool}
    (hlength : bits.length = wanted.length) :
    revealTo parties me bits = wanted
      ↔ bits = wanted ∧ (parties.count me = 1 ∨ wanted.length = 0) := by
  have hcount := List.count_pos_iff.2 hme
  constructor
  · intro heq
    have hlen := congrArg List.length heq
    rw [revealTo_eq, List.length_flatten, List.map_replicate,
      List.sum_replicate, hlength, smul_eq_mul] at hlen
    have honce : parties.count me = 1 ∨ wanted.length = 0 := by
      rcases Nat.eq_zero_or_pos wanted.length with hzero | hpos
      · exact Or.inr hzero
      · exact Or.inl (Nat.eq_of_mul_eq_mul_right hpos (by omega))
    refine ⟨?_, honce⟩
    rcases honce with hone | hzero
    · rw [revealTo_eq, hone] at heq
      simpa using heq
    · rw [List.eq_nil_of_length_eq_zero hzero]
      exact List.eq_nil_of_length_eq_zero (hlength.trans hzero)
  · intro h
    obtain ⟨rfl, hone | hzero⟩ := h
    · rw [revealTo_eq, hone]
      simp
    · rw [revealTo_eq, List.eq_nil_of_length_eq_zero hzero]
      simp

-- ============================================================== the result

/-- The columns keep their names when two of them change hands. -/
theorem names_exchangeOwners (c1 c2 : IntColumn) (columns : List IntColumn) :
    (exchangeOwners c1 c2 columns).map IntColumn.name
      = columns.map IntColumn.name := by
  unfold exchangeOwners
  rw [List.map_map]
  apply List.map_congr_left
  intro c _
  simp only [Function.comp_apply]
  split_ifs <;> rfl

/-- The two columns with each other's owner. -/
theorem mem_exchangeOwners {columns : List IntColumn} {c1 c2 : IntColumn}
    (hnodup : (columns.map IntColumn.name).Nodup) (h1 : c1 ∈ columns)
    (h2 : c2 ∈ columns) (howner : c1.owner ≠ c2.owner) :
    { c1 with owner := c2.owner } ∈ exchangeOwners c1 c2 columns
      ∧ { c2 with owner := c1.owner } ∈ exchangeOwners c1 c2 columns := by
  have hname : c2.name ≠ c1.name := by
    intro heq
    have hfind := find_name hnodup h2
    rw [heq, find_name hnodup h1, Option.some.injEq] at hfind
    exact howner (congrArg IntColumn.owner hfind)
  refine ⟨List.mem_map.2 ⟨c1, h1, if_pos rfl⟩,
    List.mem_map.2 ⟨c2, h2, ?_⟩⟩
  rw [if_neg hname, if_pos rfl]

/-- The task reveals where the first column is smaller exactly if it has
fewer than 2^32 rows, the owner of the first column has the smaller id or
no row tells the difference, and the party is listed once (or there are
no rows). Exchanging the owners leaves the result as it is exactly if no
row tells the difference. -/
theorem reveals_truths_iff (lib : BinLib) {e : CmpExpr}
    {columns : List IntColumn} {c1 c2 : IntColumn}
    {parties : List (Fin 3)} {me : Fin 3}
    (hnodup : (columns.map IntColumn.name).Nodup) (h1 : c1 ∈ columns)
    (h2 : c2 ∈ columns) (hname1 : c1.name = e.c1) (hname2 : c2.name = e.c2)
    (howner : c1.owner ≠ c2.owner)
    (hfits : List.Forall₂ Fits c1.values c2.values) (hme : me ∈ parties) :
    (Reveals lib e.text columns parties me (truths c1.values c2.values)
      ↔ c1.values.length < 2 ^ 32
        ∧ (c1.owner < c2.owner
          ∨ List.Forall₂ SameBothWays c1.values c2.values)
        ∧ (parties.count me = 1 ∨ c1.values.length = 0))
    ∧ (c1.values.length < 2 ^ 32 →
      ((∃ result, Reveals lib e.text columns parties me result
          ∧ Reveals lib e.text (exchangeOwners c1 c2 columns) parties me
              result)
        ↔ List.Forall₂ SameBothWays c1.values c2.values)) := by
  have hlength : c1.values.length = c2.values.length := hfits.length_eq
  have htruths : (truths c1.values c2.values).length = c1.values.length := by
    simp [truths, hlength]
  constructor
  · rw [reveals_iff lib hnodup h1 h2 hname1 hname2 howner hlength,
      revealTo_eq_iff hme ((length_cmpBits hlength).trans htruths.symm),
      cmpBits_eq_truths_iff hfits, htruths]
  · intro hlt
    obtain ⟨h1', h2'⟩ := mem_exchangeOwners hnodup h1 h2 howner
    have hexchanged : ∀ result,
        Reveals lib e.text (exchangeOwners c1 c2 columns) parties me result
          ↔ c1.values.length < 2 ^ 32 ∧ revealTo parties me
              (cmpBits c2.owner c1.owner c1.values c2.values) = result :=
      reveals_iff lib ((names_exchangeOwners c1 c2 columns).symm ▸ hnodup)
        h1' h2' hname1 hname2 howner.symm hlength
    rw [← cmpBits_exchange_iff howner hfits, ← revealTo_inj hme
      ((length_cmpBits hlength).trans (length_cmpBits hlength).symm)]
    constructor
    · intro h
      obtain ⟨result, hhere, hthere⟩ := h
      rw [reveals_iff lib hnodup h1 h2 hname1 hname2 howner hlength] at hhere
      rw [hexchanged] at hthere
      exact hthere.2.trans hhere.2.symm
    · intro hsame
      refine ⟨_, ?_, (hexchanged _).2 ⟨hlt, hsame⟩⟩
      exact (reveals_iff lib hnodup h1 h2 hname1 hname2 howner hlength _).2
        ⟨hlt, rfl⟩

/-- A column of two rows. -/
def twoRows (name : String) (owner : Fin 3) (x y : I64) : IntColumn :=
  ⟨Executor.text name, owner, [x, y], by simp⟩

/-- The task CMP(A,B). -/
def cmpAB : CmpExpr := ⟨['A'], ['B'], by decide, by decide⟩

/-- The first column with party 0, the second with party 2. -/
def orderedColumns : List IntColumn := [twoRows "A" 0 1 5, twoRows "B" 2 2 4]

theorem ordered_reveals :
    Reveals strictLib cmpAB.text orderedColumns [0, 1] 1 [true, false] := by
  have hnodup : (orderedColumns.map IntColumn.name).Nodup := by decide
  have h1 : twoRows "A" 0 1 5 ∈ orderedColumns := by simp [orderedColumns]
  have h2 : twoRows "B" 2 2 4 ∈ orderedColumns := by simp [orderedColumns]
  have hfits : List.Forall₂ Fits (twoRows "A" 0 1 5).values
      (twoRows "B" 2 2 4).values :=
    .cons (by decide) (.cons (by decide) .nil)
  have hme : (1 : Fin 3) ∈ [0, 1] := by decide
  exact (reveals_truths_iff strictLib (e := cmpAB) hnodup h1 h2 rfl rfl
    (by decide) hfits hme).1.2 ⟨by decide, Or.inl (by decide), by decide⟩

/-- The same two columns with each other's owner. -/
def reversedColumns : List IntColumn := [twoRows "A" 2 1 5, twoRows "B" 0 2 4]

/-- Every row is inverted. -/
theorem reversed_reveals :
    Reveals strictLib cmpAB.text reversedColumns [0, 1] 1 [false, true]
      ∧ truths [1, 5] [2, 4] = [true, false]
      ∧ ¬Reveals strictLib cmpAB.text reversedColumns [0, 1] 1
          (truths [1, 5] [2, 4]) := by
  have hnodup : (reversedColumns.map IntColumn.name).Nodup := by decide
  have h1 : twoRows "A" 2 1 5 ∈ reversedColumns := by simp [reversedColumns]
  have h2 : twoRows "B" 0 2 4 ∈ reversedColumns := by simp [reversedColumns]
  have hreveals : ∀ result,
      Reveals strictLib cmpAB.text reversedColumns [0, 1] 1 result ↔ _ :=
    reveals_iff strictLib (e := cmpAB) hnodup h1 h2 rfl rfl (by decide) rfl
  rw [hreveals, hreveals]
  decide

end PrimiHub.Algorithm
