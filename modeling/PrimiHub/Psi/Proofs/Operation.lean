/-
Which PSI operators compute the set operation they are asked for.

The ECDH and the KKRT operator go by positions and honour both result
types. The TEE operator looks hashes up: its result is the intersection
for either type, so with DIFFERENCE it is wrong for every input that is
not empty.

# Chain

1. `resultBlocks_flatten`, `foldl_set_getElem?`: the threads of
   `GetResult` together write every place, so that it builds the same
   list as the ECDH operator (`getResult_intersection`).
2. `mem_intersection`, `mem_difference`: the lists by positions.
3. `lookup_hashData`, `blocks_of_flatten`: the list by hashes.
4. `mem_clientResult`, `nodup_clientResult`; `psi_operation_iff`.
-/
import Mathlib.Data.List.Nodup
import Mathlib.Data.List.Range
import PrimiHub.Psi.Operator

namespace PrimiHub.Psi

-- ============================================================ the threads

theorem range_append_range' (m n : Nat) :
    List.range m ++ List.range' m n = List.range (m + n) := by
  have h : List.range' 0 m ++ List.range' (0 + m) n = List.range' 0 (m + n) :=
    List.range'_append_1
  rw [Nat.zero_add] at h
  rw [List.range_eq_range', List.range_eq_range', h]

/-- Full blocks one after the other. -/
theorem blocks_flatten (blockSize blockNum : Nat) :
    ((List.range blockNum).map
      fun i => List.range' (i * blockSize) blockSize).flatten
      = List.range (blockNum * blockSize) := by
  induction blockNum with
  | zero => rw [Nat.zero_mul]; rfl
  | succ n ih =>
      rw [List.range_succ, List.map_append, List.flatten_append, ih,
        List.map_singleton, List.flatten_singleton, range_append_range',
        Nat.succ_mul]

/-- The tasks together have every place of the result. -/
theorem resultBlocks_flatten (blockSize resultSize : Nat) :
    (resultBlocks blockSize resultSize).flatten = List.range resultSize := by
  have hsize : resultSize / blockSize * blockSize + resultSize % blockSize
      = resultSize := Nat.div_add_mod' resultSize blockSize
  unfold resultBlocks
  rw [List.flatten_append, blocks_flatten]
  by_cases hrem : resultSize % blockSize = 0
  · rw [hrem, Nat.add_zero] at hsize
    simp only [hrem, ne_eq, not_true_eq_false, if_false, List.flatten_nil,
      List.append_nil, hsize]
  · simp only [ne_eq, hrem, not_false_eq_true, if_true,
      List.flatten_singleton]
    rw [range_append_range', hsize]

/-- Writes of `f i` to places `i`, in any order. -/
theorem foldl_set_getElem? (f : Nat → Bytes) (order : List Nat)
    (result : List Bytes) (j : Nat) :
    (order.foldl (fun r i => r.set i (f i)) result)[j]?
      = if j ∈ order ∧ j < result.length then some (f j)
        else result[j]? := by
  induction order generalizing result with
  | nil => simp only [List.foldl_nil, List.not_mem_nil, false_and, if_false]
  | cons i order ih =>
      rw [List.foldl_cons, ih, List.length_set, List.getElem?_set]
      by_cases hij : i = j
      · subst hij
        by_cases hlt : i < result.length
        · simp [hlt]
        · simp [hlt]
      · simp [hij, Ne.symm hij]

/-- `GetResult` for INTERSECTION, whatever the order of the writes. -/
theorem getResult_intersection (input : List Bytes) {index order : List Nat}
    {blockSize : Nat}
    (h : order.Perm (resultBlocks blockSize index.length).flatten) :
    getResult .intersection input index order
      = index.map fun i => input.getD i [] := by
  rw [resultBlocks_flatten] at h
  apply List.ext_getElem?
  intro j
  show (order.foldl _ _)[j]? = _
  rw [foldl_set_getElem?, List.getElem?_map]
  simp only [List.length_replicate, h.mem_iff, List.mem_range, and_self]
  by_cases hj : j < index.length
  · have hget : index.getD j 0 = index[j] := by
      rw [List.getD_eq_getElem?_getD, List.getElem?_eq_getElem hj]
      rfl
    rw [if_pos hj, List.getElem?_eq_getElem hj, hget]
    rfl
  · rw [if_neg hj, List.getElem?_eq_none (by simpa using hj),
      List.getElem?_eq_none (Nat.le_of_not_lt hj)]
    rfl

-- =========================================================== by positions

variable {client server : List Bytes} {index : List Nat}

/-- The items at the reported positions. -/
theorem mem_intersection (h : ExactIndex client server index)
    (item : Bytes) :
    (item ∈ index.map fun i => client.getD i [])
      ↔ item ∈ client ∧ item ∈ server := by
  rw [List.mem_map]
  constructor
  · intro hitem
    obtain ⟨i, hi, hget⟩ := hitem
    obtain ⟨item', hitem', hserver⟩ := (h.mem_iff i).mp hi
    rw [List.getD_eq_getElem?_getD, hitem', Option.getD_some] at hget
    subst hget
    exact ⟨List.mem_of_getElem? hitem', hserver⟩
  · intro hitem
    obtain ⟨i, hi⟩ := List.mem_iff_getElem?.mp hitem.1
    refine ⟨i, (h.mem_iff i).mpr ⟨item, hi, hitem.2⟩, ?_⟩
    rw [List.getD_eq_getElem?_getD, hi, Option.getD_some]

/-- A position list by membership: the items whose place is kept. -/
theorem mem_differenceByIndex (item : Bytes) :
    item ∈ differenceByIndex client index
      ↔ ∃ i, i ∉ index ∧ client[i]? = some item := by
  unfold differenceByIndex
  rw [List.mem_filterMap]
  constructor
  · intro hitem
    obtain ⟨i, -, hi⟩ := hitem
    by_cases hmem : i ∈ index
    · rw [if_pos hmem] at hi
      cases hi
    · rw [if_neg hmem] at hi
      exact ⟨i, hmem, hi⟩
  · intro hitem
    obtain ⟨i, hmem, hi⟩ := hitem
    obtain ⟨hlt, -⟩ := List.getElem?_eq_some_iff.mp hi
    exact ⟨i, List.mem_range.mpr hlt, by rw [if_neg hmem, hi]⟩

/-- The items at the other positions: equal items are either all
reported or none is. -/
theorem mem_difference (h : ExactIndex client server index) (item : Bytes) :
    item ∈ differenceByIndex client index
      ↔ item ∈ client ∧ item ∉ server := by
  rw [mem_differenceByIndex]
  constructor
  · intro hitem
    obtain ⟨i, hmem, hi⟩ := hitem
    refine ⟨List.mem_of_getElem? hi, fun hserver => hmem ?_⟩
    exact (h.mem_iff i).mpr ⟨item, hi, hserver⟩
  · intro hitem
    obtain ⟨i, hi⟩ := List.mem_iff_getElem?.mp hitem.1
    refine ⟨i, fun hmem => ?_, hi⟩
    obtain ⟨item', hitem', hserver⟩ := (h.mem_iff i).mp hmem
    rw [hi, Option.some.injEq] at hitem'
    exact hitem.2 (hitem' ▸ hserver)

/-- Two places of a list without duplicates hold different items. -/
theorem getElem?_inj_of_nodup (hnodup : client.Nodup) {i j : Nat}
    {item : Bytes} (hi : client[i]? = some item)
    (hj : client[j]? = some item) : i = j := by
  obtain ⟨hlt, -⟩ := List.getElem?_eq_some_iff.mp hi
  exact (List.getElem?_inj hlt hnodup).mp (hi.trans hj.symm)

theorem nodup_intersection (h : ExactIndex client server index)
    (hnodup : client.Nodup) :
    (index.map fun i => client.getD i []).Nodup := by
  apply h.nodup.map_on
  intro i hi j hj heq
  obtain ⟨x, hx, -⟩ := (h.mem_iff i).mp hi
  obtain ⟨y, hy, -⟩ := (h.mem_iff j).mp hj
  simp only [List.getD_eq_getElem?_getD, hx, hy, Option.getD_some] at heq
  exact getElem?_inj_of_nodup hnodup hx (heq ▸ hy)

theorem nodup_difference (hnodup : client.Nodup) :
    (differenceByIndex client index).Nodup := by
  apply List.Nodup.filterMap _ List.nodup_range
  intro i j item hi hj
  by_cases hmi : i ∈ index
  · rw [if_pos hmi] at hi
    cases hi
  · by_cases hmj : j ∈ index
    · rw [if_pos hmj] at hj
      cases hj
    · rw [if_neg hmi] at hi
      rw [if_neg hmj] at hj
      exact getElem?_inj_of_nodup hnodup hi hj

-- ============================================================== by hashes

/-- The map of hashes after the items `done`. -/
structure HashedBy (hash : Bytes → Bytes) (done : List Bytes)
    (acc : List Bytes × List (Bytes × Bytes)) : Prop where
  seen : ∀ item, item ∈ acc.1 ↔ item ∈ done
  lookup : ∀ key item,
    acc.2.lookup key = some item ↔ item ∈ done ∧ hash item = key

/-- Inserting under a key that is not there yet. -/
theorem lookup_insertHashed {hashedData : List (Bytes × Bytes)}
    {newKey : Bytes} (hfresh : hashedData.lookup newKey = none)
    (item key : Bytes) :
    (insertHashed hashedData newKey item).lookup key
      = if key = newKey then some item else hashedData.lookup key := by
  rw [insertHashed, hfresh]
  show (hashedData ++ [(newKey, item)]).lookup key = _
  rw [List.lookup_append]
  by_cases hkey : key = newKey
  · subst hkey
    rw [if_pos rfl, hfresh, Option.none_or, List.lookup_cons_self]
  · have hnone : List.lookup key [(newKey, item)] = none := by
      rw [List.lookup_cons, beq_false_of_ne hkey]
      rfl
    rw [if_neg hkey, hnone, Option.or_none]

/-- One more item, whose hash no other item has. -/
theorem hashedBy_step {hash : Bytes → Bytes} {done : List Bytes}
    {acc : List Bytes × List (Bytes × Bytes)} (h : HashedBy hash done acc)
    (item : Bytes) (hinj : ∀ x ∈ done, hash x = hash item → x = item) :
    HashedBy hash (done ++ [item]) (hashStep hash acc item) := by
  unfold hashStep
  by_cases hmem : item ∈ acc.1
  · rw [if_pos hmem]
    have hdone := (h.seen item).mp hmem
    have hsame : ∀ x, x ∈ done ++ [item] ↔ x ∈ done := by
      intro x
      rw [List.mem_append, List.mem_singleton]
      constructor
      · intro hx
        obtain hx | hx := hx
        · exact hx
        · exact hx ▸ hdone
      · exact Or.inl
    constructor
    · intro x
      rw [hsame, h.seen]
    · intro key x
      rw [hsame, h.lookup]
  · rw [if_neg hmem]
    -- no item seen has this hash, for hashes tell the items apart
    have hfresh : acc.2.lookup (hash item) = none := by
      rw [Option.eq_none_iff_forall_ne_some]
      intro x hx
      obtain ⟨hdone, heq⟩ := (h.lookup _ x).mp hx
      exact hmem ((h.seen item).mpr (hinj x hdone heq ▸ hdone))
    constructor
    · intro x
      rw [List.mem_cons, List.mem_append, List.mem_singleton, h.seen,
        or_comm]
    · intro key x
      show (insertHashed acc.2 (hash item) item).lookup key = some x ↔ _
      rw [lookup_insertHashed hfresh, List.mem_append, List.mem_singleton]
      by_cases hkey : key = hash item
      · subst hkey
        rw [if_pos rfl, Option.some.injEq]
        constructor
        · intro hx
          exact ⟨Or.inr hx.symm, by rw [hx]⟩
        · intro hx
          obtain ⟨hx | hx, heq⟩ := hx
          · exact (hinj x hx heq).symm
          · exact hx.symm
      · rw [if_neg hkey, h.lookup]
        constructor
        · intro hx
          exact ⟨Or.inl hx.1, hx.2⟩
        · intro hx
          obtain ⟨hx | hx, heq⟩ := hx
          · exact ⟨hx, heq⟩
          · rw [hx] at heq
            exact absurd heq.symm hkey

/-- The map `HashData` builds: from the hash of each item to the item. -/
theorem lookup_hashData {hash : Bytes → Bytes} {input : List Bytes}
    (hinj : ∀ x ∈ input, ∀ y ∈ input, hash x = hash y → x = y)
    (key item : Bytes) :
    (hashData hash input).lookup key = some item
      ↔ item ∈ input ∧ hash item = key := by
  have hall : HashedBy hash input (input.foldl (hashStep hash) ([], [])) := by
    clear key item
    induction input using List.reverseRecOn with
    | nil => exact ⟨fun x => Iff.rfl, fun key x => ⟨nofun, nofun⟩⟩
    | append_singleton done item ih =>
        rw [List.foldl_append]
        have hdone : ∀ x ∈ done, x ∈ done ++ [item] := fun x hx =>
          List.mem_append_left _ hx
        apply hashedBy_step
        · exact ih fun x hx y hy => hinj x (hdone x hx) y (hdone y hy)
        · intro x hx
          exact hinj x (hdone x hx) item (List.mem_append_right _
            List.mem_cons_self)
  exact hall.lookup key item

/-- `hash_size` as `GetIntersection` finds it. -/
theorem hashSize_hashData {hash : Bytes → Bytes} {input : List Bytes}
    {size : Nat}
    (hinj : ∀ x ∈ input, ∀ y ∈ input, hash x = hash y → x = y)
    (hlen : ∀ x, (hash x).length = size) (hne : input ≠ []) :
    ((hashData hash input).head?.map fun p => p.1.length).getD 0 = size := by
  obtain ⟨x, hx⟩ := List.exists_mem_of_ne_nil input hne
  have hlookup := (lookup_hashData hinj (hash x) x).mpr ⟨hx, rfl⟩
  cases hdata : hashData hash input with
  | nil =>
      rw [hdata] at hlookup
      cases hlookup
  | cons p rest =>
      obtain ⟨key, item⟩ := p
      have hself : (hashData hash input).lookup key = some item := by
        rw [hdata, List.lookup_cons_self]
      obtain ⟨-, hkey⟩ := (lookup_hashData hinj key item).mp hself
      show key.length = size
      rw [← hkey, hlen]

/-- Blocks of one size are found again in their concatenation. -/
theorem blocks_of_flatten {β : Type} (g : Bytes → Option β) {size : Nat}
    (hpos : 0 < size) (blocks : List Bytes)
    (hlen : ∀ b ∈ blocks, b.length = size) :
    ((List.range (blocks.flatten.length / size)).filterMap fun i =>
      g ((blocks.flatten.drop (i * size)).take size))
      = blocks.filterMap g := by
  induction blocks with
  | nil => rw [List.flatten_nil, List.length_nil, Nat.zero_div]; rfl
  | cons b blocks ih =>
      have hb := hlen b List.mem_cons_self
      have hnum : (b :: blocks).flatten.length / size
          = blocks.flatten.length / size + 1 := by
        rw [List.flatten_cons, List.length_append, hb, Nat.add_comm,
          Nat.add_div_right _ hpos]
      have hfirst : ((b :: blocks).flatten.drop (0 * size)).take size = b := by
        rw [Nat.zero_mul, List.drop_zero, List.flatten_cons,
          List.take_append_of_le_length (Nat.le_of_eq hb.symm),
          List.take_of_length_le (Nat.le_of_eq hb)]
      have hrest : ∀ i, (b :: blocks).flatten.drop ((i + 1) * size)
          = blocks.flatten.drop (i * size) := by
        intro i
        rw [List.flatten_cons, Nat.succ_mul, Nat.add_comm, ← List.drop_drop,
          ← hb, List.drop_left]
      rw [hnum, List.range_succ_eq_map, List.filterMap_cons, hfirst,
        List.filterMap_map, List.filterMap_cons]
      have hih := ih fun b' hb' => hlen b' (List.mem_cons_of_mem _ hb')
      have hmap : ((List.range (blocks.flatten.length / size)).filterMap
          ((fun i => g (((b :: blocks).flatten.drop (i * size)).take size))
            ∘ Nat.succ)) = blocks.filterMap g := by
        rw [← hih]
        apply List.filterMap_congr
        intro i _
        show g (((b :: blocks).flatten.drop ((i + 1) * size)).take size) = _
        rw [hrest]
      rw [hmap]

/-- The hash tells the client's items apart. -/
theorem clientInjective (report : CoreReport client server) :
    ∀ x ∈ client, ∀ y ∈ client,
      report.hashToString x = report.hashToString y → x = y := by
  intro x hx y hy
  exact report.hashInjective x (List.mem_append_left _ hx) y
    (List.mem_append_left _ hy)

/-- What the TEE operator makes of the common hashes. -/
theorem teeResult_eq (report : CoreReport client server)
    (hne : client ≠ []) :
    teeResult report.hashToString client report.common.flatten
      = report.common.filterMap fun key =>
        (hashData report.hashToString client).lookup key := by
  have hinj := clientInjective report
  have hlen : ∀ b ∈ report.common, b.length = report.hashSize := by
    intro b hb
    obtain ⟨x, -, rfl⟩ := List.mem_map.mp ((report.commonExact b).mp hb).1
    exact report.hashLength x
  have hblocks := blocks_of_flatten
    (fun key => (hashData report.hashToString client).lookup key)
    report.hashSizePos report.common hlen
  unfold teeResult teeGetIntersection
  rw [hashSize_hashData hinj report.hashLength hne]
  by_cases hempty : report.common.flatten.isEmpty
  · rw [if_pos hempty, ← hblocks, List.isEmpty_iff.mp hempty,
      List.length_nil, Nat.zero_div]
    rfl
  · rw [if_neg hempty]
    exact hblocks

/-- The TEE operator finds the intersection. -/
theorem mem_teeResult (report : CoreReport client server)
    (hne : client ≠ []) (item : Bytes) :
    item ∈ teeResult report.hashToString client report.common.flatten
      ↔ item ∈ client ∧ item ∈ server := by
  have hinj := clientInjective report
  rw [teeResult_eq report hne, List.mem_filterMap]
  constructor
  · intro hitem
    obtain ⟨key, hkey, hlookup⟩ := hitem
    obtain ⟨hclient, hhash⟩ := (lookup_hashData hinj key item).mp hlookup
    obtain ⟨-, hserver⟩ := (report.commonExact key).mp hkey
    obtain ⟨y, hy, hyhash⟩ := List.mem_map.mp hserver
    have heq := report.hashInjective item (List.mem_append_left _ hclient) y
      (List.mem_append_right _ hy) (hhash.trans hyhash.symm)
    exact ⟨hclient, heq ▸ hy⟩
  · intro hitem
    refine ⟨report.hashToString item, ?_, ?_⟩
    · rw [report.commonExact]
      exact ⟨List.mem_map_of_mem hitem.1, List.mem_map_of_mem hitem.2⟩
    · exact (lookup_hashData hinj _ item).mpr ⟨hitem.1, rfl⟩

theorem nodup_teeResult (report : CoreReport client server)
    (hne : client ≠ []) :
    (teeResult report.hashToString client report.common.flatten).Nodup := by
  have hinj := clientInjective report
  rw [teeResult_eq report hne]
  apply List.Nodup.filterMap _ report.commonNodup
  intro key key' item hkey hkey'
  obtain ⟨-, h⟩ := (lookup_hashData hinj key item).mp hkey
  obtain ⟨-, h'⟩ := (lookup_hashData hinj key' item).mp hkey'
  rw [← h, ← h']

-- ========================================================= the operators

/-- What each operator returns: the set asked for, except that the TEE
operator always returns the intersection. -/
def Returned (resultType : PsiResultType) (op : PsiType)
    (client server : List Bytes) (item : Bytes) : Prop :=
  Requested (if op = .tee then .intersection else resultType) client server
    item

theorem mem_clientResult (report : CoreReport client server)
    (hne : client ≠ []) (resultType : PsiResultType) (op : PsiType)
    (item : Bytes) :
    item ∈ clientResult report resultType op
      ↔ Returned resultType op client server item := by
  cases op with
  | ecdh =>
      cases resultType with
      | intersection => exact mem_intersection report.ecdhExact item
      | difference => exact mem_difference report.ecdhExact item
  | kkrt =>
      cases resultType with
      | intersection =>
          rw [clientResult, getResult_intersection client report.orderPerm]
          exact mem_intersection report.kkrtExact item
      | difference => exact mem_difference report.kkrtExact item
  | tee => exact mem_teeResult report hne item

theorem nodup_clientResult (report : CoreReport client server)
    (hne : client ≠ []) (hnodup : client.Nodup)
    (resultType : PsiResultType) (op : PsiType) :
    (clientResult report resultType op).Nodup := by
  cases op with
  | ecdh =>
      cases resultType with
      | intersection => exact nodup_intersection report.ecdhExact hnodup
      | difference => exact nodup_difference hnodup
  | kkrt =>
      cases resultType with
      | intersection =>
          rw [clientResult, getResult_intersection client report.orderPerm]
          exact nodup_intersection report.kkrtExact hnodup
      | difference => exact nodup_difference hnodup
  | tee => exact nodup_teeResult report hne

/-- No item can be in the server's input and not in it, so the two
operations differ on every input that is not empty. -/
theorem requested_differ (hne : client ≠ []) :
    ¬ ∀ item, Requested .intersection client server item
      ↔ Requested .difference client server item := by
  intro h
  obtain ⟨x, hx⟩ := List.exists_mem_of_ne_nil client hne
  by_cases hserver : x ∈ server
  · exact ((h x).mp ⟨hx, hserver⟩).2 hserver
  · exact hserver ((h x).mpr ⟨hx, hserver⟩).2

/-- The result types of one operator partition the client's input exactly
if it is not the TEE operator. -/
theorem partition_iff (report : CoreReport client server)
    (hne : client ≠ []) (hnodup : client.Nodup) (op : PsiType) :
    (clientResult report .intersection op
        ++ clientResult report .difference op).Perm client ↔ op ≠ .tee := by
  have hmem := mem_clientResult report hne
  constructor
  · intro hperm hop
    subst hop
    -- both lists are the intersection, so an item of one is there twice
    have hboth := hperm.nodup_iff.mpr hnodup
    rw [List.nodup_append] at hboth
    obtain ⟨x, hx⟩ := List.exists_mem_of_ne_nil client hne
    have hx' := hperm.mem_iff.mpr hx
    rw [List.mem_append, hmem, hmem] at hx'
    have hinter : Returned .intersection .tee client server x := by
      obtain hx' | hx' := hx'
      · exact hx'
      · exact hx'
    exact hboth.2.2 x ((hmem _ _ x).mpr hinter) x ((hmem _ _ x).mpr hinter)
      rfl
  · intro hop
    have hret : ∀ type item, Returned type op client server item
        ↔ Requested type client server item := by
      intro type item
      rw [Returned, if_neg hop]
    rw [List.perm_ext_iff_of_nodup _ hnodup]
    · intro x
      rw [List.mem_append, hmem, hmem, hret, hret]
      constructor
      · intro hx
        obtain hx | hx := hx
        · exact hx.1
        · exact hx.1
      · intro hx
        by_cases hserver : x ∈ server
        · exact Or.inl ⟨hx, hserver⟩
        · exact Or.inr ⟨hx, hserver⟩
    · rw [List.nodup_append]
      refine ⟨nodup_clientResult report hne hnodup _ op,
        nodup_clientResult report hne hnodup _ op, ?_⟩
      intro x hx y hy hxy
      rw [hmem, hret] at hx hy
      exact hy.2 (hxy ▸ hx.2)

/-- The set operation is computed, for either result type, by every
operator but the TEE operator asked for the DIFFERENCE; so are the
partition of the client's input and the agreement of the operators. -/
theorem psi_operation_iff (report : CoreReport client server)
    (hne : client ≠ []) (resultType : PsiResultType) (op : PsiType) :
    (ExactResult resultType client server (clientResult report resultType op)
        ↔ ¬ (op = .tee ∧ resultType = .difference))
      ∧ (client.Nodup →
        ((clientResult report .intersection op
          ++ clientResult report .difference op).Perm client ↔ op ≠ .tee))
      ∧ ∀ op', (∀ item, item ∈ clientResult report resultType op
          ↔ item ∈ clientResult report resultType op')
        ↔ resultType = .intersection ∨ (op = .tee ↔ op' = .tee) := by
  have hmem := mem_clientResult report hne
  have hdiffer : ¬ ∀ item, Requested .intersection client server item
      ↔ Requested .difference client server item := requested_differ hne
  refine ⟨?_, fun hnodup => partition_iff report hne hnodup op, ?_⟩
  · unfold ExactResult
    simp only [hmem, Returned]
    cases resultType with
    | intersection => simp
    | difference =>
        by_cases hop : op = .tee
        · simp only [hop, if_true, and_self, not_true_eq_false, iff_false]
          exact hdiffer
        · simp [hop]
  · intro op'
    simp only [hmem, Returned]
    cases resultType with
    | intersection => simp
    | difference =>
        simp only [reduceCtorEq, false_or]
        by_cases hop : op = .tee
        · by_cases hop' : op' = .tee
          · simp [hop, hop']
          · simp only [hop, hop', if_true, if_false, true_iff]
            simpa using hdiffer
        · by_cases hop' : op' = .tee
          · simp only [hop, hop', if_true, if_false, iff_true]
            refine iff_of_false (fun h => hdiffer fun item => ?_) id
            exact (h item).symm
          · simp [hop, hop']

/-- Two client items, of which the server has the second. The hash is the
first byte. -/
def smallReport : CoreReport [[1], [2]] [[2]] where
  ecdhIndex := [1]
  ecdhExact := by
    refine ⟨by decide, fun i => ?_⟩
    match i with
    | 0 => decide
    | 1 => decide
    | i + 2 => simp
  kkrtIndex := [1]
  kkrtExact := by
    refine ⟨by decide, fun i => ?_⟩
    match i with
    | 0 => decide
    | 1 => decide
    | i + 2 => simp
  order := [0]
  orderPerm := by
    rw [resultBlocks_flatten]
    decide
  hashToString := fun item => [item.headD 0]
  hashSize := 1
  hashSizePos := by decide
  hashLength := fun _ => rfl
  hashInjective := by decide
  common := [[2]]
  commonNodup := by decide
  commonExact := by
    intro h
    constructor
    · intro hh
      rw [List.mem_singleton.mp hh]
      decide
    · intro hh
      have hserver := hh.2
      exact hserver

/-- ECDH with DIFFERENCE on the two items. -/
theorem psi_operation_ecdh :
    ExactResult .difference [[1], [2]] [[2]]
      (clientResult smallReport .difference .ecdh) :=
  (psi_operation_iff smallReport (by decide) .difference .ecdh).1.mpr
    (by decide)

/-- The TEE operator with DIFFERENCE returns the item both have. -/
theorem tee_difference_wrong :
    clientResult smallReport .difference .tee = [[2]]
      ∧ ¬ ExactResult .difference [[1], [2]] [[2]]
        (clientResult smallReport .difference .tee) := by
  have hresult : clientResult smallReport .difference .tee = [[2]] := by
    decide
  refine ⟨hresult, fun h => ?_⟩
  rw [hresult] at h
  have hreq := (h [2]).mp List.mem_cons_self
  exact hreq.2 List.mem_cons_self

end PrimiHub.Psi
