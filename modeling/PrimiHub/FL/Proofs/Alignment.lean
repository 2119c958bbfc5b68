/-
When the tables of host and guest are aligned.

Filtering keeps the order of each table, so the tables are aligned
exactly if their common ids already stood in the same order. Both
filtered lists have the same ids, each once (`common_perm`); a list is
determined by its members and their order, which is the order in the
table it was filtered from (`pairwise_idxOf_filter`).
-/
import Mathlib.Data.List.Nodup
import Mathlib.Data.List.Sort
import PrimiHub.FL.Alignment

namespace PrimiHub.FL

variable {ι β γ : Type}

-- ============================================================== position

/-- Alignment is equality of the id columns. -/
theorem aligned_iff (host : List (Sample ι β)) (guest : List (Sample ι γ)) :
    Aligned host guest ↔ host.map Sample.id = guest.map Sample.id := by
  constructor
  · intro h
    apply List.ext_getElem
    · rw [List.length_map, List.length_map, h.sameLength]
    · intro i hi hj
      rw [List.getElem_map, List.getElem_map]
      rw [List.length_map] at hi hj
      exact h.sameId i _ _ (List.getElem?_eq_getElem hi)
        (List.getElem?_eq_getElem hj)
  · intro h
    constructor
    · have hlen := congrArg List.length h
      rwa [List.length_map, List.length_map] at hlen
    · intro i a b ha hb
      have hget := congrArg (·[i]?) h
      simp only [List.getElem?_map, ha, hb, Option.map_some,
        Option.some.injEq] at hget
      exact hget

variable [DecidableEq ι]

/-- The ids of a filtered table. -/
theorem map_id_filter (x : List (Sample ι β)) (intersection : List ι) :
    (x.filter fun row => row.id ∈ intersection).map Sample.id
      = (x.map Sample.id).filter fun id => id ∈ intersection := by
  rw [List.filter_map]
  rfl

/-- In a filtered list, ids stand as they do in the whole one. -/
theorem pairwise_idxOf_filter {ids : List ι} (hnodup : ids.Nodup)
    (p : ι → Bool) :
    (ids.filter p).Pairwise fun x y => ids.idxOf x < ids.idxOf y := by
  have hall : ids.Pairwise fun x y => ids.idxOf x < ids.idxOf y := by
    rw [List.pairwise_iff_getElem]
    intro i j hi hj hij
    rw [hnodup.idxOf_getElem i hi, hnodup.idxOf_getElem j hj]
    exact hij
  exact hall.filter p

/-- The order of two ids in the filtered list and in the whole one. -/
theorem idxOf_filter_lt_iff {ids : List ι} (hnodup : ids.Nodup)
    {p : ι → Bool} {x y : ι} (hx : x ∈ ids.filter p)
    (hy : y ∈ ids.filter p) :
    (ids.filter p).idxOf x < (ids.filter p).idxOf y
      ↔ ids.idxOf x < ids.idxOf y := by
  have hpair := List.pairwise_iff_getElem.mp (pairwise_idxOf_filter hnodup p)
  have hxl := List.idxOf_lt_length_of_mem hx
  have hyl := List.idxOf_lt_length_of_mem hy
  have hxe : (ids.filter p)[(ids.filter p).idxOf x] = x :=
    List.getElem_idxOf hxl
  have hye : (ids.filter p)[(ids.filter p).idxOf y] = y :=
    List.getElem_idxOf hyl
  constructor
  · intro hlt
    have h := hpair _ _ hxl hyl hlt
    rwa [hxe, hye] at h
  · intro hlt
    rcases Nat.lt_trichotomy ((ids.filter p).idxOf x)
      ((ids.filter p).idxOf y) with h | h | h
    · exact h
    · -- equal positions would make them one id
      simp only [h, hye] at hxe
      rw [hxe] at hlt
      exact absurd hlt (Nat.lt_irrefl _)
    · have h' := hpair _ _ hyl hxl h
      rw [hxe, hye] at h'
      exact absurd (Nat.lt_trans hlt h') (Nat.lt_irrefl _)

-- ================================================================= tables

/-- Two lists without duplicates filtered to their common ids are the
same exactly if these stand in the same order. -/
theorem filter_eq_filter_iff {ids ids' common common' : List ι}
    (hnodup : ids.Nodup) (hnodup' : ids'.Nodup)
    (hcommon : ∀ x, x ∈ common ↔ x ∈ ids ∧ x ∈ ids')
    (hcommon' : ∀ x, x ∈ common' ↔ x ∈ ids ∧ x ∈ ids') :
    (ids.filter fun x => x ∈ common) = (ids'.filter fun x => x ∈ common')
      ↔ ∀ x y, x ∈ ids → x ∈ ids' → y ∈ ids → y ∈ ids' →
        (ids.idxOf x < ids.idxOf y ↔ ids'.idxOf x < ids'.idxOf y) := by
  have hmem : ∀ x, (x ∈ ids.filter fun x => x ∈ common)
      ↔ x ∈ ids ∧ x ∈ ids' := by
    intro x
    rw [List.mem_filter, decide_eq_true_eq, hcommon]
    exact and_iff_right_of_imp And.left
  have hmem' : ∀ x, (x ∈ ids'.filter fun x => x ∈ common')
      ↔ x ∈ ids ∧ x ∈ ids' := by
    intro x
    rw [List.mem_filter, decide_eq_true_eq, hcommon']
    exact and_iff_right_of_imp And.right
  constructor
  · intro heq x y hx hx' hy hy'
    rw [← idxOf_filter_lt_iff hnodup ((hmem x).mpr ⟨hx, hx'⟩)
      ((hmem y).mpr ⟨hy, hy'⟩), heq,
      idxOf_filter_lt_iff hnodup' ((hmem' x).mpr ⟨hx, hx'⟩)
      ((hmem' y).mpr ⟨hy, hy'⟩)]
  · intro horder
    have hperm : (ids.filter fun x => x ∈ common).Perm
        (ids'.filter fun x => x ∈ common') := by
      rw [List.perm_ext_iff_of_nodup (hnodup.filter _) (hnodup'.filter _)]
      intro x
      rw [hmem, hmem']
    apply List.Perm.eq_of_pairwise _ (pairwise_idxOf_filter hnodup _) _ hperm
    · intro a b _ _ hab hba
      exact absurd (Nat.lt_trans hab hba) (Nat.lt_irrefl _)
    · -- the other list stands in the order of the first one too
      apply (pairwise_idxOf_filter hnodup' _).imp_of_mem
      intro x y hx hy hlt
      obtain ⟨hx, hx'⟩ := (hmem' x).mp hx
      obtain ⟨hy, hy'⟩ := (hmem' y).mp hy
      exact (horder x y hx hx' hy hy').mpr hlt

/-- A call that does not raise filters the table. -/
theorem sampleAlignment_ok {x x' : List (Sample ι β)} {dtype : IdDtype}
    {roles roles' : Roles} {protocol : String} {intersection : List ι}
    (h : sampleAlignment x dtype roles protocol intersection
      = .ok (x', roles')) :
    x' = x.filter fun row => row.id ∈ intersection := by
  unfold sampleAlignment at h
  split at h
  · cases h
  · split at h
    · cases h
    · split at h
      · cases h
      · injection h with h
        injection h with h _
        exact h.symm

/-- The tables that `sample_alignment` returns to host and guest can be
combined by position exactly if their common ids stood in the same order
before. -/
theorem sample_alignment_iff {host hostOut : List (Sample ι β)}
    {guest guestOut : List (Sample ι γ)} {hostIds guestIds : List ι}
    {dtype dtype' : IdDtype} {roles rolesOut roles' rolesOut' : Roles}
    {protocol protocol' : String}
    (hunique : (host.map Sample.id).Nodup)
    (hunique' : (guest.map Sample.id).Nodup)
    (hpsi : ExactIntersection host guest hostIds)
    (hpsi' : ExactIntersection host guest guestIds)
    (h : sampleAlignment host dtype roles protocol hostIds
      = .ok (hostOut, rolesOut))
    (h' : sampleAlignment guest dtype' roles' protocol' guestIds
      = .ok (guestOut, rolesOut')) :
    Aligned hostOut guestOut ↔ SameOrder host guest := by
  rw [aligned_iff, sampleAlignment_ok h, sampleAlignment_ok h',
    map_id_filter, map_id_filter]
  exact filter_eq_filter_iff hunique hunique' hpsi hpsi'

/-- Host and guest in the same order, with rows of their own between. -/
theorem sample_alignment_sorted :
    Aligned
      ([⟨1, 10⟩, ⟨4, 40⟩] : List (Sample Nat Nat))
      ([⟨1, 11⟩, ⟨4, 41⟩] : List (Sample Nat Nat)) := by
  have hhost : sampleAlignment
      ([⟨1, 10⟩, ⟨2, 20⟩, ⟨4, 40⟩] : List (Sample Nat Nat)) .integer
      ⟨"Alice", .name "Bob"⟩ "ECDH" [1, 4]
      = .ok ([⟨1, 10⟩, ⟨4, 40⟩], ⟨"Alice", .name "Bob"⟩) := by decide +kernel
  have hguest : sampleAlignment
      ([⟨1, 11⟩, ⟨3, 31⟩, ⟨4, 41⟩] : List (Sample Nat Nat)) .integer
      ⟨"Alice", .name "Bob"⟩ "ECDH" [4, 1]
      = .ok ([⟨1, 11⟩, ⟨4, 41⟩], ⟨"Alice", .name "Bob"⟩) := by decide +kernel
  refine (sample_alignment_iff ?_ ?_ ?_ ?_ hhost hguest).mpr ?_
  · decide
  · decide
  · intro id
    simp
    omega
  · intro id
    simp
    omega
  · intro x y hx hx' hy hy'
    have hcommon : ∀ z, z ∈ [1, 2, 4] → z ∈ [1, 3, 4] → z = 1 ∨ z = 4 := by
      decide
    obtain rfl | rfl := hcommon x hx hx' <;>
      obtain rfl | rfl := hcommon y hy hy' <;> decide

/-- The same two ids in opposite orders: row by row the tables belong to
different ids. -/
theorem sample_alignment_swapped :
    ∃ hostOut guestOut,
      sampleAlignment ([⟨1, 10⟩, ⟨2, 20⟩] : List (Sample Nat Nat)) .integer
          ⟨"Alice", .name "Bob"⟩ "ECDH" [1, 2]
        = .ok (hostOut, ⟨"Alice", .name "Bob"⟩)
      ∧ sampleAlignment ([⟨2, 21⟩, ⟨1, 11⟩] : List (Sample Nat Nat)) .integer
          ⟨"Alice", .name "Bob"⟩ "ECDH" [1, 2]
        = .ok (guestOut, ⟨"Alice", .name "Bob"⟩)
      ∧ ¬ Aligned hostOut guestOut := by
  refine ⟨[⟨1, 10⟩, ⟨2, 20⟩], [⟨2, 21⟩, ⟨1, 11⟩], by decide +kernel,
    by decide +kernel, ?_⟩
  intro h
  have hid := h.sameId 0 ⟨1, 10⟩ ⟨2, 21⟩ rfl rfl
  cases hid

end PrimiHub.FL
