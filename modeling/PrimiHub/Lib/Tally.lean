/-
Counting weighted items exactly, and the most frequent of them.

A tally has each item once, with the sum of the weights it was given, which
is positive; it is what a frequent-items sketch holds as long as it has
room. What a tally is is said by `count`: an update adds its weight to one
item, and merging adds the counts (`count_merge`).

The first items of a list in the order of falling counts are the most
frequent ones, whichever way equal counts are ordered (`isTop_take`).
-/
import Mathlib.Algebra.GroupWithZero.Nat
import Mathlib.Data.Finset.Card
import Mathlib.Data.List.Nodup
import Mathlib.Data.List.Pairwise

namespace PrimiHub.Lib

variable {κ : Type}

/-- Items with their counts, each item once and counted. -/
@[ext]
structure Tally (κ : Type) where
  entries : List (κ × Nat)
  nodup : (entries.map Prod.fst).Nodup
  pos : ∀ entry ∈ entries, 0 < entry.2
  deriving Repr

namespace Tally

/-- Nothing counted. -/
def empty : Tally κ := ⟨[], List.nodup_nil, nofun⟩

section Counting

variable [DecidableEq κ]

instance : DecidableEq (Tally κ) := fun t u =>
  decidable_of_iff (t.entries = u.entries) Tally.ext_iff.symm

/-- The entries with a weight added to one item. -/
def addTo (x : κ) (w : Nat) : List (κ × Nat) → List (κ × Nat)
  | [] => [(x, w)]
  | entry :: rest =>
      if entry.1 = x then (x, entry.2 + w) :: rest
      else entry :: addTo x w rest

theorem mem_keys_addTo {x y : κ} {w : Nat} {entries : List (κ × Nat)} :
    y ∈ (addTo x w entries).map Prod.fst
      ↔ y = x ∨ y ∈ entries.map Prod.fst := by
  induction entries with
  | nil => simp [addTo]
  | cons entry rest ih =>
      rw [addTo]
      split
      · next h => simp [← h]
      · simp only [List.map_cons, List.mem_cons, ih]
        exact or_left_comm

theorem nodup_addTo {x : κ} {w : Nat} {entries : List (κ × Nat)}
    (h : (entries.map Prod.fst).Nodup) :
    ((addTo x w entries).map Prod.fst).Nodup := by
  induction entries with
  | nil => exact List.nodup_singleton x
  | cons entry rest ih =>
      obtain ⟨hentry, hrest⟩ := List.nodup_cons.mp h
      rw [addTo]
      split
      · next heq => exact heq ▸ h
      · next hne =>
        refine List.nodup_cons.mpr ⟨?_, ih hrest⟩
        rw [mem_keys_addTo]
        intro hmem
        exact hmem.elim hne hentry

theorem pos_addTo {x : κ} {w : Nat} (hw : 0 < w)
    {entries : List (κ × Nat)} (h : ∀ entry ∈ entries, 0 < entry.2) :
    ∀ entry ∈ addTo x w entries, 0 < entry.2 := by
  induction entries with
  | nil =>
      intro entry hentry
      rw [List.mem_singleton.mp hentry]
      exact hw
  | cons first rest ih =>
      intro entry hentry
      rw [addTo] at hentry
      split at hentry
      · obtain rfl | hentry := List.mem_cons.mp hentry
        · exact Nat.add_pos_right _ hw
        · exact h entry (List.mem_cons_of_mem _ hentry)
      · obtain rfl | hentry := List.mem_cons.mp hentry
        · exact h _ List.mem_cons_self
        · exact ih (fun e he => h e (List.mem_cons_of_mem _ he)) entry
            hentry

/-- Add a weight to an item; a weight of zero does not make it counted. -/
def update (t : Tally κ) (x : κ) (w : Nat) : Tally κ :=
  if h : w = 0 then t
  else ⟨addTo x w t.entries, nodup_addTo t.nodup,
    pos_addTo (Nat.pos_of_ne_zero h) t.pos⟩

/-- Add the weights of a list of items. -/
def updateAll (t : Tally κ) (xs : List (κ × Nat)) : Tally κ :=
  xs.foldl (fun t x => t.update x.1 x.2) t

/-- Add the counts of another tally. -/
def merge (t u : Tally κ) : Tally κ := t.updateAll u.entries

/-- The count of an item. -/
def count (t : Tally κ) (x : κ) : Nat := (t.entries.lookup x).getD 0

/-- The weights of an item in a list, added up. -/
def weight (xs : List (κ × Nat)) (x : κ) : Nat :=
  (xs.map fun entry => if entry.1 = x then entry.2 else 0).sum

@[simp] theorem count_empty (x : κ) : (empty : Tally κ).count x = 0 := rfl

theorem lookup_addTo (x y : κ) (w : Nat) (entries : List (κ × Nat)) :
    ((addTo x w entries).lookup y).getD 0
      = (entries.lookup y).getD 0 + if x = y then w else 0 := by
  induction entries with
  | nil =>
      by_cases h : x = y
      · simp [addTo, h]
      · simp [addTo, h, List.lookup_cons, beq_false_of_ne (Ne.symm h)]
  | cons entry rest ih =>
      obtain ⟨z, n⟩ := entry
      rw [addTo]
      split
      · next heq =>
        obtain rfl : z = x := heq
        by_cases hy : y = z
        · simp [hy]
        · simp [List.lookup_cons, beq_false_of_ne hy, Ne.symm hy]
      · next hne =>
        by_cases hy : y = z
        · subst hy
          simp [Ne.symm hne]
        · simp only [List.lookup_cons, beq_false_of_ne hy]
          exact ih

theorem count_update (t : Tally κ) (x y : κ) (w : Nat) :
    (t.update x w).count y = t.count y + if x = y then w else 0 := by
  unfold update
  split
  · next h => simp [h]
  · exact lookup_addTo x y w t.entries

theorem count_updateAll (t : Tally κ) (xs : List (κ × Nat)) (y : κ) :
    (t.updateAll xs).count y = t.count y + weight xs y := by
  induction xs generalizing t with
  | nil => rfl
  | cons entry rest ih =>
      show ((t.update entry.1 entry.2).updateAll rest).count y = _
      rw [ih, count_update, Nat.add_assoc]
      rfl

theorem weight_eq_zero {xs : List (κ × Nat)} {x : κ}
    (h : x ∉ xs.map Prod.fst) : weight xs x = 0 := by
  induction xs with
  | nil => rfl
  | cons entry rest ih =>
      rw [List.map_cons, List.mem_cons, not_or] at h
      show (if entry.1 = x then entry.2 else 0) + weight rest x = 0
      rw [if_neg (Ne.symm h.1), ih h.2]

theorem weight_eq_of_mem {xs : List (κ × Nat)} {x : κ} {n : Nat}
    (hnodup : (xs.map Prod.fst).Nodup) (h : (x, n) ∈ xs) :
    weight xs x = n := by
  induction xs with
  | nil => cases h
  | cons entry rest ih =>
      obtain ⟨hentry, hrest⟩ := List.nodup_cons.mp hnodup
      show (if entry.1 = x then entry.2 else 0) + weight rest x = n
      obtain rfl | h := List.mem_cons.mp h
      · rw [if_pos rfl, weight_eq_zero hentry, Nat.add_zero]
      · have hne : entry.1 ≠ x := fun heq =>
          hentry (List.mem_map.mpr ⟨(x, n), h, heq.symm⟩)
        rw [if_neg hne, ih hrest h, Nat.zero_add]

/-- The entries of a tally weigh what it counts. -/
theorem weight_entries (t : Tally κ) (x : κ) :
    weight t.entries x = t.count x := by
  obtain ⟨entries, hnodup, hpos⟩ := t
  show weight entries x = (entries.lookup x).getD 0
  clear hpos
  induction entries with
  | nil => rfl
  | cons entry rest ih =>
      obtain ⟨hentry, hrest⟩ := List.nodup_cons.mp hnodup
      obtain ⟨y, n⟩ := entry
      show (if y = x then n else 0) + weight rest x = _
      by_cases hx : x = y
      · subst hx
        rw [if_pos rfl, weight_eq_zero hentry]
        simp
      · rw [if_neg (Ne.symm hx), ih hrest, Nat.zero_add]
        simp [List.lookup_cons, beq_false_of_ne hx]

theorem count_merge (t u : Tally κ) (x : κ) :
    (t.merge u).count x = t.count x + u.count x := by
  rw [merge, count_updateAll, weight_entries]

/-- The sum of a list of tallies. -/
theorem count_foldl_merge {α : Type} (f : α → Tally κ) (parts : List α)
    (t : Tally κ) (x : κ) :
    (parts.foldl (fun t a => t.merge (f a)) t).count x
      = t.count x + (parts.map fun a => (f a).count x).sum := by
  induction parts generalizing t with
  | nil => rfl
  | cons a parts ih =>
      rw [List.foldl_cons, ih, count_merge, List.map_cons, List.sum_cons,
        Nat.add_assoc]

/-- What is in a tally, with what count. -/
theorem mem_entries_iff (t : Tally κ) {x : κ} {n : Nat} :
    (x, n) ∈ t.entries ↔ 0 < n ∧ t.count x = n := by
  obtain ⟨entries, hnodup, hpos⟩ := t
  show (x, n) ∈ entries ↔ 0 < n ∧ (entries.lookup x).getD 0 = n
  induction entries with
  | nil =>
      constructor
      · nofun
      · intro h
        have hzero : 0 = n := h.2
        omega
  | cons entry rest ih =>
      obtain ⟨hentry, hrest⟩ := List.nodup_cons.mp hnodup
      have ih := ih hrest fun e he => hpos e (List.mem_cons_of_mem _ he)
      obtain ⟨y, m⟩ := entry
      have hm : 0 < m := hpos (y, m) List.mem_cons_self
      by_cases hx : x = y
      · subst hx
        have hnot : (x, n) ∉ rest := fun h =>
          hentry (List.mem_map.mpr ⟨(x, n), h, rfl⟩)
        simp only [List.mem_cons, Prod.mk.injEq, hnot, List.lookup_cons,
          beq_self_eq_true, Option.getD_some, or_false, true_and]
        omega
      · simp only [List.mem_cons, Prod.mk.injEq, hx, false_and, false_or,
          List.lookup_cons, beq_false_of_ne hx]
        exact ih

end Counting

end Tally

-- =========================================================== the top items

/-- The loop past the members with `p`, which come first, leaves the
others. -/
theorem mem_dropWhile_iff {α : Type} {p : α → Bool} {xs : List α}
    (h : xs.Pairwise fun a b => p b → p a) {x : α} :
    x ∈ xs.dropWhile p ↔ x ∈ xs ∧ p x = false := by
  induction xs with
  | nil => simp
  | cons first rest ih =>
      obtain ⟨hfirst, hrest⟩ := List.pairwise_cons.mp h
      rw [List.dropWhile_cons]
      split
      · next hp =>
        rw [ih hrest, List.mem_cons]
        constructor
        · exact fun hx => ⟨Or.inr hx.1, hx.2⟩
        · intro hx
          refine ⟨hx.1.resolve_left fun heq => ?_, hx.2⟩
          rw [heq, hp] at hx
          cases hx.2
      · next hp =>
        constructor
        · intro hx
          refine ⟨hx, Bool.eq_false_iff.mpr fun hpx => ?_⟩
          obtain rfl | hmem := List.mem_cons.mp hx
          · exact hp hpx
          · exact hp (hfirst x hmem hpx)
        · exact fun hx => hx.1

/-- The `k` most frequent of the eligible items, or all of them. -/
structure IsTop [DecidableEq κ] (k : Nat) (count : κ → Nat)
    (eligible top : Finset κ) : Prop where
  subset : top ⊆ eligible
  card_eq : top.card = min k eligible.card
  count_le : ∀ a ∈ top, ∀ b ∈ eligible, b ∉ top → count b ≤ count a

/-- The first items of a list in the order of falling counts. -/
theorem isTop_take [DecidableEq κ] {xs : List (κ × Nat)} {count : κ → Nat}
    (hnodup : (xs.map Prod.fst).Nodup)
    (hsorted : xs.Pairwise fun a b => b.2 ≤ a.2)
    (hcount : ∀ entry ∈ xs, count entry.1 = entry.2) (k : Nat) :
    IsTop k count (xs.map Prod.fst).toFinset
      ((xs.take k).map Prod.fst).toFinset := by
  have hsub : ((xs.take k).map Prod.fst).Sublist (xs.map Prod.fst) :=
    (List.take_sublist k xs).map Prod.fst
  refine ⟨?_, ?_, ?_⟩
  · intro a ha
    rw [List.mem_toFinset] at ha ⊢
    exact hsub.subset ha
  · rw [List.toFinset_card_of_nodup hnodup,
      List.toFinset_card_of_nodup (hnodup.sublist hsub), List.length_map,
      List.length_map, List.length_take]
  · intro a ha b hb hnot
    rw [List.mem_toFinset] at ha hb hnot
    obtain ⟨x, hx, rfl⟩ := List.mem_map.mp ha
    obtain ⟨y, hy, rfl⟩ := List.mem_map.mp hb
    have hydrop : y ∈ xs.drop k := by
      rw [← List.take_append_drop k xs, List.mem_append] at hy
      exact hy.resolve_left fun h => hnot (List.mem_map_of_mem h)
    rw [hcount y hy, hcount x (List.mem_of_mem_take hx)]
    have hpair := hsorted
    rw [← List.take_append_drop k xs, List.pairwise_append] at hpair
    exact hpair.2.2 x hx y hydrop

/-- The top of a larger set, if the further items are less frequent and
not needed. -/
theorem IsTop.of_superset [DecidableEq κ] {k : Nat} {count : κ → Nat}
    {larger eligible top : Finset κ} (h : IsTop k count larger top)
    (hsub : eligible ⊆ larger) (hk : k ≤ eligible.card)
    (hlt : ∀ a ∈ larger, a ∉ eligible → ∀ b ∈ eligible,
      count a < count b) :
    IsTop k count eligible top := by
  have hcard : top.card = k := by
    have hle := Finset.card_le_card hsub
    rw [h.card_eq]
    omega
  have htop : top ⊆ eligible := by
    intro a ha
    by_contra hnot
    -- everything eligible is then in the top, and `a` besides
    have hall : eligible ⊆ top.erase a := by
      intro b hb
      by_contra hb'
      have hbtop : b ∉ top := fun hmem =>
        hb' (Finset.mem_erase.mpr ⟨fun heq => hnot (heq ▸ hb), hmem⟩)
      have hle := h.count_le a ha b (hsub hb) hbtop
      have := hlt a (h.subset ha) hnot b hb
      omega
    have hle := Finset.card_le_card hall
    rw [Finset.card_erase_of_mem ha] at hle
    have hpos := Finset.card_pos.mpr ⟨a, ha⟩
    omega
  refine ⟨htop, by omega, ?_⟩
  intro a ha b hb hnot
  exact h.count_le a ha b (hsub hb) hnot

/-- A top that leaves out one eligible item: it is that of the others, and
as many of them as there are places are no less frequent. -/
theorem isTop_erase_iff [DecidableEq κ] {k : Nat} {count : κ → Nat}
    {eligible top : Finset κ} {x : κ} (hx : x ∈ eligible) (hnot : x ∉ top) :
    IsTop k count eligible top
      ↔ IsTop k count (eligible.erase x) top
        ∧ k ≤ ((eligible.erase x).filter
          fun a => count x ≤ count a).card := by
  have hcard := Finset.card_erase_of_mem hx
  have hpos := Finset.card_pos.mpr ⟨x, hx⟩
  constructor
  · intro h
    have hsub : top ⊆ eligible.erase x := fun a ha =>
      Finset.mem_erase.mpr ⟨fun heq => hnot (heq ▸ ha), h.subset ha⟩
    have hle := Finset.card_le_card hsub
    have htop := h.card_eq
    have hfull : top ⊆ (eligible.erase x).filter
        fun a => count x ≤ count a := fun a ha =>
      Finset.mem_filter.mpr ⟨hsub ha, h.count_le a ha x hx hnot⟩
    have hk := Finset.card_le_card hfull
    refine ⟨⟨hsub, by omega, fun a ha b hb =>
      h.count_le a ha b (Finset.mem_of_mem_erase hb)⟩, by omega⟩
  · intro h
    obtain ⟨h, hk⟩ := h
    have hle := hk.trans (Finset.card_filter_le _ _)
    have htop := h.card_eq
    refine ⟨h.subset.trans (Finset.erase_subset _ _), by omega, ?_⟩
    intro a ha b hb hb'
    by_cases hbx : b = x
    · subst hbx
      by_contra hlt
      -- `a` is less frequent, so one of the others has no place
      have hsub : ¬ (eligible.erase b).filter
          (fun c => count b ≤ count c) ⊆ top.erase a := by
        intro hsub
        have hcard := Finset.card_le_card hsub
        rw [Finset.card_erase_of_mem ha] at hcard
        have hpos := Finset.card_pos.mpr ⟨a, ha⟩
        omega
      obtain ⟨c, hc, hout⟩ := Finset.not_subset.mp hsub
      obtain ⟨hmem, hbc⟩ := Finset.mem_filter.mp hc
      by_cases hctop : c ∈ top
      · refine hout (Finset.mem_erase.mpr ⟨fun heq => ?_, hctop⟩)
        exact hlt (heq ▸ hbc)
      · exact hlt (hbc.trans (h.count_le a ha c hmem hctop))
    · exact h.count_le a ha b (Finset.mem_erase.mpr ⟨hbx, hb⟩) hb'

end PrimiHub.Lib
