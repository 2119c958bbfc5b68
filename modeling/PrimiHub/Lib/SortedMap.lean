/-
Maps kept in key order, the way `std::map` iterates.

A map is its entries, strictly increasing in the key, so that no key is
there twice and the iteration order is part of the value. Nothing here
knows what the keys or the values are.

`insert` is the assignment `m[k] = v`; `insertNew` is the same behind the
guard `m.find(k) == m.end()`, so the first value a key is given stays.
What a loop of either leaves behind is said by `find?`: `insertAll` has
the last value each key was given and `insertNewAll` the first.
-/
import Mathlib.Data.List.Basic
import Mathlib.Data.List.Pairwise
import Mathlib.Order.Lattice

namespace PrimiHub.Lib

variable {K V : Type*}

/-- An ordered map as the list of its entries. -/
@[ext]
structure SortedMap (K V : Type*) [LinearOrder K] where
  entries : List (K × V)
  sorted : entries.Pairwise (·.1 < ·.1)

section Entries

variable [LinearOrder K]

/-- Where an entry goes among entries in key order. -/
def placeEntry (k : K) (v : V) : List (K × V) → List (K × V)
  | [] => [(k, v)]
  | e :: rest =>
      if k < e.1 then (k, v) :: e :: rest
      else if k = e.1 then (k, v) :: rest
      else e :: placeEntry k v rest

theorem mem_placeEntry {k : K} {v : V} {e : K × V} {l : List (K × V)}
    (h : e ∈ placeEntry k v l) : e = (k, v) ∨ e ∈ l := by
  induction l with
  | nil => exact Or.inl (List.mem_singleton.1 h)
  | cons d rest ih =>
      rw [placeEntry] at h
      split_ifs at h with hlt heq
      · rcases List.mem_cons.1 h with h | h
        · exact Or.inl h
        · exact Or.inr h
      · rcases List.mem_cons.1 h with h | h
        · exact Or.inl h
        · exact Or.inr (List.mem_cons_of_mem _ h)
      · rcases List.mem_cons.1 h with rfl | h
        · exact Or.inr (List.mem_cons_self ..)
        · rcases ih h with h | h
          · exact Or.inl h
          · exact Or.inr (List.mem_cons_of_mem _ h)

theorem placeEntry_sorted (k : K) (v : V) {l : List (K × V)}
    (h : l.Pairwise (·.1 < ·.1)) :
    (placeEntry k v l).Pairwise (·.1 < ·.1) := by
  induction l with
  | nil => exact List.pairwise_singleton _ _
  | cons d rest ih =>
      obtain ⟨hd, hrest⟩ := List.pairwise_cons.1 h
      rw [placeEntry]
      split_ifs with hlt heq
      · refine List.pairwise_cons.2 ⟨fun e he => ?_, h⟩
        rcases List.mem_cons.1 he with rfl | he
        · exact hlt
        · exact hlt.trans (hd e he)
      · subst heq
        exact List.pairwise_cons.2 ⟨hd, hrest⟩
      · refine List.pairwise_cons.2 ⟨fun e he => ?_, ih hrest⟩
        rcases mem_placeEntry he with rfl | he
        · exact lt_of_le_of_ne (not_lt.1 hlt) (Ne.symm heq)
        · exact hd e he

/-- A lookup passes over an entry of another key. -/
theorem lookup_cons_of_ne {k j : K} (h : j ≠ k) (v : V) (l : List (K × V)) :
    ((k, v) :: l).lookup j = l.lookup j := by
  rw [List.lookup_cons, beq_false_of_ne h]

theorem mem_of_lookup {l : List (K × V)} {k : K} {v : V}
    (h : l.lookup k = some v) : (k, v) ∈ l := by
  obtain ⟨front, back, rfl, -⟩ := List.lookup_eq_some_iff.1 h
  simp

/-- A lookup finds something exactly at a key. -/
theorem exists_lookup_iff (l : List (K × V)) (k : K) :
    (∃ v, l.lookup k = some v) ↔ k ∈ l.map Prod.fst := by
  induction l with
  | nil => simp
  | cons e rest ih =>
      obtain ⟨ke, ve⟩ := e
      by_cases h : k = ke
      · subst h
        simp
      · rw [lookup_cons_of_ne h, ih]
        simp [h]

/-- Where no key is there twice, an entry is what its key finds. -/
theorem lookup_of_mem {l : List (K × V)} {k : K} {v : V}
    (hnodup : (l.map Prod.fst).Nodup) (h : (k, v) ∈ l) :
    l.lookup k = some v := by
  obtain ⟨front, back, rfl⟩ := List.append_of_mem h
  refine List.lookup_eq_some_iff.2 ⟨front, back, rfl, fun e he => ?_⟩
  rw [List.map_append, List.nodup_append] at hnodup
  have hne := hnodup.2.2 e.1 (List.mem_map_of_mem he) k (by simp)
  simpa using Ne.symm hne

theorem lookup_placeEntry (k j : K) (v : V) (l : List (K × V)) :
    (placeEntry k v l).lookup j = if j = k then some v else l.lookup j := by
  induction l with
  | nil =>
      split_ifs with hj
      · rw [hj, placeEntry, List.lookup_cons_self]
      · rw [placeEntry, lookup_cons_of_ne hj]
  | cons d rest ih =>
      obtain ⟨kd, vd⟩ := d
      rw [placeEntry]
      by_cases hj : j = k
      · subst hj
        rw [if_pos rfl]
        split_ifs with hlt heq
        · rw [List.lookup_cons_self]
        · rw [List.lookup_cons_self]
        · rw [lookup_cons_of_ne heq, ih, if_pos rfl]
      · rw [if_neg hj]
        rw [if_neg hj] at ih
        split_ifs with hlt heq
        · rw [lookup_cons_of_ne hj]
        · have hd : j ≠ kd := fun h => hj (h.trans heq.symm)
          rw [lookup_cons_of_ne hj, lookup_cons_of_ne hd]
        · rw [List.lookup_cons, List.lookup_cons, ih]

end Entries

namespace SortedMap

variable [LinearOrder K]

/-- The map with no entries. -/
def empty : SortedMap K V := ⟨[], List.Pairwise.nil⟩

/-- `m.find(k)`. -/
def find? (m : SortedMap K V) (k : K) : Option V := m.entries.lookup k

/-- `m[k] = v`. -/
def insert (m : SortedMap K V) (k : K) (v : V) : SortedMap K V :=
  ⟨placeEntry k v m.entries, placeEntry_sorted k v m.sorted⟩

/-- `if (m.find(k) == m.end()) m[k] = v`. -/
def insertNew (m : SortedMap K V) (k : K) (v : V) : SortedMap K V :=
  match m.find? k with
  | none => m.insert k v
  | some _ => m

/-- The keys, in order. -/
def keys (m : SortedMap K V) : List K := m.entries.map Prod.fst

-- ================================================ what a lookup finds

@[simp] theorem find?_empty (k : K) :
    (empty : SortedMap K V).find? k = none := rfl

theorem find?_insert (m : SortedMap K V) (k j : K) (v : V) :
    (m.insert k v).find? j = if j = k then some v else m.find? j :=
  lookup_placeEntry k j v m.entries

/-- A guarded assignment changes nothing where there is a value. -/
theorem find?_insertNew (m : SortedMap K V) (k j : K) (v : V) :
    (m.insertNew k v).find? j
      = (m.find? j).or (if j = k then some v else none) := by
  rw [insertNew]
  cases hk : m.find? k with
  | none =>
      rw [find?_insert]
      split_ifs with hj
      · rw [hj, hk, Option.none_or]
      · rw [Option.or_none]
  | some w =>
      split_ifs with hj
      · rw [hj, hk, Option.some_or]
      · rw [Option.or_none]

/-- The keys increase strictly. -/
theorem keys_sorted (m : SortedMap K V) : m.keys.Pairwise (· < ·) :=
  List.pairwise_map.2 m.sorted

theorem keys_nodup (m : SortedMap K V) : m.keys.Nodup :=
  m.keys_sorted.imp ne_of_lt

/-- An entry is what its key finds. -/
theorem mem_entries_iff (m : SortedMap K V) (k : K) (v : V) :
    (k, v) ∈ m.entries ↔ m.find? k = some v :=
  ⟨lookup_of_mem m.keys_nodup, mem_of_lookup⟩

/-- A key is there when it finds something. -/
theorem mem_keys_iff (m : SortedMap K V) (k : K) :
    k ∈ m.keys ↔ ∃ v, m.find? k = some v :=
  (exists_lookup_iff m.entries k).symm

-- ========================================================== the loops

/-- A loop of assignments. -/
def insertAll (m : SortedMap K V) (l : List (K × V)) : SortedMap K V :=
  l.foldl (fun m e => m.insert e.1 e.2) m

/-- A loop of guarded assignments. -/
def insertNewAll (m : SortedMap K V) (l : List (K × V)) : SortedMap K V :=
  l.foldl (fun m e => m.insertNew e.1 e.2) m

/-- A loop of guarded assignments leaves each key its first value. -/
theorem find?_insertNewAll (m : SortedMap K V) (l : List (K × V)) (k : K) :
    (m.insertNewAll l).find? k = (m.find? k).or (l.lookup k) := by
  induction l generalizing m with
  | nil => rw [insertNewAll, List.foldl_nil, List.lookup_nil, Option.or_none]
  | cons e rest ih =>
      obtain ⟨ke, ve⟩ := e
      have hstep : m.insertNewAll ((ke, ve) :: rest)
          = (m.insertNew ke ve).insertNewAll rest := rfl
      rw [hstep, ih, find?_insertNew, Option.or_assoc]
      split_ifs with hk
      · rw [hk, List.lookup_cons_self, Option.some_or]
      · rw [lookup_cons_of_ne hk, Option.none_or]

/-- A loop of assignments leaves each key its last value. -/
theorem find?_insertAll (m : SortedMap K V) (l : List (K × V)) (k : K) :
    (m.insertAll l).find? k = (l.reverse.lookup k).or (m.find? k) := by
  induction l generalizing m with
  | nil => rfl
  | cons e rest ih =>
      obtain ⟨ke, ve⟩ := e
      have hstep : m.insertAll ((ke, ve) :: rest)
          = (m.insert ke ve).insertAll rest := rfl
      rw [hstep, ih, find?_insert, List.reverse_cons, List.lookup_append,
        Option.or_assoc]
      split_ifs with hk
      · rw [hk, List.lookup_cons_self, Option.some_or]
      · rw [lookup_cons_of_ne hk, List.lookup_nil, Option.none_or]

end SortedMap

end PrimiHub.Lib
