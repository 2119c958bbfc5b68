/-
A matrix written cell by cell, and places in a list of chunks.

A `Grid` has its dimensions and an entry at every pair of indices; a write
outside the dimensions fails. A loop that writes is proved by what it has
written: `Shows R P g` says that the entry of `g` at every cell with `P` is
one that `R` wants there, and a write adds its cell to `P` (`Shows.set`).

A place is the number of a chunk and the offset in it. `placesFrom part`
are the places of the offsets `part` chooses in a chunk of a length, chunk
by chunk. A place stands behind the places of the chunks before its own
(`placesFrom_getElem?`); two parts that share the offsets of every chunk
share the places (`placesFrom_perm`); and the places of one chunk are as
many as its part has offsets (`countP_tagged`).
-/
import Mathlib.Algebra.BigOperators.Group.Finset.Basic
import Mathlib.Algebra.Order.BigOperators.Group.Multiset
import Mathlib.Algebra.Ring.Nat
import Mathlib.Data.List.FinRange
import Mathlib.Data.List.Nodup
import Mathlib.Data.List.Perm.Basic
import PrimiHub.Lib.Traverse

namespace PrimiHub.Lib

section Cells

variable {α β ε : Type*}

/-- A matrix; entries outside of the dimensions mean nothing. -/
structure Grid (α : Type*) where
  rows : Nat
  cols : Nat
  entry : Nat → Nat → α

/-- `v` at row `i` and column `j`. -/
def Grid.set (e : ε) (i j : Nat) (v : α) (g : Grid α) : Except ε (Grid α) :=
  if i < g.rows ∧ j < g.cols then
    .ok { g with entry := fun a b => if a = i ∧ b = j then v else g.entry a b }
  else .error e

/-- The values, one below the other, in column `j` from row `i` on. -/
def Grid.fill (e : ε) (j : Nat) : Nat → List α → Grid α → Except ε (Grid α)
  | _, [], g => .ok g
  | i, v :: vs, g => do
      let g ← g.set e i j v
      Grid.fill e j (i + 1) vs g

/-- The first `n` entries of row `i`. -/
def Grid.row (g : Grid α) (n i : Nat) : List α :=
  (List.range n).map (g.entry i)

/-- What has been written: at the cells with `P` an entry `R` wants. -/
structure Grid.Shows (rows cols : Nat) (R : Nat → Nat → α → Prop)
    (P : Nat → Nat → Prop) (g : Grid α) : Prop where
  rows_eq : g.rows = rows
  cols_eq : g.cols = cols
  entry : ∀ i j, P i j → R i j (g.entry i j)

/-- A write does not change the dimensions. -/
theorem Grid.set_dims {e : ε} {i j : Nat} {v : α} {g g' : Grid α}
    (h : g.set e i j v = .ok g') : g'.rows = g.rows ∧ g'.cols = g.cols := by
  unfold Grid.set at h
  split at h
  · cases h
    exact ⟨rfl, rfl⟩
  · cases h

theorem Grid.fill_dims {e : ε} {i j : Nat} {vs : List α} {g g' : Grid α}
    (h : g.fill e j i vs = .ok g') : g'.rows = g.rows ∧ g'.cols = g.cols := by
  induction vs generalizing i g with
  | nil =>
      cases h
      exact ⟨rfl, rfl⟩
  | cons v vs ih =>
      rw [Grid.fill] at h
      obtain ⟨g₁, hset, hrest⟩ := bind_eq_ok_iff.mp h
      rw [(ih hrest).1, (ih hrest).2]
      exact Grid.set_dims hset

/-- What has been written has a row. -/
theorem Grid.rows_pos_of_set {e : ε} {i j : Nat} {v : α} {g g' : Grid α}
    (h : g.set e i j v = .ok g') : 0 < g.rows := by
  unfold Grid.set at h
  split at h
  next hlt => exact Nat.zero_lt_of_lt hlt.1
  next => cases h

theorem Grid.rows_pos_of_fill {e : ε} {i j : Nat} {vs : List α}
    {g g' : Grid α} (hvs : vs ≠ []) (h : g.fill e j i vs = .ok g') :
    0 < g.rows := by
  obtain ⟨v, rest, rfl⟩ := List.exists_cons_of_ne_nil hvs
  obtain ⟨g₁, hset, -⟩ := bind_eq_ok_iff.mp h
  exact Grid.rows_pos_of_set hset

variable {rows cols : Nat} {R : Nat → Nat → α → Prop} {P : Nat → Nat → Prop}

/-- Nothing has been written yet. -/
theorem Grid.Shows.start (entry : Nat → Nat → α) :
    Grid.Shows rows cols R (fun _ _ => False) ⟨rows, cols, entry⟩ :=
  ⟨rfl, rfl, fun _ _ h => h.elim⟩

/-- Only the written cells matter. -/
theorem Grid.Shows.mono {Q : Nat → Nat → Prop} {g : Grid α}
    (h : g.Shows rows cols R P) (hPQ : ∀ i j, Q i j → P i j) :
    g.Shows rows cols R Q :=
  ⟨h.rows_eq, h.cols_eq, fun i j hQ => h.entry i j (hPQ i j hQ)⟩

theorem Grid.Shows.set {e : ε} {g : Grid α} (h : g.Shows rows cols R P)
    {i j : Nat} {v : α} (hi : i < rows) (hj : j < cols) (hv : R i j v) :
    ∃ g', g.set e i j v = .ok g'
      ∧ g'.Shows rows cols R fun a b => P a b ∨ (a = i ∧ b = j) := by
  refine ⟨_, if_pos ⟨h.rows_eq ▸ hi, h.cols_eq ▸ hj⟩, h.rows_eq, h.cols_eq, ?_⟩
  intro a b hab
  show R a b (if a = i ∧ b = j then v else g.entry a b)
  split
  next hcell =>
    rw [hcell.1, hcell.2]
    exact hv
  next hcell => exact h.entry a b (hab.resolve_right hcell)

/-- A stretch of a column, written to its place. -/
theorem Grid.Shows.fill {e : ε} {g : Grid α} {i j : Nat} {vs : List α}
    (h : g.Shows rows cols R P) (hi : i + vs.length ≤ rows) (hj : j < cols)
    (hv : ∀ k v, vs[k]? = some v → R (i + k) j v) :
    ∃ g', g.fill e j i vs = .ok g'
      ∧ g'.Shows rows cols R fun a b =>
          P a b ∨ (i ≤ a ∧ a < i + vs.length ∧ b = j) := by
  induction vs generalizing g i P with
  | nil =>
      refine ⟨g, rfl, h.mono fun a b hab => ?_⟩
      rcases hab with hP | ⟨hle, hlt, -⟩
      · exact hP
      · exact absurd hlt (Nat.not_lt.mpr hle)
  | cons v vs ih =>
      rw [List.length_cons] at hi ⊢
      have hi₀ : i < rows := by omega
      obtain ⟨g₁, hset, hg₁⟩ := h.set (e := e) hi₀ hj (hv 0 v rfl)
      obtain ⟨g₂, hfill, hg₂⟩ := ih (i := i + 1) hg₁ (by omega) fun k w hk => by
        have hw := hv (k + 1) w hk
        rwa [← Nat.add_assoc, Nat.add_right_comm] at hw
      refine ⟨g₂, ?_, hg₂.mono fun a b hab => ?_⟩
      · rw [Grid.fill, hset]
        exact hfill
      · rcases hab with hP | ⟨hle, hlt, rfl⟩
        · exact Or.inl (Or.inl hP)
        · rcases Nat.eq_or_lt_of_le hle with rfl | hlt'
          · exact Or.inl (Or.inr ⟨rfl, rfl⟩)
          · exact Or.inr ⟨hlt', by omega, rfl⟩

end Cells

-- ================================================================= places

section Places

variable {α β κ : Type*}

/-- The places of the offsets a part chooses, from chunk `k` on. -/
def placesFrom (part : Nat → List Nat) (k : Nat) (layout : List Nat) :
    List (Nat × Nat) :=
  (layout.zipIdx k).flatMap fun c => (part c.1).map fun o => (c.2, o)

theorem placesFrom_append (part : Nat → List Nat) (k : Nat)
    (xs ys : List Nat) :
    placesFrom part k (xs ++ ys)
      = placesFrom part k xs ++ placesFrom part (k + xs.length) ys := by
  unfold placesFrom
  rw [List.zipIdx_append, List.flatMap_append]

theorem length_placesFrom (part : Nat → List Nat) (k : Nat)
    (xs : List Nat) :
    (placesFrom part k xs).length
      = (xs.map fun L => (part L).length).sum := by
  induction xs generalizing k with
  | nil => rfl
  | cons L xs ih =>
      rw [← List.singleton_append, placesFrom_append, List.length_append, ih,
        List.map_append, List.sum_append]
      simp [placesFrom]

/-- The places of a chunk stand behind those of the chunks before it. -/
theorem placesFrom_getElem? (part : Nat → List Nat) (done rest : List Nat)
    {L n o : Nat} (h : (part L)[n]? = some o) :
    (placesFrom part 0 (done ++ L :: rest))[
        (done.map fun L => (part L).length).sum + n]?
      = some (done.length, o) := by
  obtain ⟨hn, -⟩ := List.getElem?_eq_some_iff.mp h
  rw [placesFrom_append, ← length_placesFrom part 0,
    List.getElem?_append_right (Nat.le_add_right _ _), Nat.add_sub_cancel_left,
    Nat.zero_add]
  have hcons : placesFrom part done.length (L :: rest)
      = (part L).map (fun o => (done.length, o))
        ++ placesFrom part (done.length + 1) rest := rfl
  rw [hcons, List.getElem?_append_left (by rwa [List.length_map]),
    List.getElem?_map, h]
  rfl

/-- Two parts that share the offsets of every chunk. -/
theorem placesFrom_perm {f g h : Nat → List Nat} (k : Nat) {layout : List Nat}
    (hparts : ∀ L ∈ layout, (f L ++ g L).Perm (h L)) :
    (placesFrom f k layout ++ placesFrom g k layout).Perm
      (placesFrom h k layout) := by
  refine (List.flatMap_append_perm _ _ _).trans
    (List.Perm.flatMap_left _ fun c hc => ?_)
  rw [← List.map_append]
  exact (hparts c.1 (List.fst_mem_of_mem_zipIdx hc)).map _

/-- The members with the tag of `x`, in a list of tagged lists. -/
theorem countP_tagged [DecidableEq κ] {xs : List α} {key : α → κ}
    (hnodup : (xs.map key).Nodup) (f : α → List β) (q : β → Bool) {x : α}
    (hx : x ∈ xs) :
    (xs.flatMap fun x => (f x).map fun y => (key x, y)).countP
        (fun t => decide (t.1 = key x) && q t.2)
      = (f x).countP q := by
  induction xs with
  | nil => cases hx
  | cons y ys ih =>
      rw [List.map_cons, List.nodup_cons] at hnodup
      rw [List.flatMap_cons, List.countP_append, List.countP_map]
      rcases List.mem_cons.mp hx with rfl | hys
      · have hrest : (ys.flatMap fun x => (f x).map fun y => (key x, y)).countP
            (fun t => decide (t.1 = key x) && q t.2) = 0 := by
          rw [List.countP_eq_zero]
          intro t ht
          obtain ⟨z, hz, ht⟩ := List.mem_flatMap.mp ht
          obtain ⟨w, -, rfl⟩ := List.mem_map.mp ht
          have hne : key z ≠ key x := fun heq =>
            hnodup.1 (heq ▸ List.mem_map_of_mem hz)
          simp [hne]
        rw [hrest, Nat.add_zero]
        refine List.countP_congr fun w _ => ?_
        simp
      · have hne : key y ≠ key x := fun heq =>
          hnodup.1 (heq ▸ List.mem_map_of_mem hys)
        have hhead : (f y).countP
            ((fun t : κ × β => decide (t.1 = key x) && q t.2)
              ∘ fun w => (key y, w)) = 0 := by
          rw [List.countP_eq_zero]
          intro w _
          simp [hne]
        rw [hhead, Nat.zero_add, ih hnodup.2 hys]

/-- The places in one chunk. -/
theorem countP_placesFrom (part : Nat → List Nat) {layout : List Nat}
    {k L : Nat} (h : layout[k]? = some L) :
    (placesFrom part 0 layout).countP (fun place => decide (place.1 = k))
      = (part L).length := by
  have hmem : (L, k) ∈ layout.zipIdx := List.mem_zipIdx_iff_getElem?.mpr h
  have hnodup : (layout.zipIdx.map Prod.snd).Nodup := by
    rw [List.zipIdx_map_snd]
    exact List.nodup_range'
  have hcount := countP_tagged hnodup (fun c => part c.1) (fun _ => true) hmem
  rw [placesFrom]
  simpa using hcount

/-- A list, counted by keys. -/
theorem length_eq_sum_countP [DecidableEq κ] {keys : List κ}
    (hnodup : keys.Nodup) {xs : List α} {key : α → κ}
    (h : ∀ x ∈ xs, key x ∈ keys) :
    xs.length
      = (keys.map fun k => xs.countP fun x => decide (key x = k)).sum := by
  have hsub : ∀ k ∈ (xs.map key : Multiset κ), k ∈ keys.toFinset := by
    intro k hk
    obtain ⟨x, hx, rfl⟩ := List.mem_map.mp hk
    exact List.mem_toFinset.mpr (h x hx)
  have hcard := Multiset.sum_count_eq_card hsub
  rw [List.sum_toFinset _ hnodup] at hcard
  rw [← List.length_map key, ← Multiset.coe_card, ← hcard]
  refine congrArg List.sum (List.map_congr_left fun k _ => ?_)
  rw [Multiset.coe_count, List.count_eq_countP, List.countP_map]
  rfl

end Places

end PrimiHub.Lib
