/-
`List.mapM` in `Except`: a loop over a list that ends at the first failure.
It succeeds exactly where it does for each element (`mapM_eq_ok_iff`).
`traverseFin` is the loop over the members of a finite family. For a loop
with an accumulator, `foldlM_invariant` is the induction over the elements
it has passed, and `foldlM_total` the same where no step fails.
-/
import Mathlib.Data.Fin.VecNotation
import Mathlib.Data.List.Forall2

namespace PrimiHub.Lib

universe u

variable {α β ε : Type*}

/-- What a successful loop returns, element by element. -/
theorem mapM_eq_ok_iff {f : α → Except ε β} {xs : List α} {ys : List β} :
    xs.mapM f = .ok ys ↔ List.Forall₂ (fun x y => f x = .ok y) xs ys := by
  induction xs generalizing ys with
  | nil =>
      rw [List.mapM_nil, List.forall₂_nil_left_iff]
      constructor
      · intro h
        cases h
        rfl
      · intro h
        rw [h]
        rfl
  | cons x xs ih =>
      rw [List.mapM_cons, List.forall₂_cons_left_iff]
      constructor
      · intro h
        cases hx : f x with
        | error e =>
            rw [hx] at h
            cases h
        | ok y =>
            rw [hx] at h
            cases hxs : xs.mapM f with
            | error e =>
                rw [hxs] at h
                cases h
            | ok rest =>
                rw [hxs] at h
                cases h
                exact ⟨y, rest, rfl, ih.mp hxs, rfl⟩
      · intro h
        obtain ⟨y, rest, hy, hrest, rfl⟩ := h
        rw [hy, ih.mpr hrest]
        rfl

/-- Where no element fails the loop is a map. -/
theorem mapM_ok {f : α → Except ε β} {g : α → β} {xs : List α}
    (h : ∀ x ∈ xs, f x = .ok (g x)) : xs.mapM f = .ok (xs.map g) := by
  rw [mapM_eq_ok_iff, List.forall₂_map_right_iff, List.forall₂_same]
  exact h

/-- In a successful loop no element fails. -/
theorem ok_of_mapM_ok {f : α → Except ε β} {xs : List α} {ys : List β}
    (h : xs.mapM f = .ok ys) {x : α} (hx : x ∈ xs) : ∃ y, f x = .ok y := by
  rw [mapM_eq_ok_iff] at h
  induction h with
  | nil => cases hx
  | @cons x' y xs ys hy _ ih =>
      obtain hhead | htail := List.mem_cons.mp hx
      · rw [hhead]
        exact ⟨y, hy⟩
      · exact ih htail

/-- A loop in which each element passes a check and is mapped. -/
theorem mapM_eq_ok_iff_of_check {f : α → Except ε β} {g : α → β}
    {p : α → Prop} {xs : List α}
    (h : ∀ x ∈ xs, ∀ y, f x = .ok y ↔ p x ∧ y = g x) {ys : List β} :
    xs.mapM f = .ok ys ↔ (∀ x ∈ xs, p x) ∧ ys = xs.map g := by
  constructor
  · intro hok
    have hcheck : ∀ x ∈ xs, p x := by
      intro x hx
      obtain ⟨y, hy⟩ := ok_of_mapM_ok hok hx
      exact ((h x hx y).mp hy).1
    refine ⟨hcheck, ?_⟩
    have hmap := mapM_ok fun x hx => (h x hx (g x)).mpr ⟨hcheck x hx, rfl⟩
    rw [hok] at hmap
    exact Except.ok.inj hmap
  · intro hcheck
    obtain ⟨hcheck, rfl⟩ := hcheck
    exact mapM_ok fun x hx => (h x hx (g x)).mpr ⟨hcheck x hx, rfl⟩

/-- The same in `Option`. -/
theorem mapM_some {α β : Type} {f : α → Option β} {g : α → β}
    {xs : List α} (h : ∀ x ∈ xs, f x = some (g x)) :
    xs.mapM f = some (xs.map g) := by
  induction xs with
  | nil => rfl
  | cons x xs ih =>
      rw [List.mapM_cons, h x List.mem_cons_self,
        ih fun y hy => h y (List.mem_cons_of_mem _ hy)]
      rfl

/-- The loop only depends on what it does for its elements. -/
theorem mapM_congr {f g : α → Except ε β} {xs : List α}
    (h : ∀ x ∈ xs, f x = g x) : xs.mapM f = xs.mapM g := by
  induction xs with
  | nil => rfl
  | cons x xs ih =>
      rw [List.mapM_cons, List.mapM_cons, h x List.mem_cons_self,
        ih fun y hy => h y (List.mem_cons_of_mem x hy)]

/-- A loop over a family, in the order of its indices. -/
def traverseFin : {n : Nat} → (Fin n → Except ε α) → Except ε (Fin n → α)
  | 0, _ => .ok Fin.elim0
  | _ + 1, f => do
      let head ← Matrix.vecHead f
      let tail ← traverseFin fun i => f i.succ
      pure (Fin.cons head tail)

theorem traverseFin_ok {n : Nat} {f : Fin n → Except ε α} {g : Fin n → α}
    (h : ∀ i, f i = .ok (g i)) : traverseFin f = .ok g := by
  induction n with
  | zero => exact congrArg Except.ok (funext fun i => i.elim0)
  | succ n ih =>
      have hhead : Matrix.vecHead f = .ok (g 0) := h 0
      rw [traverseFin, hhead, ih fun i => h i.succ]
      exact congrArg Except.ok (Fin.cons_self_tail g)

/-- The loop fails where it does for one member. -/
theorem traverseFin_error {n : Nat} {f : Fin n → Except ε α} {i : Fin n}
    {e : ε} (h : f i = .error e) : ∃ e', traverseFin f = .error e' := by
  induction n with
  | zero => exact i.elim0
  | succ n ih =>
      rw [traverseFin]
      cases hhead : Matrix.vecHead f with
      | error e' => exact ⟨e', rfl⟩
      | ok head =>
          have hne : i ≠ 0 := by
            intro heq
            rw [heq] at h
            cases h.symm.trans hhead
          obtain ⟨k, rfl⟩ := Fin.exists_succ_eq_of_ne_zero hne
          obtain ⟨e', he'⟩ := ih (f := fun i => f i.succ) h
          rw [he']
          exact ⟨e', rfl⟩

/-- A successful sequence of two computations. -/
theorem bind_eq_ok_iff {σ τ : Type u} {x : Except ε σ} {f : σ → Except ε τ}
    {b : τ} :
    (x >>= f) = .ok b ↔ ∃ a, x = .ok a ∧ f a = .ok b := by
  cases x with
  | error e =>
      constructor
      · intro h
        cases h
      · rintro ⟨a, h, -⟩
        cases h
  | ok a =>
      refine ⟨fun h => ⟨a, rfl, h⟩, ?_⟩
      rintro ⟨_, h, hf⟩
      cases h
      exact hf

/-- What holds of no elements and the first accumulator, and is carried on
by every element, holds of all elements and the result. -/
theorem foldlM_invariant {f : β → α → Except ε β} {I : List α → β → Prop}
    {xs : List α} {s t : β}
    (hstep : ∀ done x rest s s', xs = done ++ x :: rest → I done s →
      f s x = .ok s' → I (done ++ [x]) s')
    (hs : I [] s) (h : xs.foldlM f s = .ok t) : I xs t := by
  have hrest : ∀ rest done s, xs = done ++ rest → I done s →
      rest.foldlM f s = .ok t → I xs t := by
    intro rest
    induction rest with
    | nil =>
        intro done s hxs hdone h
        rw [List.foldlM_nil] at h
        cases h
        rwa [hxs, List.append_nil]
    | cons x rest ih =>
        intro done s hxs hdone h
        rw [List.foldlM_cons] at h
        obtain ⟨s', hx, hrest⟩ := bind_eq_ok_iff.mp h
        refine ih (done ++ [x]) s' ?_ (hstep done x rest s s' hxs hdone hx)
          hrest
        rw [hxs, List.append_assoc]
        rfl
  exact hrest xs [] s rfl hs h

/-- A loop in which no step fails, by what is carried on. -/
theorem foldlM_total {f : β → α → Except ε β} {I : List α → β → Prop}
    (xs : List α) (s : β)
    (hstep : ∀ done x rest s, xs = done ++ x :: rest → I done s →
      ∃ s', f s x = .ok s' ∧ I (done ++ [x]) s')
    (hs : I [] s) : ∃ t, xs.foldlM f s = .ok t ∧ I xs t := by
  have hrest : ∀ rest done s, xs = done ++ rest → I done s →
      ∃ t, rest.foldlM f s = .ok t ∧ I xs t := by
    intro rest
    induction rest with
    | nil =>
        intro done s hxs hdone
        rw [List.append_nil] at hxs
        exact ⟨s, rfl, hxs ▸ hdone⟩
    | cons x rest ih =>
        intro done s hxs hdone
        obtain ⟨s', hx, hnext⟩ := hstep done x rest s hxs hdone
        obtain ⟨t, ht, hI⟩ := ih (done ++ [x]) s'
          (by rw [hxs, List.append_assoc]; rfl) hnext
        refine ⟨t, ?_, hI⟩
        rw [List.foldlM_cons, hx]
        exact ht
  exact hrest xs [] s rfl hs

/-- A counted loop in which no turn fails. -/
theorem foldlM_range_total {f : β → Nat → Except ε β} {I : Nat → β → Prop}
    {n : Nat} {s : β}
    (hstep : ∀ i s, i < n → I i s → ∃ s', f s i = .ok s' ∧ I (i + 1) s')
    (hs : I 0 s) : ∃ t, (List.range n).foldlM f s = .ok t ∧ I n t := by
  induction n with
  | zero => exact ⟨s, rfl, hs⟩
  | succ n ih =>
      obtain ⟨t, ht, hI⟩ := ih fun i s hi => hstep i s (Nat.lt_succ_of_lt hi)
      obtain ⟨t', ht', hI'⟩ := hstep n t (Nat.lt_succ_self n) hI
      refine ⟨t', ?_, hI'⟩
      rw [List.range_succ, List.foldlM_append, ht]
      show (f t n >>= pure) = _
      rw [ht']
      rfl

/-- A loop in a loop goes over the pairs. -/
theorem foldlM_nested {γ : Type*} (f : β → γ → α → Except ε β)
    (g : γ → List α) (xs : List γ) (s : β) :
    xs.foldlM (fun s x => (g x).foldlM (fun s y => f s x y) s) s
      = (xs.flatMap fun x => (g x).map fun y => (x, y)).foldlM
          (fun s p => f s p.1 p.2) s := by
  induction xs generalizing s with
  | nil => rfl
  | cons x xs ih =>
      rw [List.foldlM_cons, List.flatMap_cons, List.foldlM_append,
        List.foldlM_map]
      exact congrArg _ (funext ih)

end PrimiHub.Lib
