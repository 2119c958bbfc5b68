/-
Joining fields with a separator and splitting at it again, for fields and
separators over any alphabet.

`strSplit` is the usual loop over `find`: a field for every occurrence of
the separator, found left to right, and what is left over as the last
field unless nothing is left over. It undoes the joining exactly for the
rows `Separable` describes (`strSplit_intercalate_iff`):

- in front of a separator the first occurrence has to be that separator
  itself, so a field must not contain the separator, nor end in a piece
  that makes the separator start early;
- the last field must not contain the separator, and must not be empty.

The two other results are about joinings that went wrong: a row whose last
fields were left out never splits back into the whole row
(`strSplit_prefix`), and neither does a row of several fields put together
without a separator (`strSplit_flatten_ne`).
-/
import Mathlib.Algebra.GroupWithZero.Nat
import Mathlib.Data.List.Infix
import Mathlib.Tactic.SplitIfs

namespace PrimiHub.Lib

variable {α : Type*} [DecidableEq α]

/-- `std::string::find`: where `p` occurs first. -/
def findSub (p : List α) : List α → Option Nat
  | [] => if p = [] then some 0 else none
  | a :: rest =>
      if p <+: a :: rest then some 0 else (findSub p rest).map (· + 1)

/-- The splitting loop, for as many turns as `fuel` allows. -/
def splitLoop (p : List α) : Nat → List α → List (List α)
  | 0, _ => []
  | fuel + 1, s =>
      match findSub p s with
      | none => if s = [] then [] else [s]
      | some i => s.take i :: splitLoop p fuel (s.drop (i + p.length))

/-- `str_split`. Every turn but the last consumes a separator, so there
are at most as many as the text is long. -/
def strSplit (p s : List α) : List (List α) := splitLoop p (s.length + 1) s

/-- The rows that `strSplit p` takes apart again. -/
def Separable (p : List α) : List (List α) → Prop
  | [] => True
  | [f] => f ≠ [] ∧ ¬ p <:+: f
  | f :: rest => ¬ p <:+: f ++ p.dropLast ∧ Separable p rest

instance decidableSeparable (p : List α) :
    (fields : List (List α)) → Decidable (Separable p fields)
  | [] => inferInstanceAs (Decidable True)
  | [f] => inferInstanceAs (Decidable (f ≠ [] ∧ ¬ p <:+: f))
  | f :: g :: rest =>
      have := decidableSeparable p (g :: rest)
      inferInstanceAs (Decidable
        (¬ p <:+: f ++ p.dropLast ∧ Separable p (g :: rest)))

-- =============================================== the first occurrence

variable {p : List α}

theorem findSub_eq_none_iff (s : List α) :
    findSub p s = none ↔ ¬ p <:+: s := by
  induction s with
  | nil =>
      rw [findSub, List.infix_nil]
      split_ifs with h
      · simp [h]
      · simp [h]
  | cons a rest ih =>
      rw [findSub, List.infix_cons_iff]
      split_ifs with h
      · simp [h]
      · simp [h, ih]

/-- An occurrence has room for the separator. -/
theorem findSub_le {s : List α} {i : Nat} (h : findSub p s = some i) :
    i + p.length ≤ s.length := by
  induction s generalizing i with
  | nil =>
      rw [findSub] at h
      split_ifs at h with hp
      cases h
      simp [hp]
  | cons a rest ih =>
      rw [findSub] at h
      split_ifs at h with hp
      · cases h
        simpa using hp.length_le
      · obtain ⟨j, hj, rfl⟩ := Option.map_eq_some_iff.1 h
        have hle := ih hj
        rw [List.length_cons]
        omega

omit [DecidableEq α] in
/-- A prefix that fits in the front part is a prefix of it. -/
theorem prefix_append_iff_of_le {front : List α}
    (h : p.length ≤ front.length) (back : List α) :
    p <+: front ++ back ↔ p <+: front :=
  ⟨fun hp => List.prefix_of_prefix_length_le hp (List.prefix_append ..) h,
    fun hp => hp.trans (List.prefix_append ..)⟩

/-- A separator is found where it was put, unless it starts early. -/
theorem findSub_append_iff (hp : p ≠ []) (f rest : List α) :
    findSub p (f ++ p ++ rest) = some f.length
      ↔ ¬ p <:+: f ++ p.dropLast := by
  induction f with
  | nil =>
      have hfind : findSub p (p ++ rest) = some 0 := by
        obtain ⟨a, q, rfl⟩ := List.exists_cons_of_ne_nil hp
        rw [List.cons_append, findSub, if_pos]
        rw [← List.cons_append]
        exact List.prefix_append ..
      have hshort : ¬ p <:+: p.dropLast := by
        intro h
        have hlen := h.length_le
        have hpos := List.length_pos_of_ne_nil hp
        rw [List.length_dropLast] at hlen
        omega
      simp [hfind, hshort]
  | cons a f ih =>
      -- the two texts agree on everything an early start can see
      have htext : a :: (f ++ p ++ rest)
          = (a :: (f ++ p.dropLast)) ++ ([p.getLast hp] ++ rest) := by
        conv_lhs => rw [← List.dropLast_concat_getLast hp]
        simp [List.append_assoc]
      have hlen : p.length ≤ (a :: (f ++ p.dropLast)).length := by
        have hpos := List.length_pos_of_ne_nil hp
        simp only [List.length_cons, List.length_append, List.length_dropLast]
        omega
      have hstart : p <+: a :: (f ++ p ++ rest)
          ↔ p <+: a :: (f ++ p.dropLast) := by
        rw [htext]
        exact prefix_append_iff_of_le hlen _
      rw [List.cons_append, List.cons_append, findSub, List.cons_append,
        List.infix_cons_iff]
      split_ifs with h
      · simp [hstart.1 h]
      · have hnot : ¬ p <+: a :: (f ++ p.dropLast) := fun hpre =>
          h (hstart.2 hpre)
        simp [hnot, ← ih]

/-- The first occurrence is no later than any other. -/
theorem findSub_append_le (hp : p ≠ []) (f rest : List α) :
    ∃ i ≤ f.length, findSub p (f ++ p ++ rest) = some i := by
  induction f with
  | nil =>
      obtain ⟨a, q, rfl⟩ := List.exists_cons_of_ne_nil hp
      refine ⟨0, Nat.le_refl _, ?_⟩
      rw [List.nil_append, List.cons_append, findSub, if_pos]
      rw [← List.cons_append]
      exact List.prefix_append ..
  | cons a f ih =>
      obtain ⟨i, hi, hfind⟩ := ih
      rw [List.cons_append, List.cons_append, findSub]
      split_ifs with h
      · exact ⟨0, Nat.zero_le _, rfl⟩
      · exact ⟨i + 1, Nat.succ_le_succ hi, by rw [hfind, Option.map_some]⟩

-- =========================================================== the loop

/-- With a turn for every character, more turns change nothing. -/
theorem splitLoop_fuel (hp : p ≠ []) {n m : Nat} {s : List α}
    (hn : s.length < n) (hm : s.length < m) :
    splitLoop p n s = splitLoop p m s := by
  induction n generalizing m s with
  | zero => omega
  | succ n ih =>
      obtain ⟨m, rfl⟩ : ∃ k, m = k + 1 := ⟨m - 1, by omega⟩
      rw [splitLoop, splitLoop]
      cases hfind : findSub p s with
      | none => rfl
      | some i =>
          have hle := findSub_le hfind
          have hpos := List.length_pos_of_ne_nil hp
          have hshort : (s.drop (i + p.length)).length < n := by
            rw [List.length_drop]
            omega
          have hshort' : (s.drop (i + p.length)).length < m := by
            rw [List.length_drop]
            omega
          exact congrArg (s.take i :: ·) (ih hshort hshort')

/-- No occurrence: the text itself, if there is any. -/
theorem strSplit_of_none {s : List α} (h : findSub p s = none) :
    strSplit p s = if s = [] then [] else [s] := by
  rw [strSplit, splitLoop, h]

/-- An occurrence: the text in front of it, and what the rest gives. -/
theorem strSplit_of_some (hp : p ≠ []) {s : List α} {i : Nat}
    (h : findSub p s = some i) :
    strSplit p s = s.take i :: strSplit p (s.drop (i + p.length)) := by
  have hle := findSub_le h
  have hpos := List.length_pos_of_ne_nil hp
  rw [strSplit, splitLoop, h, strSplit]
  refine congrArg (s.take i :: ·) (splitLoop_fuel hp ?_ (Nat.lt_succ_self _))
  rw [List.length_drop]
  omega

/-- A field of nothing for each of several separators. -/
theorem strSplit_replicate (hp : p ≠ []) (n : Nat) :
    strSplit p (List.replicate n p).flatten = List.replicate n [] := by
  induction n with
  | zero =>
      have hnone : findSub p [] = none := by rw [findSub, if_neg hp]
      rw [List.replicate_zero, List.flatten_nil, strSplit_of_none hnone]
      rfl
  | succ n ih =>
      obtain ⟨i, hi, hfind⟩ := findSub_append_le hp []
        (List.replicate n p).flatten
      rw [List.length_nil, Nat.le_zero] at hi
      subst hi
      rw [List.nil_append] at hfind
      rw [List.replicate_succ, List.flatten_cons, strSplit_of_some hp hfind,
        Nat.zero_add, List.drop_left, ih, List.take_zero,
        List.replicate_succ]

/-- The parts are not longer than the text, and shorter by a separator as
soon as there are two. -/
theorem strSplit_length_sum (hp : p ≠ []) (s : List α) :
    ((strSplit p s).map List.length).sum ≤ s.length
      ∧ (2 ≤ (strSplit p s).length →
          ((strSplit p s).map List.length).sum + p.length ≤ s.length) := by
  induction hn : s.length using Nat.strong_induction_on generalizing s with
  | _ n ih =>
      subst hn
      cases hfind : findSub p s with
      | none =>
          rw [strSplit_of_none hfind]
          split_ifs with hs
          · simp
          · simp
      | some i =>
          have hle := findSub_le hfind
          have hpos := List.length_pos_of_ne_nil hp
          have hdrop : (s.drop (i + p.length)).length
              = s.length - (i + p.length) := List.length_drop
          have hrest := (ih _ (by omega) (s.drop (i + p.length)) rfl).1
          rw [strSplit_of_some hp hfind, List.map_cons, List.sum_cons,
            List.length_take]
          omega

-- ==================================================== joined and split

omit [DecidableEq α] in
/-- One more field at the end. -/
theorem intercalate_concat {fields : List (List α)} (hne : fields ≠ [])
    (f : List α) :
    p.intercalate (fields ++ [f]) = p.intercalate fields ++ p ++ f := by
  induction fields with
  | nil => exact absurd rfl hne
  | cons g rest ih =>
      cases rest with
      | nil => simp
      | cons h rest =>
          have hrest := ih (List.cons_ne_nil h rest)
          rw [List.cons_append] at hrest
          rw [List.cons_append, List.cons_append, List.intercalate_cons_cons,
            hrest, List.intercalate_cons_cons]
          simp [List.append_assoc]

/-- Splitting after a field gives that field when its separator is found
where it was put, and only then. -/
theorem strSplit_field_iff (hp : p ≠ []) (f rest : List α)
    (parts : List (List α)) :
    strSplit p (f ++ p ++ rest) = f :: parts
      ↔ ¬ p <:+: f ++ p.dropLast ∧ strSplit p rest = parts := by
  obtain ⟨i, hi, hfind⟩ := findSub_append_le hp f rest
  have hsplit := strSplit_of_some hp hfind
  rw [← findSub_append_iff hp f rest, hsplit, hfind, List.cons.injEq]
  constructor
  · intro h
    obtain ⟨htake, hparts⟩ := h
    have hlen := congrArg List.length htake
    rw [List.length_take, List.length_append, List.length_append] at hlen
    have hif : i = f.length := by omega
    subst hif
    refine ⟨rfl, ?_⟩
    rw [← hparts, ← List.length_append, List.drop_left]
  · intro h
    obtain ⟨hif, hparts⟩ := h
    obtain rfl := Option.some.inj hif
    rw [← hparts, ← List.length_append, List.drop_left, List.append_assoc,
      List.take_left]
    exact ⟨rfl, rfl⟩

/-- A text that splits into itself has no separator, and is not empty. -/
theorem strSplit_singleton_iff (hp : p ≠ []) (f : List α)
    (parts : List (List α)) :
    strSplit p f = f :: parts ↔ (f ≠ [] ∧ ¬ p <:+: f) ∧ parts = [] := by
  cases hfind : findSub p f with
  | none =>
      have hout := (findSub_eq_none_iff f).1 hfind
      rw [strSplit_of_none hfind]
      split_ifs with hf
      · simp [hf]
      · simp [hf, hout, eq_comm]
  | some i =>
      have hle := findSub_le hfind
      have hpos := List.length_pos_of_ne_nil hp
      have hin : p <:+: f := by
        by_contra hnot
        rw [(findSub_eq_none_iff f).2 hnot] at hfind
        cases hfind
      rw [strSplit_of_some hp hfind, List.cons.injEq]
      constructor
      · intro h
        obtain ⟨htake, -⟩ := h
        have hlen := congrArg List.length htake
        rw [List.length_take] at hlen
        omega
      · intro h
        obtain ⟨⟨-, hnot⟩, -⟩ := h
        exact absurd hin hnot

omit [DecidableEq α] in
/-- For a separator of one letter only, a field makes it start early by
ending in that letter. -/
theorem replicate_infix_append_iff (a : α) (n : Nat) (f : List α) :
    List.replicate (n + 1) a <:+: f ++ List.replicate n a
      ↔ List.replicate (n + 1) a <:+: f ∨ f.getLast? = some a := by
  constructor
  · -- take the letters after the field away one by one
    suffices h : ∀ j ≤ n,
        List.replicate (n + 1) a <:+: f ++ List.replicate j a →
          List.replicate (n + 1) a <:+: f ∨ f.getLast? = some a from
      h n (Nat.le_refl n)
    intro j hj hin
    induction j with
    | zero =>
        rw [List.replicate_zero, List.append_nil] at hin
        exact Or.inl hin
    | succ j ih =>
        have hsucc : f ++ List.replicate (j + 1) a
            = f ++ List.replicate j a ++ [a] := by
          rw [List.replicate_succ', List.append_assoc]
        rw [hsucc, List.infix_concat_iff] at hin
        rcases hin with hsuffix | hin
        · refine Or.inr ?_
          rcases List.eq_nil_or_concat f with rfl | ⟨g, b, rfl⟩
          · have hlen := hsuffix.length_le
            simp only [List.length_replicate, List.nil_append,
              List.length_append, List.length_singleton] at hlen
            omega
          · have hend : [b] ++ (List.replicate j a ++ [a])
                <:+ List.replicate (n + 1) a := by
              refine List.suffix_of_suffix_length_le ?_ hsuffix ?_
              · exact ⟨g, by simp⟩
              · simp only [List.length_append, List.length_singleton,
                  List.length_replicate]
                omega
            have hb : b ∈ List.replicate (n + 1) a :=
              hend.subset (by simp)
            rw [List.eq_of_mem_replicate hb]
            simp
        · exact ih (by omega) hin
  · intro hc
    obtain hin | hlast := hc
    · exact hin.trans (List.prefix_append ..).isInfix
    · obtain ⟨g, rfl⟩ := List.getLast?_eq_some_iff.1 hlast
      rw [List.append_assoc, List.singleton_append, ← List.replicate_succ]
      exact (List.suffix_append ..).isInfix

/-- Splitting undoes joining exactly for a separable row. -/
theorem strSplit_intercalate_iff (hp : p ≠ []) {fields : List (List α)}
    (hne : fields ≠ []) :
    strSplit p (p.intercalate fields) = fields ↔ Separable p fields := by
  induction fields with
  | nil => exact absurd rfl hne
  | cons f rest ih =>
      cases rest with
      | nil => simp [List.intercalate, Separable, strSplit_singleton_iff hp]
      | cons g rest =>
          rw [List.intercalate_cons_cons, strSplit_field_iff hp,
            ih (List.cons_ne_nil g rest)]
          exact Iff.rfl

/-- Fields left out at the end do not come back. -/
theorem strSplit_prefix (hp : p ≠ []) {fields more : List (List α)}
    (hne : fields ≠ [])
    (h : strSplit p (p.intercalate fields) = fields ++ more) :
    more = [] := by
  induction fields with
  | nil => exact absurd rfl hne
  | cons f rest ih =>
      cases rest with
      | nil =>
          rw [List.intercalate_singleton, List.singleton_append,
            strSplit_singleton_iff hp] at h
          exact h.2
      | cons g rest =>
          rw [List.intercalate_cons_cons, List.cons_append,
            strSplit_field_iff hp] at h
          exact ih (List.cons_ne_nil g rest) h.2

/-- Two fields and more put together without a separator do not come
apart. -/
theorem strSplit_flatten_ne (hp : p ≠ []) {fields : List (List α)}
    (htwo : 2 ≤ fields.length) : strSplit p fields.flatten ≠ fields := by
  intro h
  have hsum := (strSplit_length_sum hp fields.flatten).2 (by rwa [h])
  have hpos := List.length_pos_of_ne_nil hp
  rw [h, List.length_flatten] at hsum
  omega

end PrimiHub.Lib
