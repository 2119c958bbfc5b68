/-
Workers that take turns on a stream.

A worker is the pair of what it has done and what it has left. `InTurn`
says that no worker has begun while one before it has something left; a
step of the first worker with something left keeps it and adds to the end
of what has been done (`InTurn.advance`).

Producers and consumers that both take turns, over a stream that keeps its
order, hand over by rank: what consumer i has is the beginning of what
producer i gives (`InTurn.next`, `InTurn.complete`), and a consumer does
not wait for ever (`InTurn.not_starved`).
-/
import Mathlib.Data.List.Basic
import Mathlib.Data.List.Flatten

namespace PrimiHub.Lib

variable {α β : Type*}

/-- A worker has begun only when those before it have nothing left. -/
def InTurn (ws : List (List α × List β)) : Prop :=
  ws.Pairwise fun v w => w.1 ≠ [] → v.2 = []

/-- A list around one of its entries. -/
theorem exists_around {γ : Type*} {l : List γ} {i : Nat} {x : γ}
    (h : l[i]? = some x) :
    ∃ back, l = l.take i ++ x :: back ∧ (l.take i).length = i
      ∧ ∀ y, l.set i y = l.take i ++ y :: back := by
  obtain ⟨hlt, heq⟩ := List.getElem?_eq_some_iff.mp h
  refine ⟨l.drop (i + 1), ?_, ?_, fun y => ?_⟩
  · rw [← heq, List.getElem_cons_drop, List.take_append_drop]
  · rw [List.length_take, Nat.min_eq_left (Nat.le_of_lt hlt)]
  · rw [List.set_eq_take_append_cons_drop, if_pos hlt]

theorem InTurn.append {ws : List (List α × List β)} (h : InTurn ws)
    (rest : List β) : InTurn (ws ++ [([], rest)]) := by
  refine List.pairwise_append.mpr ⟨h, List.pairwise_singleton _ _, ?_⟩
  intro v _ w hw hne
  rw [List.mem_singleton.mp hw] at hne
  exact absurd rfl hne

/-- Those behind a worker that has something left have not begun. -/
theorem InTurn.behind {front back : List (List α × List β)} {d : List α}
    {r : List β} (h : InTurn (front ++ (d, r) :: back)) (hr : r ≠ []) :
    ∀ w ∈ back, w.1 = [] := by
  intro w hw
  by_contra hne
  have hcons := (List.pairwise_append.mp h).2.1
  exact hr ((List.pairwise_cons.mp hcons).1 w hw hne)

theorem flatten_idle {ws : List (List α × List β)}
    (h : ∀ w ∈ ws, w.1 = []) : (ws.map Prod.fst).flatten = [] := by
  refine List.flatten_eq_nil_iff.mpr fun l hl => ?_
  obtain ⟨w, hw, rfl⟩ := List.mem_map.mp hl
  exact h w hw

/-- The first worker with something left takes a step. -/
theorem InTurn.advance {ws : List (List α × List β)} {i : Nat} {d : List α}
    {b : β} {r : List β} (h : InTurn ws) (hi : ws[i]? = some (d, b :: r))
    (hbefore : ∀ w ∈ ws.take i, w.2 = []) (a : α) :
    InTurn (ws.set i (d ++ [a], r))
      ∧ ((ws.set i (d ++ [a], r)).map Prod.fst).flatten
        = (ws.map Prod.fst).flatten ++ [a] := by
  obtain ⟨back, heq, -, hset⟩ := exists_around hi
  rw [heq] at h
  have hback := h.behind (List.cons_ne_nil b r)
  have hmap : (ws.map Prod.fst).flatten
      = ((ws.take i).map Prod.fst).flatten ++ d := by
    conv_lhs => rw [heq]
    rw [List.map_append, List.map_cons, List.flatten_append,
      List.flatten_cons, flatten_idle hback, List.append_nil]
  rw [hset]
  refine ⟨?_, ?_⟩
  · obtain ⟨hpair, hcons, -⟩ := List.pairwise_append.mp h
    refine List.pairwise_append.mpr ⟨hpair, List.pairwise_cons.mpr ⟨?_, ?_⟩,
      fun v hv _ _ _ => hbefore v hv⟩
    · intro w hw hne
      exact absurd (hback w hw) hne
    · exact (List.pairwise_cons.mp hcons).2
  · rw [hmap, List.map_append, List.map_cons, List.flatten_append,
      List.flatten_cons, flatten_idle hback, List.append_nil,
      List.append_assoc]

/-- What has been done is the beginning of all the work. -/
theorem InTurn.done_prefix {ws : List (List α × List α)} (h : InTurn ws) :
    ∃ rest, (ws.map fun w => w.1 ++ w.2).flatten
      = (ws.map Prod.fst).flatten ++ rest := by
  induction ws with
  | nil => exact ⟨[], rfl⟩
  | cons w ws ih =>
      obtain ⟨hw, hws⟩ := List.pairwise_cons.mp h
      by_cases hrest : w.2 = []
      · obtain ⟨rest, heq⟩ := ih hws
        refine ⟨rest, ?_⟩
        rw [List.map_cons, List.map_cons, List.flatten_cons,
          List.flatten_cons, heq, hrest, List.append_nil, List.append_assoc]
      · have hidle : ∀ v ∈ ws, v.1 = [] := by
          intro v hv
          by_contra hne
          exact hrest (hw v hv hne)
        refine ⟨w.2 ++ (ws.map fun w => w.1 ++ w.2).flatten, ?_⟩
        rw [List.map_cons, List.map_cons, List.flatten_cons,
          List.flatten_cons, flatten_idle hidle, List.append_nil,
          List.append_assoc]

-- =========================================================== cutting a stream

/-- A stream is cut at the lengths of its parts. -/
theorem flatten_cut {parts wholes : List (List α)} {tail : List α}
    (h : wholes.flatten = parts.flatten ++ tail)
    (hlength : ∀ (j : Nat) (p w : List α), parts[j]? = some p →
      wholes[j]? = some w → p.length = w.length) :
    (wholes.length < parts.length ∧ tail = [])
      ∨ tail = (wholes.drop parts.length).flatten := by
  induction parts generalizing wholes with
  | nil => exact Or.inr h.symm
  | cons p parts ih =>
      cases wholes with
      | nil =>
          have hnil := (List.append_eq_nil_iff.mp h.symm).2
          exact Or.inl ⟨Nat.succ_pos _, hnil⟩
      | cons w wholes =>
          rw [List.flatten_cons, List.flatten_cons, List.append_assoc] at h
          have hpw : p.length = w.length := hlength 0 p w rfl rfl
          obtain ⟨rfl, hrest⟩ := List.append_inj h hpw.symm
          have hlater : ∀ (j : Nat) (p w : List α), parts[j]? = some p →
              wholes[j]? = some w → p.length = w.length :=
            fun j p w hp hw => hlength (j + 1) p w hp hw
          obtain ⟨hless, htail⟩ | htail := ih hrest hlater
          · exact Or.inl ⟨Nat.succ_lt_succ hless, htail⟩
          · exact Or.inr htail

section Handover

variable {ps : List (List α × List α)} {cs : List (List α × List β)}
  {wire : List α} {i : Nat} {d : List α}

/-- Producers and consumers with as much to give as to take, rank by
rank. -/
def Matched (ps : List (List α × List α)) (cs : List (List α × List β)) :
    Prop :=
  ∀ (i : Nat) (p : List α × List α) (c : List α × List β),
    ps[i]? = some p → cs[i]? = some c →
      p.1.length + p.2.length = c.1.length + c.2.length

/-- What the stream has for consumer i and those behind it, with the rest
that is still to be given. -/
theorem stream_tail {rest : List α}
    (hall : (ps.map fun p => p.1 ++ p.2).flatten
      = (ps.map Prod.fst).flatten ++ rest)
    (hstream : (ps.map Prod.fst).flatten = (cs.map Prod.fst).flatten ++ wire)
    (hmatched : Matched ps cs) {front back : List (List α × List β)}
    {c : List α × List β} (hcs : cs = front ++ c :: back)
    (hfront : ∀ v ∈ front, v.2 = []) :
    (ps.length < front.length
        ∧ c.1 ++ (back.map Prod.fst).flatten ++ wire ++ rest = [])
      ∨ c.1 ++ (back.map Prod.fst).flatten ++ wire ++ rest
        = ((ps.drop front.length).map fun p => p.1 ++ p.2).flatten := by
  have hcut : (ps.map fun p => p.1 ++ p.2).flatten
      = (front.map Prod.fst).flatten
        ++ (c.1 ++ (back.map Prod.fst).flatten ++ wire ++ rest) := by
    rw [hall, hstream, hcs]
    simp only [List.map_append, List.map_cons, List.flatten_append,
      List.flatten_cons, List.append_assoc]
  have hlength : ∀ (j : Nat) (p w : List α),
      (front.map Prod.fst)[j]? = some p →
      (ps.map fun p => p.1 ++ p.2)[j]? = some w → p.length = w.length := by
    intro j p w hp hw
    rw [List.getElem?_map, Option.map_eq_some_iff] at hp hw
    obtain ⟨v, hv, rfl⟩ := hp
    obtain ⟨p, hp, rfl⟩ := hw
    have hlt := (List.getElem?_eq_some_iff.mp hv).1
    have hcsj : cs[j]? = some v := by
      rw [hcs, List.getElem?_append_left hlt, hv]
    have heq := hmatched j p v hp hcsj
    rw [hfront v (List.mem_of_getElem? hv), List.length_nil,
      Nat.add_zero] at heq
    rw [List.length_append, heq]
  have htail := flatten_cut hcut hlength
  rwa [List.length_map, List.length_map, ← List.map_drop] at htail

/-- Where the stream has something for consumer i, producer i gave it. -/
theorem exists_producer {tail : List α} (hne : tail ≠ [])
    (h : (ps.length < i ∧ tail = [])
      ∨ tail = ((ps.drop i).map fun p => p.1 ++ p.2).flatten) :
    ∃ p later, ps[i]? = some p ∧ tail = (p.1 ++ p.2) ++ later := by
  obtain ⟨-, hnil⟩ | htail := h
  · exact absurd hnil hne
  · cases hdrop : ps.drop i with
    | nil =>
        rw [hdrop] at htail
        exact absurd htail hne
    | cons p later =>
        have hp : ps[i]? = some p := by
          rw [← Nat.add_zero i, ← List.getElem?_drop, hdrop]
          rfl
        rw [hdrop, List.map_cons, List.flatten_cons] at htail
        exact ⟨p, _, hp, htail⟩

/-- What begins a stream and is no longer than what begins it too. -/
theorem prefix_of_append {x y u v : List α} (h : x ++ y = u ++ v)
    (hle : x.length ≤ u.length) : x <+: u :=
  List.prefix_of_prefix_length_le ⟨y, h⟩ (List.prefix_append u v) hle

/-- Consumer i has the beginning of what producer i gives. -/
theorem InTurn.begun {r : List β} (hps : InTurn ps) (hcs : InTurn cs)
    (hstream : (ps.map Prod.fst).flatten = (cs.map Prod.fst).flatten ++ wire)
    (hmatched : Matched ps cs) (hi : cs[i]? = some (d, r)) (hd : d ≠ []) :
    ∃ p, ps[i]? = some p ∧ d <+: p.1 ++ p.2 := by
  obtain ⟨back, heq, hlength, -⟩ := exists_around hi
  have hfront : ∀ v ∈ cs.take i, v.2 = [] := by
    intro v hv
    rw [heq] at hcs
    exact (List.pairwise_append.mp hcs).2.2 v hv (d, r)
      List.mem_cons_self hd
  obtain ⟨rest, hall⟩ := hps.done_prefix
  have htail := stream_tail hall hstream hmatched heq hfront
  rw [hlength] at htail
  have hne : d ++ (back.map Prod.fst).flatten ++ wire ++ rest ≠ [] := by
    intro hnil
    simp only [List.append_eq_nil_iff] at hnil
    exact hd hnil.1.1.1
  obtain ⟨p, later, hp, happend⟩ := exists_producer hne htail
  refine ⟨p, hp, ?_⟩
  have hle := hmatched i p (d, r) hp hi
  have hsplit : d ++ ((back.map Prod.fst).flatten ++ wire ++ rest)
      = (p.1 ++ p.2) ++ later := by
    rw [← happend]
    simp only [List.append_assoc]
  refine prefix_of_append hsplit ?_
  rw [List.length_append]
  exact Nat.le.intro hle.symm

/-- A consumer with nothing left has all that its producer gives. -/
theorem InTurn.complete (hps : InTurn ps) (hcs : InTurn cs)
    (hstream : (ps.map Prod.fst).flatten = (cs.map Prod.fst).flatten ++ wire)
    (hmatched : Matched ps cs) (hi : cs[i]? = some (d, [])) (hd : d ≠ []) :
    ∃ p, ps[i]? = some p ∧ d = p.1 ++ p.2 := by
  obtain ⟨p, hp, hprefix⟩ := hps.begun hcs hstream hmatched hi hd
  refine ⟨p, hp, hprefix.eq_of_length ?_⟩
  have heq := hmatched i p (d, []) hp hi
  rw [List.length_nil, Nat.add_zero] at heq
  rw [List.length_append, heq]

/-- The next entry of the stream is the next one of producer i, for the
consumer whose turn it is. -/
theorem InTurn.next {b : β} {r : List β} {m : α} {w : List α}
    (hps : InTurn ps) (hcs : InTurn cs)
    (hstream : (ps.map Prod.fst).flatten
      = (cs.map Prod.fst).flatten ++ m :: w)
    (hmatched : Matched ps cs) (hi : cs[i]? = some (d, b :: r))
    (hbefore : ∀ v ∈ cs.take i, v.2 = []) :
    ∃ p, ps[i]? = some p ∧ d ++ [m] <+: p.1 ++ p.2 := by
  obtain ⟨back, heq, hlength, -⟩ := exists_around hi
  have hback : (back.map Prod.fst).flatten = [] := by
    rw [heq] at hcs
    exact flatten_idle (hcs.behind (List.cons_ne_nil b r))
  obtain ⟨rest, hall⟩ := hps.done_prefix
  have htail := stream_tail hall hstream hmatched heq hbefore
  rw [hlength, hback, List.append_nil] at htail
  have hne : d ++ m :: w ++ rest ≠ [] := by
    intro hnil
    simp only [List.append_eq_nil_iff] at hnil
    exact absurd hnil.1.2 (List.cons_ne_nil m w)
  obtain ⟨p, later, hp, happend⟩ := exists_producer hne htail
  refine ⟨p, hp, ?_⟩
  have hle := hmatched i p (d, b :: r) hp hi
  have hsplit : (d ++ [m]) ++ (w ++ rest) = (p.1 ++ p.2) ++ later := by
    rw [← happend]
    simp
  refine prefix_of_append hsplit ?_
  rw [List.length_append, List.length_append, hle]
  dsimp only
  rw [List.length_cons, List.length_cons, List.length_nil]
  omega

/-- With all given and all taken, consumer i of a producer has nothing
left. -/
theorem InTurn.not_starved {b : β} {r : List β} (hcs : InTurn cs)
    (hstream : (ps.map Prod.fst).flatten = (cs.map Prod.fst).flatten)
    (hmatched : Matched ps cs) (hgiven : ∀ p ∈ ps, p.2 = [])
    (hi : cs[i]? = some (d, b :: r))
    (hbefore : ∀ v ∈ cs.take i, v.2 = []) :
    ps.length ≤ i := by
  by_contra hless
  rw [Nat.not_le] at hless
  obtain ⟨back, heq, hlength, -⟩ := exists_around hi
  have hback : (back.map Prod.fst).flatten = [] := by
    rw [heq] at hcs
    exact flatten_idle (hcs.behind (List.cons_ne_nil b r))
  have hfull : (ps.map fun p => p.1 ++ p.2) = ps.map Prod.fst := by
    refine List.map_congr_left fun p hp => ?_
    rw [hgiven p hp, List.append_nil]
  have hall : (ps.map fun p => p.1 ++ p.2).flatten
      = (ps.map Prod.fst).flatten ++ [] := by
    rw [hfull, List.append_nil]
  have hempty : (ps.map Prod.fst).flatten
      = (cs.map Prod.fst).flatten ++ [] := by
    rw [hstream, List.append_nil]
  have htail := stream_tail hall hempty hmatched heq hbefore
  rw [hlength, hback, List.append_nil, List.append_nil,
    List.append_nil] at htail
  obtain ⟨hlt, -⟩ | htail := htail
  · exact absurd hlt (Nat.not_lt.mpr (Nat.le_of_lt hless))
  · -- all of what producer i gives is in d, which is too short for it
    rw [List.drop_eq_getElem_cons hless, List.map_cons,
      List.flatten_cons] at htail
    have hshort := congrArg List.length htail
    have heq := hmatched i ps[i] (d, b :: r)
      (List.getElem?_eq_getElem hless) hi
    rw [List.length_append, List.length_append] at hshort
    dsimp only at heq hshort
    rw [List.length_cons] at heq
    omega

end Handover

end PrimiHub.Lib
