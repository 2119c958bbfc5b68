/-
What the merge of two ROC tables is.

The rates are right. `Tracks` says what a cursor stands for while the
merged thresholds go down to `bound`: a score of its client is still ahead
or has been passed, so the rates seen last are those of every threshold
that is above all the ones ahead. A turn at the threshold `t` keeps this
and leaves both sides with their rates at `t` (`Tracks.advanceIf`), and the
weighted average of these is the rate of the examples put together
(`npAverage_rateAt`).

The thresholds are not. Every entry of either table appends its threshold
(`mergeLoop_spec`), so one that both tables have comes twice, with one pair
of rates. Both tables have infinity, so this happens in every merge.
-/
import Mathlib.Algebra.Order.Field.Rat
import Mathlib.Data.List.Dedup
import Mathlib.Order.WithBot
import Mathlib.Tactic.FieldSimp
import PrimiHub.FL.RocMerge
import PrimiHub.Lib.Traverse

namespace PrimiHub.FL

open scoped List

variable {T : Type} [LinearOrder T]

-- ============================================================== the average

/-- Weighted by the numbers of examples, the rates average to the rate of
all examples. -/
theorem npAverage_rateAt {examples1 examples2 : List (ScoredExample T)}
    {kind : Bool} (h1 : 0 < numExamples examples1 kind)
    (h2 : 0 < numExamples examples2 kind) (t : T) :
    npAverage (rateAt examples1 kind t, rateAt examples2 kind t)
        (numExamples examples1 kind, numExamples examples2 kind)
      = .ok (rateAt (examples1 ++ examples2) kind t) := by
  have hsum : numExamples (examples1 ++ examples2) kind
      = numExamples examples1 kind + numExamples examples2 kind :=
    List.countP_append
  have hne1 : (numExamples examples1 kind : ℚ) ≠ 0 :=
    Nat.cast_ne_zero.2 h1.ne'
  have hne2 : (numExamples examples2 kind : ℚ) ≠ 0 :=
    Nat.cast_ne_zero.2 h2.ne'
  rw [npAverage, if_neg (by omega)]
  refine congrArg Except.ok ?_
  simp only [rateAt, hsum, List.countP_append, Nat.cast_add,
    div_mul_cancel₀ _ hne1, div_mul_cancel₀ _ hne2]

-- ============================================================== one side

/-- What a cursor stands for while the merged thresholds go down to
`bound`. -/
structure Tracks (examples : List (ScoredExample T)) (bound : T)
    (c : RocCursor T) : Prop extends CurveOf examples c.toRocTable where
  scores : ∀ e ∈ examples, e.score ∈ c.thresholds ∨ bound ≤ e.score
  prev : ∀ t ≤ bound, (∀ s ∈ c.thresholds, s < t) →
    c.fprPrev = rateAt examples false t ∧ c.tprPrev = rateAt examples true t

/-- Between two thresholds nothing is scored, and the rates are the same. -/
theorem rateAt_eq {examples : List (ScoredExample T)} {s t : T} (hle : t ≤ s)
    (hscores : ∀ e ∈ examples, t ≤ e.score → s ≤ e.score) (kind : Bool) :
    rateAt examples kind t = rateAt examples kind s := by
  unfold rateAt
  congr 2
  refine List.countP_congr fun e he => ?_
  simp only [decide_eq_true_eq]
  exact and_congr_right fun _ => ⟨hscores e he, hle.trans⟩

/-- A descending list that stays at `t` or below and does not begin with it
is below. -/
theorem lt_of_head?_ne {l : List T} {t : T} (hdesc : l.Pairwise (· > ·))
    (habove : ∀ s ∈ l, s ≤ t) (hhead : l.head? ≠ some t) :
    ∀ s ∈ l, s < t := by
  cases l with
  | nil => exact fun _ hs => (List.not_mem_nil hs).elim
  | cons a rest =>
      have ha : a < t := lt_of_le_of_ne (habove a List.mem_cons_self)
        fun h => hhead (congrArg some h)
      intro s hs
      rcases List.mem_cons.1 hs with rfl | hs
      · exact ha
      · exact (List.rel_of_pairwise_cons hdesc hs).trans ha

/-- The next entry of a cursor that begins with `t`. -/
theorem RocCursor.advance_eq {examples : List (ScoredExample T)} {t : T}
    {rest : List T} {c : RocCursor T} (h : CurveOf examples c.toRocTable)
    (hc : c.thresholds = t :: rest) :
    c.advance = .ok ([t],
      { fpr := rest.map (rateAt examples false)
        tpr := rest.map (rateAt examples true)
        thresholds := rest
        fprPrev := rateAt examples false t
        tprPrev := rateAt examples true t }) := by
  simp only [RocCursor.advance, h.fpr, h.tpr, hc, List.map_cons]
  rfl

/-- A turn at `t`, seen from one side. -/
theorem Tracks.advanceIf {examples : List (ScoredExample T)} {bound t : T}
    {c : RocCursor T} (h : Tracks examples bound c) (hbound : t ≤ bound)
    (habove : ∀ s ∈ c.thresholds, s ≤ t) {turn : Bool}
    (hturn : turn = true ↔ c.thresholds.head? = some t) :
    ∃ c', c.advanceIf turn = .ok (if turn then [t] else [], c')
      ∧ Tracks examples t c'
      ∧ c.thresholds = (if turn then [t] else []) ++ c'.thresholds
      ∧ (∀ s ∈ c'.thresholds, s < t)
      ∧ c'.fprPrev = rateAt examples false t
      ∧ c'.tprPrev = rateAt examples true t := by
  cases turn with
  | false =>
      have hbelow := lt_of_head?_ne h.descending habove fun hhead =>
        Bool.false_ne_true (hturn.2 hhead)
      refine ⟨c, rfl, ?_, rfl, hbelow, h.prev t hbound hbelow⟩
      exact ⟨h.toCurveOf, fun e he => (h.scores e he).imp_right hbound.trans,
        fun t' ht' => h.prev t' (ht'.trans hbound)⟩
  | true =>
      obtain ⟨rest, hc⟩ := List.head?_eq_some_iff.1 (hturn.1 rfl)
      have hdesc := h.descending
      rw [hc] at hdesc
      have hbelow : ∀ s ∈ rest, s < t := fun s hs =>
        List.rel_of_pairwise_cons hdesc hs
      refine ⟨_, RocCursor.advance_eq h.toCurveOf hc, ⟨⟨hdesc.of_cons, rfl,
        rfl⟩, ?_, ?_⟩, hc, hbelow, rfl, rfl⟩
      · intro e he
        rcases h.scores e he with hahead | hpassed
        · rw [hc] at hahead
          exact (List.mem_cons.1 hahead).symm.imp_right fun h => h.ge
        · exact Or.inr (hbound.trans hpassed)
      · -- what scores at `t'` is not ahead, so it has been passed
        intro t' ht' hahead
        have hscores : ∀ e ∈ examples, t' ≤ e.score → t ≤ e.score := by
          intro e he hle
          rcases h.scores e he with hmem | hpassed
          · rw [hc] at hmem
            rcases List.mem_cons.1 hmem with heq | hmem
            · exact heq.ge
            · exact absurd (hahead _ hmem) (not_lt.2 hle)
          · exact hbound.trans hpassed
        exact ⟨(rateAt_eq ht' hscores false).symm,
          (rateAt_eq ht' hscores true).symm⟩

-- =============================================================== both sides

theorem sidesToMove_eq_none_iff (l1 l2 : List T) :
    sidesToMove l1 l2 = none ↔ l1 = [] ∧ l2 = [] := by
  cases l1 with
  | nil => cases l2 <;> simp [sidesToMove]
  | cons a l1 => cases l2 <;> simp [sidesToMove]

/-- The sides that move are those that begin with the greatest threshold
ahead. -/
theorem sidesToMove_spec {l1 l2 : List T} (h1 : l1.Pairwise (· > ·))
    (h2 : l2.Pairwise (· > ·)) {first second : Bool}
    (h : sidesToMove l1 l2 = some (first, second)) :
    ∃ t, (t ∈ l1 ∨ t ∈ l2) ∧ (∀ s ∈ l1, s ≤ t) ∧ (∀ s ∈ l2, s ≤ t)
      ∧ (first = true ↔ l1.head? = some t)
      ∧ (second = true ↔ l2.head? = some t) := by
  have hhead : ∀ {a : T} {l : List T}, (a :: l).Pairwise (· > ·) →
      ∀ s ∈ a :: l, s ≤ a := by
    intro a l hl s hs
    rcases List.mem_cons.1 hs with rfl | hs
    · exact le_rfl
    · exact (List.rel_of_pairwise_cons hl hs).le
  cases l1 with
  | nil =>
      cases l2 with
      | nil => cases h
      | cons b l2 =>
          cases h
          exact ⟨b, Or.inr List.mem_cons_self, by simp, hhead h2, by simp,
            by simp⟩
  | cons a l1 =>
      cases l2 with
      | nil =>
          cases h
          exact ⟨a, Or.inl List.mem_cons_self, hhead h1, by simp, by simp,
            by simp⟩
      | cons b l2 =>
          cases h
          refine ⟨max a b, ?_, fun s hs => (hhead h1 s hs).trans
            (le_max_left ..), fun s hs => (hhead h2 s hs).trans
            (le_max_right ..), ?_, ?_⟩
          · rcases max_choice a b with hmax | hmax
            · exact Or.inl (List.mem_cons.2 (Or.inl hmax))
            · exact Or.inr (List.mem_cons.2 (Or.inl hmax))
          · rw [decide_eq_true_iff, List.head?_cons, Option.some_inj]
            exact ⟨fun hle => le_antisymm (le_max_left ..) hle, Eq.ge⟩
          · rw [decide_eq_true_iff, List.head?_cons, Option.some_inj]
            exact ⟨fun hle => le_antisymm (le_max_right ..) hle, Eq.ge⟩

/-- A threshold that one or both sides append is one threshold. -/
theorem dedup_appended {t : T} {first second : Bool} {others : List T}
    (hmove : first = true ∨ second = true) (hbelow : ∀ s ∈ others, s < t) :
    ((if first then [t] else []) ++ (if second then [t] else [])
        ++ others).dedup = t :: others.dedup := by
  have hnot : t ∉ others := fun ht => lt_irrefl t (hbelow t ht)
  have hone : (t :: others).dedup = t :: others.dedup :=
    List.dedup_cons_of_notMem hnot
  cases first with
  | false =>
      rcases hmove with h | rfl
      · cases h
      · exact hone
  | true =>
      cases second with
      | false => exact hone
      | true => exact (List.dedup_cons_of_mem List.mem_cons_self).trans hone

/-- The rates of both clients' examples at the distinct thresholds of a
table. -/
abbrev RatesOf (examples : List (ScoredExample T)) (merged : RocTable T) :
    Prop :=
  CurveOf examples { merged with thresholds := merged.thresholds.dedup }

/-- The loop puts the thresholds of both sides in order, each as often as it
came, and gives the rates of all examples once for each. -/
theorem mergeLoop_spec {examples1 examples2 : List (ScoredExample T)}
    (hneg1 : 0 < numExamples examples1 false)
    (hneg2 : 0 < numExamples examples2 false)
    (hpos1 : 0 < numExamples examples1 true)
    (hpos2 : 0 < numExamples examples2 true) :
    ∀ {n : Nat} {bound : T} {c1 c2 : RocCursor T},
      c1.thresholds.length + c2.thresholds.length ≤ n →
      Tracks examples1 bound c1 → Tracks examples2 bound c2 →
      (∀ s ∈ c1.thresholds, s ≤ bound) → (∀ s ∈ c2.thresholds, s ≤ bound) →
      ∃ merged, mergeLoop (numExamples examples1 true,
            numExamples examples2 true)
          (numExamples examples1 false, numExamples examples2 false) n c1 c2
          = .ok merged
        ∧ merged.thresholds.Perm (c1.thresholds ++ c2.thresholds)
        ∧ RatesOf (examples1 ++ examples2) merged
  | 0, _, c1, c2, hlen, _, _, _, _ => by
      have hc1 : c1.thresholds = [] := List.eq_nil_of_length_eq_zero (by omega)
      have hc2 : c2.thresholds = [] := List.eq_nil_of_length_eq_zero (by omega)
      rw [hc1, hc2]
      exact ⟨_, rfl, .refl _, ⟨.nil, rfl, rfl⟩⟩
  | n + 1, bound, c1, c2, hlen, h1, h2, hb1, hb2 => by
      rw [mergeLoop]
      cases hsides : sidesToMove c1.thresholds c2.thresholds with
      | none =>
          obtain ⟨hc1, hc2⟩ := (sidesToMove_eq_none_iff _ _).1 hsides
          rw [hc1, hc2]
          exact ⟨_, rfl, .refl _, ⟨.nil, rfl, rfl⟩⟩
      | some sides =>
          obtain ⟨first, second⟩ := sides
          obtain ⟨t, hmem, ha1, ha2, hfirst, hsecond⟩ :=
            sidesToMove_spec h1.descending h2.descending hsides
          -- the head that moves is the largest of both sides
          have hbound : t ≤ bound := hmem.elim (hb1 t) (hb2 t)
          obtain ⟨c1', hrun1, h1', hsplit1, hbelow1, hfpr1, htpr1⟩ :=
            h1.advanceIf hbound ha1 hfirst
          obtain ⟨c2', hrun2, h2', hsplit2, hbelow2, hfpr2, htpr2⟩ :=
            h2.advanceIf hbound ha2 hsecond
          have hmove : first = true ∨ second = true := by
            by_contra hnone
            obtain ⟨hnot1, hnot2⟩ := not_or.1 hnone
            rw [if_neg hnot1, List.nil_append] at hsplit1
            rw [if_neg hnot2, List.nil_append] at hsplit2
            rw [hsplit1, hsplit2] at hmem
            exact lt_irrefl t (hmem.elim (hbelow1 t) (hbelow2 t))
          -- one threshold at least is taken, so the fuel is enough
          have hshort : c1'.thresholds.length + c2'.thresholds.length ≤ n := by
            rw [hsplit1, hsplit2, List.length_append, List.length_append]
              at hlen
            rcases hmove with rfl | rfl
            · rw [if_pos rfl, List.length_singleton] at hlen
              omega
            · rw [if_pos rfl, List.length_singleton] at hlen
              omega
          obtain ⟨others, hrun, hperm, hrates⟩ := mergeLoop_spec hneg1 hneg2
            hpos1 hpos2 hshort h1' h2' (fun s hs => (hbelow1 s hs).le)
            fun s hs => (hbelow2 s hs).le
          have hbelow : ∀ s ∈ others.thresholds, s < t := fun s hs =>
            (List.mem_append.1 (hperm.mem_iff.1 hs)).elim (hbelow1 s)
              (hbelow2 s)
          refine ⟨{ fpr := rateAt (examples1 ++ examples2) false t :: others.fpr
                    tpr := rateAt (examples1 ++ examples2) true t :: others.tpr
                    thresholds := (if first then [t] else [])
                      ++ (if second then [t] else []) ++ others.thresholds },
            ?_, ?_, ?_⟩
          · simp only [hrun1, hrun2, hrun, hfpr1, hfpr2, htpr1, htpr2,
              npAverage_rateAt hneg1 hneg2, npAverage_rateAt hpos1 hpos2,
              bind, Except.bind]
          · calc (if first then [t] else []) ++ (if second then [t] else [])
                  ++ others.thresholds
                _ ~ (if first then [t] else []) ++ (if second then [t] else [])
                    ++ (c1'.thresholds ++ c2'.thresholds) :=
                  hperm.append_left _
                _ ~ c1.thresholds ++ c2.thresholds := by
                  rw [hsplit1, hsplit2, List.append_assoc, List.append_assoc]
                  refine List.Perm.append_left _ ?_
                  rw [← List.append_assoc, ← List.append_assoc]
                  exact List.perm_append_comm.append_right _
          -- equal heads leave the threshold twice and their rates once
          · have hdedup := dedup_appended hmove hbelow
            refine ⟨?_, ?_, ?_⟩
            · dsimp only
              rw [hdedup]
              exact List.pairwise_cons.2 ⟨fun s hs =>
                hbelow s (List.mem_dedup.1 hs), hrates.descending⟩
            · dsimp only
              rw [hdedup, List.map_cons, hrates.fpr]
            · dsimp only
              rw [hdedup, List.map_cons, hrates.tpr]

-- ============================================================ two clients

section Clients

variable [OrderTop T]

theorem ExactTable.top_mem {examples : List (ScoredExample T)}
    {c : RocTable T} (h : ExactTable examples c) : ⊤ ∈ c.thresholds :=
  List.mem_of_mem_head? h.infinity

/-- At the start nothing has been passed, and infinity is ahead. -/
theorem ExactTable.tracks {examples : List (ScoredExample T)}
    {c : RocTable T} (h : ExactTable examples c) :
    Tracks examples ⊤ { c with } where
  toCurveOf := h.toCurveOf
  scores e he := Or.inl (h.scores e he)
  prev _ _ hahead := absurd (hahead ⊤ h.top_mem) not_top_lt

/-- The merge of two clients' tables has the rates of all their examples at
its distinct thresholds, and the thresholds of both tables. -/
theorem mergeClients_spec (client1 client2 : RocClient T) :
    ∃ merged, mergeClients client1 client2 = .ok merged
      ∧ merged.thresholds.Perm
        (client1.table.thresholds ++ client2.table.thresholds)
      ∧ RatesOf (client1.examples ++ client2.examples) merged :=
  mergeLoop_spec client1.some_negative client2.some_negative
    client1.some_positive client2.some_positive le_rfl client1.exact.tracks
    client2.exact.tracks (fun _ _ => le_top) fun _ _ => le_top

/-- Infinity is among the merged thresholds twice. -/
theorem merged_thresholds_not_nodup {client1 client2 : RocClient T}
    {merged : RocTable T} (hperm : merged.thresholds.Perm
      (client1.table.thresholds ++ client2.table.thresholds)) :
    ¬ merged.thresholds.Nodup := by
  intro hnodup
  have hdisjoint := (List.nodup_append'.1 (hperm.nodup_iff.1 hnodup)).2.2
  exact hdisjoint client1.exact.top_mem client2.exact.top_mem

/-- No merge is the curve of all examples. -/
theorem not_mergesPooled (client1 client2 : RocClient T) :
    ¬ MergesPooled client1 client2 := by
  rintro ⟨merged, hmerged, hcurve⟩
  obtain ⟨merged', hmerged', hperm, -⟩ := mergeClients_spec client1 client2
  rw [hmerged] at hmerged'
  cases hmerged'
  exact merged_thresholds_not_nodup hperm
    (hcurve.descending.imp fun h => h.ne')

end Clients

-- ============================================================ a third client

omit [LinearOrder T] in
theorem RocCursor.advanceIf_eq_ok {turn : Bool} {c c' : RocCursor T}
    {appended : List T} (h : c.advanceIf turn = .ok (appended, c')) :
    c'.thresholds = c.thresholds.drop turn.toNat
      ∧ c.fpr.length = c'.fpr.length + turn.toNat := by
  cases turn with
  | false =>
      cases h
      exact ⟨rfl, rfl⟩
  | true =>
      simp only [RocCursor.advanceIf, if_true, RocCursor.advance] at h
      split at h
      case h_1 hfpr htpr =>
        cases h
        exact ⟨List.drop_one.symm, by rw [hfpr]; rfl⟩
      case h_2 => cases h

/-- The sides that move have something ahead, and one of them does move. -/
theorem sidesToMove_length {l1 l2 : List T} {first second : Bool}
    (h : sidesToMove l1 l2 = some (first, second)) :
    first.toNat ≤ l1.length ∧ second.toNat ≤ l2.length
      ∧ 0 < first.toNat + second.toNat := by
  cases l1 with
  | nil =>
      cases l2 with
      | nil => cases h
      | cons b l2 =>
          cases h
          exact ⟨le_rfl, Nat.succ_pos _, Nat.one_pos⟩
  | cons a l1 =>
      cases l2 with
      | nil =>
          cases h
          exact ⟨Nat.succ_pos _, le_rfl, Nat.one_pos⟩
      | cons b l2 =>
          cases h
          refine ⟨(Bool.toNat_le _).trans (Nat.succ_pos _),
            (Bool.toNat_le _).trans (Nat.succ_pos _), ?_⟩
          rcases max_choice a b with hmax | hmax
          · rw [hmax, decide_eq_true le_rfl, Bool.toNat_true]
            omega
          · rw [hmax, decide_eq_true (le_refl b), Bool.toNat_true]
            omega

/-- The rates of a table with too few of them run out. -/
theorem mergeLoop_ne_ok_of_short {numPositive numNegative : Nat × Nat} :
    ∀ {n : Nat} {c1 c2 : RocCursor T},
      c1.thresholds.length + c2.thresholds.length ≤ n →
      c1.fpr.length < c1.thresholds.length →
      ∀ merged, mergeLoop numPositive numNegative n c1 c2 ≠ .ok merged
  | 0, _, _, hlen, hshort, _ => by omega
  | n + 1, c1, c2, hlen, hshort, merged => by
      intro h
      rw [mergeLoop] at h
      cases hsides : sidesToMove c1.thresholds c2.thresholds with
      | none =>
          obtain ⟨hc1, -⟩ := (sidesToMove_eq_none_iff _ _).1 hsides
          rw [hc1] at hshort
          exact absurd hshort (Nat.not_lt_zero _)
      | some sides =>
          obtain ⟨first, second⟩ := sides
          rw [hsides] at h
          obtain ⟨hfirst, hsecond, hmove⟩ := sidesToMove_length hsides
          obtain ⟨⟨out1, c1'⟩, hrun1, h⟩ := Lib.bind_eq_ok_iff.1 h
          obtain ⟨⟨out2, c2'⟩, hrun2, h⟩ := Lib.bind_eq_ok_iff.1 h
          obtain ⟨fpr, -, h⟩ := Lib.bind_eq_ok_iff.1 h
          obtain ⟨tpr, -, h⟩ := Lib.bind_eq_ok_iff.1 h
          obtain ⟨others, hothers, -⟩ := Lib.bind_eq_ok_iff.1 h
          obtain ⟨hc1, hfpr1⟩ := RocCursor.advanceIf_eq_ok hrun1
          obtain ⟨hc2, -⟩ := RocCursor.advanceIf_eq_ok hrun2
          refine mergeLoop_ne_ok_of_short ?_ ?_ others hothers
          · rw [hc1, hc2, List.length_drop, List.length_drop]
            omega
          · rw [hc1, List.length_drop]
            omega

/-- A third table cannot be merged into the table of two clients. -/
theorem merge_third_ne_ok [OrderTop T] {client1 client2 : RocClient T}
    {merged : RocTable T} (h : mergeClients client1 client2 = .ok merged)
    (c3 : RocTable T) (numPositive numNegative : Nat × Nat)
    (total : RocTable T) :
    fprTprMerge2 merged c3 numPositive numNegative ≠ .ok total := by
  obtain ⟨merged', hmerged, hperm, hrates⟩ := mergeClients_spec client1 client2
  rw [h] at hmerged
  cases hmerged
  have hlength := congrArg List.length hrates.fpr
  rw [List.length_map] at hlength
  have hshort : merged.fpr.length < merged.thresholds.length := by
    refine lt_of_eq_of_lt hlength (lt_of_le_of_ne
      (List.dedup_sublist _).length_le fun heq => ?_)
    have hsame := (List.dedup_sublist merged.thresholds).eq_of_length heq
    exact merged_thresholds_not_nodup hperm (List.dedup_eq_self.1 hsame)
  exact @mergeLoop_ne_ok_of_short T _ numPositive numNegative _
    { merged with } { c3 with } le_rfl hshort total

/-- A positive example that scores one, a negative one that scores zero. -/
def twoExamples : List (ScoredExample (WithTop ℤ)) :=
  [⟨1, true⟩, ⟨0, false⟩]

/-- Their table. -/
def twoExamplesTable : RocTable (WithTop ℤ) where
  fpr := [0, 0, 1]
  tpr := [0, 1, 1]
  thresholds := [⊤, 1, 0]

theorem twoExamplesTable_exact : ExactTable twoExamples twoExamplesTable where
  descending := by decide
  fpr := by decide +kernel
  tpr := by decide +kernel
  infinity := rfl
  scores := by decide

/-- A client with these examples. -/
def twoExamplesClient : RocClient (WithTop ℤ) where
  examples := twoExamples
  table := twoExamplesTable
  exact := twoExamplesTable_exact
  some_negative := Nat.one_pos
  some_positive := Nat.one_pos

/-- Two clients with the same table: three pairs of rates, and six
thresholds. -/
theorem not_mergesPooled_same :
    ¬ MergesPooled twoExamplesClient twoExamplesClient := by
  rintro ⟨merged, hmerged, hcurve⟩
  have hsix : mergeClients twoExamplesClient twoExamplesClient
      = .ok ⟨[0, 0, 1], [0, 1, 1], [⊤, ⊤, 1, 1, 0, 0]⟩ := by
    decide +kernel
  rw [hsix] at hmerged
  cases hmerged
  have hlength := congrArg List.length hcurve.fpr
  rw [List.length_map] at hlength
  exact absurd hlength (by decide)

end PrimiHub.FL
