/-
When predictions stand beside the right sample.

The predictions are numbered from 0, so they come to stand beside the
first rows of the host's table, whichever rows were kept. `attributed_iff`
says what this needs: the kept rows are the first ones, and at each place
the guest's row predicts what its row of the right id would. The first is
a condition on the order of the host's table alone (`commonFirst_iff`),
the second for a model that tells rows apart one on the order of both
(`places_iff`).
-/
import Mathlib.Data.List.Perm.Subperm
import PrimiHub.FL.Predict
import PrimiHub.FL.Proofs.Alignment

namespace PrimiHub.FL.Vertical

variable {ι β γ Z P : Type}

-- ============================================================ first rows

/-- A list whose members with `p` come first: they are a prefix. -/
theorem filter_prefix_of_pairwise {α : Type} {p : α → Bool} {xs : List α}
    (h : xs.Pairwise fun a b => p b = true → p a = true) :
    xs.filter p <+: xs := by
  induction xs with
  | nil => exact List.prefix_refl []
  | cons x xs ih =>
      rw [List.pairwise_cons] at h
      by_cases hx : p x = true
      · rw [List.filter_cons_of_pos hx, List.prefix_cons_inj]
        exact ih h.2
      · have hnone : xs.filter p = [] :=
          List.filter_eq_nil_iff.mpr fun b hb hpb => hx (h.1 b hb hpb)
        rw [List.filter_cons_of_neg hx, hnone]
        exact List.nil_prefix

/-- The members with `p` come first if their places are the first ones. -/
theorem pairwise_iff_lt_length {α : Type} {p : α → Bool} {xs : List α} :
    (xs.Pairwise fun a b => p b = true → p a = true)
      ↔ ∀ i a, xs[i]? = some a →
        (p a = true ↔ i < (xs.filter p).length) := by
  induction xs with
  | nil => simp
  | cons x xs ih =>
      rw [List.pairwise_cons, ih]
      by_cases hx : p x = true
      · rw [List.filter_cons_of_pos hx, List.length_cons]
        constructor
        · intro h i a ha
          cases i with
          | zero =>
              rw [List.getElem?_cons_zero, Option.some.injEq] at ha
              rw [← ha]
              exact iff_of_true hx (Nat.succ_pos _)
          | succ i =>
              rw [List.getElem?_cons_succ] at ha
              rw [h.2 i a ha, Nat.succ_lt_succ_iff]
        · intro h
          refine ⟨fun _ _ _ => hx, fun i a ha => ?_⟩
          rw [h (i + 1) a ha, Nat.succ_lt_succ_iff]
      · rw [List.filter_cons_of_neg hx]
        constructor
        · intro h i a ha
          have hnone : xs.filter p = [] :=
            List.filter_eq_nil_iff.mpr fun b hb hpb => hx (h.1 b hb hpb)
          have hmem := List.mem_of_getElem? ha
          rw [hnone]
          refine iff_of_false ?_ (Nat.not_lt_zero i)
          intro hpa
          obtain rfl | hmem := List.mem_cons.mp hmem
          · exact hx hpa
          · exact hx (h.1 a hmem hpa)
        · intro h
          have hnone : xs.filter p = [] := by
            rw [← List.length_eq_zero_iff]
            by_contra hpos
            exact hx ((h 0 x rfl).mpr (Nat.pos_of_ne_zero hpos))
          have hnot : ∀ b ∈ xs, p b ≠ true :=
            List.filter_eq_nil_iff.mp hnone
          refine ⟨fun b hb hpb => absurd hpb (hnot b hb), ?_⟩
          intro i a ha
          rw [hnone]
          exact iff_of_false (hnot a (List.mem_of_getElem? ha))
            (Nat.not_lt_zero i)

-- ============================================================ the columns

/-- The rows of a table beside a shorter one. -/
theorem getElem?_concatColumns {α α' : Type} {left : List α}
    {right : List α'} (hle : right.length ≤ left.length) {i : Nat} {a : α}
    (ha : left[i]? = some a) :
    (concatColumns left right)[i]? = some (some a, right[i]?) := by
  have hi := List.getElem?_eq_some_iff.mp ha
  obtain ⟨hi, -⟩ := hi
  unfold concatColumns
  rw [Nat.max_eq_left hle, List.getElem?_map, List.getElem?_range hi, ← ha]
  rfl

theorem map_fst_concatColumns {α α' : Type} {left : List α}
    {right : List α'} (hle : right.length ≤ left.length) :
    (concatColumns left right).map Prod.fst = left.map some := by
  unfold concatColumns
  rw [Nat.max_eq_left hle, List.map_map]
  apply List.ext_getElem?
  intro i
  rw [List.getElem?_map, List.getElem?_map]
  by_cases hi : i < left.length
  · rw [List.getElem?_range hi, List.getElem?_eq_getElem hi]
    show some left[i]? = some (some left[i])
    rw [List.getElem?_eq_getElem hi]
  · rw [List.getElem?_eq_none (by rw [List.length_range]; omega),
      List.getElem?_eq_none (by omega)]
    rfl

/-- As many rows at both parties: they are combined by position. -/
theorem addGuestZ_of_length_eq (model : VerticalModel β γ Z P)
    {kept : List (Sample ι β)} {keptGuest : List (Sample ι γ)}
    (hlen : kept.length = keptGuest.length) :
    addGuestZ model (kept.map fun row => model.hostZ row.rest)
        (keptGuest.map fun row => model.guestZ row.rest)
      = .ok (List.zipWith model.score kept keptGuest) := by
  unfold addGuestZ
  rw [if_pos (by rw [List.length_map, List.length_map, hlen]),
    List.zipWith_map]
  rfl

variable [DecidableEq ι]

/-- What it needs for the predictions of the kept rows to stand beside the
right rows of the host's table. -/
theorem attributed_iff {model : VerticalModel β γ Z P}
    {host kept : List (Sample ι β)} {guest keptGuest : List (Sample ι γ)}
    (hlen : kept.length = keptGuest.length)
    (hle : kept.length ≤ host.length) :
    Attributed model host guest
        (concatColumns host (List.zipWith model.score kept keptGuest))
      ↔ (∀ i a, host[i]? = some a →
          (a.id ∈ guest.map Sample.id ↔ i < kept.length))
        ∧ ∀ (i : Nat) (a k : Sample ι β) (b b' : Sample ι γ), host[i]? = some a → kept[i]? = some k →
          keptGuest[i]? = some b → b' ∈ guest → b'.id = a.id →
          model.score k b = model.score a b' := by
  have hcount : (List.zipWith model.score kept keptGuest).length
      = kept.length := by
    rw [List.length_zipWith, ← hlen, Nat.min_self]
  have hout : ∀ i a, host[i]? = some a →
      (concatColumns host (List.zipWith model.score kept keptGuest))[i]?
        = some (some a, (List.zipWith model.score kept keptGuest)[i]?) :=
    fun i a ha => getElem?_concatColumns (by rw [hcount]; exact hle) ha
  have hpair : ∀ (i : Nat) (k : Sample ι β) (b : Sample ι γ),
      kept[i]? = some k → keptGuest[i]? = some b →
      (List.zipWith model.score kept keptGuest)[i]?
        = some (model.score k b) := by
    intro i k b hk hb
    rw [List.getElem?_zipWith, hk, hb]
  constructor
  · intro h
    -- the score beside a common row is its own
    have hmatch : ∀ (i : Nat) (a : Sample ι β) (b : Sample ι γ),
        host[i]? = some a → b ∈ guest → b.id = a.id →
        (List.zipWith model.score kept keptGuest)[i]?
          = some (model.score a b) := by
      intro i a b ha hb hid
      have hrow := h.common i a b ha hb hid
      rw [hout i a ha, Option.some.injEq, Prod.mk.injEq] at hrow
      exact hrow.2
    constructor
    · intro i a ha
      constructor
      · intro hmem
        obtain ⟨b, hb, hid⟩ := List.mem_map.mp hmem
        obtain ⟨hi, -⟩ :=
          List.getElem?_eq_some_iff.mp (hmatch i a b ha hb hid)
        rwa [hcount] at hi
      · intro hi
        -- a row that only the host has gets none
        by_contra hmem
        have hrow := h.other i a ha hmem
        rw [hout i a ha, Option.some.injEq, Prod.mk.injEq,
          List.getElem?_eq_none_iff, hcount] at hrow
        omega
    · intro i a k b b' ha hk hb hb' hid
      have hrow := hmatch i a b' ha hb' hid
      rw [hpair i k b hk hb, Option.some.injEq] at hrow
      exact hrow
  · intro h
    obtain ⟨hfirst, hplaces⟩ := h
    refine ⟨map_fst_concatColumns (by rw [hcount]; exact hle), ?_, ?_⟩
    · intro i a b ha hb hid
      have hi := (hfirst i a ha).mp (List.mem_map.mpr ⟨b, hb, hid⟩)
      have hk := List.getElem?_eq_getElem hi
      have hg := List.getElem?_eq_getElem (hlen ▸ hi)
      rw [hout i a ha, hpair i _ _ hk hg,
        hplaces i a _ _ b ha hk hg hb hid]
    · intro i a ha hmem
      rw [hout i a ha, List.getElem?_eq_none]
      rw [hcount]
      have hi := mt (hfirst i a ha).mpr hmem
      omega

-- ============================================================= the task

/-- The kept rows are those with an id of the other table. -/
theorem psiRows_eq {psi : PsiRun ι} {x : List (Sample ι β)}
    {other : List (Sample ι γ)} (hruns : ∃ x', psiRows (some psi) x = .ok x')
    (hids : ∀ row ∈ x, row.id ∈ psi.intersection
      ↔ row.id ∈ other.map Sample.id) :
    psiRows (some psi) x = .ok (keptRows true other x) := by
  obtain ⟨x', hx'⟩ := hruns
  rw [hx']
  unfold psiRows at hx'
  simp only at hx'
  split at hx'
  · cases hx'
  · next rows roles hrows =>
    injection hx' with hx'
    rw [← hx', sampleAlignment_ok hrows, keptRows, if_pos rfl]
    congr 1
    apply List.filter_congr
    intro row hrow
    exact decide_eq_decide.mpr (hids row hrow)

/-- The rows the parties work on. -/
theorem psiRows_keptRows {psi : Option (PsiRun ι × PsiRun ι)}
    {host : List (Sample ι β)} {guest : List (Sample ι γ)}
    (h : ∀ runs, psi = some runs → PsiExact runs host guest) :
    psiRows (psi.map Prod.fst) host
        = .ok (keptRows psi.isSome guest host)
    ∧ psiRows (psi.map Prod.snd) guest
        = .ok (keptRows psi.isSome host guest) := by
  cases psi with
  | none => exact ⟨rfl, rfl⟩
  | some runs =>
      have hexact := h runs rfl
      constructor
      · refine psiRows_eq hexact.hostRuns fun row hrow => ?_
        rw [hexact.hostIds]
        exact and_iff_right (List.mem_map_of_mem hrow)
      · refine psiRows_eq hexact.guestRuns fun row hrow => ?_
        rw [hexact.guestIds]
        exact and_iff_left (List.mem_map_of_mem hrow)

/-- Where a party has no row left, no table is written. -/
theorem predict_noRows {model : VerticalModel β γ Z P}
    {psi : Option (PsiRun ι × PsiRun ι)} {host kept : List (Sample ι β)}
    {guest keptGuest : List (Sample ι γ)}
    (hhost : psiRows (psi.map Prod.fst) host = .ok kept)
    (hguest : psiRows (psi.map Prod.snd) guest = .ok keptGuest)
    (h : kept = [] ∨ keptGuest = []) :
    predict model psi host guest = .error .noRows := by
  unfold predict guestPredict
  rw [hguest]
  cases keptGuest with
  | nil => rfl
  | cons g rest =>
      obtain rfl | h := h
      · show hostPredict model (psi.map Prod.fst) host _ = _
        unfold hostPredict
        rw [hhost]
        rfl
      · cases h

/-- Otherwise the guest's numbers are added to the host's. -/
theorem predict_eq {model : VerticalModel β γ Z P}
    {psi : Option (PsiRun ι × PsiRun ι)} {host kept : List (Sample ι β)}
    {guest keptGuest : List (Sample ι γ)}
    (hhost : psiRows (psi.map Prod.fst) host = .ok kept)
    (hguest : psiRows (psi.map Prod.snd) guest = .ok keptGuest)
    (hne : kept ≠ []) (hne' : keptGuest ≠ []) :
    predict model psi host guest
      = (addGuestZ model (kept.map fun row => model.hostZ row.rest)
          (keptGuest.map fun row => model.guestZ row.rest)).map
          (concatColumns host) := by
  have hcheck : ∀ {α : Type} {x : List α}, x ≠ [] → checkArray x = .ok x := by
    intro α x hx
    rw [checkArray, if_neg]
    rwa [List.isEmpty_iff]
  unfold predict guestPredict
  rw [hguest]
  show (checkArray keptGuest >>= fun x => _) >>= _ = _
  rw [hcheck hne']
  show hostPredict model (psi.map Prod.fst) host _ = _
  unfold hostPredict
  rw [hhost]
  show (checkArray kept >>= fun x => _) = _
  rw [hcheck hne]
  show (addGuestZ model _ _ >>= fun result => _) = _
  cases addGuestZ model (kept.map fun row => model.hostZ row.rest)
      (keptGuest.map fun row => model.guestZ row.rest) with
  | error e => rfl
  | ok result => rfl

-- ========================================================== the conditions

section Conditions

variable {host : List (Sample ι β)} {guest : List (Sample ι γ)}

theorem keptRows_length_le (psi : Bool) :
    (keptRows psi guest host).length ≤ host.length := by
  unfold keptRows
  split
  · exact List.length_filter_le _ _
  · exact Nat.le_refl _

/-- The first rows are the kept ones: a condition on the order of the
table, and without PSI on its ids. -/
theorem commonFirst_iff (psi : Bool) :
    (∀ i a, host[i]? = some a → (a.id ∈ guest.map Sample.id
        ↔ i < (keptRows psi guest host).length))
      ↔ CommonFirst host guest
        ∧ (psi = false → ∀ a ∈ host, a.id ∈ guest.map Sample.id) := by
  cases psi with
  | true =>
      have hpairwise := @pairwise_iff_lt_length (Sample ι β)
        (fun row => row.id ∈ guest.map Sample.id) host
      simp only [decide_eq_true_eq] at hpairwise
      rw [CommonFirst, hpairwise, keptRows, if_pos rfl]
      exact (and_iff_left fun h => Bool.noConfusion h).symm
  | false =>
      rw [keptRows, if_neg Bool.false_ne_true]
      constructor
      · intro h
        have hall : ∀ a ∈ host, a.id ∈ guest.map Sample.id := by
          intro a ha
          obtain ⟨i, hi, rfl⟩ := List.mem_iff_getElem.mp ha
          exact (h i _ (List.getElem?_eq_getElem hi)).mpr hi
        refine ⟨List.Pairwise.imp_of_mem ?_
          (List.pairwise_of_forall fun _ _ => trivial), fun _ => hall⟩
        intro a b ha _ _ _
        exact hall a ha
      · intro h i a ha
        obtain ⟨hi, -⟩ := List.getElem?_eq_some_iff.mp ha
        exact iff_of_true (h.2 rfl a (List.mem_of_getElem? ha)) hi

/-- With the common ids first, the kept rows stand where they stood. -/
theorem keptRows_front (psi : Bool) (h : CommonFirst host guest) :
    keptRows psi guest host <+: host := by
  unfold keptRows
  split
  · apply filter_prefix_of_pairwise
    simp only [decide_eq_true_eq]
    exact h
  · exact List.prefix_refl host

/-- With PSI both parties keep as many rows. -/
theorem keptRows_length_eq (hunique : (host.map Sample.id).Nodup)
    (hunique' : (guest.map Sample.id).Nodup) :
    (keptRows true guest host).length
      = (keptRows true host guest).length := by
  have hperm : ((keptRows true guest host).map Sample.id).Perm
      ((keptRows true host guest).map Sample.id) := by
    rw [keptRows, keptRows, if_pos rfl, if_pos rfl, map_id_filter,
      map_id_filter,
      List.perm_ext_iff_of_nodup (hunique.filter _) (hunique'.filter _)]
    intro id
    rw [List.mem_filter, List.mem_filter, decide_eq_true_eq,
      decide_eq_true_eq, and_comm]
  rw [← List.length_map (f := Sample.id), hperm.length_eq, List.length_map]

/-- With the kept rows where they stood, the rows of the two tables can be
looked up in the kept ones. -/
theorem places_iff {model : VerticalModel β γ Z P} (psi : Bool)
    (hfront : keptRows psi guest host <+: host) :
    (∀ (i : Nat) (a k : Sample ι β) (b b' : Sample ι γ), host[i]? = some a →
      (keptRows psi guest host)[i]? = some k →
      (keptRows psi host guest)[i]? = some b → b' ∈ guest → b'.id = a.id →
      model.score k b = model.score a b')
    ↔ ∀ (i : Nat) (a : Sample ι β) (b b' : Sample ι γ),
      (keptRows psi guest host)[i]? = some a →
      (keptRows psi host guest)[i]? = some b → b' ∈ guest → b'.id = a.id →
      model.score a b = model.score a b' := by
  have hsame : ∀ (i : Nat) (k : Sample ι β),
      (keptRows psi guest host)[i]? = some k → host[i]? = some k := by
    intro i k hk
    obtain ⟨hi, hget⟩ := List.getElem?_eq_some_iff.mp hk
    obtain ⟨rest, hrest⟩ := hfront
    calc host[i]?
        = (keptRows psi guest host ++ rest)[i]? := by rw [hrest]
      _ = (keptRows psi guest host)[i]? := List.getElem?_append_left hi
      _ = some k := hk
  constructor
  · intro h i a b b' ha hb hb' hid
    exact h i a a b b' (hsame i a ha) ha hb hb' hid
  · intro h i a k b b' ha hk hb hb' hid
    have heq : a = k := by
      have hk' := hsame i k hk
      rw [ha, Option.some.injEq] at hk'
      exact hk'
    subst heq
    exact h i a b b' hk hb hb' hid

/-- A common id is a kept row. -/
theorem keptRows_ne_nil {psi : Bool}
    (h : ∃ a ∈ host, a.id ∈ guest.map Sample.id) :
    keptRows psi guest host ≠ [] := by
  obtain ⟨a, ha, hid⟩ := h
  unfold keptRows
  split
  · exact List.ne_nil_of_mem
      (List.mem_filter.mpr ⟨ha, decide_eq_true hid⟩)
  · exact List.ne_nil_of_mem ha

/-- One number of the guest for several rows of the host is wrong for all
rows but one. -/
theorem not_attributed_single {model : VerticalModel β γ Z P}
    {b : Sample ι γ} (hunique : (host.map Sample.id).Nodup)
    (hlen : 1 < host.length) {ps : List P} (hps : ps.length = host.length) :
    ¬ Attributed model host [b] (concatColumns host ps) := by
  intro h
  have hid : ∀ i, (hi : i < host.length) → host[i].id = b.id := by
    intro i hi
    by_contra hne
    have hrow := h.other i host[i] (List.getElem?_eq_getElem hi) (by
      simp only [List.map_cons, List.map_nil, List.mem_singleton]
      exact hne)
    rw [getElem?_concatColumns (Nat.le_of_eq hps)
      (List.getElem?_eq_getElem hi), Option.some.injEq, Prod.mk.injEq,
      List.getElem?_eq_none_iff] at hrow
    omega
  have hlength : 1 < (host.map Sample.id).length := by
    rw [List.length_map]
    omega
  have hsame : (host.map Sample.id)[0] = (host.map Sample.id)[1] := by
    rw [List.getElem_map, List.getElem_map, hid 0 (by omega),
      hid 1 (by omega)]
  exact absurd (hunique.getElem_inj_iff.mp hsame) (by decide)

end Conditions

-- ============================================================== the result

section Result

variable {model : VerticalModel β γ Z P}
  {psi : Option (PsiRun ι × PsiRun ι)} {host : List (Sample ι β)}
  {guest : List (Sample ι γ)}

/-- Without PSI and with tables of different lengths the predictions are
not right, if there are any. -/
theorem not_right_of_length_ne (hunique : (host.map Sample.id).Nodup)
    (hne : host.length ≠ guest.length) :
    ¬ ∃ out, predict model none host guest = .ok out
      ∧ Attributed model host guest out := by
  intro h
  obtain ⟨out, hout, hattr⟩ := h
  by_cases hempty : host = [] ∨ guest = []
  · rw [predict_noRows rfl rfl hempty] at hout
    cases hout
  · rw [not_or] at hempty
    have hlen : ¬ (host.map fun row => model.hostZ row.rest).length
        = (guest.map fun row => model.guestZ row.rest).length := by
      rw [List.length_map, List.length_map]
      exact hne
    rw [predict_eq rfl rfl hempty.1 hempty.2] at hout
    unfold addGuestZ at hout
    rw [if_neg hlen] at hout
    split at hout
    · next one hone =>
      obtain ⟨b, rfl, -⟩ := List.map_eq_singleton_iff.mp hone
      injection hout with hout
      rw [← hout] at hattr
      refine not_attributed_single hunique ?_ ?_ hattr
      · have hpos := List.length_pos_iff.mpr hempty.1
        rw [List.length_singleton] at hne
        omega
      · rw [List.length_map, List.length_map]
    · cases hout

/-- Where both parties keep as many rows. -/
theorem right_iff_of_length_eq
    (hexact : ∀ runs, psi = some runs → PsiExact runs host guest)
    (hlen : (keptRows psi.isSome guest host).length
      = (keptRows psi.isSome host guest).length)
    (hne : keptRows psi.isSome guest host ≠ []) :
    (∃ out, predict model psi host guest = .ok out
        ∧ Attributed model host guest out)
      ↔ (CommonFirst host guest ∧ (psi.isSome = false →
          ∀ a ∈ host, a.id ∈ guest.map Sample.id))
        ∧ ∀ (i : Nat) (a : Sample ι β) (b b' : Sample ι γ),
          (keptRows psi.isSome guest host)[i]? = some a →
          (keptRows psi.isSome host guest)[i]? = some b → b' ∈ guest →
          b'.id = a.id → model.score a b = model.score a b' := by
  obtain ⟨hhost, hguest⟩ := psiRows_keptRows hexact
  have hne' : keptRows psi.isSome host guest ≠ [] := by
    intro hnil
    rw [hnil, List.length_nil, List.length_eq_zero_iff] at hlen
    exact hne hlen
  have hattr : Attributed model host guest (concatColumns host
      (List.zipWith model.score (keptRows psi.isSome guest host)
        (keptRows psi.isSome host guest))) ↔ _ :=
    attributed_iff hlen (keptRows_length_le psi.isSome)
  rw [predict_eq hhost hguest hne hne', addGuestZ_of_length_eq model hlen]
  rw [commonFirst_iff] at hattr
  constructor
  · intro h
    obtain ⟨out, hout, hright⟩ := h
    injection hout with hout
    rw [← hout, hattr] at hright
    refine ⟨hright.1, ?_⟩
    rw [← places_iff psi.isSome (keptRows_front psi.isSome hright.1.1)]
    exact hright.2
  · intro h
    refine ⟨_, rfl, hattr.mpr ⟨h.1, ?_⟩⟩
    rw [places_iff psi.isSome (keptRows_front psi.isSome h.1.1)]
    exact h.2

/-- The kept rows have common ids. -/
theorem common_of_mem_keptRows {a : Sample ι β}
    (hall : psi.isSome = false → ∀ a ∈ host, a.id ∈ guest.map Sample.id)
    (ha : a ∈ keptRows psi.isSome guest host) :
    a ∈ host ∧ a.id ∈ guest.map Sample.id := by
  unfold keptRows at ha
  split at ha
  · rw [List.mem_filter, decide_eq_true_eq] at ha
    exact ha
  · next hpsi => exact ⟨ha, hall (Bool.eq_false_of_not_eq_true hpsi) a ha⟩

/-- For a model that tells the guest's rows apart, the right prediction at
every place is the right id at every place. -/
theorem places_iff_ids (hunique' : (guest.map Sample.id).Nodup)
    (hall : psi.isSome = false → ∀ a ∈ host, a.id ∈ guest.map Sample.id)
    (hlen : (keptRows psi.isSome guest host).length
      = (keptRows psi.isSome host guest).length)
    (hapart : Distinguishes model host guest) :
    (∀ (i : Nat) (a : Sample ι β) (b b' : Sample ι γ),
      (keptRows psi.isSome guest host)[i]? = some a →
      (keptRows psi.isSome host guest)[i]? = some b → b' ∈ guest →
      b'.id = a.id → model.score a b = model.score a b')
    ↔ (keptRows psi.isSome guest host).map Sample.id
      = (keptRows psi.isSome host guest).map Sample.id := by
  have hguest : ∀ b ∈ keptRows psi.isSome host guest, b ∈ guest := by
    intro b hb
    unfold keptRows at hb
    split at hb
    · exact (List.mem_filter.mp hb).1
    · exact hb
  rw [← aligned_iff]
  constructor
  · intro h
    refine ⟨hlen, fun i a b ha hb => ?_⟩
    obtain ⟨hhost, hid⟩ :=
      common_of_mem_keptRows hall (List.mem_of_getElem? ha)
    obtain ⟨b', hb', hsame⟩ := List.mem_map.mp hid
    rw [← hsame]
    exact (hapart a hhost b (hguest b (List.mem_of_getElem? hb)) b' hb'
      (h i a b b' ha hb hb' hsame)).symm
  · intro h i a b b' ha hb hb' hid
    have hsame : b' = b := by
      apply List.inj_on_of_nodup_map hunique' hb'
        (hguest b (List.mem_of_getElem? hb))
      rw [hid, h.sameId i a b ha hb]
    rw [hsame]

/-- The kept ids are the common ones in the order of the table. -/
theorem map_id_keptRows {kept : Bool} {common : List ι}
    {x : List (Sample ι β)} {other : List (Sample ι γ)}
    (hcommon : ∀ id, id ∈ common
      ↔ id ∈ x.map Sample.id ∧ id ∈ other.map Sample.id)
    (hall : kept = false → ∀ a ∈ x, a.id ∈ other.map Sample.id) :
    (keptRows kept other x).map Sample.id
      = (x.map Sample.id).filter fun id => id ∈ common := by
  have hmem : ∀ id ∈ x.map Sample.id,
      id ∈ common ↔ id ∈ other.map Sample.id := by
    intro id hid
    rw [hcommon]
    exact and_iff_right hid
  unfold keptRows
  split
  · rw [map_id_filter]
    apply List.filter_congr
    intro id hid
    exact decide_eq_decide.mpr (hmem id hid).symm
  · next hkept =>
    symm
    rw [List.filter_eq_self]
    intro id hid
    obtain ⟨a, ha, rfl⟩ := List.mem_map.mp hid
    exact decide_eq_true ((hmem _ hid).mpr
      (hall (Bool.eq_false_of_not_eq_true hkept) a ha))

/-- The kept ids of both parties are the same lists exactly where the
common ids stand in the same order. -/
theorem ids_iff_sameOrder (hunique : (host.map Sample.id).Nodup)
    (hunique' : (guest.map Sample.id).Nodup)
    (hall : psi.isSome = false → host.length = guest.length
      ∧ ∀ a ∈ host, a.id ∈ guest.map Sample.id) :
    (keptRows psi.isSome guest host).map Sample.id
        = (keptRows psi.isSome host guest).map Sample.id
      ↔ SameOrder host guest := by
  have hcommon : ∀ id, id ∈ (host.map Sample.id).filter
      (fun id => id ∈ guest.map Sample.id)
      ↔ id ∈ host.map Sample.id ∧ id ∈ guest.map Sample.id := by
    intro id
    rw [List.mem_filter, decide_eq_true_eq]
  have hback : psi.isSome = false →
      ∀ b ∈ guest, b.id ∈ host.map Sample.id := by
    intro hpsi b hb
    obtain ⟨hlen, hsub⟩ := hall hpsi
    have hsubset : host.map Sample.id ⊆ guest.map Sample.id := by
      intro id hid
      obtain ⟨a, ha, rfl⟩ := List.mem_map.mp hid
      exact hsub a ha
    have hperm := (List.subperm_of_subset hunique hsubset).perm_of_length_le
      (by rw [List.length_map, List.length_map, hlen])
    exact hperm.mem_iff.mpr (List.mem_map_of_mem hb)
  rw [map_id_keptRows hcommon fun hpsi => (hall hpsi).2,
    map_id_keptRows (fun id => (hcommon id).trans and_comm) hback]
  exact filter_eq_filter_iff hunique hunique' hcommon hcommon

/-- Both parties keep as many rows. -/
theorem kept_length_eq (hunique : (host.map Sample.id).Nodup)
    (hunique' : (guest.map Sample.id).Nodup)
    (hall : psi.isSome = false → host.length = guest.length) :
    (keptRows psi.isSome guest host).length
      = (keptRows psi.isSome host guest).length := by
  cases hpsi : psi.isSome with
  | true => exact keptRows_length_eq hunique hunique'
  | false => exact hall hpsi

end Result

/-- The table the host writes is right exactly if the rows with a common id
stand first in the host's table and the guest's row at each of these places
predicts what the guest's row of the same id does; without PSI the tables
must have the same ids, too. For a model that tells the guest's rows apart
the common ids must stand in the same order in both tables. -/
theorem predict_attributed_iff (model : VerticalModel β γ Z P)
    (psi : Option (PsiRun ι × PsiRun ι)) (host : List (Sample ι β))
    (guest : List (Sample ι γ)) (hunique : (host.map Sample.id).Nodup)
    (hunique' : (guest.map Sample.id).Nodup)
    (hexact : ∀ runs, psi = some runs → PsiExact runs host guest) :
    ((∃ out, predict model psi host guest = .ok out
        ∧ Attributed model host guest out)
      ↔ Predictable psi.isSome model host guest)
    ∧ (Distinguishes model host guest →
      (Predictable psi.isSome model host guest
        ↔ (∃ a ∈ host, a.id ∈ guest.map Sample.id)
          ∧ (psi.isSome = false → host.length = guest.length
            ∧ ∀ a ∈ host, a.id ∈ guest.map Sample.id)
          ∧ CommonFirst host guest ∧ SameOrder host guest)) := by
  obtain ⟨hhost, hguest⟩ := psiRows_keptRows hexact
  constructor
  · constructor
    · intro h
      have hne : keptRows psi.isSome guest host ≠ [] := by
        intro hnil
        obtain ⟨out, hout, -⟩ := h
        rw [predict_noRows hhost hguest (Or.inl hnil)] at hout
        cases hout
      -- without PSI both predict for all rows, so the numbers must be equal
      have hlen : psi.isSome = false → host.length = guest.length := by
        intro hpsi
        by_contra hdiff
        rw [Option.isSome_eq_false_iff, Option.isNone_iff_eq_none] at hpsi
        subst hpsi
        exact not_right_of_length_ne hunique hdiff h
      have hright := (right_iff_of_length_eq hexact
        (kept_length_eq hunique hunique' hlen) hne).mp h
      obtain ⟨a, ha⟩ := List.exists_mem_of_ne_nil _ hne
      exact ⟨⟨a, common_of_mem_keptRows hright.1.2 ha⟩,
        fun hpsi => ⟨hlen hpsi, hright.1.2 hpsi⟩, hright.1.1, hright.2⟩
    · intro h
      refine (right_iff_of_length_eq hexact (kept_length_eq hunique hunique'
        fun hpsi => (h.sameIds hpsi).1) (keptRows_ne_nil h.nonempty)).mpr ?_
      exact ⟨⟨h.first, fun hpsi => (h.sameIds hpsi).2⟩, h.places⟩
  · intro hapart
    -- scores can be told apart, so equal scores are equal ids
    have hids : (psi.isSome = false → host.length = guest.length
        ∧ ∀ a ∈ host, a.id ∈ guest.map Sample.id) →
        ((∀ (i : Nat) (a : Sample ι β) (b b' : Sample ι γ),
          (keptRows psi.isSome guest host)[i]? = some a →
          (keptRows psi.isSome host guest)[i]? = some b → b' ∈ guest →
          b'.id = a.id → model.score a b = model.score a b')
        ↔ SameOrder host guest) := by
      intro hall
      rw [places_iff_ids hunique' (fun hpsi => (hall hpsi).2)
        (kept_length_eq hunique hunique' fun hpsi => (hall hpsi).1) hapart]
      exact ids_iff_sameOrder hunique hunique' hall
    constructor
    · intro h
      exact ⟨h.nonempty, h.sameIds, h.first, (hids h.sameIds).mp h.places⟩
    · intro h
      obtain ⟨hnonempty, hall, hfirst, horder⟩ := h
      exact ⟨hnonempty, hall, hfirst, (hids hall).mpr horder⟩

/-- The sum of two numbers, one of each party. -/
def addModel : VerticalModel Nat Nat Nat Nat where
  hostZ z := z
  guestZ z := z
  predict := Nat.add

/-- A PSI of Alice and Bob that returns these ids to both. -/
def aliceBob (common : List Nat) : PsiRun Nat × PsiRun Nat :=
  (⟨.integer, ⟨"Alice", .name "Bob"⟩, "ECDH", common⟩,
    ⟨.integer, ⟨"Alice", .name "Bob"⟩, "ECDH", common⟩)

/-- The common ids 4 and 5 come first at the host and stand in the same
order at the guest. -/
theorem predict_attributed_first :
    ∃ out, predict addModel (some (aliceBob [4, 5]))
        [⟨4, 10⟩, ⟨5, 20⟩, ⟨9, 30⟩] [⟨7, 3⟩, ⟨4, 1⟩, ⟨5, 2⟩] = .ok out
      ∧ Attributed addModel [⟨4, 10⟩, ⟨5, 20⟩, ⟨9, 30⟩]
          [⟨7, 3⟩, ⟨4, 1⟩, ⟨5, 2⟩] out := by
  have hexact : PsiExact (aliceBob [4, 5])
      ([⟨4, 10⟩, ⟨5, 20⟩, ⟨9, 30⟩] : List (Sample Nat Nat))
      ([⟨7, 3⟩, ⟨4, 1⟩, ⟨5, 2⟩] : List (Sample Nat Nat)) := by
    refine ⟨⟨[⟨4, 10⟩, ⟨5, 20⟩], by decide +kernel⟩,
      ⟨[⟨4, 1⟩, ⟨5, 2⟩], by decide +kernel⟩, ?_, ?_⟩
    · intro id
      simp [aliceBob]
      omega
    · intro id
      simp [aliceBob]
      omega
  have hboth := predict_attributed_iff addModel (some (aliceBob [4, 5]))
    [⟨4, 10⟩, ⟨5, 20⟩, ⟨9, 30⟩] [⟨7, 3⟩, ⟨4, 1⟩, ⟨5, 2⟩] (by decide)
    (by decide) fun runs hruns => Option.some.inj hruns ▸ hexact
  refine hboth.1.mpr ((hboth.2 ?_).mpr ⟨by decide, ?_, ?_, ?_⟩)
  · unfold Distinguishes
    decide
  · intro hnone
    cases hnone
  · unfold CommonFirst
    decide
  · have hcommon : ∀ z ∈ [4, 5, 9], z ∈ [7, 4, 5] → z = 4 ∨ z = 5 := by
      decide
    intro x y hx hx' hy hy'
    obtain rfl | rfl := hcommon x hx hx' <;>
      obtain rfl | rfl := hcommon y hy hy' <;> decide

/-- The only common id is in the host's second row; its prediction stands
beside the first. -/
theorem predict_not_attributed :
    PsiExact (aliceBob [4]) ([⟨9, 30⟩, ⟨4, 10⟩] : List (Sample Nat Nat))
        ([⟨4, 1⟩] : List (Sample Nat Nat))
    ∧ ¬ ∃ out, predict addModel (some (aliceBob [4])) [⟨9, 30⟩, ⟨4, 10⟩]
        [⟨4, 1⟩] = .ok out
      ∧ Attributed addModel [⟨9, 30⟩, ⟨4, 10⟩] [⟨4, 1⟩] out := by
  refine ⟨⟨⟨[⟨4, 10⟩], by decide +kernel⟩, ⟨[⟨4, 1⟩], by decide +kernel⟩,
    ?_, ?_⟩, ?_⟩
  · intro id
    simp [aliceBob]
    omega
  · intro id
    simp [aliceBob]
    omega
  intro h
  obtain ⟨out, hout, hright⟩ := h
  have hrow := hright.common 1 ⟨4, 10⟩ ⟨4, 1⟩ rfl (by decide) rfl
  have hwritten : predict addModel (some (aliceBob [4]))
      [⟨9, 30⟩, ⟨4, 10⟩] [⟨4, 1⟩]
      = .ok [(some ⟨9, 30⟩, some 11), (some ⟨4, 10⟩, none)] := by
    decide +kernel
  rw [hout] at hwritten
  injection hwritten with hwritten
  rw [hwritten] at hrow
  cases hrow

end PrimiHub.FL.Vertical
