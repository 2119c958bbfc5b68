/-
Which settings and which distributions of the rows make the horizontal fit
group as a fit on all rows (`groups_iff`).

Each branch of the search is brought to what it marks in terms of the
counts: without `max_categories` the categories of which something was
sent, but less than the threshold (`searched_below`); with it those that
are not among the first returned (`searched_outside`). The comparison with
the grouping of all rows is then one about counts (`grouping_below`,
`grouping_outside`).

The clients never send the count of nan, which is a category of
`OneHotEncoder`: without `max_categories` it is never marked and with it
always, whatever it counts.
-/
import PrimiHub.FL.Proofs.Encoder

namespace PrimiHub.FL.Encoder

open Lib Horizontal

variable {clients d : Nat} {β : Type} [LinearOrder β]

-- ============================================================ the condition

/-- What a client holds back, because it has enough of it, does not leave
the others with some but too little. -/
def BelowFits (settings : Settings) (parts : Fin clients → Table d β) :
    Prop :=
  ∀ j c, (∃ i, threshold settings (pooled parts).length
      ≤ (occurrences (parts i) j c : ℚ)) →
    sent (sends settings (pooled parts).length) parts j c = 0
    ∨ threshold settings (pooled parts).length
      ≤ (sent (sends settings (pooled parts).length) parts j c : ℚ)

/-- Where nan is a category, it reaches the threshold. -/
def MissingKept (settings : Settings) (X : Table d β) : Prop :=
  ∀ j, none ∈ grouped settings X j →
    threshold settings X.length ≤ ((column X j).count none : ℚ)

/-- Where nan is a category that reaches the threshold, the places are
taken by others that are at least as frequent. -/
def MissingOut (settings : Settings) (X : Table d β) : Prop :=
  ∀ j, none ∈ eligible settings X j →
    places settings (eligible settings X j).card
      ≤ (((eligible settings X j).erase none).filter fun x =>
        (column X j).count none ≤ (column X j).count x).card

/-- The sketch takes a float, the threshold is at least one, and no
category short of it by less than one takes a place that those with a value
leave free. -/
def FractionFits (lib : SketchLib (Option β)) (settings : Settings)
    (parts : Fin clients → Table d β) : Prop :=
  lib.takesFloat = true
  ∧ 1 ≤ threshold settings (pooled parts).length
  ∧ ∀ j,
    places settings (eligible settings (pooled parts) j).card
      ≤ ((eligible settings (pooled parts) j).erase none).card
    ∨ ∀ c, threshold settings (pooled parts).length - 1
          < (occurrences (pooled parts) j c : ℚ) →
        threshold settings (pooled parts).length
          ≤ (occurrences (pooled parts) j c : ℚ)

/-- When the fit groups as a fit on all rows. -/
structure Fits (lib : SketchLib (Option β)) (settings : Settings)
    (parts : Fin clients → Table d β) : Prop where
  clients : 0 < clients
  columns : 0 < d
  rows : ∀ i, parts i ≠ []
  grouping : match settings.maxCategories with
    | none => settings.minFrequency.isSome →
        BelowFits settings parts ∧ MissingKept settings (pooled parts)
    | some m =>
        if m.1 = 1 then
          settings.ignoreMissing = true →
            ∀ j, none ∉ column (pooled parts) j
        else match settings.minFrequency with
          | none => False
          | some (.count _ _) => MissingOut settings (pooled parts)
          | some (.fraction _ _) =>
              FractionFits lib settings parts
              ∧ MissingOut settings (pooled parts)

-- ================================================================== the rows

/-- The items of a column above a threshold, the most frequent first. -/
def frequentRows (lib : SketchLib (Option β)) (t : ℚ)
    (sketch : Tally (Option β)) : List (Option β × Nat) :=
  lib.order (sketch.entries.filter fun row => t < (row.2 : ℚ))

section Rows

variable (lib : SketchLib (Option β)) (f : Nat → Bool)
  (parts : Fin clients → Table d β) (j : Fin d)

theorem mem_frequentRows {t : ℚ} {x : Option β} {n : Nat} :
    (x, n) ∈ frequentRows lib t (mergedSketch f parts j)
      ↔ ∃ c ∈ values (column (pooled parts) j), x = some c
        ∧ n = sent f parts j c ∧ 0 < n ∧ t < (n : ℚ) := by
  rw [frequentRows, (lib.perm _).mem_iff, List.mem_filter,
    Tally.mem_entries_iff, decide_eq_true_eq]
  constructor
  · intro h
    obtain ⟨⟨hpos, hcount⟩, ht⟩ := h
    cases x with
    | none =>
        rw [count_mergedSketch_none] at hcount
        omega
    | some c =>
        rw [count_mergedSketch] at hcount
        have hle := sent_le f parts j c
        refine ⟨c, ?_, rfl, hcount.symm, hpos, ht⟩
        rw [mem_values]
        exact List.count_pos_iff.mp
          (Nat.lt_of_lt_of_le (hcount ▸ hpos) hle)
  · intro h
    obtain ⟨c, -, rfl, hn, hpos, ht⟩ := h
    exact ⟨⟨hpos, (count_mergedSketch f parts j c).trans hn.symm⟩, ht⟩

theorem nodup_frequentRows {β : Type} (lib : SketchLib (Option β)) (t : ℚ)
    (sketch : Tally (Option β)) :
    ((frequentRows lib t sketch).map Prod.fst).Nodup := by
  rw [frequentRows, ((lib.perm _).map Prod.fst).nodup_iff]
  exact sketch.nodup.sublist (List.filter_sublist.map Prod.fst)

/-- What the sketch returns for a column, cut at `max_item`. -/
def topRows (lib : SketchLib (Option β)) (maxItem : Option Nat) (t : ℚ)
    (sketch : Tally (Option β)) : List (Option β × Nat) :=
  match maxItem with
  | none => frequentRows lib t sketch
  | some k => (frequentRows lib t sketch).take k

theorem getColFrequentItems_eq_ok {β : Type}
    (lib : SketchLib (Option β)) (maxItem : Option Nat) {t : Number}
    (hfloat : t.isFloat = true → lib.takesFloat = true)
    (sketch : Tally (Option β)) :
    getColFrequentItems lib maxItem t sketch
      = .ok (topRows lib maxItem t.value sketch) := by
  have htake : ¬ (t.isFloat = true ∧ lib.takesFloat = false) := by
    intro h
    rw [hfloat h.1] at h
    cases h.2
  unfold getColFrequentItems SketchLib.getFrequentItems
  rw [if_neg htake]
  cases maxItem with
  | none => rfl
  | some k =>
      show Except.ok (if k < (frequentRows lib t.value sketch).length then
        (frequentRows lib t.value sketch).take k
        else frequentRows lib t.value sketch)
          = .ok ((frequentRows lib t.value sketch).take k)
      split
      · rfl
      · next h => rw [List.take_of_length_le (Nat.le_of_not_lt h)]

theorem checkFrequentParams_some (maxItem : Option Nat)
    (hitem : maxItem.any (· < 1) = false) (t : Number) :
    checkFrequentParams maxItem (some t)
      = if t.value < 1 then .error .valueError else .ok () :=
  if_neg (by rw [hitem]; exact Bool.false_ne_true)

theorem checkFrequentParams_none (maxItem : Option Nat) :
    ∃ e, checkFrequentParams maxItem none = .error e := by
  by_cases h : maxItem.any (· < 1) = true
  · exact ⟨_, if_pos h⟩
  · exact ⟨_, if_neg h⟩

theorem getFrequentItems_eq_ok {β : Type} (lib : SketchLib (Option β))
    {maxItem : Option Nat}
    (hitem : maxItem.any (· < 1) = false) {t : Number}
    (ht : 1 ≤ t.value) (hfloat : t.isFloat = true → lib.takesFloat = true)
    (sketch : Sketches d β) :
    getFrequentItems lib sketch maxItem (some t)
      = .ok fun j => topRows lib maxItem (t.value - 1) (sketch j) := by
  unfold getFrequentItems
  rw [checkFrequentParams_some maxItem hitem, if_neg (not_lt.mpr ht)]
  exact traverseFin_ok fun j =>
    getColFrequentItems_eq_ok lib maxItem (t := ⟨t.value - 1, t.isFloat⟩)
      hfloat (sketch j)

end Rows

-- ================================================================ the search

section Grouped

variable {settings : Settings} {X : Table d β} {j : Fin d} {x : Option β}

theorem mem_unique_of_grouped (h : x ∈ grouped settings X j) :
    x ∈ unique (column X j) := by
  unfold grouped at h
  split at h
  · obtain ⟨c, hc, rfl⟩ := List.mem_map.mp h
    exact mem_unique.mpr (mem_values.mp hc)
  · exact h

theorem not_ignored_of_grouped (h : none ∈ grouped settings X j) :
    settings.ignoreMissing = false := by
  unfold grouped at h
  split at h
  · obtain ⟨c, -, heq⟩ := List.mem_map.mp h
    cases heq
  · next hnot => exact Bool.eq_false_iff.mpr hnot

/-- The values that occur are all grouped. -/
theorem some_mem_grouped {c : β} :
    some c ∈ grouped settings X j ↔ c ∈ values (column X j) := by
  unfold grouped
  split
  · rw [List.mem_map]
    constructor
    · intro h
      obtain ⟨b, hb, heq⟩ := h
      exact Option.some.inj heq ▸ hb
    · exact fun h => ⟨c, h, rfl⟩
  · rw [mem_unique, mem_values]

/-- What holds of all that is grouped holds of the values, and of nan if it
is grouped. -/
theorem forall_grouped {P : Option β → Prop} :
    (∀ x ∈ grouped settings X j, P x)
      ↔ (∀ c ∈ values (column X j), P (some c))
        ∧ (none ∈ grouped settings X j → P none) := by
  constructor
  · exact fun h => ⟨fun c hc => h _ (some_mem_grouped.mpr hc), h none⟩
  · intro h x hx
    cases x with
    | none => exact h.2 hx
    | some c => exact h.1 c (some_mem_grouped.mp hx)

end Grouped

section Search

variable {lib : SketchLib (Option β)} {settings : Settings}
  {parts : Fin clients → Table d β}

variable (lib parts) in
/-- Without `max_categories` the search marks what was sent, but too
little. -/
theorem searched_below {f : MinFrequency}
    (hmax : settings.maxCategories = none)
    (hmin : settings.minFrequency = some f) :
    ∃ indices, searched lib settings parts = .ok indices
      ∧ (∀ j, ∀ i ∈ (indices j).getD [],
        i < (values (column (pooled parts) j)).length)
      ∧ ∀ j, ∀ x ∈ union parts j, Marks (union parts j) (indices j) x
        ↔ ∃ c, x = some c
          ∧ 0 < sent (sends settings (pooled parts).length) parts j c
          ∧ (sent (sends settings (pooled parts).length) parts j c : ℚ)
            < threshold settings (pooled parts).length := by
  have hcolumn : ∀ j, ∃ indices,
      infrequentBelow (threshold settings (pooled parts).length)
        (union parts j) (frequentRows lib (1 - 1) (mergedSketch
          (sends settings (pooled parts).length) parts j)) = .ok indices
      ∧ (∀ i ∈ indices.getD [],
        i < (values (column (pooled parts) j)).length)
      ∧ ∀ x ∈ union parts j, Marks (union parts j) indices x
        ↔ ∃ c, x = some c
          ∧ 0 < sent (sends settings (pooled parts).length) parts j c
          ∧ (sent (sends settings (pooled parts).length) parts j c : ℚ)
            < threshold settings (pooled parts).length := by
    intro j
    -- the sketch holds only values
    have hrows : ∀ row ∈ frequentRows lib (1 - 1) (mergedSketch
          (sends settings (pooled parts).length) parts j),
        ∃ c ∈ values (column (pooled parts) j), row.1 = some c := by
      intro row hrow
      obtain ⟨c, hc, hx, -⟩ := (mem_frequentRows lib _ parts j).mp hrow
      exact ⟨c, hc, hx⟩
    obtain ⟨indices, hok, hlt, hmarks⟩ := infrequentBelow_spec hrows
      (lib.sorted _) (threshold settings (pooled parts).length)
    refine ⟨indices, hok, hlt, fun x hx => (hmarks x hx).trans ?_⟩
    constructor
    · intro h
      obtain ⟨n, hrow, hn⟩ := h
      obtain ⟨b, -, hb, rfl, hpos, -⟩ :=
        (mem_frequentRows lib _ parts j).mp hrow
      exact ⟨b, hb, hpos, hn⟩
    · intro h
      obtain ⟨c, rfl, hpos, hn⟩ := h
      have hc : c ∈ values (column (pooled parts) j) :=
        mem_values.mpr (mem_unique.mp hx)
      refine ⟨_, (mem_frequentRows lib _ parts j).mpr
        ⟨c, hc, rfl, rfl, hpos, ?_⟩, hn⟩
      rw [sub_self]
      exact Nat.cast_pos.mpr hpos
  choose indices hok hlt hmarks using hcolumn
  refine ⟨indices, ?_, hlt, hmarks⟩
  unfold searched infrequentIndices
  rw [hmax, number_eq_some hmin]
  show (getFrequentItems lib _ none (some ⟨1, false⟩) >>= _) = _
  rw [getFrequentItems_eq_ok lib rfl (le_refl (1 : ℚ))
    (fun h => absurd h Bool.false_ne_true)]
  exact traverseFin_ok hok

/-- `max_item` is at least one. -/
theorem any_pred_lt_one {m : {m : Nat // 1 ≤ m}} (hm : m.1 ≠ 1) :
    (some (m.1 - 1)).any (fun k => decide (k < 1)) = false := by
  have hpos := m.2
  show decide (m.1 - 1 < 1) = false
  rw [decide_eq_false_iff_not]
  omega

/-- The items with a place of their own, if there are so many. -/
def kept (lib : SketchLib (Option β)) (settings : Settings)
    (parts : Fin clients → Table d β) (m : Nat) (j : Fin d) :
    List (Option β × Nat) :=
  topRows lib (some (m - 1))
    (threshold settings (pooled parts).length - 1)
    (mergedSketch (fun _ => true) parts j)

/-- With `max_categories` the search marks what has no place of its
own. -/
theorem searched_outside {m : {m : Nat // 1 ≤ m}} {f : MinFrequency}
    (hmax : settings.maxCategories = some m) (hm : m.1 ≠ 1)
    (hmin : settings.minFrequency = some f)
    (hthr : 1 ≤ threshold settings (pooled parts).length)
    (hfloat : settings.isFraction = true → lib.takesFloat = true) :
    ∃ indices, searched lib settings parts = .ok indices
      ∧ (∀ j, ∀ i ∈ (indices j).getD [],
        i < nCats (union parts j)
          (settings.missingIndices (union parts) j))
      ∧ ∀ j, ∀ x ∈ grouped settings (pooled parts) j,
        Marks (union parts j) (indices j) x
          ↔ x ∉ (kept lib settings parts m.1 j).map Prod.fst := by
  -- a limit on the categories asks for all counts
  have hsends : sends settings (pooled parts).length
      = fun _ => true := by
    funext count
    rw [sends, hmax]
    rfl
  have hcolumn : ∀ j, ∃ indices,
      infrequentOutside (union parts j)
          (settings.missingIndices (union parts) j)
          (kept lib settings parts m.1 j)
        = .ok indices
      ∧ (∀ i ∈ indices.getD [], i < nCats (union parts j)
          (settings.missingIndices (union parts) j))
      ∧ ∀ x ∈ grouped settings (pooled parts) j,
        Marks (union parts j) indices x
          ↔ x ∉ (kept lib settings parts m.1 j).map Prod.fst := by
    intro j
    have hmissing : settings.missingIndices (union parts) j = none
        ∨ settings.missingIndices (union parts) j
          = missingIndex (unique (column (pooled parts) j)) := by
      unfold Settings.missingIndices
      split
      · exact Or.inr rfl
      · exact Or.inl rfl
    -- what is kept are values, never a missing one
    have hrows : ∀ row ∈ kept lib settings parts m.1 j,
        ∃ c ∈ values (column (pooled parts) j), row.1 = some c := by
      intro row hrow
      obtain ⟨c, hc, hx, -⟩ := (mem_frequentRows lib _ parts j).mp
        (List.mem_of_mem_take hrow)
      exact ⟨c, hc, hx⟩
    obtain ⟨indices, hok, hlt, hmarks⟩ :=
      infrequentOutside_spec hmissing hrows
    refine ⟨indices, hok, hlt, fun x hx =>
      hmarks x (mem_unique_of_grouped hx) fun hnan => ?_⟩
    rw [Settings.missingIndices, not_ignored_of_grouped (hnan ▸ hx)]
    rfl
  choose indices hok hlt hmarks using hcolumn
  refine ⟨indices, ?_, hlt, hmarks⟩
  unfold searched infrequentIndices
  rw [hmax, number_eq_some hmin, hsends]
  show (getFrequentItems lib _ (some (m.1 - 1)) _ >>= _) = _
  rw [getFrequentItems_eq_ok lib (any_pred_lt_one hm) hthr hfloat]
  exact traverseFin_ok hok

variable (lib parts) in
/-- `max_categories` alone is refused. -/
theorem searched_none {m : {m : Nat // 1 ≤ m}}
    (hmax : settings.maxCategories = some m)
    (hmin : settings.minFrequency = none) :
    ∃ e, searched lib settings parts = .error e := by
  unfold searched infrequentIndices number
  rw [hmax, hmin]
  obtain ⟨e, he⟩ := checkFrequentParams_none (some (m.1 - 1))
  refine ⟨e, ?_⟩
  show (getFrequentItems lib _ (some (m.1 - 1)) none >>= _) = .error e
  unfold getFrequentItems
  rw [he]
  rfl

/-- A threshold below one is refused, and a float where the sketch does
not take it. -/
theorem searched_refused {m : {m : Nat // 1 ≤ m}} {f : MinFrequency}
    (hmax : settings.maxCategories = some m) (hm : m.1 ≠ 1)
    (hmin : settings.minFrequency = some f) (hd : 0 < d)
    (h : threshold settings (pooled parts).length < 1
      ∨ settings.isFraction = true ∧ lib.takesFloat = false) :
    ∃ e, searched lib settings parts = .error e := by
  unfold searched infrequentIndices
  rw [hmax, number_eq_some hmin]
  show ∃ e, (getFrequentItems lib _ (some (m.1 - 1)) _ >>= _) = .error e
  unfold getFrequentItems
  rw [checkFrequentParams_some _ (any_pred_lt_one hm)]
  by_cases hthr : threshold settings (pooled parts).length < 1
  · rw [if_pos hthr]
    exact ⟨.valueError, rfl⟩
  · rw [if_neg hthr]
    have hfloat := h.resolve_left hthr
    have hcolumn : getColFrequentItems lib (some (m.1 - 1))
        ⟨threshold settings (pooled parts).length - 1,
          settings.isFraction⟩
        (mergedSketch (sends settings (pooled parts).length) parts
          ⟨0, hd⟩) = .error .typeError := by
      unfold getColFrequentItems SketchLib.getFrequentItems
      rw [if_pos hfloat]
      rfl
    obtain ⟨e, he⟩ := traverseFin_error (f := fun j =>
      getColFrequentItems lib (some (m.1 - 1))
        ⟨threshold settings (pooled parts).length - 1,
          settings.isFraction⟩
        (mergedSketch (sends settings (pooled parts).length) parts j))
      hcolumn
    refine ⟨e, ?_⟩
    show (traverseFin _ >>= _) = _
    rw [he]
    rfl

end Search

-- =============================================================== the grouping

section Groupings

variable {settings : Settings} {X : Table d β} {j : Fin d}
  {marked : Option β → Prop}

theorem mem_eligible {x : Option β} :
    x ∈ eligible settings X j
      ↔ x ∈ grouped settings X j
        ∧ threshold settings X.length ≤ ((column X j).count x : ℚ) := by
  rw [eligible, Finset.mem_filter, List.mem_toFinset]

/-- Without `max_categories`, what is below the threshold is marked. -/
theorem grouping_below (hmax : settings.maxCategories = none) :
    Grouping settings X j marked ↔ ∀ x ∈ grouped settings X j,
      marked x ↔ ((column X j).count x : ℚ) < threshold settings X.length := by
  have hplaces : places settings (eligible settings X j).card
      = (eligible settings X j).card := by
    rw [places, hmax]
  have heligible : ∀ x ∈ grouped settings X j, x ∉ eligible settings X j
      ↔ ((column X j).count x : ℚ) < threshold settings X.length := by
    intro x hx
    rw [mem_eligible, not_and, not_le]
    exact ⟨fun h => h hx, fun h _ => h⟩
  unfold Grouping
  rw [hplaces]
  constructor
  · intro h x hx
    obtain ⟨frequent, htop, hmarked⟩ := h
    have hall : frequent = eligible settings X j :=
      Finset.eq_of_subset_of_card_le htop.subset
        (by rw [htop.card_eq, min_self])
    rw [hmarked x hx, hall]
    exact heligible x hx
  · intro h
    refine ⟨eligible settings X j,
      ⟨subset_rfl, (min_self _).symm, fun a _ b hb hnot => absurd hb hnot⟩,
      fun x hx => ?_⟩
    rw [h x hx, heligible x hx]

/-- The set of what is not marked decides. -/
theorem grouping_iff_isTop {frequent : Finset (Option β)}
    (hfrequent : ∀ x ∈ frequent, x ∈ grouped settings X j)
    (hmarked : ∀ x ∈ grouped settings X j, marked x ↔ x ∉ frequent) :
    Grouping settings X j marked
      ↔ IsTop (places settings (eligible settings X j).card)
        (column X j).count (eligible settings X j) frequent := by
  constructor
  · intro h
    obtain ⟨other, htop, hother⟩ := h
    have heq : frequent = other := by
      ext x
      constructor
      · intro hx
        by_contra hnot
        exact (hmarked x (hfrequent x hx)).mp
          ((hother x (hfrequent x hx)).mpr hnot) hx
      · intro hx
        have hgrouped := (mem_eligible.mp (htop.subset hx)).1
        by_contra hnot
        exact (hother x hgrouped).mp ((hmarked x hgrouped).mpr hnot) hx
    exact heq ▸ htop
  · exact fun htop => ⟨frequent, htop, hmarked⟩

end Groupings

section Kept

variable {lib : SketchLib (Option β)} {settings : Settings}
  {parts : Fin clients → Table d β} {m : {m : Nat // 1 ≤ m}} {j : Fin d}

/-- The values of a column short of the threshold by less than one, or
above it. -/
def nearly (settings : Settings) (X : Table d β) (j : Fin d) :
    Finset (Option β) :=
  ((values (column X j)).map some).toFinset.filter fun x =>
    threshold settings X.length - 1 < ((column X j).count x : ℚ)

theorem mem_nearly {X : Table d β} {x : Option β} :
    x ∈ nearly settings X j
      ↔ (∃ c ∈ values (column X j), x = some c)
        ∧ threshold settings X.length - 1 < ((column X j).count x : ℚ) := by
  rw [nearly, Finset.mem_filter, List.mem_toFinset, List.mem_map]
  simp only [eq_comm]

/-- What keeps its place are the most frequent of these. -/
theorem isTop_kept (lib : SketchLib (Option β)) (settings : Settings)
    (parts : Fin clients → Table d β) (m : Nat) (j : Fin d) :
    IsTop (m - 1) (column (pooled parts) j).count
      (nearly settings (pooled parts) j)
      ((kept lib settings parts m j).map Prod.fst).toFinset := by
  have hrow : ∀ x n, (x, n) ∈ frequentRows lib
        (threshold settings (pooled parts).length - 1)
        (mergedSketch (fun _ => true) parts j)
      ↔ x ∈ nearly settings (pooled parts) j
        ∧ n = (column (pooled parts) j).count x := by
    intro x n
    rw [mem_frequentRows, mem_nearly]
    constructor
    · intro h
      obtain ⟨c, hc, rfl, hn, -, ht⟩ := h
      rw [sent_all] at hn
      subst hn
      exact ⟨⟨⟨c, hc, rfl⟩, ht⟩, rfl⟩
    · intro h
      obtain ⟨⟨⟨c, hc, rfl⟩, ht⟩, rfl⟩ := h
      exact ⟨c, hc, rfl, (sent_all parts j c).symm,
        List.count_pos_iff.mpr (mem_values.mp hc), ht⟩
  have heligible : ((frequentRows lib
      (threshold settings (pooled parts).length - 1)
      (mergedSketch (fun _ => true) parts j)).map Prod.fst).toFinset
        = nearly settings (pooled parts) j := by
    ext x
    rw [List.mem_toFinset, List.mem_map]
    constructor
    · intro h
      obtain ⟨row, hmem, rfl⟩ := h
      exact ((hrow row.1 row.2).mp hmem).1
    · exact fun h => ⟨(x, _), (hrow x _).mpr ⟨h, rfl⟩, rfl⟩
  rw [← heligible]
  exact isTop_take (nodup_frequentRows lib _ _) (lib.sorted _)
    (fun row hmem => ((hrow row.1 row.2).mp hmem).2.symm) (m - 1)

/-- The most frequent of the eligible values keep their places unless a
category short of the threshold takes a free place. -/
theorem isTop_values_iff (hthr : 1 ≤ threshold settings (pooled parts).length)
    (n : Nat) {top : Finset (Option β)}
    (htop : IsTop n (column (pooled parts) j).count
      (nearly settings (pooled parts) j) top) :
    IsTop n (column (pooled parts) j).count
        ((eligible settings (pooled parts) j).erase none) top
      ↔ n ≤ ((eligible settings (pooled parts) j).erase none).card
        ∨ ∀ c, threshold settings (pooled parts).length - 1
              < (occurrences (pooled parts) j c : ℚ) →
            threshold settings (pooled parts).length
              ≤ (occurrences (pooled parts) j c : ℚ) := by
  have hsub : (eligible settings (pooled parts) j).erase none
      ⊆ nearly settings (pooled parts) j := by
    intro x hx
    obtain ⟨hne, hx⟩ := Finset.mem_erase.mp hx
    obtain ⟨hgrouped, hle⟩ := mem_eligible.mp hx
    obtain ⟨c, rfl⟩ := Option.ne_none_iff_exists'.mp hne
    exact mem_nearly.mpr ⟨⟨c, some_mem_grouped.mp hgrouped, rfl⟩,
      lt_of_lt_of_le (sub_one_lt _) hle⟩
  have hvalue : ∀ x ∈ nearly settings (pooled parts) j,
      x ∉ (eligible settings (pooled parts) j).erase none →
      ((column (pooled parts) j).count x : ℚ)
        < threshold settings (pooled parts).length := by
    intro x hx hnot
    obtain ⟨⟨c, hc, rfl⟩, -⟩ := mem_nearly.mp hx
    by_contra hle
    exact hnot (Finset.mem_erase.mpr ⟨Option.some_ne_none c,
      mem_eligible.mpr ⟨some_mem_grouped.mpr hc, not_lt.mp hle⟩⟩)
  constructor
  · intro h
    by_contra hnot
    rw [not_or, not_le] at hnot
    obtain ⟨hfree, hshort⟩ := hnot
    -- a category short of the threshold, so one more than are eligible
    obtain ⟨c, hc⟩ := not_forall.mp hshort
    obtain ⟨hlow, hshort⟩ := Classical.not_imp.mp hc
    have hpos : 0 < occurrences (pooled parts) j c := by
      have hpos : (0 : ℚ) < occurrences (pooled parts) j c :=
        lt_of_le_of_lt (sub_nonneg.mpr hthr) hlow
      exact Nat.cast_pos.mp hpos
    have hmem : some c ∈ nearly settings (pooled parts) j :=
      mem_nearly.mpr ⟨⟨c, mem_values.mpr (List.count_pos_iff.mp hpos),
        rfl⟩, hlow⟩
    have hcard : ((eligible settings (pooled parts) j).erase none).card
        < (nearly settings (pooled parts) j).card :=
      Finset.card_lt_card (Finset.ssubset_iff_subset_ne.mpr ⟨hsub, by
        intro heq
        rw [← heq] at hmem
        exact hshort (mem_eligible.mp (Finset.mem_of_mem_erase hmem)).2⟩)
    have hone := h.card_eq
    have htwo := htop.card_eq
    omega
  · intro h
    obtain h | h := h
    · refine htop.of_superset hsub h fun a ha hnot b hb => ?_
      have hle := (mem_eligible.mp (Finset.mem_of_mem_erase hb)).2
      exact Nat.cast_lt.mp (lt_of_lt_of_le (hvalue a ha hnot) hle)
    · have heq : nearly settings (pooled parts) j
          = (eligible settings (pooled parts) j).erase none := by
        refine Finset.Subset.antisymm (fun x hx => ?_) hsub
        by_contra hnot
        obtain ⟨⟨c, -, rfl⟩, hlow⟩ := mem_nearly.mp hx
        exact not_lt.mpr (h c hlow) (hvalue _ hx hnot)
      rw [← heq]
      exact htop

/-- With `max_categories`, the grouping is that of all rows unless a
category short of the threshold takes a free place, or nan should have
one. -/
theorem grouping_outside {marked : Option β → Prop}
    (hmax : settings.maxCategories = some m)
    (hthr : 1 ≤ threshold settings (pooled parts).length)
    (hmarked : ∀ x ∈ grouped settings (pooled parts) j, marked x
      ↔ x ∉ (kept lib settings parts m.1 j).map Prod.fst) :
    Grouping settings (pooled parts) j marked
      ↔ (places settings (eligible settings (pooled parts) j).card
            ≤ ((eligible settings (pooled parts) j).erase none).card
          ∨ ∀ c, threshold settings (pooled parts).length - 1
                < (occurrences (pooled parts) j c : ℚ) →
              threshold settings (pooled parts).length
                ≤ (occurrences (pooled parts) j c : ℚ))
        ∧ (none ∈ eligible settings (pooled parts) j →
          places settings (eligible settings (pooled parts) j).card
            ≤ (((eligible settings (pooled parts) j).erase none).filter
              fun x => (column (pooled parts) j).count none
                ≤ (column (pooled parts) j).count x).card) := by
  have htop := isTop_kept lib settings parts m.1 j
  have hvalue : ∀ x ∈ ((kept lib settings parts m.1 j).map
      Prod.fst).toFinset, ∃ c ∈ values (column (pooled parts) j),
        x = some c := fun x hx =>
    (mem_nearly.mp (htop.subset hx)).1
  have hgrouped : ∀ x ∈ ((kept lib settings parts m.1 j).map
      Prod.fst).toFinset, x ∈ grouped settings (pooled parts) j := by
    intro x hx
    obtain ⟨c, hc, rfl⟩ := hvalue x hx
    exact some_mem_grouped.mpr hc
  have hnone : none ∉ ((kept lib settings parts m.1 j).map
      Prod.fst).toFinset := by
    intro hx
    obtain ⟨c, -, heq⟩ := hvalue none hx
    cases heq
  rw [grouping_iff_isTop hgrouped fun x hx => by
      rw [hmarked x hx, List.mem_toFinset],
    places, hmax]
  show IsTop (m.1 - 1) _ _ _ ↔ (m.1 - 1 ≤ _ ∨ _) ∧ (_ → m.1 - 1 ≤ _)
  rw [← isTop_values_iff hthr (m.1 - 1) htop]
  by_cases hmem : none ∈ eligible settings (pooled parts) j
  · rw [isTop_erase_iff hmem hnone]
    exact and_congr_right fun _ => ⟨fun h _ => h, fun h => h hmem⟩
  · rw [Finset.erase_eq_of_notMem hmem]
    exact ⟨fun h => ⟨h, fun h => absurd h hmem⟩, fun h => h.1⟩

end Kept

-- ================================================================= below

section Below

variable {settings : Settings} {parts : Fin clients → Table d β}

/-- A client has no more of a category than there is. -/
theorem occurrences_le (i : Fin clients) (j : Fin d) (c : β) :
    occurrences (parts i) j c ≤ occurrences (pooled parts) j c := by
  have hsub : (parts i).Sublist (pooled parts) := by
    rw [pooled, List.flatMap]
    exact List.sublist_flatten_of_mem
      (List.mem_map.mpr ⟨.client i, mem_allClients i, rfl⟩)
  exact (hsub.map fun row : Fin d → Option β => row j).count_le _

/-- If no client has enough of a category, all of it is sent. -/
theorem sent_eq_occurrences {f : Nat → Bool} {j : Fin d} {c : β}
    (h : ∀ i, f (occurrences (parts i) j c) = true) :
    sent f parts j c = occurrences (pooled parts) j c := by
  rw [← sent_all, sent, sent]
  congr 1
  refine List.map_congr_left fun p hp => ?_
  obtain ⟨i, -, rfl⟩ := List.mem_map.mp hp
  exact if_congr (iff_of_true (h i) rfl) rfl rfl

/-- Without `max_categories`, the search marks what is below the threshold
exactly if what is held back does not matter. -/
theorem belowFits_iff (hmax : settings.maxCategories = none)
    (hthr : 0 < threshold settings (pooled parts).length) :
    BelowFits settings parts
      ↔ ∀ j, ∀ c ∈ values (column (pooled parts) j),
        (0 < sent (sends settings (pooled parts).length) parts j c
          ∧ (sent (sends settings (pooled parts).length) parts j c : ℚ)
            < threshold settings (pooled parts).length)
        ↔ (occurrences (pooled parts) j c : ℚ)
          < threshold settings (pooled parts).length := by
  have hsends : ∀ n : Nat, sends settings (pooled parts).length n = true
      ↔ (n : ℚ) < threshold settings (pooled parts).length := by
    intro n
    rw [sends, if_pos hmax, decide_eq_true_eq]
  constructor
  · intro h j c hc
    by_cases henough : ∃ i, threshold settings (pooled parts).length
        ≤ (occurrences (parts i) j c : ℚ)
    · obtain ⟨i, hi⟩ := henough
      have hall : threshold settings (pooled parts).length
          ≤ (occurrences (pooled parts) j c : ℚ) :=
        hi.trans (Nat.cast_le.mpr (occurrences_le i j c))
      refine iff_of_false (fun hsent => ?_) (not_lt.mpr hall)
      obtain hzero | hle := h j c ⟨i, hi⟩
      · omega
      · exact absurd hsent.2 (not_lt.mpr hle)
    · have hsent : sent (sends settings (pooled parts).length) parts j c
          = occurrences (pooled parts) j c :=
        sent_eq_occurrences fun i => (hsends _).mpr
          (not_le.mp fun hle => henough ⟨i, hle⟩)
      rw [hsent]
      exact and_iff_right (List.count_pos_iff.mpr (mem_values.mp hc))
  · intro h j c henough
    obtain ⟨i, hi⟩ := henough
    have hall : threshold settings (pooled parts).length
        ≤ (occurrences (pooled parts) j c : ℚ) :=
      hi.trans (Nat.cast_le.mpr (occurrences_le i j c))
    have hpos : 0 < occurrences (pooled parts) j c :=
      Nat.cast_pos.mp (lt_of_lt_of_le hthr hall)
    have hnot : ¬ _ := fun hsent => not_lt.mpr hall
      ((h j c (mem_values.mpr (List.count_pos_iff.mp hpos))).mp hsent)
    obtain hzero | hsome := Nat.eq_zero_or_pos
      (sent (sends settings (pooled parts).length) parts j c)
    · exact Or.inl hzero
    · exact Or.inr (not_lt.mp fun hlt => hnot ⟨hsome, hlt⟩)

end Below

-- ================================================================= the result

section Result

variable {lib : SketchLib (Option β)} {settings : Settings}
  {parts : Fin clients → Table d β}

/-- The rest of the fit does not fail if no index is that of nan. -/
theorem encoding_eq_ok {indices : Fin d → Option (List Nat)}
    (h : ∀ j, ∀ i ∈ (indices j).getD [], i < nCats (union parts j)
      (settings.missingIndices (union parts) j)) :
    ∃ mappings, encoding settings (union parts) indices
      = .ok ⟨union parts, settings.missingIndices (union parts),
        some indices, some mappings⟩ := by
  choose mappings hmappings using fun j => infrequentMapping_ok (h j)
  refine ⟨mappings, ?_⟩
  unfold encoding
  rw [traverseFin_ok hmappings]
  rfl

/-- A search that succeeds decides by what it marks. -/
theorem groups_iff_grouping (hclients : 0 < clients) (hd : 0 < d)
    (hrows : ∀ i, parts i ≠ []) (hsearch : settings.searches)
    {indices : Fin d → Option (List Nat)}
    (hfound : searched lib settings parts = .ok indices)
    (hlt : ∀ j, ∀ i ∈ (indices j).getD [], i < nCats (union parts j)
      (settings.missingIndices (union parts) j)) :
    Groups lib settings parts ↔ ∀ j, Grouping settings (pooled parts) j
      (Marks (union parts j) (indices j)) := by
  obtain ⟨mappings, hr⟩ := encoding_eq_ok hlt
  unfold Groups
  rw [(hfit_agree hclients hd hrows hsearch hfound hr).iff_of_eq]
  constructor
  · exact fun h => h.infrequent indices rfl
  · intro h
    refine ⟨fun j => rfl, hsearch.1.symm, ?_⟩
    intro others hothers
    obtain rfl := Option.some.inj hothers
    exact h

theorem values_length_le_missing (j : Fin d) :
    (values (column (pooled parts) j)).length ≤ nCats (union parts j)
      (settings.missingIndices (union parts) j) := by
  refine values_length_le_nCats ?_
  unfold Settings.missingIndices
  split
  · exact Or.inr rfl
  · exact Or.inl rfl

/-- A table of clients with rows has rows. -/
theorem pooled_length_pos {β : Type} {parts : Fin clients → Table d β}
    (hclients : 0 < clients) (hrows : ∀ i, parts i ≠ []) :
    0 < (pooled parts).length := by
  have hrow := hrows ⟨0, hclients⟩
  obtain ⟨row, hrow⟩ := List.exists_mem_of_ne_nil _ hrow
  exact List.length_pos_of_mem (List.mem_flatMap.mpr
    ⟨.client ⟨0, hclients⟩, mem_allClients _, hrow⟩)

/-- The threshold is positive. -/
theorem threshold_pos {f : MinFrequency}
    (hmin : settings.minFrequency = some f) {n : Nat} (hn : 0 < n) :
    0 < threshold settings n := by
  unfold threshold
  rw [hmin]
  cases f with
  | count k h => exact Nat.cast_pos.mpr h
  | fraction q h =>
      obtain ⟨hpos, -, hdouble⟩ := h
      have hle : q ≤ q * castDouble n :=
        le_mul_of_one_le_right hpos.le (one_le_castDouble hn)
      exact roundToDouble_pos
        (le_trans (le_of_roundToDouble_eq hpos hdouble) hle)

/-- Without `min_frequency` and `max_categories` nothing is grouped. -/
theorem groups_disabled (hclients : 0 < clients) (hd : 0 < d)
    (hrows : ∀ i, parts i ≠ []) (hmax : settings.maxCategories = none)
    (hmin : settings.minFrequency = none) : Groups lib settings parts := by
  have hdisabled : settings.infrequentEnabled = false := by
    rw [Settings.infrequentEnabled, hmax, hmin]
    rfl
  have hagree : Agree (hfit lib settings parts) (· = ⟨union parts,
      settings.missingIndices (union parts), none, none⟩) :=
    hfit_agree_of_group hclients hd hrows fun search => by
      unfold group
      rw [if_neg (by rw [hdisabled]; exact Bool.false_ne_true)]
      rfl
  exact hagree.iff_of_eq.mpr
    ⟨fun j => rfl, hdisabled.symm, fun indices h =>
      absurd h.symm (Option.some_ne_none indices)⟩

/-- Without `max_categories`. -/
theorem groups_below {f : MinFrequency} (hclients : 0 < clients)
    (hd : 0 < d) (hrows : ∀ i, parts i ≠ [])
    (hmax : settings.maxCategories = none)
    (hmin : settings.minFrequency = some f) :
    Groups lib settings parts
      ↔ BelowFits settings parts
        ∧ MissingKept settings (pooled parts) := by
  have hsearch : settings.searches := by
    unfold Settings.searches Settings.infrequentEnabled
    rw [hmax, hmin]
    exact ⟨rfl, rfl⟩
  obtain ⟨indices, hfound, hlt, hmarks⟩ :=
    searched_below lib parts hmax hmin
  rw [groups_iff_grouping hclients hd hrows hsearch hfound fun j i hi =>
    Nat.lt_of_lt_of_le (hlt j i hi) (values_length_le_missing j),
    belowFits_iff hmax
      (threshold_pos hmin (pooled_length_pos hclients hrows)),
    MissingKept, ← forall_and]
  refine forall_congr' fun j => ?_
  rw [grouping_below hmax, forall_grouped]
  refine and_congr (forall_congr' fun c => forall_congr' fun hc => ?_)
    (forall_congr' fun hnan => ?_)
  · rw [hmarks j _ (mem_unique.mpr (mem_values.mp hc))]
    refine iff_congr ⟨fun h => ?_, fun h => ⟨c, rfl, h⟩⟩ Iff.rfl
    obtain ⟨b, heq, hb⟩ := h
    exact Option.some.inj heq ▸ hb
  · -- nan is not marked
    rw [hmarks j _ (mem_unique_of_grouped hnan), ← not_lt]
    refine ⟨fun h hlt => ?_, fun h => iff_of_false ?_ h⟩
    · obtain ⟨b, heq, -⟩ := h.mpr hlt
      cases heq
    · intro hmarked
      obtain ⟨b, heq, -⟩ := hmarked
      cases heq

/-- With one place, which is that of the group. -/
theorem groups_all {m : {m : Nat // 1 ≤ m}} (hclients : 0 < clients)
    (hd : 0 < d) (hrows : ∀ i, parts i ≠ [])
    (hmax : settings.maxCategories = some m) (hm : m.1 = 1) :
    Groups lib settings parts
      ↔ (settings.ignoreMissing = true →
        ∀ j, none ∉ column (pooled parts) j) := by
  have hgroup : ∀ search : Action clients d β (Fin d → Option (List Nat)),
      group settings (union parts) search = Proc.lift
        (encoding settings (union parts) (allInfrequent (union parts))) := by
    intro search
    unfold group
    rw [if_pos (by
        rw [Settings.infrequentEnabled, hmax, Bool.or_eq_true]
        exact Or.inl (decide_eq_true m.2)),
      if_pos (by
        rw [hmax]
        exact decide_eq_true hm)]
  constructor
  · intro hgroups hignore j hnan
    -- the index of nan is among the infrequent ones
    have hmapping : infrequentMapping (union parts j)
        (settings.missingIndices (union parts) j)
        (allInfrequent (union parts) j) = .error .indexError := by
      rw [Settings.missingIndices, if_pos hignore]
      exact infrequentMapping_range hnan
    obtain ⟨e, he⟩ := traverseFin_error (f := fun j =>
      infrequentMapping (union parts j)
        (settings.missingIndices (union parts) j)
        (allInfrequent (union parts) j)) hmapping
    refine hfit_not_agree_of_group hclients hd hrows (e := e)
      (fun search => ?_) hgroups
    rw [hgroup]
    unfold encoding
    rw [he]
    rfl
  · intro hnan
    have hlt : ∀ j, ∀ i ∈ (allInfrequent (union parts) j).getD [],
        i < nCats (union parts j)
          (settings.missingIndices (union parts) j) := by
      intro j i hi
      have hmissing : settings.missingIndices (union parts) j = none := by
        unfold Settings.missingIndices
        split
        · next hignore =>
          rw [union, missingIndex_unique, if_neg (hnan hignore j)]
        · rfl
      rw [hmissing]
      exact List.mem_range.mp hi
    obtain ⟨mappings, hr⟩ := encoding_eq_ok hlt
    have hagree : Agree (hfit lib settings parts) (· = ⟨union parts,
        settings.missingIndices (union parts),
        some (allInfrequent (union parts)), some mappings⟩) :=
      hfit_agree_of_group hclients hd hrows fun search => by
        rw [hgroup search, hr]
        rfl
    refine hagree.iff_of_eq.mpr ⟨fun j => rfl, ?_, ?_⟩
    · rw [Settings.infrequentEnabled, hmax]
      exact (Bool.or_eq_true_iff.mpr (Or.inl (decide_eq_true m.2))).symm
    · intro indices hindices j
      obtain rfl := Option.some.inj hindices
      refine ⟨∅, ⟨Finset.empty_subset _, ?_, fun a ha =>
        absurd ha (Finset.notMem_empty a)⟩, fun c hc => ?_⟩
      · rw [places, hmax, Finset.card_empty]
        show 0 = min (m.1 - 1) _
        rw [hm]
        exact (Nat.zero_min _).symm
      · exact iff_of_true (marks_range (mem_unique_of_grouped hc))
          (Finset.notMem_empty c)

theorem searches_of_some {m : {m : Nat // 1 ≤ m}}
    (hmax : settings.maxCategories = some m) (hm : m.1 ≠ 1) :
    settings.searches := by
  unfold Settings.searches Settings.infrequentEnabled
  rw [hmax]
  exact ⟨Bool.or_eq_true_iff.mpr (Or.inl (decide_eq_true m.2)),
    decide_eq_false hm⟩

/-- With several places. -/
theorem groups_outside {m : {m : Nat // 1 ≤ m}} {f : MinFrequency}
    (hclients : 0 < clients) (hd : 0 < d) (hrows : ∀ i, parts i ≠ [])
    (hmax : settings.maxCategories = some m) (hm : m.1 ≠ 1)
    (hmin : settings.minFrequency = some f) :
    Groups lib settings parts
      ↔ (settings.isFraction = true → lib.takesFloat = true)
        ∧ 1 ≤ threshold settings (pooled parts).length
        ∧ (∀ j,
          places settings (eligible settings (pooled parts) j).card
            ≤ ((eligible settings (pooled parts) j).erase none).card
          ∨ ∀ c, threshold settings (pooled parts).length - 1
                < (occurrences (pooled parts) j c : ℚ) →
              threshold settings (pooled parts).length
                ≤ (occurrences (pooled parts) j c : ℚ))
        ∧ MissingOut settings (pooled parts) := by
  have hsearch := searches_of_some hmax hm
  by_cases hok : (settings.isFraction = true → lib.takesFloat = true)
      ∧ 1 ≤ threshold settings (pooled parts).length
  · obtain ⟨indices, hfound, hlt, hmarks⟩ :=
      searched_outside hmax hm hmin hok.2 hok.1
    rw [groups_iff_grouping hclients hd hrows hsearch hfound hlt]
    constructor
    · intro h
      have hcolumn := fun j =>
        (grouping_outside hmax hok.2 (hmarks j)).mp (h j)
      exact ⟨hok.1, hok.2, fun j => (hcolumn j).1, fun j => (hcolumn j).2⟩
    · exact fun h j => (grouping_outside hmax hok.2 (hmarks j)).mpr
        ⟨h.2.2.1 j, h.2.2.2 j⟩
  · refine iff_of_false ?_ fun h => hok ⟨h.1, h.2.1⟩
    have hrefused : threshold settings (pooled parts).length < 1
        ∨ settings.isFraction = true ∧ lib.takesFloat = false := by
      by_contra hnot
      rw [not_or, not_lt] at hnot
      refine hok ⟨fun hfraction => ?_, hnot.1⟩
      by_contra hfloat
      exact hnot.2 ⟨hfraction, Bool.eq_false_iff.mpr hfloat⟩
    obtain ⟨e, he⟩ := searched_refused hmax hm hmin hd hrefused
    exact hfit_not_agree hclients hd hrows hsearch he

/-- A whole number short of a whole threshold is so by at least one. -/
theorem groups_outside_count {m : {m : Nat // 1 ≤ m}} {n : Nat}
    {hn : 1 ≤ n} (hclients : 0 < clients) (hd : 0 < d)
    (hrows : ∀ i, parts i ≠ []) (hmax : settings.maxCategories = some m)
    (hm : m.1 ≠ 1) (hmin : settings.minFrequency = some (.count n hn)) :
    Groups lib settings parts ↔ MissingOut settings (pooled parts) := by
  have hthr : threshold settings (pooled parts).length = n := by
    rw [threshold, hmin]
  rw [groups_outside hclients hd hrows hmax hm hmin, hthr]
  refine ⟨fun h => h.2.2.2, fun h => ⟨fun hfraction => ?_,
    Nat.one_le_cast.mpr hn, fun j => Or.inr ?_, h⟩⟩
  · rw [Settings.isFraction, hmin] at hfraction
    cases hfraction
  · intro c hlt
    rw [sub_lt_iff_lt_add] at hlt
    have hnat : n < occurrences (pooled parts) j c + 1 := by
      exact_mod_cast hlt
    exact Nat.cast_le.mpr (Nat.le_of_lt_succ hnat)

/-- What the settings decide, for clients with tables. -/
theorem groups_iff_grouping_fits (hclients : 0 < clients) (hd : 0 < d)
    (hrows : ∀ i, parts i ≠ []) :
    Groups lib settings parts
      ↔ match settings.maxCategories with
        | none => settings.minFrequency.isSome →
            BelowFits settings parts ∧ MissingKept settings (pooled parts)
        | some m =>
            if m.1 = 1 then
              settings.ignoreMissing = true →
                ∀ j, none ∉ column (pooled parts) j
            else match settings.minFrequency with
              | none => False
              | some (.count _ _) => MissingOut settings (pooled parts)
              | some (.fraction _ _) =>
                  FractionFits lib settings parts
                  ∧ MissingOut settings (pooled parts) := by
  cases hmax : settings.maxCategories with
  | none =>
      cases hmin : settings.minFrequency with
      | none =>
          exact iff_of_true (groups_disabled hclients hd hrows hmax hmin)
            nofun
      | some f =>
          rw [groups_below hclients hd hrows hmax hmin]
          exact ⟨fun h _ => h, fun h => h rfl⟩
  | some m =>
      by_cases hm : m.1 = 1
      · simp only [if_pos hm]
        exact groups_all hclients hd hrows hmax hm
      · simp only [if_neg hm]
        cases hmin : settings.minFrequency with
        | none =>
            obtain ⟨e, he⟩ := searched_none lib parts hmax hmin
            exact iff_of_false (hfit_not_agree hclients hd hrows
              (searches_of_some hmax hm) he) id
        | some f =>
            cases f with
            | count n hn =>
                exact groups_outside_count hclients hd hrows hmax hm hmin
            | fraction q hq =>
                have hfraction : settings.isFraction = true := by
                  rw [Settings.isFraction, hmin]
                rw [groups_outside hclients hd hrows hmax hm hmin]
                constructor
                · exact fun h =>
                    ⟨⟨h.1 hfraction, h.2.1, h.2.2.1⟩, h.2.2.2⟩
                · exact fun h => ⟨fun _ => h.1.1, h.1.2.1, h.1.2.2, h.2⟩

end Result

-- ============================================================== one failure

/-- Items sorted by their counts. -/
def sortedLib (κ : Type) : SketchLib κ where
  order rows := rows.mergeSort fun a b => decide (b.2 ≤ a.2)
  perm rows := List.mergeSort_perm rows _
  sorted rows := by
    have h : (rows.mergeSort fun a b => decide (b.2 ≤ a.2)).Pairwise
      fun a b => decide (b.2 ≤ a.2) = true := List.pairwise_mergeSort
      (fun a b c hab hbc => by
        rw [decide_eq_true_eq] at hab hbc ⊢
        exact Nat.le_trans hbc hab)
      (fun a b => by
        rw [Bool.or_eq_true, decide_eq_true_eq, decide_eq_true_eq]
        exact Nat.le_total b.2 a.2) rows
    exact h.imp fun hab => of_decide_eq_true hab
  takesFloat := false

/-- A category twice at one client and once at another. -/
def twoAndOne : Fin 2 → Table 1 Nat
  | 0 => [fun _ => some 7, fun _ => some 7]
  | 1 => [fun _ => some 7]

end PrimiHub.FL.Encoder
