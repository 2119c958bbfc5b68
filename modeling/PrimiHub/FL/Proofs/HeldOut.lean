/-
What `TargetEncoder.fit_transform` applies to the rows a fold holds out,
against the encodings of the rows outside the fold.

The server divides a fold's sums by the number of rows held out, draws the
categories towards the mean of all rows, held out or not, and divides by
the number of rows of a category also where that is zero. So the encodings
are those of the training rows only where this makes no difference
(`FoldFits`, `crossFitted_iff`).
-/
import Mathlib.Algebra.Field.Rat
import Mathlib.Tactic.FinCases
import Mathlib.Tactic.NormNum
import PrimiHub.FL.Proofs.CrossFit
import PrimiHub.Lib.Descriptive

namespace PrimiHub.FL.TargetEncoder

open Lib Horizontal

variable {clients d k n : Nat} {t : TargetType} {β : Type}

/-- A column of the target. -/
def targets (rows : List (Row t d)) (o : Output t) : List ℚ :=
  rows.map fun row => row.y o

section Central

variable (smooth : Smooth) (nCategories : Fin d → Nat)
  (tables : Fin clients → Table t d k)

/-- The targets of a category in the rows outside a fold. -/
def group (f : Fin k) (o : Output t) (j : Fin d) (c : Nat) : List ℚ :=
  matching ((trainRows tables f).map (Row.sample o)) j c

/-- The smoothed mean of a category, of the rows outside a fold. -/
def centralEncoding (f : Fin k) (o : Output t) (j : Fin d) (c : Nat) : ℚ :=
  match smooth with
  | .fixed s _ =>
      shrunkMean s (mean (targets (trainRows tables f) o))
        (group tables f o j c)
  | .auto =>
      shrunkMeanAuto (targets (trainRows tables f) o) (group tables f o j c)

/-- What is to be applied to the rows that a fold holds out. -/
def central (f : Fin k) : Applied t where
  encodings := byFeature fun o => column nCategories fun j c =>
    some (centralEncoding smooth tables f o j c)
  yTrainMean o := mean (targets (trainRows tables f) o)

/-- Every client applies to the held-out rows of each fold what the rows
outside the fold say, and the server never divides by zero. -/
def CrossFitted : Prop :=
  Completes (fitTransform smooth nCategories tables) fun v =>
    (∀ i, v (.client i)
      = (List.finRange k).map (central smooth nCategories tables))
    ∧ ∀ fold ∈ v .server, ∀ encodings ∈ fold, ∀ e ∈ encodings,
      none ∉ e.quotients

/-- A category whose encoding comes out right. Under a fixed smoothing the
held-out rows must not move the mean; without smoothing the category must
occur in the training rows. Under the automatic one it must occur there,
and unless its targets are all the same, the mean and the variance must be
those of the training rows, or their errors make up for each other. -/
def CategoryFits (f : Fin k) (o : Output t) (j : Fin d) (c : Nat) : Prop :=
  match smooth with
  | .fixed s _ =>
      if s = 0 then group tables f o j c ≠ []
      else mean (targets (allRows tables) o)
        = mean (targets (trainRows tables f) o)
  | .auto =>
      group tables f o j c ≠ []
      ∧ if variance (targets (trainRows tables f) o) = 0 then
          mean (targets (allRows tables) o)
            = mean (targets (trainRows tables f) o)
        else variance (group tables f o j c) = 0
          ∨ variance (targets (trainRows tables f) o)
              * ((group tables f o j c).length : Nat)
              * ((((trainRows tables f).length : Nat)
                  / ((heldOutRows tables f).length : Nat) - 1)
                * (mean (group tables f o j c)
                  - mean (targets (trainRows tables f) o)))
            = (mean (targets (trainRows tables f) o)
                - mean (targets (allRows tables) o))
              * (variance (targets (trainRows tables f) o)
                  * ((group tables f o j c).length : Nat)
                + variance (group tables f o j c))

/-- A fold whose encodings come out right: the training rows are as many
as the held-out rows, or their targets add up to zero. -/
structure FoldFits (f : Fin k) (o : Output t) : Prop where
  mean : (trainRows tables f).length = (heldOutRows tables f).length
    ∨ (targets (trainRows tables f) o).sum = 0
  category : ∀ j, ∀ c < nCategories j, CategoryFits smooth tables f o j c

end Central

-- =============================================================== the numbers

section Numbers

variable {smooth : Smooth} {tables : Fin clients → Table t d k} {f : Fin k}
  {o : Output t} {j : Fin d} {c : Nat}

theorem targetMean_eq (tables : Fin clients → Table t d k) (o : Output t) :
    targetMean tables o = mean (targets (allRows tables) o) := by
  unfold targetMean mean targets ySum
  rw [List.length_map]

theorem mean_targets (rows : List (Row t d)) (o : Output t) :
    mean (targets rows o) = (targets rows o).sum / (rows.length : Nat) := by
  rw [mean, targets, List.length_map]

theorem train_ne_nil (table : Table t d k) (f : Fin k) :
    table.train f ≠ [] := by
  have hk := table.split.two_le
  -- what another fold holds out
  obtain ⟨g, hg⟩ : ∃ g : Fin k, g ≠ f := by
    by_cases hf : f.val = 0
    · exact ⟨⟨1, hk⟩, fun h => by simp [← h] at hf⟩
    · exact ⟨⟨0, by omega⟩, fun h => hf (h ▸ rfl)⟩
  obtain ⟨row, hrow⟩ := List.exists_mem_of_ne_nil _ (heldOut_ne_nil table g)
  obtain ⟨r, hr, rfl⟩ := List.mem_map.mp hrow
  have hfold : table.split.fold r = g := by
    simpa using (List.mem_filter.mp hr).2
  refine List.ne_nil_of_mem (List.mem_map.mpr ⟨r, ?_, rfl⟩)
  refine List.mem_filter.mpr ⟨List.mem_finRange r, ?_⟩
  simpa [hfold] using hg

theorem length_trainRows_pos (hclients : 0 < clients)
    (tables : Fin clients → Table t d k) (f : Fin k) :
    0 < (trainRows tables f).length := by
  obtain ⟨row, hrow⟩ := List.exists_mem_of_ne_nil _
    (train_ne_nil (tables ⟨0, hclients⟩) f)
  exact List.length_pos_of_mem
    (List.mem_flatMap.mpr ⟨_, List.mem_finRange _, hrow⟩)

theorem length_heldOutRows_pos (hclients : 0 < clients)
    (tables : Fin clients → Table t d k) (f : Fin k) :
    0 < (heldOutRows tables f).length :=
  List.length_pos_of_ne_nil (heldOutRows_ne_nil hclients tables f)

/-- When the mean that the server sends is that of the training rows. -/
theorem yTrainMean_eq_iff (hclients : 0 < clients) :
    yTrainMean tables f o = mean (targets (trainRows tables f) o)
      ↔ (trainRows tables f).length = (heldOutRows tables f).length
        ∨ (targets (trainRows tables f) o).sum = 0 := by
  have htrain : (((trainRows tables f).length : Nat) : ℚ) ≠ 0 :=
    Nat.cast_ne_zero.mpr (length_trainRows_pos hclients tables f).ne'
  have hheld : (((heldOutRows tables f).length : Nat) : ℚ) ≠ 0 :=
    Nat.cast_ne_zero.mpr (length_heldOutRows_pos hclients tables f).ne'
  rw [mean_targets]
  show (targets (trainRows tables f) o).sum / _ = _ ↔ _
  rw [div_eq_div_iff hheld htrain, mul_eq_mul_left_iff, Nat.cast_inj]

/-- A category under a fixed smoothing. -/
theorem encodeFixed_fits {s : ℚ} (hs : 0 ≤ s) (m m' : ℚ) (ys : List ℚ) :
    ((encodeFixed s m' [ys.sum] [ys.length]).value
        = some (shrunkMean s m ys)
      ∧ none ∉ (encodeFixed s m' [ys.sum] [ys.length]).quotients)
    ↔ if s = 0 then ys ≠ [] else m' = m := by
  have hvalue : (encodeFixed s m' [ys.sum] [ys.length]).value
      = div (s * m' + ys.sum) (s + (ys.length : Nat)) := by
    simp [encodeFixed]
  have hquotients : (encodeFixed s m' [ys.sum] [ys.length]).quotients
      = [(encodeFixed s m' [ys.sum] [ys.length]).value] := rfl
  have hlength : (0 : ℚ) ≤ (ys.length : Nat) := Nat.cast_nonneg _
  rw [hquotients, List.mem_singleton, hvalue]
  by_cases hzero : s + ((ys.length : Nat) : ℚ) = 0
  · obtain ⟨hs0, hlen⟩ := (add_eq_zero_iff_of_nonneg hs hlength).mp hzero
    have hys : ys = [] :=
      List.length_eq_zero_iff.mp (Nat.cast_eq_zero.mp hlen)
    rw [div, if_pos hzero, if_pos hs0]
    exact iff_of_false (fun h => h.2 rfl) fun h => h hys
  · rw [div, shrunkMean, if_neg hzero, if_neg hzero, Option.some.injEq,
      shrink_eq_iff hzero]
    by_cases hs0 : s = 0
    · rw [if_pos hs0]
      refine iff_of_true ⟨.inl hs0, (Option.some_ne_none _).symm⟩
        fun hys => hzero ?_
      rw [hs0, hys, List.length_nil, Nat.cast_zero, add_zero]
    · rw [if_neg hs0, or_iff_right hs0]
      exact and_iff_left (Option.some_ne_none _).symm

/-- The variance by the sums. -/
theorem variance_of_sums {ys : List ℚ} (h : ((ys.length : Nat) : ℚ) ≠ 0) :
    ((ys.map (· ^ 2)).sum - ys.sum ^ 2 / (ys.length : Nat))
      / (ys.length : Nat) = variance ys := by
  rw [variance_eq h]
  field_simp

/-- A category under the automatic smoothing, when the server has `r` times
the variance. -/
theorem encodeAuto_fits (all ys : List ℚ) {r : ℚ} (hr : 0 < r) (m' : ℚ) :
    ((encodeAuto (r * variance all) m' [ys.sum] [ys.length]
          [(ys.map (· ^ 2)).sum]).value = some (shrunkMeanAuto all ys)
      ∧ none ∉ (encodeAuto (r * variance all) m' [ys.sum] [ys.length]
          [(ys.map (· ^ 2)).sum]).quotients)
    ↔ ys ≠ [] ∧ if variance all = 0 then m' = mean all
      else variance ys = 0
        ∨ variance all * (ys.length : Nat) * ((r - 1) * (mean ys - mean all))
          = (mean all - m')
            * (variance all * (ys.length : Nat) + variance ys) := by
  have hvariance : r * variance all = 0 ↔ variance all = 0 := by
    rw [mul_eq_zero, or_iff_right hr.ne']
  by_cases hys : ys = []
  · -- a category that does not occur
    refine iff_of_false (fun h => h.2 ?_) fun h => h.1 hys
    rw [hys, encodeAuto]
    split_ifs <;> simp [div]
  have hn : (0 : ℚ) < (ys.length : Nat) :=
    Nat.cast_pos.mpr (List.length_pos_of_ne_nil hys)
  rw [and_iff_right hys, shrunkMeanAuto]
  unfold encodeAuto
  by_cases hv : variance all = 0
  · simp [hv, div, hn.ne', hys]
  · have hpos : 0 < variance all := lt_of_le_of_ne (variance_nonneg all)
      (Ne.symm hv)
    have hden : r * variance all * (ys.length : Nat) + variance ys ≠ 0 := by
      have := variance_nonneg ys
      positivity
    have hspread := variance_of_sums hn.ne'
    rw [if_neg (mt hvariance.mp hv), if_neg hv,
      if_neg (fun h => h.elim hv hys),
      ← shrinkAuto_eq_iff hr hpos hn (variance_nonneg ys)]
    simp [div, hn.ne', hspread, hden, mean, ownWeight]

/-- The squared differences that the clients send, for the mean of the
training rows. -/
theorem sumSquareDiff_eq (rows : List (Row t d)) (o : Output t)
    (h : ((rows.length : Nat) : ℚ) ≠ 0) (n : ℚ) :
    sumSquareDiff (rows.map (Row.sample o)) (mean (targets rows o)) / n
      = ((rows.length : Nat) : ℚ) / n * variance (targets rows o) := by
  have hsum : sumSquareDiff (rows.map (Row.sample o)) (mean (targets rows o))
      = ((targets rows o).map fun y =>
        (y - mean (targets rows o)) ^ 2).sum := by
    rw [sumSquareDiff, List.map_map, targets, List.map_map]
    rfl
  have hlength : (targets rows o).length = rows.length :=
    List.length_map _
  rw [variance, ← hsum, hlength]
  field_simp

/-- A category of a fold, when the fold's mean is right. -/
theorem encodedFold_fits (hclients : 0 < clients)
    (hmean : yTrainMean tables f o
      = mean (targets (trainRows tables f) o)) :
    ((encodedFold smooth tables f o j c).value
        = some (centralEncoding smooth tables f o j c)
      ∧ none ∉ (encodedFold smooth tables f o j c).quotients)
    ↔ CategoryFits smooth tables f o j c := by
  have htrain : (0 : ℚ) < ((trainRows tables f).length : Nat) :=
    Nat.cast_pos.mpr (length_trainRows_pos hclients tables f)
  have hheld : (0 : ℚ) < ((heldOutRows tables f).length : Nat) :=
    Nat.cast_pos.mpr (length_heldOutRows_pos hclients tables f)
  cases smooth with
  | fixed s hs =>
      unfold encodedFold pooledEncoded
      rw [targetMean_eq]
      exact encodeFixed_fits hs _ _ (group tables f o j c)
  | auto =>
      unfold encodedFold pooledEncoded
      rw [targetMean_eq, hmean, sumSquareDiff_eq _ _ htrain.ne']
      exact encodeAuto_fits _ (group tables f o j c)
        (div_pos htrain hheld) _

end Numbers

-- ============================================================== comparison

theorem mem_outputs : (t : TargetType) → (o : Output t) → o ∈ outputs t
  | .single, _ => List.mem_singleton.mpr rfl
  | .multiclass _, o => List.mem_finRange o

theorem mem_byFeature {e : Output t → Fin d → β} {b : β} :
    b ∈ byFeature e ↔ ∃ o j, e o j = b := by
  unfold byFeature
  constructor
  · intro h
    obtain ⟨j, -, hb⟩ := List.mem_flatMap.mp h
    obtain ⟨o, -, rfl⟩ := List.mem_map.mp hb
    exact ⟨o, j, rfl⟩
  · intro h
    obtain ⟨o, j, rfl⟩ := h
    exact List.mem_flatMap.mpr ⟨j, List.mem_finRange j,
      List.mem_map.mpr ⟨o, mem_outputs t o, rfl⟩⟩

/-- Lists of as many parts each. -/
theorem flatMap_inj_of_length {κ : Type} {f g : κ → List β} {ks : List κ}
    (hlength : ∀ x, (f x).length = (g x).length) :
    ks.flatMap f = ks.flatMap g ↔ ∀ x ∈ ks, f x = g x := by
  induction ks with
  | nil => simp
  | cons x ks ih =>
      rw [List.flatMap_cons, List.flatMap_cons, List.forall_mem_cons, ← ih]
      constructor
      · intro h
        exact List.append_inj h (hlength x)
      · intro h
        rw [h.1, h.2]

theorem byFeature_inj {e e' : Output t → Fin d → β} :
    byFeature e = byFeature e' ↔ ∀ o j, e o j = e' o j := by
  unfold byFeature
  rw [flatMap_inj_of_length fun j => by
    rw [List.length_map, List.length_map]]
  constructor
  · intro h o j
    exact List.map_inj_left.mp (h j (List.mem_finRange j)) o
      (mem_outputs t o)
  · intro h j _
    exact List.map_inj_left.mpr fun o _ => h o j

/-- Arrays with one entry for each category. -/
theorem column_inj {nCategories : Fin d → Nat} {e e' : Fin d → Nat → β}
    {j : Fin d} : column nCategories e j = column nCategories e' j
      ↔ ∀ c < nCategories j, e j c = e' j c := by
  unfold column
  rw [List.map_inj_left]
  simp only [List.mem_range]

section Main

variable {smooth : Smooth} {nCategories : Fin d → Nat}
  {tables : Fin clients → Table t d k}

/-- What the clients apply in a fold. -/
theorem applied_eq_iff {f : Fin k} :
    (⟨byFeature fun o => column nCategories fun j c =>
        (encodedFold smooth tables f o j c).value,
      yTrainMean tables f⟩ : Applied t)
      = central smooth nCategories tables f
    ↔ (∀ o j, ∀ c < nCategories j, (encodedFold smooth tables f o j c).value
        = some (centralEncoding smooth tables f o j c))
      ∧ ∀ o, yTrainMean tables f o
        = mean (targets (trainRows tables f) o) := by
  rw [central, Applied.mk.injEq, byFeature_inj, funext_iff]
  simp only [column_inj]

/-- The quotients of the server. -/
theorem quotients_iff :
    (∀ fold ∈ transformed smooth nCategories tables .server,
      ∀ encodings ∈ fold, ∀ e ∈ encodings, none ∉ e.quotients)
    ↔ ∀ f o j, ∀ c < nCategories j,
      none ∉ (encodedFold smooth tables f o j c).quotients := by
  constructor
  · intro h f o j c hc
    refine h _ (List.mem_map.mpr ⟨f, List.mem_finRange f, rfl⟩) _
      (mem_byFeature.mpr ⟨o, j, rfl⟩) _ ?_
    exact List.mem_map.mpr ⟨c, List.mem_range.mpr hc, rfl⟩
  · intro h fold hfold encodings hencodings e he
    obtain ⟨f, -, rfl⟩ := List.mem_map.mp hfold
    obtain ⟨o, j, rfl⟩ := mem_byFeature.mp hencodings
    obtain ⟨c, hc, rfl⟩ := List.mem_map.mp he
    exact h f o j c (List.mem_range.mp hc)

theorem crossFitted_iff_of_pos (hclients : 0 < clients) :
    CrossFitted smooth nCategories tables
      ↔ ∀ f o, FoldFits smooth nCategories tables f o := by
  have hfold : ∀ f,
      ((∀ o j, ∀ c < nCategories j, (encodedFold smooth tables f o j c).value
            = some (centralEncoding smooth tables f o j c))
          ∧ ∀ o, yTrainMean tables f o
            = mean (targets (trainRows tables f) o))
        ∧ (∀ o j, ∀ c < nCategories j,
          none ∉ (encodedFold smooth tables f o j c).quotients)
      ↔ ∀ o, FoldFits smooth nCategories tables f o := by
    intro f
    constructor
    · intro h o
      have hmean := h.1.2 o
      refine ⟨(yTrainMean_eq_iff hclients).mp hmean, fun j c hc => ?_⟩
      exact (encodedFold_fits hclients hmean).mp
        ⟨h.1.1 o j c hc, h.2 o j c hc⟩
    · intro h
      have hmean : ∀ o, yTrainMean tables f o
          = mean (targets (trainRows tables f) o) :=
        fun o => (yTrainMean_eq_iff hclients).mpr (h o).mean
      have hfits : ∀ o j, ∀ c < nCategories j, _ := fun o j c hc =>
        (encodedFold_fits hclients (hmean o)).mpr ((h o).category j c hc)
      exact ⟨⟨fun o j c hc => (hfits o j c hc).1, hmean⟩,
        fun o j c hc => (hfits o j c hc).2⟩
  have hall := fitTransform_completes hclients smooth nCategories tables
  unfold CrossFitted
  rw [hall.iff_of_eq, quotients_iff, ← forall_congr' hfold]
  constructor
  · intro h f
    have hclient := h.1 ⟨0, hclients⟩
    exact ⟨applied_eq_iff.mp
      (List.map_inj_left.mp hclient f (List.mem_finRange f)), h.2 f⟩
  · intro h
    refine ⟨fun i => ?_, fun f => (h f).2⟩
    exact List.map_inj_left.mpr fun f _ => applied_eq_iff.mpr (h f).1

/-- The held-out rows of every fold get what the other rows say exactly if
every fold fits. -/
theorem crossFitted_iff (smooth : Smooth) (nCategories : Fin d → Nat)
    (tables : Fin clients → Table t d k) :
    CrossFitted smooth nCategories tables
      ↔ 0 < clients ∧ ∀ f o, FoldFits smooth nCategories tables f o := by
  by_cases hclients : 0 < clients
  · rw [crossFitted_iff_of_pos hclients, and_iff_right hclients]
  · obtain rfl : clients = 0 := by omega
    refine iff_of_false ?_ fun h => hclients h.1
    exact not_completes_of_raise (i := .server) (e := .zeroDivision) rfl

/-- Two rows of one category with the targets zero and one, and a fold for
each. -/
def zeroOne : Table .single 1 2 where
  n := 2
  row r := ⟨fun _ => 0, fun _ => r.val⟩
  split :=
    { two_le := le_rfl, enough := le_rfl, fold := id, size := by decide }

/-- Two clients with one such table each: a fold is encoded by `5 / 6`, as
its own rows have the target zero, and not by `1`. -/
theorem not_crossFitted_zeroOne :
    ¬ CrossFitted (.fixed 1 zero_le_one) (fun _ => 1)
      fun _ : Fin 2 => zeroOne := by
  intro h
  have hfits := ((crossFitted_iff_of_pos Nat.zero_lt_two).mp h 0 ()).category
    0 0 Nat.zero_lt_one
  have hmean : mean (targets (allRows fun _ : Fin 2 => zeroOne) ())
      = mean (targets (trainRows (fun _ : Fin 2 => zeroOne) 0) ()) := hfits
  have hall : targets (allRows fun _ : Fin 2 => zeroOne) () = [0, 1, 0, 1] :=
    rfl
  have htrain : targets (trainRows (fun _ : Fin 2 => zeroOne) 0) ()
      = [1, 1] := rfl
  rw [hall, htrain] at hmean
  norm_num [mean] at hmean

end Main

end PrimiHub.FL.TargetEncoder
