/-
The counters of the encrypted logistic regression.

`stepWith` is what a training step does to the clock of host and guests.
The invariant of an epoch is one equation, `steps_total`: the counter
before and the steps are the refreshes times the limit and the counter
after. It gives the coordinator's division with its special case for
exact multiples (`epoch_quotient`). The coordinator's clock is that of
host and guests without the training steps (`quiet`).

The counter is the number of steps since the last refresh
(`SinceRefresh`), so no part of a history without a refresh has more steps
than the limit.
-/
import Mathlib.Algebra.Order.Ring.Nat
import PrimiHub.FL.Ckks

namespace PrimiHub.FL.Ckks

open Lib

-- ================================================================ counters

namespace Clock

/-- The branch at the start of `train` and `compute_metrics`. -/
def refreshWith (maxIter : Nat) (c : Clock) : Clock :=
  if c.t ≥ maxIter then c.refreshed else c

/-- One training step. -/
def stepWith (maxIter : Nat) (c : Clock) : Clock :=
  (c.refreshWith maxIter).stepped

/-- So many training steps. -/
def stepsWith (maxIter : Nat) : Nat → Clock → Clock
  | 0, c => c
  | count + 1, c => stepsWith maxIter count (c.stepWith maxIter)

/-- One metrics step. -/
def metricsWith (maxIter : Nat) (c : Clock) : Clock :=
  (c.refreshWith maxIter).metricsOver

/-- One epoch of host and guests. -/
def epochWith (maxIter steps : Nat) (printMetrics : Bool) (c : Clock) :
    Clock :=
  if printMetrics then
    (c.stepsWith maxIter steps).epochOver.metricsWith maxIter
  else (c.stepsWith maxIter steps).epochOver

/-- The epochs of host and guests. -/
def epochsWith (maxIter steps : Nat) (printMetrics : Bool) :
    Nat → Clock → Clock
  | 0, c => c
  | count + 1, c =>
      epochsWith maxIter steps printMetrics count
        (c.epochWith maxIter steps printMetrics)

/-- The refreshes in so many steps. -/
def refreshes (maxIter : Nat) : Nat → Clock → Nat
  | 0, _ => 0
  | count + 1, c =>
      (if c.t ≥ maxIter then 1 else 0)
        + refreshes maxIter count (c.stepWith maxIter)

/-- The clock without its training steps. -/
def quiet (c : Clock) : Clock := ⟨c.t, rounds c.history⟩

/-- The clock after refreshes that leave the counter as it is. -/
def decrypted (count : Nat) (c : Clock) : Clock :=
  ⟨c.t, c.history ++ List.replicate count .refresh⟩

variable {maxIter : Nat}

/-- The counter after a step is in the range a refresh leaves it in. -/
theorem stepWith_t (hpos : 0 < maxIter) {c : Clock} (hle : c.t ≤ maxIter) :
    1 ≤ (c.stepWith maxIter).t ∧ (c.stepWith maxIter).t ≤ maxIter
      ∧ c.t + 1 = (if c.t ≥ maxIter then 1 else 0) * maxIter
          + (c.stepWith maxIter).t := by
  unfold stepWith refreshWith
  by_cases hfull : c.t ≥ maxIter
  · rw [if_pos hfull, if_pos hfull]
    show 1 ≤ 0 + 1 ∧ 0 + 1 ≤ maxIter ∧ c.t + 1 = 1 * maxIter + (0 + 1)
    omega
  · rw [if_neg hfull, if_neg hfull]
    show 1 ≤ c.t + 1 ∧ c.t + 1 ≤ maxIter ∧ c.t + 1 = 0 * maxIter + (c.t + 1)
    omega

/-- The counter before and the steps are the refreshes times the limit
and the counter after. -/
theorem steps_total (hpos : 0 < maxIter) (count : Nat) {c : Clock}
    (hle : c.t ≤ maxIter) :
    c.t + count = c.refreshes maxIter count * maxIter
        + (c.stepsWith maxIter count).t
      ∧ (c.stepsWith maxIter count).t ≤ maxIter
      ∧ (0 < count → 1 ≤ (c.stepsWith maxIter count).t) := by
  induction count generalizing c with
  | zero =>
      show c.t + 0 = 0 * maxIter + c.t ∧ c.t ≤ maxIter ∧ (0 < 0 → 1 ≤ c.t)
      omega
  | succ count ih =>
      obtain ⟨hone, hle', hstep⟩ := stepWith_t hpos hle
      obtain ⟨htotal, hbound, hmin⟩ := ih hle'
      show c.t + (count + 1)
          = ((if c.t ≥ maxIter then 1 else 0)
            + refreshes maxIter count (c.stepWith maxIter)) * maxIter
            + (stepsWith maxIter count (c.stepWith maxIter)).t
        ∧ (stepsWith maxIter count (c.stepWith maxIter)).t ≤ maxIter
        ∧ (0 < count + 1
          → 1 ≤ (stepsWith maxIter count (c.stepWith maxIter)).t)
      refine ⟨?_, hbound, fun _ => ?_⟩
      · rw [Nat.add_mul]
        omega
      · by_cases hcount : 0 < count
        · exact hmin hcount
        · rw [Nat.eq_zero_of_not_pos hcount]
          exact hone

/-- What a step leaves when the training steps are left out. -/
theorem quiet_stepWith (c : Clock) :
    (c.stepWith maxIter).quiet
      = decrypted (if c.t ≥ maxIter then 1 else 0)
          ⟨(c.stepWith maxIter).t, c.quiet.history⟩ := by
  unfold stepWith refreshWith
  by_cases hfull : c.t ≥ maxIter
  · have hstep : [Mark.step].filter (fun mark => mark ≠ .step) = [] := rfl
    simp only [if_pos hfull, stepped, refreshed, quiet, decrypted, rounds,
      List.filter_append, hstep, List.append_nil]
    rfl
  · simp only [if_neg hfull, stepped, quiet, decrypted, rounds,
      List.filter_append]
    rfl

/-- What the steps leave when the training steps are left out: the
refreshes. -/
theorem quiet_stepsWith (count : Nat) (c : Clock) :
    (c.stepsWith maxIter count).quiet
      = decrypted (c.refreshes maxIter count)
          ⟨(c.stepsWith maxIter count).t, c.quiet.history⟩ := by
  induction count generalizing c with
  | zero =>
      show c.quiet = ⟨c.t, c.quiet.history ++ []⟩
      rw [List.append_nil]
      rfl
  | succ count ih =>
      have hhistory : (c.stepWith maxIter).quiet.history = _ :=
        congrArg history (quiet_stepWith c)
      show (stepsWith maxIter count (c.stepWith maxIter)).quiet
        = decrypted ((if c.t ≥ maxIter then 1 else 0)
            + refreshes maxIter count (c.stepWith maxIter))
            ⟨(stepsWith maxIter count (c.stepWith maxIter)).t,
              c.quiet.history⟩
      rw [ih, hhistory]
      unfold decrypted
      rw [List.append_assoc, List.replicate_append_replicate]

/-- The coordinator's quotient is the refreshes of host and guests, and its
remainder their counter; an exact multiple has the last of its refreshes
still to come. -/
theorem epoch_quotient (hpos : 0 < maxIter) {count : Nat}
    (hcount : 0 < count) {c : Clock} (hle : c.t ≤ maxIter) :
    ((c.t + count) % maxIter = 0 →
      (c.t + count) / maxIter - 1 = c.refreshes maxIter count
      ∧ (c.stepsWith maxIter count).t = maxIter)
    ∧ ((c.t + count) % maxIter ≠ 0 →
      (c.t + count) / maxIter = c.refreshes maxIter count
      ∧ (c.stepsWith maxIter count).t = (c.t + count) % maxIter) := by
  obtain ⟨htotal, hbound, hmin⟩ := steps_total hpos count hle
  have hone := hmin hcount
  by_cases hlast : (c.stepsWith maxIter count).t = maxIter
  · have hmul : c.t + count
        = (c.refreshes maxIter count + 1) * maxIter := by
      rw [htotal, hlast, Nat.add_mul, Nat.one_mul]
    constructor
    · intro _
      rw [hmul, Nat.mul_div_cancel _ hpos, Nat.add_sub_cancel]
      exact ⟨rfl, hlast⟩
    · intro hmod
      rw [hmul, Nat.mul_mod_left] at hmod
      exact absurd rfl hmod
  · have hlt : (c.stepsWith maxIter count).t < maxIter := by omega
    have hmod : (c.t + count) % maxIter = (c.stepsWith maxIter count).t := by
      rw [htotal, Nat.add_comm, Nat.add_mul_mod_self_right,
        Nat.mod_eq_of_lt hlt]
    constructor
    · intro hzero
      omega
    · intro _
      refine ⟨?_, hmod.symm⟩
      rw [htotal, Nat.add_comm, Nat.add_mul_div_right _ _ hpos,
        Nat.div_eq_of_lt hlt, Nat.zero_add]

-- ================================================================== epochs

/-- A metrics step, without the training steps. -/
theorem quiet_metricsWith (c : Clock) :
    (c.metricsWith maxIter).quiet = c.quiet.metricsWith maxIter := by
  unfold metricsWith refreshWith
  by_cases hfull : c.t ≥ maxIter
  · rw [if_pos hfull, if_pos (show c.quiet.t ≥ maxIter from hfull)]
    simp only [quiet, metricsOver, refreshed, rounds, List.filter_append]
    rfl
  · rw [if_neg hfull, if_neg (show ¬ c.quiet.t ≥ maxIter from hfull)]
    simp only [quiet, metricsOver, rounds, List.filter_append]
    rfl

theorem quiet_epochOver (c : Clock) :
    c.epochOver.quiet = c.quiet.epochOver := by
  simp only [quiet, epochOver, rounds, List.filter_append]
  rfl

theorem metricsWith_t_le {c : Clock} (hle : c.t ≤ maxIter) :
    (c.metricsWith maxIter).t ≤ maxIter := by
  unfold metricsWith refreshWith
  by_cases hfull : c.t ≥ maxIter
  · rw [if_pos hfull]
    exact Nat.zero_le maxIter
  · rw [if_neg hfull]
    exact hle

theorem epochWith_t_le (hpos : 0 < maxIter) (steps : Nat)
    (printMetrics : Bool) {c : Clock} (hle : c.t ≤ maxIter) :
    (c.epochWith maxIter steps printMetrics).t ≤ maxIter := by
  have hsteps := (steps_total hpos steps hle).2.1
  unfold epochWith
  cases printMetrics with
  | false => exact hsteps
  | true => exact metricsWith_t_le hsteps

-- =============================================================== freshness

/-- The counter is at least the steps since the last refresh, and the
model was never used for too many. -/
structure SinceRefresh (maxIter : Nat) (c : Clock) : Prop where
  le : c.t ≤ maxIter
  last : ∀ part, part <:+ c.history → .refresh ∉ part →
    part.count .step ≤ c.t
  fresh : FreshModel maxIter c.history

/-- One more mark: what is new are the parts that end with it. -/
theorem SinceRefresh.append {c : Clock} {mark : Mark} {t : Nat}
    (h : FreshModel maxIter c.history) (hle : t ≤ maxIter)
    (hlast : ∀ part, part <:+ c.history → .refresh ∉ part →
      mark ≠ .refresh → part.count .step + [mark].count .step ≤ t) :
    SinceRefresh maxIter ⟨t, c.history ++ [mark]⟩ := by
  have hpart : ∀ part, part <:+ c.history ++ [mark] → .refresh ∉ part →
      part.count .step ≤ t := by
    intro part hsuffix hrefresh
    obtain rfl | ⟨front, rfl, hfront⟩ := List.suffix_concat_iff.mp hsuffix
    · exact Nat.zero_le t
    · rw [List.mem_append, List.mem_singleton, not_or] at hrefresh
      rw [List.count_append]
      exact hlast front hfront hrefresh.1 (Ne.symm hrefresh.2)
  refine ⟨hle, hpart, ?_⟩
  intro part hinfix hrefresh
  obtain hsuffix | hbefore := List.infix_concat_iff.mp hinfix
  · exact Nat.le_trans (hpart part hsuffix hrefresh) hle
  · exact h part hbefore hrefresh

theorem sinceRefresh_zero : SinceRefresh maxIter zero := by
  refine ⟨Nat.zero_le maxIter, ?_, ?_⟩
  · intro part hpart _
    rw [List.suffix_nil.mp hpart]
    exact Nat.le_refl 0
  · intro part hpart _
    rw [List.infix_nil.mp hpart]
    exact Nat.zero_le maxIter

/-- After the branch at the start there is room for one more step. -/
theorem SinceRefresh.refreshWith (hpos : 0 < maxIter) {c : Clock}
    (h : SinceRefresh maxIter c) :
    SinceRefresh maxIter (c.refreshWith maxIter)
      ∧ (c.refreshWith maxIter).t < maxIter := by
  unfold Clock.refreshWith
  by_cases hfull : c.t ≥ maxIter
  · rw [if_pos hfull]
    refine ⟨.append h.fresh (Nat.zero_le maxIter) ?_, hpos⟩
    intro _ _ _ hne
    exact absurd rfl hne
  · rw [if_neg hfull]
    exact ⟨h, Nat.lt_of_not_le hfull⟩

/-- A mark that is neither a step nor a refresh. -/
theorem SinceRefresh.marked {c : Clock} (h : SinceRefresh maxIter c)
    {mark : Mark} (hmark : mark ≠ .step) :
    SinceRefresh maxIter ⟨c.t, c.history ++ [mark]⟩ := by
  refine .append h.fresh h.le fun part hpart hrefresh _ => ?_
  rw [List.count_singleton, beq_eq_false_iff_ne.mpr hmark]
  exact h.last part hpart hrefresh

theorem SinceRefresh.stepWith (hpos : 0 < maxIter) {c : Clock}
    (h : SinceRefresh maxIter c) :
    SinceRefresh maxIter (c.stepWith maxIter) := by
  obtain ⟨h', hlt⟩ := h.refreshWith hpos
  refine .append h'.fresh hlt fun part hpart hrefresh _ => ?_
  show part.count .step + 1 ≤ (c.refreshWith maxIter).t + 1
  exact Nat.succ_le_succ (h'.last part hpart hrefresh)

theorem SinceRefresh.stepsWith (hpos : 0 < maxIter) (count : Nat) {c : Clock}
    (h : SinceRefresh maxIter c) :
    SinceRefresh maxIter (c.stepsWith maxIter count) := by
  induction count generalizing c with
  | zero => exact h
  | succ count ih => exact ih (h.stepWith hpos)

theorem SinceRefresh.epochWith (hpos : 0 < maxIter) (steps : Nat)
    (printMetrics : Bool) {c : Clock} (h : SinceRefresh maxIter c) :
    SinceRefresh maxIter (c.epochWith maxIter steps printMetrics) := by
  have hover : SinceRefresh maxIter (c.stepsWith maxIter steps).epochOver :=
    (h.stepsWith hpos steps).marked (by simp)
  unfold Clock.epochWith
  cases printMetrics with
  | false => exact hover
  | true => exact (hover.refreshWith hpos).1.marked (by simp)

/-- Over a whole training. -/
theorem SinceRefresh.epochsWith (hpos : 0 < maxIter) (steps : Nat)
    (printMetrics : Bool) (count : Nat) {c : Clock}
    (h : SinceRefresh maxIter c) :
    SinceRefresh maxIter
      (c.epochsWith maxIter steps printMetrics count) := by
  induction count generalizing c with
  | zero => exact h
  | succ count ih => exact ih (h.epochWith hpos steps printMetrics)

end Clock

end PrimiHub.FL.Ckks
