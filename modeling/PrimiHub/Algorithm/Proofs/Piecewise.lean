/-
What the history of the piecewise engine does to its next call.

The engine can only be in three kinds of state (`afterCalls_cases`): as
constructed, as the first `logisticFunc` leaves it, and as an `lt` leaves
it. `logisticFunc` writes its thresholds into an engine that has none, so
after an `lt` it evaluates the `lt`. `lt` writes everything but the
coefficients of its second interval, which are absent unless
`logisticFunc` came first; nothing ever removes them.
-/
import Mathlib.Algebra.Field.Rat
import Mathlib.Algebra.Order.Ring.Rat
import Mathlib.Tactic.Linarith
import Mathlib.Tactic.NormNum
import PrimiHub.Algorithm.Piecewise

namespace PrimiHub.Algorithm

open Sh3Piecewise

variable {K : Type} [Field K]

-- ============================================================= the states

theorem configureLogistic_init :
    configureLogistic (init : Sh3Piecewise K) = logisticEngine := rfl

theorem configureLogistic_of_configured {e : Sh3Piecewise K}
    (h : e.thresholds ≠ []) : e.configureLogistic = e := by
  unfold configureLogistic
  rw [if_neg fun hzero => h (List.length_eq_zero_iff.1 hzero)]

theorem configureLt_init (threshold : K) :
    configureLt init threshold = ltEngine threshold [] := rfl

theorem configureLt_logisticEngine (threshold : K) :
    configureLt logisticEngine threshold
      = ltEngine threshold [1 / 2, 1] := rfl

theorem configureLt_ltEngine (threshold threshold' : K) (second : List K) :
    configureLt (ltEngine threshold second) threshold'
      = ltEngine threshold' second := rfl

variable [LinearOrder K]

/-- A call is one to `logisticFunc`, or configures an `lt`. -/
theorem afterCall_cases (c : EngineCall K) :
    (c.isLogistic = true ∧ ∀ e, afterCall e c = e.configureLogistic)
      ∨ (c.isLogistic = false
        ∧ ∃ threshold, ∀ e, afterCall e c = e.configureLt threshold) := by
  cases c with
  | logisticFunc ys => exact Or.inl ⟨rfl, fun _ => rfl⟩
  | ltMatrix ys threshold => exact Or.inr ⟨rfl, threshold, fun _ => rfl⟩
  | ltScalar x threshold => exact Or.inr ⟨rfl, threshold, fun _ => rfl⟩
  | ltPair x y => exact Or.inr ⟨rfl, 0, fun _ => rfl⟩
  | gt x threshold => exact Or.inr ⟨rfl, threshold, fun _ => rfl⟩
  | sign x => exact Or.inr ⟨rfl, 0, fun _ => rfl⟩

-- =============================================================== histories

/-- After an `lt` the engine stays one, with the same second interval. -/
theorem foldl_ltEngine (history : List (EngineCall K)) (threshold : K)
    (second : List K) :
    ∃ threshold', history.foldl afterCall (ltEngine threshold second)
      = ltEngine threshold' second := by
  induction history generalizing threshold with
  | nil => exact ⟨threshold, rfl⟩
  | cons c history ih =>
      rw [List.foldl_cons]
      rcases afterCall_cases c with ⟨-, hcall⟩ | ⟨-, threshold', hcall⟩
      · rw [hcall, configureLogistic_of_configured (by simp [ltEngine])]
        exact ih threshold
      · rw [hcall, configureLt_ltEngine]
        exact ih threshold'

/-- After `logisticFunc` it stays as it is until the first `lt`. -/
theorem foldl_logisticEngine (history : List (EngineCall K)) :
    ((∀ c ∈ history, c.isLogistic = true)
      ∧ history.foldl afterCall logisticEngine = (logisticEngine : Sh3Piecewise K))
    ∨ ((¬∀ c ∈ history, c.isLogistic = true)
      ∧ ∃ threshold, history.foldl afterCall logisticEngine
        = ltEngine threshold [1 / 2, 1]) := by
  induction history with
  | nil => exact Or.inl ⟨by simp, rfl⟩
  | cons c history ih =>
      rw [List.foldl_cons, List.forall_mem_cons]
      rcases afterCall_cases c with ⟨hlog, hcall⟩ | ⟨hlog, threshold, hcall⟩
      · rw [hcall, configureLogistic_of_configured (by simp [logisticEngine])]
        simpa [hlog] using ih
      · right
        rw [hcall, configureLt_logisticEngine]
        exact ⟨by simp [hlog], foldl_ltEngine history threshold _⟩

/-- What a history leaves. -/
theorem afterCalls_cases (history : List (EngineCall K)) :
    (history = [] ∧ afterCalls history = init)
    ∨ (history ≠ [] ∧ (∀ c ∈ history, c.isLogistic = true)
      ∧ afterCalls history = logisticEngine)
    ∨ ((¬∀ c ∈ history, c.isLogistic = true)
      ∧ ∃ threshold, afterCalls history
        = ltEngine threshold
          (if history.head?.any EngineCall.isLogistic then [1 / 2, 1]
            else [])) := by
  cases history with
  | nil => exact Or.inl ⟨rfl, rfl⟩
  | cons c history =>
      right
      unfold afterCalls
      rw [List.foldl_cons, List.forall_mem_cons, List.head?_cons]
      rcases afterCall_cases c with ⟨hlog, hcall⟩ | ⟨hlog, threshold, hcall⟩
      · rw [hcall, configureLogistic_init]
        simpa [hlog] using foldl_logisticEngine history
      · right
        rw [hcall, configureLt_init]
        refine ⟨by simp [hlog], ?_⟩
        simpa [hlog] using foldl_ltEngine history threshold []

-- ============================================================== next calls

theorem eval_ltEngine (threshold : K) (second : List K) (x : K) :
    (ltEngine threshold second).eval x
      = if x < threshold then 1 else polynomial second x := by
  unfold eval interval ltEngine
  by_cases h : x < threshold
  · simp [h, List.findIdx_cons, polynomial]
  · simp [h, List.findIdx_cons]

theorem eval_logisticEngine (x : K) : logisticEngine.eval x = logistic x := by
  unfold eval interval logisticEngine logistic
  generalize (1 / 2 : K) = half
  by_cases hlow : x < -half
  · simp [hlow, List.findIdx_cons, polynomial]
  · by_cases hhigh : x < half
    · simp [hlow, hhigh, List.findIdx_cons, polynomial, add_comm]
    · simp [hlow, hhigh, List.findIdx_cons, polynomial]

/-- `logisticFunc` is right on an engine it has configured, or does. -/
theorem logisticRight_of_logistic {e : Sh3Piecewise K}
    (h : e.configureLogistic = logisticEngine) : LogisticRight e := by
  intro ys
  unfold logisticFunc
  dsimp only
  rw [h]
  exact List.map_congr_left fun x _ => eval_logisticEngine x

variable [IsStrictOrderedRing K]

/-- On one that an `lt` has configured it is 1 far below 0. -/
theorem not_logisticRight_ltEngine (threshold : K) (second : List K) :
    ¬LogisticRight (ltEngine threshold second) := by
  intro hright
  have hat := hright [min threshold (-(1 / 2)) - 1]
  have hlt : min threshold (-(1 / 2)) - 1 < threshold := by
    have := min_le_left threshold (-(1 / 2))
    linarith
  have hlow : min threshold (-(1 / 2)) - 1 < -(1 / 2) := by
    have := min_le_right threshold (-(1 / 2))
    linarith
  unfold logisticFunc at hat
  dsimp only at hat
  rw [configureLogistic_of_configured (by simp [ltEngine]), List.map_singleton,
    List.map_singleton, eval_ltEngine, if_pos hlt, logistic, if_pos hlow,
    List.singleton_inj] at hat
  exact one_ne_zero hat

/-- `lt` is right as long as its second interval has no coefficients. -/
theorem ltRight_of_absent {e : Sh3Piecewise K}
    (h : ∀ threshold, e.configureLt threshold = ltEngine threshold []) :
    LtRight e := by
  have heval : ∀ threshold x : K, (ltEngine threshold []).eval x
      = if x < threshold then 1 else 0 := by
    intro threshold x
    rw [eval_ltEngine]
    rfl
  refine ⟨?_, ?_, ?_⟩
  · intro ys threshold
    unfold ltMatrix
    dsimp only
    rw [h]
    exact List.map_congr_left fun x _ => heval threshold x
  · intro x threshold
    unfold ltScalar ltMatrix
    dsimp only
    rw [h, List.map_singleton, heval]
    by_cases hlt : x < threshold <;> simp [hlt]
  · intro x y
    unfold ltPair ltMatrix
    dsimp only
    rw [h, List.map_singleton, heval]
    by_cases hlt : x < y <;> simp [hlt]

/-- With those of the logistic function it is not 0 at its threshold. -/
theorem not_ltRight_of_stale {e : Sh3Piecewise K}
    (h : ∀ threshold, e.configureLt threshold = ltEngine threshold [1 / 2, 1]) :
    ¬LtRight e := by
  intro hc
  obtain ⟨hmatrix, -⟩ := hc
  have hat := hmatrix [0] 0
  unfold ltMatrix at hat
  dsimp only at hat
  rw [h, List.map_singleton, List.map_singleton, eval_ltEngine,
    if_neg (lt_irrefl 0), if_neg (lt_irrefl 0), List.singleton_inj] at hat
  simp [polynomial] at hat

-- ================================================================= result

/-- After a history of calls, `logisticFunc` is right exactly if all of
them were to `logisticFunc`, and `lt` exactly if the first of them was
not. -/
theorem history_independent_iff (history : List (EngineCall K)) :
    (LogisticRight (afterCalls history)
      ↔ ∀ c ∈ history, c.isLogistic = true)
    ∧ (LtRight (afterCalls history)
      ↔ history.head?.any EngineCall.isLogistic = false) := by
  obtain ⟨rfl, hafter⟩ | ⟨hne, hall, hafter⟩ | ⟨hnot, threshold, hafter⟩ :=
    afterCalls_cases history
  · rw [hafter]
    refine ⟨?_, ?_⟩
    · simpa using logisticRight_of_logistic configureLogistic_init
    · simpa using ltRight_of_absent configureLt_init
  · rw [hafter]
    refine ⟨?_, ?_⟩
    · exact iff_of_true (logisticRight_of_logistic
        (configureLogistic_of_configured (by simp [logisticEngine]))) hall
    · have hfirst : history.head?.any EngineCall.isLogistic = true := by
        cases history with
        | nil => exact absurd rfl hne
        | cons c history => simpa using hall c (List.mem_cons_self ..)
      rw [hfirst]
      exact iff_of_false (not_ltRight_of_stale configureLt_logisticEngine)
        (by simp)
  · rw [hafter]
    refine ⟨iff_of_false (not_logisticRight_ltEngine threshold _) hnot, ?_⟩
    by_cases hfirst : history.head?.any EngineCall.isLogistic = true
    · rw [if_pos hfirst, hfirst]
      refine iff_of_false (not_ltRight_of_stale fun threshold' => ?_) (by simp)
      exact configureLt_ltEngine threshold threshold' _
    · rw [if_neg hfirst]
      refine iff_of_true (ltRight_of_absent fun threshold' => ?_)
        (by simpa using hfirst)
      exact configureLt_ltEngine threshold threshold' _

/-- Two evaluations of the logistic function over the rationals, and a
third. -/
theorem logistic_after_logistic :
    ((afterCalls [.logisticFunc [0], .logisticFunc [3]]).logisticFunc
      [-1, 1 / 4, 2]).1 = ([0, 3 / 4, 1] : List ℚ) := by
  have hright := (history_independent_iff (K := ℚ)
    [.logisticFunc [0], .logisticFunc [3]]).1.2 (by simp [EngineCall.isLogistic])
  rw [hright]
  decide +kernel

/-- A comparison, then the logistic function: below the threshold it is
1. And the other way round: above the threshold `lt` is not 0. -/
theorem stale_engine :
    ((afterCalls [.ltMatrix [0] 0]).logisticFunc [-1]).1 = ([1] : List ℚ)
      ∧ logistic (-1 : ℚ) = 0
      ∧ ¬LogisticRight (afterCalls [EngineCall.ltMatrix [0] (0 : ℚ)])
      ∧ ((afterCalls [.logisticFunc [0]]).ltMatrix [2] 0).1
        = ([5 / 2] : List ℚ)
      ∧ ¬LtRight (afterCalls [EngineCall.logisticFunc [(0 : ℚ)]]) := by
  refine ⟨by decide +kernel, by decide +kernel, ?_, by decide +kernel, ?_⟩
  · exact not_logisticRight_ltEngine 0 []
  · exact not_ltRight_of_stale configureLt_logisticEngine

end PrimiHub.Algorithm
