/-
The rounds of a federated power transform, and what its optimum is
constrained by.

The path of the optimiser through its trials is fixed by the data: the
value at a trial is made of the clients' answers (`objective`). So there is
one script, with two rounds for each trial of that path. The server follows
it by induction on the optimiser (`optimise_follows`), a client by
induction on the trials, with a turn more than there are trials
(`answerTrials_follows`): the number of rounds is nobody's parameter, and
the clients stop where the server does.

The extremes come as one row for each client, the least first. The server
takes the least of the first row and the greatest of the second one. With
one client there is no second row; with more, the rows of two clients stand
for all (`rowExtremes_eq`).
-/
import Mathlib.Data.Fin.VecNotation
import PrimiHub.FL.PowerMax
import PrimiHub.Lib.Descriptive
import PrimiHub.Lib.Traverse

namespace PrimiHub.FL.Power

open Lib Horizontal

variable {clients : Nat} {C : Type} (S : SpecialFunctions C)
  (method : PowerMethod) (data : Fin clients → List ℚ)

-- ================================================================ the script

/-- The data of a party; the server has none. -/
def dataOf : Horizontal.Party clients → List ℚ
  | .server => []
  | .client i => data i

/-- What a client sends first. -/
def samplesOf (p : Horizontal.Party clients) : Nat × ℚ :=
  ((dataOf data p).length, constant S method (dataOf data p))

/-- The number of samples and the constant of all clients. -/
def totals : ℚ × ℚ :=
  let rows := (allClients clients).map (samplesOf S method data)
  ((rows.map fun row => (row.1 : ℚ)).sum, (rows.map Prod.snd).sum)

/-- The answer of a party to a trial. -/
def answerOf (lmb : ℚ) (p : Horizontal.Party clients) : C × C :=
  answer S method lmb (dataOf data p)

/-- The value at a trial. -/
def objective (lmb : ℚ) : ℚ :=
  -llf lmb (totals S method data).1 (totals S method data).2
    (S.logVar (totals S method data).1
      ((allClients clients).map (answerOf S method data lmb)))

/-- The two rounds of a trial. -/
def trialRounds (lmb : ℚ) : List (Horizontal.Round clients (Message C)) :=
  [.scatter .lmb (· = .number lmb),
    .gather .logSumSumSquare fun p m => m = answerOf S method data lmb p]

/-- The round that ends the clients' loops. -/
def lastRound (isYmax : Bool) : Horizontal.Round clients (Message C) :=
  .scatter .lmb (· = if isYmax then .ymax else .none)

/-- The rounds up to the one that ends the clients' loops. -/
def trialsRounds (isYmax : Bool) (trials : List ℚ) :
    List (Horizontal.Round clients (Message C)) :=
  trials.flatMap (trialRounds S method data) ++ [lastRound isYmax]

/-- The round of the extremes. -/
def extremesRounds : Bool → List (Horizontal.Round clients (Message C))
  | true => [.gather .xMinMax fun p m => m = npExtremes (dataOf data p)]
  | false => []

/-- The round of the optimum. -/
def lmaxRound (lmax : ℚ) : Horizontal.Round clients (Message C) :=
  .scatter .lmax (· = lmax)

/-- All rounds after the first. -/
def laterRounds (isYmax : Bool) (trials : List ℚ) (lmax : ℚ) :
    List (Horizontal.Round clients (Message C)) :=
  trialsRounds S method data isYmax trials
    ++ (extremesRounds data isYmax ++ [lmaxRound lmax])

/-- The first round. -/
def samplesRound : Horizontal.Round clients (Message C) :=
  .gather .nSamplesConstant fun p m => m = samplesOf S method data p

-- ================================================================= the server

theorem optimise_follows (brent : Optimiser) :
    Follows (optimise S (totals S method data).1 (totals S method data).2
        brent : Action clients C (List ℚ × ℚ))
      (((brent.run (objective S method data)).1.flatMap
        (trialRounds S method data)).flatMap Horizontal.Round.ofServer)
      (· = brent.run (objective S method data)) := by
  induction brent with
  | ret lmax => exact .ret rfl
  | ask lmb next ih =>
      have hacts : ((Optimiser.ask lmb next).run
            (objective S method data)).1.flatMap (trialRounds S method data)
          = .scatter .lmb (· = .number lmb)
            :: .gather .logSumSumSquare
              (fun p m => m = answerOf S method data lmb p)
            :: ((next (objective S method data lmb)).run
              (objective S method data)).1.flatMap
                (trialRounds S method data) := rfl
      rw [hacts, List.flatMap_cons, List.flatMap_cons, optimise]
      refine (sendAll_follows (μ := Message C) .lmb (.number lmb)).bind
        fun _ _ => ?_
      refine (recvAll_follows (μ := Message C) .logSumSumSquare
        (answerOf S method data lmb)).bind fun ms hms => ?_
      rw [hms]
      have hrest : Follows
          (optimise S (totals S method data).1 (totals S method data).2
            (next (objective S method data lmb)) >>= fun r =>
              (pure (lmb :: r.1, r.2) : Action clients C (List ℚ × ℚ)))
          ((((next (objective S method data lmb)).run
            (objective S method data)).1.flatMap
              (trialRounds S method data)).flatMap
                Horizontal.Round.ofServer ++ [])
          (· = (Optimiser.ask lmb next).run (objective S method data)) :=
        (ih (objective S method data lmb)).bind fun r hr => .ret (by
          rw [hr]
          rfl)
      rw [List.append_nil] at hrest
      exact hrest

/-- The server up to the last trial, and what it does then. -/
theorem serverOpening_reaches (hclients : 0 < clients)
    {f : List ℚ × ℚ → Action clients C Outcome}
    {acts : List (Act (Horizontal.Party clients) (Message C))}
    {P : Action clients C Outcome → Prop}
    (h : Reaches (f (brent.run (objective S method data))) acts P) :
    Reaches
      (Peer.recvAll .nSamplesConstant (allClients clients) >>= fun rows =>
        Proc.lift (sumSamples rows) >>= fun r =>
          optimise S r.1 r.2 brent >>= f)
      ((samplesRound S method data).ofServer
        ++ (((brent.run (objective S method data)).1.flatMap
          (trialRounds S method data)).flatMap
            Horizontal.Round.ofServer ++ acts)) P := by
  refine Reaches.bind (recvAll_follows (μ := Message C) .nSamplesConstant
    (samplesOf S method data)) fun rows hrows => ?_
  have hne : rows ≠ [] := by
    intro hnil
    have hlength := congrArg List.length hrows
    rw [hnil, List.length_map, allClients, List.length_map,
      List.length_finRange, List.length_nil] at hlength
    omega
  rw [sumSamples, if_neg hne, Proc.lift_ok, Proc.ret_bind, hrows]
  refine Reaches.bind (optimise_follows S method data brent) fun r hr => ?_
  rw [hr]
  exact h

-- ================================================================ the clients

section Client

variable (i : Fin clients)

/-- The client answers each trial, and stops at the message that is not a
number. -/
theorem answerTrials_follows (isYmax : Bool) (trials : List ℚ) :
    ∀ fuel, trials.length < fuel →
      Follows (answerTrials S method (data i) fuel)
        ((trials.flatMap (trialRounds S method data)
          ++ [lastRound isYmax]).map (Horizontal.Round.ofClient i))
        (· = (trials, isYmax)) := by
  induction trials with
  | nil =>
      intro fuel hfuel
      obtain ⟨fuel, rfl⟩ := Nat.exists_eq_succ_of_ne_zero
        (Nat.ne_of_gt hfuel)
      refine .recv fun m hm => ?_
      subst hm
      cases isYmax with
      | false => exact .ret rfl
      | true => exact .ret rfl
  | cons lmb trials ih =>
      intro fuel hfuel
      obtain ⟨fuel, rfl⟩ := Nat.exists_eq_succ_of_ne_zero
        (Nat.ne_of_gt (Nat.zero_lt_of_lt hfuel))
      refine .recv fun m hm => ?_
      subst hm
      refine .send rfl ?_
      have hrest : Follows
          (answerTrials S method (data i) fuel >>= fun r =>
            (pure (lmb :: r.1, r.2) : Action clients C (List ℚ × Bool)))
          (((trials.flatMap (trialRounds S method data)
            ++ [lastRound isYmax]).map (Horizontal.Round.ofClient i)) ++ [])
          (· = (lmb :: trials, isYmax)) :=
        (ih fuel (Nat.lt_of_succ_lt_succ hfuel)).bind fun r hr => .ret (by
          rw [hr])
      rw [List.append_nil] at hrest
      exact hrest

/-- What a client returns. -/
def clientOutcome (isYmax : Bool) (r : List ℚ × ℚ) : Outcome :=
  ⟨r.2, r.1, if isYmax then some (npExtremes (data i)) else none⟩

variable {i}

/-- A client returns when the text or `None` has come, with the optimum that
comes then. -/
theorem client_follows (h : checkData method (data i) = .ok ())
    (isYmax : Bool) (trials : List ℚ) (lmax : ℚ) {fuel : Nat}
    (hfuel : trials.length < fuel) :
    Follows (normmaxClient S method fuel (data i))
      ((samplesRound S method data
        :: laterRounds S method data isYmax trials lmax).map
          (Horizontal.Round.ofClient i))
      (· = clientOutcome data i isYmax (trials, lmax)) := by
  rw [normmaxClient, h, Proc.lift_ok, List.map_cons, laterRounds,
    List.map_append]
  refine .put_bind rfl ?_
  refine (answerTrials_follows S method data i isYmax trials fuel
    hfuel).bind fun r hr => ?_
  subst hr
  cases isYmax with
  | false => exact .recv fun m hm => .ret (by rw [hm]; rfl)
  | true =>
      exact .put_bind rfl (.recv fun m hm => .ret (by rw [hm]; rfl))

end Client

-- ================================================================== the runs

variable {ymax : YMax} {brent : Optimiser}

/-- The trials and the optimum of the federated function, before the
constraint. -/
def found (brent : Optimiser) : List ℚ × ℚ :=
  brent.run (objective S method data)

/-- The rows of extremes that the server receives. -/
def extremeRows : List (ℚ × ℚ) :=
  (allClients clients).map fun p => npExtremes (dataOf data p)

theorem rounds_ofServer (isYmax : Bool) (trials : List ℚ)
    (last : List (Horizontal.Round clients (Message C))) :
    (samplesRound S method data
        :: (trialsRounds S method data isYmax trials ++ last)).flatMap
          Horizontal.Round.ofServer
      = (samplesRound S method data).ofServer
        ++ ((trials.flatMap (trialRounds S method data)).flatMap
            Horizontal.Round.ofServer
          ++ ((lastRound isYmax : Horizontal.Round clients (Message C)).ofServer
            ++ last.flatMap Horizontal.Round.ofServer)) := by
  rw [List.flatMap_cons, trialsRounds, List.flatMap_append,
    List.flatMap_append, List.flatMap_singleton, List.append_assoc]

/-- What the server returns when `ymax` is infinite. -/
theorem server_follows_inf (hclients : 0 < clients)
    (hymax : checkYmax S ymax = .ok none) :
    Follows (normmaxServer S method brent ymax)
      ((samplesRound S method data :: laterRounds S method data false
        (found S method data brent).1
        (found S method data brent).2).flatMap Horizontal.Round.ofServer)
      (· = ⟨(found S method data brent).2, (found S method data brent).1,
        none⟩) := by
  rw [normmaxServer, hymax, Proc.lift_ok, Proc.ret_bind, laterRounds,
    rounds_ofServer]
  refine (serverOpening_reaches S method data hclients
    (Follows.reaches ?_)).follows fun q hq => hq
  refine (sendAll_follows (μ := Message C) .lmb .none).bind fun _ _ => ?_
  exact sendAll_ret (μ := Message C) .lmax (found S method data brent).2 _

/-- What the server returns when `ymax` is finite and the rows have two
extremes. -/
theorem server_follows_finite (hclients : 0 < clients) {bound : ℚ}
    (hymax : checkYmax S ymax = .ok (some bound)) {e : ℚ × ℚ}
    (he : rowExtremes (extremeRows data) = .ok e) :
    Follows (normmaxServer S method brent ymax)
      ((samplesRound S method data :: laterRounds S method data true
        (found S method data brent).1
        (constrainedLmax S method (found S method data brent).2 e.1 e.2
          bound)).flatMap Horizontal.Round.ofServer)
      (· = ⟨constrainedLmax S method (found S method data brent).2 e.1 e.2
        bound, (found S method data brent).1, some e⟩) := by
  rw [normmaxServer, hymax, Proc.lift_ok, Proc.ret_bind, laterRounds,
    rounds_ofServer]
  refine (serverOpening_reaches S method data hclients
    (Follows.reaches ?_)).follows fun q hq => hq
  refine (sendAll_follows (μ := Message C) .lmb .ymax).bind fun _ _ => ?_
  rw [extremesRounds, List.flatMap_append, List.flatMap_singleton]
  refine (recvAll_follows (μ := Message C) .xMinMax
    fun p => npExtremes (dataOf data p)).bind fun rows hrows => ?_
  subst hrows
  have hrows : rowExtremes ((allClients clients).map fun p =>
      npExtremes (dataOf data p)) = .ok e := he
  rw [hrows, Proc.lift_ok, Proc.ret_bind]
  exact sendAll_ret (μ := Message C) .lmax _ _

/-- When the rows have no two extremes, the server raises after it has
received them. -/
theorem server_reaches_raise (hclients : 0 < clients) {bound : ℚ}
    (hymax : checkYmax S ymax = .ok (some bound)) {e : PowerError}
    (he : rowExtremes (extremeRows data) = .error e) :
    Reaches (normmaxServer S method brent ymax)
      ((samplesRound S method data
        :: (trialsRounds S method data true (found S method data brent).1
          ++ extremesRounds data true)).flatMap Horizontal.Round.ofServer)
      fun q => ∃ e, q = .raise e := by
  rw [normmaxServer, hymax, Proc.lift_ok, Proc.ret_bind, rounds_ofServer]
  refine serverOpening_reaches S method data hclients ?_
  refine Reaches.bind (sendAll_follows (μ := Message C) .lmb .ymax)
    fun _ _ => ?_
  rw [extremesRounds, List.flatMap_singleton,
    ← List.append_nil (Horizontal.Round.ofServer _)]
  refine Reaches.bind (recvAll_follows (μ := Message C) .xMinMax
    fun p => npExtremes (dataOf data p)) fun rows hrows => .done ⟨e, ?_⟩
  have hrows : rowExtremes rows = .error e := by
    rw [hrows]
    exact he
  rw [hrows]
  rfl

/-- A run in which the server follows its part to the end. -/
theorem federated_completes (h : Accepted method data) (isYmax : Bool)
    {lmax : ℚ} {extremes : Option (ℚ × ℚ)}
    (hserver : Follows (normmaxServer S method brent ymax)
      ((samplesRound S method data :: laterRounds S method data isYmax
        (found S method data brent).1 lmax).flatMap Horizontal.Round.ofServer)
      (· = ⟨lmax, (found S method data brent).1, extremes⟩))
    {fuel : Nat} (hfuel : (found S method data brent).1.length < fuel) :
    Completes (federated S method brent ymax fuel data) fun v => ∀ p,
      v p = ofClients ⟨lmax, (found S method data brent).1, extremes⟩
        (fun i => clientOutcome data i isYmax
          ((found S method data brent).1, lmax)) p :=
  completes_of_rounds
    (Q := fun p => (· = ofClients
      ⟨lmax, (found S method data brent).1, extremes⟩ (fun i =>
        clientOutcome data i isYmax ((found S method data brent).1, lmax))
      p))
    _ (fun i => client_follows S method data (h.data i) isYmax _ _ hfuel)
    hserver

/-- Where the server follows its part to the end, all is right if the
extremes are. -/
theorem normmaxRight_of_follows (h : Accepted method data)
    (isYmax : Bool) {lmax : ℚ} {extremes : Option (ℚ × ℚ)}
    (hserver : Follows (normmaxServer S method brent ymax)
      ((samplesRound S method data :: laterRounds S method data isYmax
        (found S method data brent).1 lmax).flatMap Horizontal.Round.ofServer)
      (· = ⟨lmax, (found S method data brent).1, extremes⟩)) :
    NormmaxRight S method brent ymax data
      ↔ PassesExtremes ymax (pooled data) extremes := by
  have hruns := fun fuel hfuel =>
    @federated_completes _ _ S method data _ _ h isYmax _ _ hserver fuel hfuel
  constructor
  · rintro ⟨turns, hturns⟩
    have hlater : (found S method data brent).1.length
        < max turns ((found S method data brent).1.length + 1) :=
      Nat.lt_of_succ_le (Nat.le_max_right _ _)
    exact ((hruns _ hlater).iff_of_eq.mp
      (hturns _ (Nat.le_max_left _ _))).2
  · intro hextremes
    refine ⟨(found S method data brent).1.length + 1, fun fuel hfuel =>
      (hruns fuel (Nat.lt_of_succ_le hfuel)).iff_of_eq.mpr ?_⟩
    exact ⟨fun i => ⟨rfl, rfl⟩, hextremes⟩

/-- When the rows have no two extremes, the parties do not all return. -/
theorem not_normmaxRight (h : Accepted method data) {bound : ℚ}
    (hymax : checkYmax S ymax = .ok (some bound)) {e : PowerError}
    (he : rowExtremes (extremeRows data) = .error e) :
    ¬ NormmaxRight S method brent ymax data := by
  rintro ⟨turns, hturns⟩
  have hfuel : (found S method data brent).1.length
      < max turns ((found S method data brent).1.length + 1) :=
    Nat.lt_of_succ_le (Nat.le_max_right _ _)
  have hclient := fun i => client_follows S method data (h.data i) true
    (found S method data brent).1 0 hfuel
  have hruns := hturns _ (Nat.le_max_left turns
    ((found S method data brent).1.length + 1))
  refine not_completes_of_rounds
    (samplesRound S method data
      :: (trialsRounds S method data true (found S method data brent).1
        ++ extremesRounds data true)) (fun i => ?_)
    (server_reaches_raise S method data h.clients_pos hymax he) hruns
  have hclient := hclient i
  rw [laterRounds, ← List.append_assoc, ← List.cons_append,
    List.map_append] at hclient
  exact hclient.reaches_left

-- ============================================================ the constraint

/-- The least of data is not above the greatest. -/
theorem npExtremes_le (x : List ℚ) :
    (npExtremes x).1 ≤ (npExtremes x).2 := by
  cases x with
  | nil => exact le_refl _
  | cons v x =>
      obtain ⟨least, hleast⟩ := Option.isSome_iff_exists.mp
        (List.isSome_min?_iff.mpr (List.cons_ne_nil v x))
      obtain ⟨greatest, hgreatest⟩ := Option.isSome_iff_exists.mp
        (List.isSome_max?_iff.mpr (List.cons_ne_nil v x))
      rw [npExtremes, hleast, hgreatest]
      exact (min?_eq_some_iff_isLeast.mp hleast).2
        (max?_eq_some_iff_isGreatest.mp hgreatest).1

theorem extremeRows_getElem? (k : Nat) (hk : k < clients) :
    (extremeRows data)[k]? = some (npExtremes (data ⟨k, hk⟩)) := by
  rw [extremeRows, map_allClients, List.getElem?_map,
    List.getElem?_eq_getElem (by rwa [List.length_finRange]),
    List.getElem_finRange]
  rfl

theorem item_extremeRows (k : Nat) (hk : k < clients) :
    item (extremeRows data) k = .ok (npExtremes (data ⟨k, hk⟩)) := by
  rw [item, extremeRows_getElem? data k hk]

/-- The rows of the first two clients stand for all. -/
theorem rowExtremes_eq (h : 1 < clients) :
    rowExtremes (extremeRows data)
      = .ok ((npExtremes (data ⟨0, Nat.zero_lt_of_lt h⟩)).1,
        (npExtremes (data ⟨1, h⟩)).2) := by
  rw [rowExtremes, item_extremeRows data 0 (Nat.zero_lt_of_lt h),
    item_extremeRows data 1 h]
  dsimp only [bind, Except.bind]
  rw [min_eq_left (npExtremes_le _), max_eq_right (npExtremes_le _)]

/-- One client has no second row. -/
theorem rowExtremes_error (hclients : 0 < clients) (h : ¬ 1 < clients) :
    rowExtremes (extremeRows data) = .error .indexError := by
  have hsecond : (extremeRows data)[1]? = none := by
    rw [List.getElem?_eq_none_iff, extremeRows, map_allClients,
      List.length_map, List.length_finRange]
    exact Nat.le_of_not_lt h
  rw [rowExtremes, item_extremeRows data 0 hclients, item, hsecond]
  rfl

/-- A finite `ymax` is a number. -/
theorem exists_bound (h : ymax.Positive) (hinf : ymax ≠ .inf) :
    ∃ bound, checkYmax S ymax = .ok (some bound) := by
  cases ymax with
  | bigFloat => exact ⟨_, rfl⟩
  | number y =>
      refine ⟨y, ?_⟩
      rw [checkYmax, if_neg (not_le_of_gt (h y rfl))]
  | inf => exact absurd rfl hinf

/-- With two clients or more, the constraint gets the extremes of the first
two. -/
theorem normmaxRight_iff_firstTwo (h : Accepted method data)
    (hymax : ymax.Positive) (hinf : ymax ≠ .inf) (hsecond : 1 < clients) :
    NormmaxRight S method brent ymax data ↔ FirstTwoExtreme data := by
  obtain ⟨bound, hbound⟩ := exists_bound S hymax hinf
  rw [normmaxRight_of_follows S method data h true
    (server_follows_finite S method data h.clients_pos hbound
      (rowExtremes_eq data hsecond)), PassesExtremes, if_neg hinf,
    Option.some_inj, Prod.ext_iff]
  exact ⟨fun heq => ⟨hsecond, heq⟩, fun ⟨_, heq⟩ => heq⟩

/-- With one client the server raises. -/
theorem not_normmaxRight_single (h : Accepted method data)
    (hymax : ymax.Positive) (hinf : ymax ≠ .inf) (hsecond : ¬ 1 < clients) :
    ¬ NormmaxRight S method brent ymax data := by
  obtain ⟨bound, hbound⟩ := exists_bound S hymax hinf
  exact not_normmaxRight S method data h hbound
    (rowExtremes_error data h.clients_pos hsecond)

/-- The extremes that are to be passed are those that the function at one
place constrains its optimum by, where it returns. -/
theorem normmax_extremes {x : List ℚ} {o : Outcome}
    (h : normmax S method brent ymax x = .ok o) :
    PassesExtremes ymax x o.extremes := by
  unfold normmax at h
  dsimp only at h
  -- past the checks of the data
  split at h
  · cases h
  split at h
  · cases h
  split at h
  · cases h
  obtain ⟨bound, hbound, h⟩ := bind_eq_ok_iff.mp h
  cases ymax with
  | bigFloat =>
      cases hbound
      cases h
      rfl
  | number y =>
      unfold checkYmax at hbound
      dsimp only at hbound
      split at hbound
      · cases hbound
      · cases hbound
        cases h
        rfl
  | inf =>
      cases hbound
      cases h
      rfl

/-- The server refuses a number for `ymax` that is not positive before it
has received anything, and the clients wait for the first trial. -/
theorem not_normmaxRight_refused (hymax : ¬ ymax.Positive) :
    ¬ NormmaxRight S method brent ymax data := by
  unfold YMax.Positive at hymax
  push Not at hymax
  obtain ⟨y, rfl, hy⟩ := hymax
  rintro ⟨turns, hturns⟩
  refine not_completes_of_rounds [] (fun i => .done trivial) (.done ?_)
    (hturns turns (le_refl turns))
  refine ⟨.valueError "`ymax` must be strictly positive", ?_⟩
  rw [federated, normmaxServer, checkYmax, if_pos hy]
  rfl

/-- The federated power transforms end under every schedule, and constrain
their optimum by the extremes of all data, just when the server accepts
`ymax`, and `ymax` is infinite or the first two clients have these
extremes. -/
theorem normmaxRight_iff (h : Accepted method data) :
    NormmaxRight S method brent ymax data
      ↔ ymax.Positive ∧ (ymax = .inf ∨ FirstTwoExtreme data) := by
  by_cases hymax : ymax.Positive
  case neg =>
    exact iff_of_false (not_normmaxRight_refused S method data hymax)
      fun hcond => hymax hcond.1
  rw [and_iff_right hymax]
  by_cases hinf : ymax = .inf
  · subst hinf
    rw [normmaxRight_of_follows S method data h false
      (server_follows_inf S method data h.clients_pos rfl)]
    exact iff_of_true (if_pos rfl).symm (Or.inl rfl)
  rw [or_iff_right hinf]
  by_cases hsecond : 1 < clients
  · exact normmaxRight_iff_firstTwo S method data h hymax hinf hsecond
  · exact iff_of_false
      (not_normmaxRight_single S method data h hymax hinf hsecond)
      fun ⟨hfirst, _⟩ => hsecond hfirst

/-- Functions near those of numpy and scipy at 1. -/
def firstOrder : SpecialFunctions ℚ where
  log x := x - 1
  log1p x := x
  logTransformed _ lmb x := lmb * (x - 1)
  logSumSumSquare logx := (logx.sum, (logx.map (2 * ·)).sum)
  logVar nSamples rows := (rows.map Prod.snd).sum / nSamples
  logVarOf _ lmb x := (x.map fun v => 2 * lmb * (v - 1)).sum / x.length
  transform _ x _ := x - 1
  invLmbda _ _ _ := 1
  bigFloat := 10 ^ 304

/-- Two trials. -/
def twoTrials : Optimiser := .ask (-2) fun _ => .ask 2 fun _ => .ret 1

theorem positive_bigFloat : YMax.bigFloat.Positive := nofun

theorem normmaxRight_ascending :
    NormmaxRight firstOrder .boxcox twoTrials .bigFloat
      ![[1, 2], [3, 4]] :=
  (normmaxRight_iff firstOrder .boxcox ![[1, 2], [3, 4]]
    ⟨by decide, by decide⟩).mpr
      ⟨positive_bigFloat, Or.inr ⟨by decide, by decide, by decide⟩⟩

/-- One client; and two clients, the first with the greater data. -/
theorem not_normmaxRight_descending :
    ¬ NormmaxRight firstOrder .boxcox twoTrials .bigFloat ![[1, 2]]
      ∧ ¬ NormmaxRight firstOrder .boxcox twoTrials .bigFloat
        ![[3, 4], [1, 2]] := by
  refine ⟨?_, ?_⟩
  · exact not_normmaxRight_single firstOrder .boxcox ![[1, 2]]
      ⟨by decide, by decide⟩ positive_bigFloat (by decide) (by decide)
  · rw [normmaxRight_iff_firstTwo firstOrder .boxcox ![[3, 4], [1, 2]]
      ⟨by decide, by decide⟩ positive_bigFloat (by decide) (by decide)]
    rintro ⟨_, hleast, -⟩
    have hthree : (npExtremes [3, 4]).1
        = (npExtremes (pooled ![[3, 4], [1, 2]])).1 := hleast
    exact absurd hthree (by decide)

end PrimiHub.FL.Power
