/-
Vertical linear regression, against one party with all columns.

The columns of all parties side by side are a table over the index
`Joint`; a `LinearRegression` on it falls into the host's part, with the
bias, and a part for each guest. The host's `z` are the predictions of the
whole (`hostZ_parts`), so its errors are those of the whole, and the step
of a part is the part of the step (`hostPart_fit`, `guestPart_fit`).

With a seed all loaders give the same batches, so a task is the training
of the whole, part by part, whatever the schedule
(`trained_jointly`).
-/
import Mathlib.Algebra.BigOperators.Fin
import Mathlib.Data.Fintype.BigOperators
import PrimiHub.FL.LinearVertical
import PrimiHub.FL.Proofs.Linear

namespace PrimiHub.FL.LinearVertical

open Lib Linear Horizontal

variable {guests hostDim : Nat} {guestDim : Fin guests → Nat} {K γ : Type}

-- =========================================================== specification

/-- The columns of all parties. -/
abbrev Joint (hostDim : Nat) (guestDim : Fin guests → Nat) : Type :=
  Fin hostDim ⊕ (i : Fin guests) × Fin (guestDim i)

/-- A row with all columns. -/
def Sample.x (s : Sample hostDim guestDim K) : Joint hostDim guestDim → K :=
  Sum.elim s.host fun column => s.guest column.1 column.2

/-- The host's part of a model. -/
def hostPart (m : LinearRegression (Joint hostDim guestDim) K) :
    LinearRegression (Fin hostDim) K :=
  ⟨m.learningRate, m.alpha, fun j => m.weight (.inl j), m.bias⟩

/-- A guest's part of a model. -/
def guestPart (i : Fin guests)
    (m : LinearRegression (Joint hostDim guestDim) K) :
    GuestModel (Fin (guestDim i)) K :=
  ⟨m.learningRate, m.alpha, fun j => m.weight (.inr ⟨i, j⟩)⟩

section Specification

variable [Field K]

/-- One step on some rows. -/
def fitSamples (m : LinearRegression (Joint hostDim guestDim) K)
    (samples : List (Sample hostDim guestDim K)) :
    LinearRegression (Joint hostDim guestDim) K :=
  m.fit (samples.map Sample.x) (samples.map Sample.y)

/-- A pass over the batches of some rows. -/
def jointPass (samples : List (Sample hostDim guestDim K))
    (batches : List (List Nat))
    (m : LinearRegression (Joint hostDim guestDim) K) :
    LinearRegression (Joint hostDim guestDim) K :=
  batches.foldl (fun m idx => fitSamples m (rowsAt samples idx)) m

/-- A `LinearRegression` trained in one place on the table with all
columns, with a loader that starts in this state of the generator. -/
def trainedJointly (rng : GlobalRng γ) (settings : Settings K)
    (samples : List (Sample hostDim guestDim K)) (state : γ)
    (epochs : Nat) : LinearRegression (Joint hostDim guestDim) K :=
  (List.range epochs).foldl (fun m e => jointPass samples
      (passes rng samples.length
        (min samples.length settings.batchSize)
        (List.range samples.length) state e) m)
    (.init settings.learningRate settings.alpha)

/-- Every party has its part of the model, and the host the predictions of
the whole. -/
structure Parts (m : LinearRegression (Joint hostDim guestDim) K)
    (samples : List (Sample hostDim guestDim K))
    (v : (p : Party guests) → Result hostDim guestDim K p) : Prop where
  host : (v .host).1 = hostPart m
  guest : ∀ i, v (.guest i) = guestPart i m
  predictions : (v .host).2 = m.predict (samples.map Sample.x)

end Specification

-- ================================================================ one step

section Step

variable [Field K]

/-- What the parts add to a prediction. -/
theorem sum_joint (m : LinearRegression (Joint hostDim guestDim) K)
    (s : Sample hostDim guestDim K) :
    ∑ j, s.x j * m.weight j
      = ∑ j, s.host j * (hostPart m).weight j
        + ∑ i, ∑ j, s.guest i j * (guestPart i m).weight j := by
  rw [Fintype.sum_sum_type, Fintype.sum_sigma]
  rfl

/-- Arrays of one length are added entry by entry. -/
theorem addGuestZ_map {α : Type} (samples : List α) (f : α → K)
    (g : Fin guests → α → K) :
    addGuestZ (samples.map f)
        ((List.finRange guests).map fun i => samples.map (g i))
      = .ok (samples.map fun s => f s + ∑ i, g i s) := by
  have hlength : ∀ z ∈ (List.finRange guests).map fun i =>
      samples.map (g i), z.length = (samples.map f).length := by
    intro z hz
    obtain ⟨i, -, rfl⟩ := List.mem_map.mp hz
    rw [List.length_map, List.length_map]
  unfold addGuestZ
  rw [if_pos hlength]
  refine congrArg Except.ok (List.ext_getElem (by simp) fun k hk hk' => ?_)
  have hk'' : k < samples.length := by simpa using hk'
  rw [List.getElem_mapIdx, List.getElem_map, List.getElem_map,
    Fin.sum_univ_def, List.map_map]
  congr 3
  funext i
  simp only [Function.comp_apply, List.getD_eq_getElem?_getD,
    List.getElem?_map, List.getElem?_eq_getElem hk'', Option.map_some,
    Option.getD_some]

/-- The host's `z` are the predictions of the whole. -/
theorem hostZ_parts (m : LinearRegression (Joint hostDim guestDim) K)
    (samples : List (Sample hostDim guestDim K)) :
    hostZ (hostPart m) (samples.map Sample.host)
        ((List.finRange guests).map fun i => Guest.computeZ (guestPart i m)
          (samples.map fun s => s.guest i))
      = .ok (m.predict (samples.map Sample.x)) := by
  unfold hostZ LinearRegression.predict Guest.computeZ
  simp only [List.map_map]
  refine (addGuestZ_map samples _ _).trans (congrArg Except.ok ?_)
  refine List.map_congr_left fun s _ => ?_
  show _ + _ + _ = ∑ j, s.x j * m.weight j + m.bias
  rw [sum_joint, add_right_comm]
  rfl

/-- A column of the whole is a column of its party. -/
theorem weightGrad_map {α ι ι' : Type} (alpha : K) (w : ι → K)
    (w' : ι' → K) (f : α → ι → K) (g : α → ι' → K) (j : ι) {j' : ι'}
    (hweight : w j = w' j') (hcolumn : ∀ a, f a j = g a j')
    (rows : List α) (error : List K) :
    LinearRegression.weightGrad alpha w (rows.map f) error j
      = LinearRegression.weightGrad alpha w' (rows.map g) error j' := by
  unfold LinearRegression.weightGrad
  rw [hweight, List.length_map, List.length_map, List.zipWith_map_left,
    List.zipWith_map_left]
  simp only [hcolumn]

/-- The host's part of a step. -/
theorem hostPart_fit (m : LinearRegression (Joint hostDim guestDim) K)
    (samples : List (Sample hostDim guestDim K)) :
    (hostPart m).descend (samples.map Sample.host)
        (hostError (samples.map Sample.y)
          (m.predict (samples.map Sample.x)))
      = hostPart (fitSamples m samples) := by
  refine LinearRegression.ext rfl rfl (funext fun j => ?_) rfl
  have hgrad := weightGrad_map m.alpha (hostPart m).weight m.weight
    Sample.host Sample.x j rfl (fun _ => rfl) samples
    (hostError (samples.map Sample.y) (m.predict (samples.map Sample.x)))
  exact congrArg (fun grad => m.weight (.inl j) - m.learningRate * grad)
    hgrad

/-- A guest's part of a step. -/
theorem guestPart_fit (i : Fin guests)
    (m : LinearRegression (Joint hostDim guestDim) K)
    (samples : List (Sample hostDim guestDim K)) :
    Guest.fit (guestPart i m) (samples.map fun s => s.guest i)
        (hostError (samples.map Sample.y)
          (m.predict (samples.map Sample.x)))
      = guestPart i (fitSamples m samples) := by
  refine congrArg (GuestModel.mk m.learningRate m.alpha)
    (funext fun j => ?_)
  have hgrad := weightGrad_map m.alpha (guestPart i m).weight m.weight
    (fun s => s.guest i) Sample.x j rfl (fun _ => rfl) samples
    (hostError (samples.map Sample.y) (m.predict (samples.map Sample.x)))
  exact congrArg (fun grad => m.weight (.inr ⟨i, j⟩)
    - m.learningRate * grad) hgrad

end Step

-- ================================================================= loaders

section Loaders

variable {rng : GlobalRng γ} {n batchSize count : Nat} {start state : γ}
  {indices : List Nat}

/-- A loader over so many rows after so many passes. -/
structure AfterPasses (rng : GlobalRng γ) (n batchSize : Nat) (start : γ)
    (count : Nat) (indices : List Nat) (state : γ) : Prop where
  length : indices.length = n
  passes : ∀ e, passes rng n batchSize indices state e
    = passes rng n batchSize (List.range n) start (count + e)

/-- Before the first pass. -/
theorem afterPasses_zero :
    AfterPasses rng n batchSize start 0 (List.range n) start :=
  ⟨List.length_range, fun e => by rw [Nat.zero_add]⟩

/-- One more pass, whatever the rows are. -/
theorem AfterPasses.forEach {α β : Type}
    (h : AfterPasses rng n batchSize start count indices state)
    (hn : 0 < n) (hpos : 0 < batchSize) {dataset : List α}
    (hdata : dataset.length = n) (label : Option (List β)) :
    (loaderAt dataset label batchSize indices).forEach rng state
        = some ((Linear.passes rng n batchSize (List.range n) start
            count).map (loaderAt dataset label batchSize indices).getBatch,
          loaderAt dataset label batchSize (rng.shuffle state indices).1,
          (rng.shuffle state indices).2)
      ∧ AfterPasses rng n batchSize start (count + 1)
          (rng.shuffle state indices).1 (rng.shuffle state indices).2 := by
  have hpass := forEach_loaderAt rng label hpos
    (List.length_pos_iff.mp (hdata.symm ▸ hn)) (h.length.trans hdata.symm)
    state
  rw [hdata, h.passes, Nat.add_zero] at hpass
  refine ⟨hpass, (rng.shuffle_perm state indices).length_eq.trans h.length,
    fun e => ?_⟩
  exact (h.passes (e + 1)).trans
    (by rw [Nat.add_assoc count 1 e, Nat.add_comm 1 e])

end Loaders

-- ================================================================== script

section Script

variable [Field K] {settings : Settings K}
  (samples : List (Sample hostDim guestDim K))
  (m : LinearRegression (Joint hostDim guestDim) K)

/-- The guests send what they add to the predictions. -/
def zRound : Horizontal.Round guests (Message K) :=
  .gather .guestZ fun p z => z = ofClients [] (fun i =>
    Guest.computeZ (guestPart i m) (samples.map fun s => s.guest i)) p

/-- A step. -/
def stepRounds : List (Horizontal.Round guests (Message K)) :=
  [zRound samples m, .scatter .error (· = hostError (samples.map Sample.y)
    (m.predict (samples.map Sample.x)))]

/-- A pass over some batches. -/
def passRounds : List (List Nat) →
    LinearRegression (Joint hostDim guestDim) K →
      List (Horizontal.Round guests (Message K))
  | [], _ => []
  | idx :: rest, m =>
      stepRounds (rowsAt samples idx) m
      ++ passRounds rest (fitSamples m (rowsAt samples idx))

/-- The metrics of an epoch. -/
def metricsRounds (settings : Settings K) :
    List (Horizontal.Round guests (Message K)) :=
  if settings.printMetrics then [zRound samples m] else []

/-- So many epochs from the `e`-th on. -/
def epochsRounds (rng : GlobalRng γ) (settings : Settings K) (start : γ) :
    Nat → Nat → LinearRegression (Joint hostDim guestDim) K →
      List (Horizontal.Round guests (Message K))
  | _, 0, _ => []
  | e, count + 1, m =>
      let batches := passes rng samples.length
        (min samples.length settings.batchSize) (List.range samples.length)
        start e
      passRounds samples batches m
      ++ (metricsRounds samples (jointPass samples batches m) settings
        ++ epochsRounds rng settings start (e + 1) count
          (jointPass samples batches m))

/-- The model after so many epochs from the `e`-th on. -/
def jointEpochs (rng : GlobalRng γ) (settings : Settings K) (start : γ)
    (e count : Nat) (m : LinearRegression (Joint hostDim guestDim) K) :
    LinearRegression (Joint hostDim guestDim) K :=
  (List.range' e count).foldl (fun m e => jointPass samples
    (passes rng samples.length (min samples.length settings.batchSize)
      (List.range samples.length) start e) m) m

/-- All messages of a task. -/
def taskRounds (rng : GlobalRng γ) (settings : Settings K) (start : γ) :
    List (Horizontal.Round guests (Message K)) :=
  epochsRounds samples rng settings start 0 settings.epoch
    (.init settings.learningRate settings.alpha)
  ++ [zRound samples
    (trainedJointly rng settings samples start settings.epoch)]

-- ==================================================================== host

variable {samples m}

/-- The host adds the guests' partial products to its own. -/
theorem Host.follows_computeZ :
    Follows (Host.computeZ (hostPart m) (samples.map Sample.host) :
        Action guests K (List K))
      (zRound samples m).ofServer (· = m.predict (samples.map Sample.x)) := by
  rw [← List.append_nil (Horizontal.Round.ofServer _)]
  refine (recvAll_follows Tag.guestZ _).bind fun guestZ hguestZ => ?_
  rw [hguestZ, map_ofClients, hostZ_parts]
  exact .ret rfl

/-- A step of the host: it sends the error and keeps its part of the joint
step. -/
theorem Host.follows_train :
    Follows (Host.train (hostPart m) (samples.map Sample.host)
        (samples.map Sample.y) : Action guests K _)
      ((stepRounds samples m).flatMap Horizontal.Round.ofServer)
      (· = hostPart (fitSamples m samples)) := by
  refine Host.follows_computeZ.bind fun z hz => ?_
  rw [hz, ← hostPart_fit]
  exact sendAll_ret Tag.error _ _

/-- The batches of a pass at the host. -/
theorem Host.follows_trainBatches {batchSize : Nat} {indices : List Nat}
    (batches : List (List Nat)) :
    Follows (Host.trainBatches (batches.map
        (loaderAt (samples.map Sample.host) (some (samples.map Sample.y))
          batchSize indices).getBatch) (hostPart m) : Action guests K _)
      ((passRounds samples batches m).flatMap Horizontal.Round.ofServer)
      (· = hostPart (jointPass samples batches m)) := by
  induction batches generalizing m with
  | nil => exact .ret rfl
  | cons idx batches ih =>
      rw [passRounds, List.flatMap_append, List.map_cons]
      have hstep : Follows (Host.train (hostPart m)
            (rowsAt (samples.map Sample.host) idx)
            (rowsAt (samples.map Sample.y) idx) : Action guests K _)
          ((stepRounds (rowsAt samples idx) m).flatMap
            Horizontal.Round.ofServer)
          (· = hostPart (fitSamples m (rowsAt samples idx))) := by
        rw [rowsAt_map, rowsAt_map]
        exact Host.follows_train
      refine hstep.bind fun self hself => ?_
      rw [hself]
      exact ih

/-- The metrics of an epoch at the host, where they are asked for. -/
theorem Host.follows_epochMetrics :
    Follows (Host.epochMetrics settings (hostPart m)
        (samples.map Sample.host) : Action guests K Unit)
      ((metricsRounds samples m settings).flatMap Horizontal.Round.ofServer)
      fun _ => True := by
  unfold Host.epochMetrics metricsRounds
  split
  · exact Host.follows_computeZ.bind fun _ _ => .ret trivial
  · exact .ret trivial

/-- The epochs of the host; the loader is shuffled by the seeded generator.
-/
theorem Host.follows_epochs (hsamples : samples ≠ [])
    (hpos : 0 < settings.batchSize) {rng : GlobalRng γ} {start : γ}
    (count : Nat) {e : Nat} {indices : List Nat} {state : γ}
    (h : AfterPasses rng samples.length
      (min samples.length settings.batchSize) start e indices state) :
    Follows (Host.epochs rng settings (samples.map Sample.host) count
        (hostPart m) (loaderAt (samples.map Sample.host)
          (some (samples.map Sample.y))
          (min samples.length settings.batchSize) indices) state :
            Action guests K _)
      ((epochsRounds samples rng settings start e count m).flatMap
        Horizontal.Round.ofServer)
      (· = hostPart (jointEpochs samples rng settings start e count m)) := by
  induction count generalizing e indices state m with
  | zero => exact .ret rfl
  | succ count ih =>
      have hn : 0 < samples.length := List.length_pos_iff.mpr hsamples
      obtain ⟨hpass, hnext⟩ := h.forEach hn (Nat.lt_min.mpr ⟨hn, hpos⟩)
        (List.length_map Sample.host) (some (samples.map Sample.y))
      unfold Host.epochs epochsRounds
      rw [hpass, List.flatMap_append, List.flatMap_append]
      refine (Host.follows_trainBatches _).bind fun self hself => ?_
      rw [hself]
      exact Host.follows_epochMetrics.bind fun _ _ => ih hnext

-- =================================================================== guest

/-- A guest sends its partial products. -/
theorem Guest.follows_sendZ (i : Fin guests) :
    Follows (Guest.sendZ (guestPart i m) (samples.map fun s => s.guest i) :
        Action guests K Unit)
      [(zRound samples m).ofClient i] fun _ => True :=
  .send rfl (.ret trivial)

/-- A step of a guest: with the host's error it keeps its part of the joint
step. -/
theorem Guest.follows_train (i : Fin guests) :
    Follows (Guest.train (guestPart i m) (samples.map fun s => s.guest i) :
        Action guests K _)
      ((stepRounds samples m).map (Horizontal.Round.ofClient i))
      (· = guestPart i (fitSamples m samples)) := by
  refine (Guest.follows_sendZ i).bind fun _ _ => ?_
  refine .get_bind fun error herror => .ret ?_
  rw [herror, guestPart_fit]

/-- The batches of a pass at a guest, in the order of the host's. -/
theorem Guest.follows_trainBatches (i : Fin guests) {batchSize : Nat}
    {indices : List Nat} (batches : List (List Nat)) :
    Follows (Guest.trainBatches (batches.map
        (loaderAt (samples.map fun s => s.guest i) (none : Option (List K))
          batchSize indices).getBatch) (guestPart i m) : Action guests K _)
      ((passRounds samples batches m).map (Horizontal.Round.ofClient i))
      (· = guestPart i (jointPass samples batches m)) := by
  induction batches generalizing m with
  | nil => exact .ret rfl
  | cons idx batches ih =>
      rw [passRounds, List.map_append, List.map_cons]
      have hstep : Follows (Guest.train (guestPart i m)
            (rowsAt (samples.map fun s => s.guest i) idx) :
              Action guests K _)
          ((stepRounds (rowsAt samples idx) m).map
            (Horizontal.Round.ofClient i))
          (· = guestPart i (fitSamples m (rowsAt samples idx))) := by
        rw [rowsAt_map]
        exact Guest.follows_train i
      refine hstep.bind fun self hself => ?_
      rw [hself]
      exact ih

/-- The metrics of an epoch at a guest. -/
theorem Guest.follows_epochMetrics (i : Fin guests) :
    Follows (Guest.epochMetrics settings (guestPart i m)
        (samples.map fun s => s.guest i) : Action guests K Unit)
      ((metricsRounds samples m settings).map (Horizontal.Round.ofClient i))
      fun _ => True := by
  unfold Guest.epochMetrics metricsRounds
  split
  · exact Guest.follows_sendZ i
  · exact .ret trivial

/-- The epochs of a guest; its generator has the same seed, so it shuffles
alike. -/
theorem Guest.follows_epochs (i : Fin guests) (hsamples : samples ≠ [])
    (hpos : 0 < settings.batchSize) {rng : GlobalRng γ} {start : γ}
    (count : Nat) {e : Nat} {indices : List Nat} {state : γ}
    (h : AfterPasses rng samples.length
      (min samples.length settings.batchSize) start e indices state) :
    Follows (Guest.epochs rng settings (samples.map fun s => s.guest i)
        count (guestPart i m) (loaderAt (samples.map fun s => s.guest i)
          none (min samples.length settings.batchSize) indices) state :
            Action guests K _)
      ((epochsRounds samples rng settings start e count m).map
        (Horizontal.Round.ofClient i))
      (· = guestPart i
        (jointEpochs samples rng settings start e count m)) := by
  induction count generalizing e indices state m with
  | zero => exact .ret rfl
  | succ count ih =>
      have hn : 0 < samples.length := List.length_pos_iff.mpr hsamples
      obtain ⟨hpass, hnext⟩ := h.forEach hn (Nat.lt_min.mpr ⟨hn, hpos⟩)
        (List.length_map fun s => s.guest i) (none : Option (List K))
      unfold Guest.epochs epochsRounds
      rw [hpass, List.map_append, List.map_append]
      refine (Guest.follows_trainBatches i _).bind fun self hself => ?_
      rw [hself]
      exact (Guest.follows_epochMetrics i).bind fun _ _ => ih hnext

-- ================================================================ the task

/-- All epochs from the start are the whole joint training. -/
theorem jointEpochs_zero (rng : GlobalRng γ) (start : γ) (count : Nat) :
    jointEpochs samples rng settings start 0 count
        (.init settings.learningRate settings.alpha)
      = trainedJointly rng settings samples start count := by
  unfold jointEpochs trainedJointly
  rw [List.range_eq_range' (n := count)]

omit [Field K] in
/-- A seed other than 0 puts the generator into a state of its own. -/
theorem makeLoader_eq {α β : Type} {rng : GlobalRng γ}
    (hseed : 0 < settings.shuffleSeed ∧ settings.shuffleSeed < 2 ^ 32)
    (x : List α) (y : Option (List β)) (state : γ) :
    makeLoader rng settings x y state
      = .ok (loaderAt x y (min x.length settings.batchSize)
          (List.range x.length),
        rng.seed settings.shuffleSeed.toNat) := by
  unfold makeLoader
  rw [init_eq rng x y _ ⟨hseed.1.le, hseed.2⟩, GlobalRng.seeded,
    if_neg hseed.1.ne']
  rfl

variable {rng : GlobalRng γ}

omit [Field K] in
/-- A table of some rows and features is accepted. -/
theorem checkArray_eq {d : Nat} (f : Sample hostDim guestDim K → Fin d → K)
    (hsamples : samples ≠ []) (hd : 0 < d) :
    checkArray (samples.map f) = .ok () := by
  have hrows : (samples.map f).length ≠ 0 := by
    rw [List.length_map]
    exact List.length_pos_iff.mpr hsamples |>.ne'
  have hcolumns : Fintype.card (Fin d) ≠ 0 := by
    rw [Fintype.card_fin]
    exact hd.ne'
  exact if_neg (not_or.mpr ⟨hrows, hcolumns⟩)

/-- The whole task of the host. -/
theorem Host.follows_run (hsamples : samples ≠ []) (hhost : 0 < hostDim)
    (hpos : 0 < settings.batchSize)
    (hseed : 0 < settings.shuffleSeed ∧ settings.shuffleSeed < 2 ^ 32)
    (state : γ) :
    Follows (Host.run rng settings (samples.map Sample.host)
        (samples.map Sample.y) state : Action guests K _)
      ((taskRounds samples rng settings
        (rng.seed settings.shuffleSeed.toNat)).flatMap
          Horizontal.Round.ofServer)
      fun r =>
        let m := trainedJointly rng settings samples
          (rng.seed settings.shuffleSeed.toNat) settings.epoch
        r = (hostPart m, m.predict (samples.map Sample.x)) := by
  unfold Host.run taskRounds
  rw [checkArray_eq Sample.host hsamples hhost, Proc.lift_ok, Proc.ret_bind,
    makeLoader_eq hseed, Proc.lift_ok, Proc.ret_bind, List.length_map,
    List.flatMap_append, List.flatMap_cons, List.flatMap_nil,
    List.append_nil, ← List.append_nil (Horizontal.Round.ofServer _)]
  refine (Host.follows_epochs (m := .init settings.learningRate
    settings.alpha) hsamples hpos settings.epoch
    afterPasses_zero).bind fun self hself => ?_
  rw [hself, jointEpochs_zero]
  refine Host.follows_computeZ.bind fun yPred hyPred => .ret ?_
  rw [hyPred]

/-- The whole task of a guest. -/
theorem Guest.follows_run (i : Fin guests) (hsamples : samples ≠ [])
    (hguest : 0 < guestDim i) (hpos : 0 < settings.batchSize)
    (hseed : 0 < settings.shuffleSeed ∧ settings.shuffleSeed < 2 ^ 32)
    (state : γ) :
    Follows (Guest.run rng settings (samples.map fun s => s.guest i) state :
        Action guests K _)
      ((taskRounds samples rng settings
        (rng.seed settings.shuffleSeed.toNat)).map
          (Horizontal.Round.ofClient i))
      (· = guestPart i (trainedJointly rng settings samples
        (rng.seed settings.shuffleSeed.toNat) settings.epoch)) := by
  unfold Guest.run taskRounds
  rw [checkArray_eq (fun s => s.guest i) hsamples hguest, Proc.lift_ok,
    Proc.ret_bind, makeLoader_eq hseed, Proc.lift_ok, Proc.ret_bind, List.length_map,
    List.map_append]
  refine (Guest.follows_epochs (m := .init settings.learningRate
    settings.alpha) i hsamples hpos settings.epoch
    afterPasses_zero).bind fun self hself => ?_
  rw [hself, jointEpochs_zero, List.map_cons, List.map_nil,
    ← List.append_nil [_]]
  exact (Guest.follows_sendZ i).bind fun _ _ => .ret rfl

/-- What each party returns that holds its part of a model. -/
def Returned (m : LinearRegression (Joint hostDim guestDim) K)
    (samples : List (Sample hostDim guestDim K)) :
    (p : Party guests) → Result hostDim guestDim K p → Prop
  | .host, r => r = (hostPart m, m.predict (samples.map Sample.x))
  | .guest i, r => r = guestPart i m

/-- Whatever the schedule and whatever the generators were used for
before, the parties come to the end of the task, and each has its part of
the model that one party trains on the table with all columns. -/
theorem trained_jointly (hsamples : samples ≠ []) (hhost : 0 < hostDim)
    (hguest : ∀ i, 0 < guestDim i) (hpos : 0 < settings.batchSize)
    (hseed : 0 < settings.shuffleSeed ∧ settings.shuffleSeed < 2 ^ 32)
    (states : Party guests → γ) :
    Completes (parties rng settings samples states)
      (Parts (trainedJointly rng settings samples
        (rng.seed settings.shuffleSeed.toNat) settings.epoch) samples) := by
  have hall : Completes (parties rng settings samples states) fun v =>
      ∀ p, Returned (trainedJointly rng settings samples
        (rng.seed settings.shuffleSeed.toNat) settings.epoch) samples p
        (v p) :=
    completes_of_rounds (taskRounds samples rng settings
        (rng.seed settings.shuffleSeed.toNat))
      (fun i => Guest.follows_run i hsamples (hguest i) hpos hseed _)
      (Host.follows_run hsamples hhost hpos hseed _)
  refine hall.mono fun v hv => ?_
  have hhost : v .host = _ := hv .host
  exact ⟨congrArg Prod.fst hhost, fun i => hv (.guest i),
    congrArg Prod.snd hhost⟩

end Script

/-- Three rows of a host with one feature and two guests with one feature
and two. -/
def threeSamples : List (Sample 1 (![1, 2] : Fin 2 → Nat) ℚ) :=
  [⟨fun _ => 1, fun _ _ => 0, 2⟩, ⟨fun _ => 0, fun _ _ => 1, 1⟩,
    ⟨fun _ => -1, fun _ _ => 2, 5⟩]

/-- Three rows, with a host and its guests. -/
theorem trained_jointly_three :
    Completes (parties drawn ⟨1 / 5, 1 / 100, 2, 3, 7, true⟩ threeSamples
        fun _ => [0])
      (Parts (trainedJointly drawn ⟨1 / 5, 1 / 100, 2, 3, 7, true⟩
        threeSamples (drawn.seed 7) 3) threeSamples) :=
  trained_jointly (List.cons_ne_nil _ _) (by decide) (by decide) (by decide)
    (by decide) fun _ => [0]

end PrimiHub.FL.LinearVertical
