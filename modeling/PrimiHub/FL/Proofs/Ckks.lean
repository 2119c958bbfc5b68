/-
No party of the encrypted logistic regression waits for ever, and the
parties agree on the refreshes.

One script holds all messages of the task (`taskScript`), with the
refreshes at the places where they fall due at host and guests. Each
party's program follows its part of the script, whatever it receives,
with the clock the counters of `Refresh` give. The coordinator has no part
in a training step, so its part of an epoch is one refresh after the other
(`coordinator_stepsScript`), as many as its division says; where it waits
while host and guests go on with their steps, or lags behind them, the
queues hold the difference.
-/
import Mathlib.Algebra.Order.Floor.Semiring
import Mathlib.Tactic.Linarith
import Mathlib.Tactic.Positivity
import PrimiHub.FL.Proofs.Loader
import PrimiHub.FL.Proofs.Refresh

namespace PrimiHub.FL.Ckks

open Lib

variable {guests : Nat} {V α γ : Type}

-- ================================================================== script

/-- Nothing is known of the message. -/
def anything {tag : Tag} (_ : Message V tag) : Prop := True

/-- The context allows so many training steps. -/
def depthFor (maxIter : Nat) (context : Context) : Prop :=
  context.multiplyDepth = 2 * maxIter

section Script

variable (guests V)

/-- A refresh. -/
def refreshComms : List (Comm (Party guests) (Message V)) :=
  [⟨.host, .coordinator, .hostWeight, anything⟩,
    ⟨.host, .coordinator, .hostBias, anything⟩]
  ++ gather (allGuests guests) .coordinator .guestWeight anything
  ++ [⟨.coordinator, .host, .hostWeight, anything⟩,
    ⟨.coordinator, .host, .hostBias, anything⟩]
  ++ scatter .coordinator (allGuests guests) .guestWeight anything

/-- A refresh where the model is used up. -/
def refreshScript (maxIter : Nat) (c : Clock) :
    List (Comm (Party guests) (Message V)) :=
  if c.t ≥ maxIter then refreshComms guests V else []

/-- A training step. -/
def stepScript (maxIter : Nat) (c : Clock) :
    List (Comm (Party guests) (Message V)) :=
  refreshScript guests V maxIter c
  ++ (gather (allGuests guests) .host .guestZ anything
    ++ scatter .host (allGuests guests) .error anything)

/-- So many training steps. -/
def stepsScript (maxIter : Nat) :
    Nat → Clock → List (Comm (Party guests) (Message V))
  | 0, _ => []
  | count + 1, c =>
      stepScript guests V maxIter c
      ++ stepsScript maxIter count (c.stepWith maxIter)

/-- The guests' parts of the regularisation. -/
def regularScript (alpha : ℚ) : List (Comm (Party guests) (Message V)) :=
  if alpha ≠ 0 then
    gather (allGuests guests) .host .guestRegularLoss anything
  else []

/-- A metrics step. -/
def metricsScript (maxIter : Nat) (alpha : ℚ) (c : Clock) :
    List (Comm (Party guests) (Message V)) :=
  refreshScript guests V maxIter c
  ++ (gather (allGuests guests) .host .guestZ anything
    ++ (regularScript guests V alpha
      ++ [⟨.host, .coordinator, .loss, anything⟩]))

/-- An epoch. -/
def epochScript (maxIter steps : Nat) (printMetrics : Bool) (alpha : ℚ)
    (c : Clock) : List (Comm (Party guests) (Message V)) :=
  stepsScript guests V maxIter steps c
  ++ if printMetrics then
      metricsScript guests V maxIter alpha (c.stepsWith maxIter steps).epochOver
    else []

/-- The epochs. -/
def epochsScript (maxIter steps : Nat) (printMetrics : Bool) (alpha : ℚ) :
    Nat → Clock → List (Comm (Party guests) (Message V))
  | 0, _ => []
  | count + 1, c =>
      epochScript guests V maxIter steps printMetrics alpha c
      ++ epochsScript maxIter steps printMetrics alpha count
          (c.epochWith maxIter steps printMetrics)

/-- The constructors of the parties. -/
def initScript (maxIter numExamples : Nat) :
    List (Comm (Party guests) (Message V)) :=
  scatter .host (allGuests guests) .outputDim anything
  ++ ([⟨.host, .coordinator, .multiclass, anything⟩,
      ⟨.coordinator, .host, .publicContext, depthFor maxIter⟩]
    ++ (scatter .coordinator (allGuests guests) .publicContext
        (depthFor maxIter)
      ++ [⟨.host, .coordinator, .numExamples, fun m => m = numExamples⟩]))

/-- What comes after the epochs. -/
def finalScript (alpha : ℚ) : List (Comm (Party guests) (Message V)) :=
  refreshComms guests V
  ++ (gather (allGuests guests) .host .guestZ anything
    ++ regularScript guests V alpha)

/-- The whole task. -/
def taskScript (settings : Settings) (maxIter batchSize numExamples : Nat) :
    List (Comm (Party guests) (Message V)) :=
  [⟨.host, .coordinator, .batchSize, fun m => m = batchSize⟩]
  ++ (initScript guests V maxIter numExamples
    ++ (epochsScript guests V maxIter (ceilDiv numExamples batchSize)
        settings.printMetrics settings.alpha settings.epoch .zero
      ++ finalScript guests V settings.alpha))

end Script

-- ============================================================= projections

theorem host_notMem : Party.host ∉ allGuests guests := by
  simp [allGuests]

theorem coordinator_notMem : Party.coordinator ∉ allGuests guests := by
  simp [allGuests]

theorem guest_mem (i : Fin guests) : Party.guest i ∈ allGuests guests := by
  simp [allGuests]

theorem allGuests_nodup : (allGuests guests).Nodup :=
  (List.nodup_finRange guests).map fun _ _ h => Party.guest.inj h

theorem host_ne_coordinator :
    (Party.host : Party guests) ≠ .coordinator := by simp

theorem guest_ne_host (i : Fin guests) : Party.guest i ≠ .host := by simp

theorem guest_ne_coordinator (i : Fin guests) :
    Party.guest i ≠ .coordinator := by simp

/-- What all guests send to one party is one message of each. -/
theorem guest_gather (i : Fin guests) {dst : Party guests}
    (h : Party.guest i ≠ dst) {tag : Tag} {ok : Message V tag → Prop} :
    project (.guest i) (gather (allGuests guests) dst tag ok)
      = [.send dst tag ok] :=
  project_gather_src allGuests_nodup (guest_mem i) h

/-- What all guests are sent is one message for each. -/
theorem guest_scatter (i : Fin guests) {src : Party guests}
    (h : Party.guest i ≠ src) {tag : Tag} {ok : Message V tag → Prop} :
    project (.guest i) (scatter src (allGuests guests) tag ok)
      = [.recv src tag ok] :=
  project_scatter_dst allGuests_nodup h (guest_mem i)

/-- At a refresh the host sends its weight and its bias and takes both back.
-/
theorem host_refreshComms :
    project .host (refreshComms guests V)
      = [.send .coordinator .hostWeight anything,
        .send .coordinator .hostBias anything,
        .recv .coordinator .hostWeight anything,
        .recv .coordinator .hostBias anything] := by
  simp only [refreshComms, project_append,
    project_gather_of_not_mem host_notMem host_ne_coordinator,
    project_scatter_of_not_mem host_ne_coordinator host_notMem]
  rfl

/-- At a refresh a guest sends its weight and takes it back. -/
theorem guest_refreshComms (i : Fin guests) :
    project (.guest i) (refreshComms guests V)
      = [.send .coordinator .guestWeight anything,
        .recv .coordinator .guestWeight anything] := by
  simp only [refreshComms, project_append,
    guest_gather i (guest_ne_coordinator i),
    guest_scatter i (guest_ne_coordinator i)]
  rfl

/-- The coordinator has every ciphertext in its hands before it answers the
first. -/
theorem coordinator_refreshComms :
    project .coordinator (refreshComms guests V)
      = [.recv .host .hostWeight anything, .recv .host .hostBias anything]
        ++ (allGuests guests).map (fun src => .recv src .guestWeight anything)
        ++ [.send .host .hostWeight anything, .send .host .hostBias anything]
        ++ (allGuests guests).map
            (fun dst => .send dst .guestWeight anything) := by
  simp only [refreshComms, project_append,
    project_gather_dst coordinator_notMem, project_scatter_src]
  rfl

/-- In the steps of an epoch the coordinator has the refreshes. -/
theorem coordinator_stepsScript (maxIter count : Nat) (c : Clock) :
    project .coordinator (stepsScript guests V maxIter count c)
      = (List.replicate (c.refreshes maxIter count)
          (project .coordinator (refreshComms guests V))).flatten := by
  induction count generalizing c with
  | zero => rfl
  | succ count ih =>
      rw [stepsScript, stepScript, project_append, project_append,
        project_append, ih,
        project_gather_of_not_mem coordinator_notMem
          (Ne.symm host_ne_coordinator),
        project_scatter_of_not_mem (Ne.symm host_ne_coordinator)
          coordinator_notMem, Clock.refreshes, refreshScript]
      by_cases hfull : c.t ≥ maxIter
      · rw [if_pos hfull, if_pos hfull, List.nil_append, List.append_nil,
          Nat.add_comm, List.replicate_succ, List.flatten_cons]
      · rw [if_neg hfull, if_neg hfull, Nat.zero_add]
        rfl

-- ================================================================== loader

/-- A loader at the start of an epoch. -/
structure Ready (n batchSize : Nat) (loader : DataLoader α Nat) : Prop where
  indices : loader.indices.length = loader.nSamples
  batchSize : loader.batchSize = batchSize
  start : loader.start = 0
  shuffle : loader.shuffle = true
  samples : loader.nSamples = n

/-- A loader just built is ready for its first pass. -/
theorem ready_fresh (x : List α) (label : Option (List Nat))
    (batchSize : Nat) :
    Ready x.length batchSize (DataLoader.fresh x label batchSize true) :=
  ⟨List.length_range, rfl, rfl, rfl, rfl⟩

/-- An epoch comes to its end after the rounded-up number of batches, with
a loader that is ready for the next. -/
theorem Ready.forEach {n batchSize : Nat} {loader : DataLoader α Nat}
    (h : Ready n batchSize loader) (hn : 0 < n) (hpos : 0 < batchSize)
    (rng : GlobalRng γ) (g : γ) :
    ∃ batches loader' g', loader.forEach rng g = some (batches, loader', g')
      ∧ batches.length = ceilDiv n batchSize ∧ Ready n batchSize loader' := by
  have hsome := DataLoader.forEach_eq rng loader h.indices
    (h.batchSize ▸ hpos) h.start h.shuffle (h.samples ▸ hn) g
  refine ⟨_, _, _, hsome, ?_, ?_⟩
  · rw [List.length_map, slices_length, h.samples, h.batchSize]
  · refine ⟨?_, h.batchSize, h.start, h.shuffle, h.samples⟩
    rw [← h.indices]
    exact (rng.shuffle_perm g loader.indices).length_eq

-- ==================================================================== host

namespace Host

/-- The host at a point of the training. -/
structure At (maxIter : Nat) (alpha : ℚ) (c : Clock) (host : Host V) :
    Prop where
  clock : host.toClock = c
  maxIter : host.maxIter = maxIter
  alpha : host.model.alpha = alpha

variable {ops : Arithmetic V α} {maxIter : Nat} {alpha : ℚ} {c : Clock}
  {self : Host V}

/-- The host's side of a refresh; the counter is back at zero. -/
theorem follows_updateCiphertextModel (h : At maxIter alpha c self) :
    Follows (self.updateCiphertextModel ops : Action guests V (Host V))
      (project .host (refreshComms guests V)) (At maxIter alpha c) := by
  rw [host_refreshComms]
  refine .put_bind trivial (.put_bind trivial ?_)
  refine .get_bind fun _ _ => .get_bind fun _ _ => .ret ?_
  exact ⟨h.clock, h.maxIter, h.alpha⟩

/-- As the refresh of the ciphertext model, with nothing encrypted at the
end. -/
theorem follows_updatePlaintextModel (h : At maxIter alpha c self) :
    Follows (self.updatePlaintextModel ops : Action guests V (Host V))
      (project .host (refreshComms guests V)) (At maxIter alpha c) := by
  rw [host_refreshComms]
  refine .put_bind trivial (.put_bind trivial ?_)
  refine .get_bind fun _ _ => .get_bind fun _ _ => .ret ?_
  exact ⟨h.clock, h.maxIter, h.alpha⟩

/-- The host refreshes where the script does. -/
theorem follows_refreshIfFull (h : At maxIter alpha c self) :
    Follows (self.refreshIfFull ops : Action guests V (Host V))
      (project .host (refreshScript guests V maxIter c))
      (At maxIter alpha (c.refreshWith maxIter)) := by
  unfold Host.refreshIfFull refreshScript Clock.refreshWith
  rw [h.clock, h.maxIter]
  by_cases hfull : c.t ≥ maxIter
  · rw [if_pos hfull, if_pos hfull, if_pos hfull]
    exact follows_updateCiphertextModel ⟨rfl, rfl, h.alpha⟩
  · rw [if_neg hfull, if_neg hfull, if_neg hfull]
    exact .ret h

/-- The host waits for one partial product of each guest. -/
theorem follows_computeEncZ (x : List α) :
    Follows (self.computeEncZ ops x : Action guests V V)
      (project .host (gather (allGuests guests) .host .guestZ anything))
      fun _ => True := by
  rw [project_gather_dst host_notMem, ← List.append_nil (List.map _ _)]
  exact (Follows.recvAll _).bind fun _ _ => .ret trivial

/-- The host's part of the regularisation, encrypted or not. -/
theorem follows_regular {f : List V → V} (z : V) :
    Follows (if alpha ≠ 0 then do
        let guestRegularLoss ← Peer.recvAll Tag.guestRegularLoss
          (allGuests guests)
        pure (f guestRegularLoss)
      else pure z : Action guests V V)
      (project .host (regularScript guests V alpha)) fun _ => True := by
  unfold regularScript
  by_cases hzero : alpha ≠ 0
  · rw [if_pos hzero, if_pos hzero, project_gather_dst host_notMem,
      ← List.append_nil (List.map _ _)]
    exact (Follows.recvAll _).bind fun _ _ => .ret trivial
  · rw [if_neg hzero, if_neg hzero]
    exact .ret trivial

/-- A training step of the host. -/
theorem follows_train (h : At maxIter alpha c self) (x : List α)
    (y : List Nat) :
    Follows (self.train ops x y : Action guests V (Host V))
      (project .host (stepScript guests V maxIter c))
      (At maxIter alpha (c.stepWith maxIter)) := by
  rw [stepScript, project_append, project_append]
  refine (follows_refreshIfFull h).bind fun self h => ?_
  refine (follows_computeEncZ x).bind fun z _ => ?_
  rw [project_scatter_src, ← List.append_nil (List.map _ _)]
  refine (Follows.sendAll trivial _).bind fun _ _ => .ret ?_
  exact ⟨congrArg Clock.stepped h.clock, h.maxIter, h.alpha⟩

/-- One step for each batch of the epoch. -/
theorem follows_trainBatches (batches : List (Batch α Nat))
    (h : At maxIter alpha c self) :
    Follows (trainBatches ops batches self : Action guests V (Host V))
      (project .host (stepsScript guests V maxIter batches.length c))
      (At maxIter alpha (c.stepsWith maxIter batches.length)) := by
  induction batches generalizing self c with
  | nil => exact .ret h
  | cons batch batches ih =>
      rw [List.length_cons, stepsScript, project_append]
      exact (follows_train h _ _).bind fun self h => ih h

/-- The metrics of an epoch, with a refresh before them where it is due. -/
theorem follows_computeMetrics (h : At maxIter alpha c self) (x : List α)
    (y : List Nat) :
    Follows (self.computeMetrics ops x y : Action guests V (Host V))
      (project .host (metricsScript guests V maxIter alpha c))
      (At maxIter alpha (c.metricsWith maxIter)) := by
  rw [metricsScript, project_append, project_append, project_append]
  refine (follows_refreshIfFull h).bind fun self h => ?_
  refine (follows_computeEncZ x).bind fun z _ => ?_
  have hregular : Follows
      (self.computeEncRegularLoss ops : Action guests V V)
      (project .host (regularScript guests V alpha)) fun _ => True := by
    rw [← h.alpha]
    exact follows_regular ops.zero
  refine hregular.bind fun regularLoss _ => ?_
  refine .put_bind trivial (.ret ?_)
  exact ⟨congrArg Clock.metricsOver h.clock, h.maxIter, h.alpha⟩

/-- The metrics step of an epoch, if there is one. -/
theorem follows_epochMetrics {settings : Settings}
    (h : At maxIter settings.alpha c self) (x : List α) (y : List Nat) :
    Follows (self.epochMetrics ops settings x y : Action guests V (Host V))
      (project .host (if settings.printMetrics then
        metricsScript guests V maxIter settings.alpha c else []))
      (At maxIter settings.alpha
        (if settings.printMetrics then c.metricsWith maxIter else c)) := by
  unfold epochMetrics
  split
  · exact follows_computeMetrics h x y
  · exact .ret h

/-- The epochs of the host, whatever the generator draws: the number of
batches does not depend on the order of the rows. -/
theorem follows_epochs {settings : Settings} {n batchSize : Nat}
    (hn : 0 < n) (hpos : 0 < batchSize) (rng : GlobalRng γ) (x : List α)
    (y : List Nat) (count : Nat) (h : At maxIter settings.alpha c self)
    {loader : DataLoader α Nat} (hloader : Ready n batchSize loader) (g : γ) :
    Follows (epochs ops rng settings x y count self loader g :
        Action guests V (Host V))
      (project .host (epochsScript guests V maxIter (ceilDiv n batchSize)
        settings.printMetrics settings.alpha count c))
      (At maxIter settings.alpha (c.epochsWith maxIter (ceilDiv n batchSize)
        settings.printMetrics count)) := by
  induction count generalizing self c loader g with
  | zero => exact .ret h
  | succ count ih =>
      obtain ⟨batches, loader', g', hsome, hlen, hready⟩ :=
        hloader.forEach hn hpos rng g
      rw [epochs, hsome, epochsScript, project_append, epochScript,
        project_append, List.append_assoc, ← hlen]
      refine (follows_trainBatches batches h).bind fun self h => ?_
      have hover : At maxIter settings.alpha
          (c.stepsWith maxIter batches.length).epochOver
          { self with toClock := self.toClock.epochOver } :=
        ⟨congrArg Clock.epochOver h.clock, h.maxIter, h.alpha⟩
      refine (follows_epochMetrics hover x y).bind fun self h => ?_
      rw [hlen] at h ⊢
      exact ih h hready _

/-- What the host sends before the first epoch. -/
theorem follows_init (settings : Settings) (x : List α) (y : List Nat) :
    Follows (init ops settings x y : Action guests V (Host V))
      (project .host (initScript guests V maxIter x.length))
      (At maxIter settings.alpha .zero) := by
  rw [initScript, project_append, project_scatter_src, project_append,
    project_append,
    project_scatter_of_not_mem host_ne_coordinator host_notMem]
  refine (Follows.sendAll trivial _).bind fun _ _ => ?_
  refine .put_bind trivial (.get_bind fun context hcontext => ?_)
  refine .put_bind rfl (.ret ?_)
  have hmaxIter : context.multiplyDepth / 2 = maxIter := by
    rw [hcontext, Nat.mul_div_cancel_left maxIter (by decide)]
  unfold encryptModel
  split
  · exact ⟨rfl, hmaxIter, rfl⟩
  · exact ⟨rfl, hmaxIter, rfl⟩

/-- The whole task of the host. -/
theorem follows_run (settings : Settings) (hx : 0 < x.length)
    (hpos : 0 < settings.batchSize) (rng : GlobalRng γ) (y : List Nat)
    (g : γ) :
    Follows (run ops rng settings x y g : Action guests V (Host V × V))
      (project .host (taskScript guests V settings maxIter
        (min x.length settings.batchSize) x.length))
      fun result => At maxIter settings.alpha
        (Clock.zero.epochsWith maxIter
          (ceilDiv x.length (min x.length settings.batchSize))
          settings.printMetrics settings.epoch) result.1 := by
  rw [taskScript, project_append, project_append, project_append,
    finalScript, project_append, project_append]
  refine .put_bind rfl ?_
  refine (follows_init settings x y).bind fun self h => ?_
  refine (follows_epochs hx (by omega) rng x y settings.epoch h
    (ready_fresh x (some y) _) g).bind fun self h => ?_
  refine (follows_updatePlaintextModel h).bind fun self h => ?_
  rw [← List.append_nil (_ ++ _)]
  refine Follows.bind (Q := fun _ => True) ?_ fun loss _ => .ret h
  rw [project_gather_dst host_notMem, ← h.alpha]
  refine (Follows.recvAll _).bind fun guestZ _ => ?_
  exact follows_regular _

end Host

-- =================================================================== guest

namespace Guest

/-- A guest at a point of the training. -/
structure At (maxIter : Nat) (alpha : ℚ) (c : Clock) (guest : Guest V) :
    Prop where
  clock : guest.toClock = c
  maxIter : guest.maxIter = maxIter
  alpha : guest.model.alpha = alpha

variable {ops : Arithmetic V α} {maxIter : Nat} {alpha : ℚ} {c : Clock}
  {self : Guest V} (i : Fin guests)

/-- A guest's side of a refresh. -/
theorem follows_updateCiphertextModel (h : At maxIter alpha c self) :
    Follows (self.updateCiphertextModel ops : Action guests V (Guest V))
      (project (.guest i) (refreshComms guests V)) (At maxIter alpha c) := by
  rw [guest_refreshComms]
  refine .put_bind trivial (.get_bind fun _ _ => .ret ?_)
  exact ⟨h.clock, h.maxIter, h.alpha⟩

theorem follows_updatePlaintextModel (h : At maxIter alpha c self) :
    Follows (self.updatePlaintextModel ops : Action guests V (Guest V))
      (project (.guest i) (refreshComms guests V)) (At maxIter alpha c) := by
  rw [guest_refreshComms]
  refine .put_bind trivial (.get_bind fun _ _ => .ret ?_)
  exact ⟨h.clock, h.maxIter, h.alpha⟩

/-- A guest refreshes where the script does, for its counter is the host's.
-/
theorem follows_refreshIfFull (h : At maxIter alpha c self) :
    Follows (self.refreshIfFull ops : Action guests V (Guest V))
      (project (.guest i) (refreshScript guests V maxIter c))
      (At maxIter alpha (c.refreshWith maxIter)) := by
  unfold Guest.refreshIfFull refreshScript Clock.refreshWith
  rw [h.clock, h.maxIter]
  by_cases hfull : c.t ≥ maxIter
  · rw [if_pos hfull, if_pos hfull, if_pos hfull]
    exact follows_updateCiphertextModel i ⟨rfl, rfl, h.alpha⟩
  · rw [if_neg hfull, if_neg hfull, if_neg hfull]
    exact .ret h

/-- A guest's part of the regularisation, encrypted or not. -/
theorem follows_regular (m : V) :
    Follows (if alpha ≠ 0 then send .host .guestRegularLoss m
        else pure () : Action guests V Unit)
      (project (.guest i) (regularScript guests V alpha))
      fun _ => True := by
  unfold regularScript
  by_cases hzero : alpha ≠ 0
  · rw [if_pos hzero, if_pos hzero, guest_gather i (guest_ne_host i)]
    exact .send trivial (.ret trivial)
  · rw [if_neg hzero, if_neg hzero]
    exact .ret trivial

/-- A training step of a guest: its partial product goes, the error comes.
-/
theorem follows_train (h : At maxIter alpha c self) (x : List α) :
    Follows (self.train ops x : Action guests V (Guest V))
      (project (.guest i) (stepScript guests V maxIter c))
      (At maxIter alpha (c.stepWith maxIter)) := by
  rw [stepScript, project_append, project_append,
    guest_gather i (guest_ne_host i), guest_scatter i (guest_ne_host i)]
  refine (follows_refreshIfFull i h).bind fun self h => ?_
  refine .put_bind trivial (.get_bind fun error _ => .ret ?_)
  exact ⟨congrArg Clock.stepped h.clock, h.maxIter, h.alpha⟩

/-- A guest makes as many steps as its own loader has batches. -/
theorem follows_trainBatches (batches : List (Batch α Nat))
    (h : At maxIter alpha c self) :
    Follows (trainBatches ops batches self : Action guests V (Guest V))
      (project (.guest i) (stepsScript guests V maxIter batches.length c))
      (At maxIter alpha (c.stepsWith maxIter batches.length)) := by
  induction batches generalizing self c with
  | nil => exact .ret h
  | cons batch batches ih =>
      rw [List.length_cons, stepsScript, project_append]
      exact (follows_train i h _).bind fun self h => ih h

/-- A guest's part of the metrics; the regular loss goes only where `alpha`
is not zero. -/
theorem follows_computeMetrics (h : At maxIter alpha c self) (x : List α) :
    Follows (self.computeMetrics ops x : Action guests V (Guest V))
      (project (.guest i) (metricsScript guests V maxIter alpha c))
      (At maxIter alpha (c.metricsWith maxIter)) := by
  rw [metricsScript, project_append, project_append, project_append,
    guest_gather i (guest_ne_host i)]
  refine (follows_refreshIfFull i h).bind fun self h => ?_
  refine .put_bind trivial ?_
  have hregular : Follows
      (self.sendEncRegularLoss ops : Action guests V Unit)
      (project (.guest i) (regularScript guests V alpha))
      fun _ => True := by
    rw [← h.alpha]
    exact follows_regular i _
  refine hregular.bind fun _ _ => .ret ?_
  exact ⟨congrArg Clock.metricsOver h.clock, h.maxIter, h.alpha⟩

/-- The metrics step of an epoch, if there is one. -/
theorem follows_epochMetrics {settings : Settings}
    (h : At maxIter settings.alpha c self) (x : List α) :
    Follows (self.epochMetrics ops settings x : Action guests V (Guest V))
      (project (.guest i) (if settings.printMetrics then
        metricsScript guests V maxIter settings.alpha c else []))
      (At maxIter settings.alpha
        (if settings.printMetrics then c.metricsWith maxIter else c)) := by
  unfold epochMetrics
  split
  · exact follows_computeMetrics i h x
  · exact .ret h

/-- The epochs of a guest; its table has as many rows as the host's, so the
script is the host's. -/
theorem follows_epochs {settings : Settings} {n batchSize : Nat}
    (hn : 0 < n) (hpos : 0 < batchSize) (rng : GlobalRng γ) (x : List α)
    (count : Nat) (h : At maxIter settings.alpha c self)
    {loader : DataLoader α Nat} (hloader : Ready n batchSize loader) (g : γ) :
    Follows (epochs ops rng settings x count self loader g :
        Action guests V (Guest V))
      (project (.guest i) (epochsScript guests V maxIter (ceilDiv n batchSize)
        settings.printMetrics settings.alpha count c))
      (At maxIter settings.alpha (c.epochsWith maxIter (ceilDiv n batchSize)
        settings.printMetrics count)) := by
  induction count generalizing self c loader g with
  | zero => exact .ret h
  | succ count ih =>
      obtain ⟨batches, loader', g', hsome, hlen, hready⟩ :=
        hloader.forEach hn hpos rng g
      rw [epochs, hsome, epochsScript, project_append, epochScript,
        project_append, List.append_assoc, ← hlen]
      refine (follows_trainBatches i batches h).bind fun self h => ?_
      have hover : At maxIter settings.alpha
          (c.stepsWith maxIter batches.length).epochOver
          { self with toClock := self.toClock.epochOver } :=
        ⟨congrArg Clock.epochOver h.clock, h.maxIter, h.alpha⟩
      refine (follows_epochMetrics i hover x).bind fun self h => ?_
      rw [hlen] at h ⊢
      exact ih h hready _

/-- What a guest takes before the first epoch. -/
theorem follows_init (settings : Settings) (x : List α) (n : Nat) :
    Follows (init ops settings x : Action guests V (Guest V))
      (project (.guest i) (initScript guests V maxIter n))
      (At maxIter settings.alpha .zero) := by
  rw [initScript, project_append, guest_scatter i (guest_ne_host i),
    project_append, project_append,
    guest_scatter i (guest_ne_coordinator i)]
  refine .get_bind fun outputDim _ => .get_bind fun context hcontext =>
    .ret ⟨rfl, ?_, rfl⟩
  show context.multiplyDepth / 2 = maxIter
  rw [hcontext, Nat.mul_div_cancel_left maxIter (by decide)]

/-- The whole task of a guest. -/
theorem follows_run (settings : Settings) {x : List α} {n : Nat}
    (hx : x.length = n) (hn : 0 < n) (hpos : 0 < settings.batchSize)
    (rng : GlobalRng γ) (g : γ) :
    Follows (run ops rng settings x g : Action guests V (Guest V))
      (project (.guest i) (taskScript guests V settings maxIter
        (min n settings.batchSize) n))
      (At maxIter settings.alpha (Clock.zero.epochsWith maxIter
        (ceilDiv n (min n settings.batchSize)) settings.printMetrics
        settings.epoch)) := by
  subst hx
  rw [taskScript, project_append, project_append, project_append,
    finalScript, project_append, project_append]
  show Follows _ ([] ++ _) _
  refine (follows_init i settings x x.length).bind fun self h => ?_
  refine (follows_epochs i hn (by omega) rng x settings.epoch h
    (ready_fresh x none _) g).bind fun self h => ?_
  refine (follows_updatePlaintextModel i h).bind fun self h => ?_
  rw [← List.append_nil (_ ++ _)]
  refine Follows.bind (Q := fun _ => True) ?_ fun _ _ => .ret h
  rw [guest_gather i (guest_ne_host i), ← h.alpha]
  exact .put_bind trivial (follows_regular i _)

end Guest

-- ============================================================= coordinator

namespace Coordinator

/-- The coordinator at a point of the training. -/
structure At (maxIter steps : Nat) (c : Clock) (coordinator : Coordinator) :
    Prop where
  clock : coordinator.toClock = c
  maxIter : coordinator.maxIter = maxIter
  steps : coordinator.iterPerEpoch = steps

variable {ops : Arithmetic V α} {maxIter steps : Nat} {c : Clock}
  {self : Coordinator}

/-- The coordinator's side of a refresh, whatever it does to the values. -/
theorem follows_updateModel (f : V → V) :
    Follows (updateModel f : Action guests V Unit)
      (project .coordinator (refreshComms guests V)) fun _ => True := by
  rw [coordinator_refreshComms, List.append_assoc, List.append_assoc]
  refine .get_bind fun _ _ => .get_bind fun _ _ => ?_
  refine (Follows.recvAll _).bind fun guestWeight hlen => ?_
  refine .put_bind trivial (.put_bind trivial ?_)
  -- the answers go to the guests in the order their weights came in
  have hfst : ((allGuests guests).zip (guestWeight.map f)).map Prod.fst
      = allGuests guests := by
    rw [List.map_fst_zip]
    rw [List.length_map, hlen]
  have hsend : Follows (Peer.sendSeparately Tag.guestWeight
      ((allGuests guests).zip (guestWeight.map f)) : Action guests V Unit)
      ((((allGuests guests).zip (guestWeight.map f)).map Prod.fst).map
        fun dst => .send dst .guestWeight anything) fun _ => True :=
    Follows.sendSeparately _ fun _ _ => trivial
  rwa [hfst] at hsend

/-- So many refreshes, one after the other. -/
theorem follows_decryptLoop (count : Nat) (h : At maxIter steps c self) :
    Follows (decryptLoop ops count self : Action guests V Coordinator)
      (List.replicate count
        (project .coordinator (refreshComms guests V))).flatten
      (At maxIter steps (c.decrypted count)) := by
  induction count generalizing self c with
  | zero =>
      refine .ret ⟨?_, h.maxIter, h.steps⟩
      rw [h.clock]
      show c = ⟨c.t, c.history ++ []⟩
      rw [List.append_nil]
  | succ count ih =>
      rw [List.replicate_succ, List.flatten_cons]
      refine (follows_updateModel _).bind fun _ _ => ?_
      have hnext : At maxIter steps ⟨c.t, c.history ++ [.refresh]⟩
          { self with history := self.history ++ [.refresh] } := by
        refine ⟨?_, h.maxIter, h.steps⟩
        rw [h.clock]
      have hloop := ih hnext
      -- the refresh just made and those to come
      have hclock : Clock.decrypted count ⟨c.t, c.history ++ [.refresh]⟩
          = c.decrypted (count + 1) := by
        show Clock.mk c.t (c.history ++ [.refresh]
          ++ List.replicate count .refresh) = _
        rw [List.append_assoc, List.singleton_append, ← List.replicate_succ]
        rfl
      rwa [hclock] at hloop

/-- The coordinator's epoch: as many refreshes as its own division gives are
those that fall due in the steps of the others. -/
theorem follows_train (hpos : 0 < maxIter) (hsteps : 0 < steps)
    (hle : c.t ≤ maxIter) (h : At maxIter steps c.quiet self) :
    Follows (self.train ops : Action guests V Coordinator)
      (project .coordinator (stepsScript guests V maxIter steps c))
      (At maxIter steps (c.stepsWith maxIter steps).quiet) := by
  obtain ⟨hexact, hrest⟩ := Clock.epoch_quotient hpos hsteps hle
  rw [coordinator_stepsScript, Clock.quiet_stepsWith]
  have ht : self.t = c.t := by
    rw [h.clock]
    rfl
  have hhistory : self.history = c.quiet.history := by
    rw [h.clock]
  unfold train
  rw [ht, h.maxIter, h.steps]
  -- at an exact multiple the last refresh is still to come, and the counter
  -- stays full
  by_cases hzero : (c.t + steps) % maxIter = 0
  · rw [if_pos hzero, (hexact hzero).1, (hexact hzero).2]
    refine follows_decryptLoop _ ⟨?_, rfl, rfl⟩
    rw [hhistory]
  · rw [if_neg hzero, (hrest hzero).1, (hrest hzero).2]
    refine follows_decryptLoop _ ⟨?_, rfl, rfl⟩
    rw [hhistory]

/-- The coordinator's counter says when the refresh before the metrics is
due. -/
theorem follows_refreshIfFull (h : At maxIter steps c self) :
    Follows (self.refreshIfFull ops : Action guests V Coordinator)
      (project .coordinator (refreshScript guests V maxIter c))
      (At maxIter steps (c.refreshWith maxIter)) := by
  unfold Coordinator.refreshIfFull refreshScript Clock.refreshWith
  rw [h.clock, h.maxIter]
  by_cases hfull : c.t ≥ maxIter
  · rw [if_pos hfull, if_pos hfull, if_pos hfull,
      ← List.append_nil (project _ _)]
    refine (follows_updateModel _).bind fun _ _ => .ret ?_
    exact ⟨rfl, rfl, h.steps⟩
  · rw [if_neg hfull, if_neg hfull, if_neg hfull]
    exact .ret h

/-- The coordinator has no part in the regular loss of the guests. -/
theorem coordinator_regularScript (alpha : ℚ) :
    project .coordinator (regularScript guests V alpha) = [] := by
  unfold regularScript
  split
  · exact project_gather_of_not_mem coordinator_notMem
      (Ne.symm host_ne_coordinator)
  · rfl

/-- The coordinator's part of the metrics. -/
theorem follows_computeLoss {alpha : ℚ} (h : At maxIter steps c self) :
    Follows (self.computeLoss ops : Action guests V (Coordinator × V))
      (project .coordinator (metricsScript guests V maxIter alpha c))
      fun result => At maxIter steps (c.metricsWith maxIter) result.1 := by
  rw [metricsScript, project_append, project_append, project_append,
    project_gather_of_not_mem coordinator_notMem
      (Ne.symm host_ne_coordinator), coordinator_regularScript]
  refine (follows_refreshIfFull h).bind fun self h => ?_
  refine .get_bind fun loss _ => .ret ?_
  exact ⟨congrArg Clock.metricsOver h.clock, h.maxIter, h.steps⟩

/-- A refresh falls due with the training steps and without them. -/
theorem metricsScript_quiet (alpha : ℚ) (c : Clock) :
    metricsScript guests V maxIter alpha c.quiet
      = metricsScript guests V maxIter alpha c := rfl

/-- The metrics step of an epoch, if there is one. -/
theorem follows_epochMetrics {settings : Settings} {alpha : ℚ}
    (h : At maxIter steps c.quiet self) :
    Follows (self.epochMetrics ops settings : Action guests V Coordinator)
      (project .coordinator (if settings.printMetrics then
        metricsScript guests V maxIter alpha c else []))
      (At maxIter steps
        (if settings.printMetrics then c.metricsWith maxIter
          else c).quiet) := by
  unfold epochMetrics
  split
  · rw [Clock.quiet_metricsWith, ← metricsScript_quiet,
      ← List.append_nil (project _ _)]
    exact (follows_computeLoss h).bind fun result hresult => .ret hresult
  · exact .ret h

/-- The epochs of the coordinator. -/
theorem follows_epochs {settings : Settings} {alpha : ℚ}
    (hpos : 0 < maxIter) (hsteps : 0 < steps) (count : Nat)
    (hle : c.t ≤ maxIter) (h : At maxIter steps c.quiet self) :
    Follows (epochs ops settings count self : Action guests V Coordinator)
      (project .coordinator (epochsScript guests V maxIter steps
        settings.printMetrics alpha count c))
      (At maxIter steps (c.epochsWith maxIter steps settings.printMetrics
        count).quiet) := by
  induction count generalizing self c with
  | zero => exact .ret h
  | succ count ih =>
      rw [epochs, epochsScript, project_append, epochScript,
        project_append, List.append_assoc]
      refine (follows_train hpos hsteps hle h).bind fun self h => ?_
      have hover : At maxIter steps
          (c.stepsWith maxIter steps).epochOver.quiet
          { self with toClock := self.toClock.epochOver } := by
        rw [Clock.quiet_epochOver]
        exact ⟨congrArg Clock.epochOver h.clock, h.maxIter, h.steps⟩
      refine (follows_epochMetrics hover).bind fun self h => ?_
      exact ih (Clock.epochWith_t_le hpos steps settings.printMetrics hle) h

/-- The ceiling of the quotient is the rounded-up quotient. -/
theorem ceil_div (n : Nat) {batchSize : Nat} (hpos : 0 < batchSize) :
    ⌈(n : ℚ) / (batchSize : ℚ)⌉₊ = ceilDiv n batchSize := by
  have hrat : (0 : ℚ) < (batchSize : ℚ) := Nat.cast_pos.mpr hpos
  apply eq_of_forall_ge_iff
  intro m
  rw [Nat.ceil_le, div_le_iff₀ hrat, ceilDiv_le_iff hpos, ← Nat.cast_mul,
    Nat.cast_le]

/-- The coordinator divides the rows into the same number of batches. -/
theorem follows_init (n : Nat) {batchSize : Nat} (hpos : 0 < batchSize) :
    Follows (init maxIter batchSize : Action guests V Coordinator)
      (project .coordinator (initScript guests V maxIter n))
      (At maxIter (ceilDiv n batchSize) .zero) := by
  rw [initScript, project_append,
    project_scatter_of_not_mem (Ne.symm host_ne_coordinator)
      coordinator_notMem, project_append, project_append,
    project_scatter_src]
  have hcontext : depthFor maxIter ⟨2 * maxIter⟩ := rfl
  refine .get_bind fun multiclass _ => .put_bind hcontext ?_
  refine (Follows.sendAll hcontext _).bind fun _ _ => ?_
  refine .get_bind fun numExamples hnum => .ret ⟨rfl, rfl, ?_⟩
  rw [hnum]
  exact ceil_div n hpos

/-- The whole task of the coordinator. -/
theorem follows_run (settings : Settings) {n : Nat} (hn : 0 < n)
    (hpos : 0 < settings.batchSize) (hmaxIter : 0 < maxIter) :
    Follows (run ops settings maxIter : Action guests V Coordinator)
      (project .coordinator (taskScript guests V settings maxIter
        (min n settings.batchSize) n))
      (At maxIter (ceilDiv n (min n settings.batchSize))
        (Clock.zero.epochsWith maxIter
          (ceilDiv n (min n settings.batchSize)) settings.printMetrics
          settings.epoch).quiet) := by
  have hbatch : 0 < min n settings.batchSize := by omega
  rw [taskScript, project_append, project_append, project_append,
    finalScript, project_append, project_append,
    project_gather_of_not_mem coordinator_notMem
      (Ne.symm host_ne_coordinator), coordinator_regularScript]
  refine .get_bind fun batchSize hbatchSize => ?_
  rw [hbatchSize]
  refine (follows_init n hbatch).bind fun self h => ?_
  refine (follows_epochs hmaxIter (ceilDiv_pos hn hbatch) settings.epoch
    (c := .zero) (Nat.zero_le maxIter) h).bind fun self h => ?_
  exact (follows_updateModel _).bind fun _ _ => .ret h

end Coordinator

-- ================================================================ the task

section Different

/-- Nobody sends to itself. -/
def Different (script : List (Comm (Party guests) (Message V))) : Prop :=
  ∀ c ∈ script, c.src ≠ c.dst

theorem Different.nil : Different ([] : List (Comm (Party guests)
    (Message V))) := by
  intro c hc
  cases hc

theorem Different.cons {c : Comm (Party guests) (Message V)}
    {script : List (Comm (Party guests) (Message V))} (hc : c.src ≠ c.dst)
    (h : Different script) : Different (c :: script) := by
  intro d hd
  obtain rfl | hd := List.mem_cons.mp hd
  · exact hc
  · exact h d hd

/-- Two scripts without a message to oneself, one after the other. -/
theorem Different.append {s t : List (Comm (Party guests) (Message V))}
    (hs : Different s) (ht : Different t) : Different (s ++ t) := by
  intro c hc
  obtain hc | hc := List.mem_append.mp hc
  · exact hs c hc
  · exact ht c hc

/-- Who gathers is not among those who send. -/
theorem different_gather {dst : Party guests} (h : dst ∉ allGuests guests)
    (tag : Tag) (ok : Message V tag → Prop) :
    Different (gather (allGuests guests) dst tag ok) := by
  intro c hc
  obtain ⟨src, hsrc, rfl⟩ := List.mem_map.mp hc
  intro heq
  exact h ((show src = dst from heq) ▸ hsrc)

/-- Who scatters is not among those who receive. -/
theorem different_scatter {src : Party guests} (h : src ∉ allGuests guests)
    (tag : Tag) (ok : Message V tag → Prop) :
    Different (scatter src (allGuests guests) tag ok) := by
  intro c hc
  obtain ⟨dst, hdst, rfl⟩ := List.mem_map.mp hc
  intro heq
  exact h ((show src = dst from heq) ▸ hdst)

/-- No message of a refresh goes to its own sender. -/
theorem different_refreshComms : Different (refreshComms guests V) := by
  have hto : (Party.host : Party guests) ≠ .coordinator :=
    host_ne_coordinator
  unfold refreshComms
  refine .append (.append (.append ?_ ?_) ?_) ?_
  · exact .cons hto (.cons hto .nil)
  · exact different_gather coordinator_notMem _ _
  · exact .cons (Ne.symm hto) (.cons (Ne.symm hto) .nil)
  · exact different_scatter coordinator_notMem _ _

theorem different_refreshScript (maxIter : Nat) (c : Clock) :
    Different (refreshScript guests V maxIter c) := by
  unfold refreshScript
  split
  · exact different_refreshComms
  · exact .nil

theorem different_stepsScript (maxIter count : Nat) (c : Clock) :
    Different (stepsScript guests V maxIter count c) := by
  induction count generalizing c with
  | zero => exact .nil
  | succ count ih =>
      refine .append (.append (different_refreshScript maxIter c) ?_) (ih _)
      exact (different_gather host_notMem _ _).append
        (different_scatter host_notMem _ _)

theorem different_regularScript (alpha : ℚ) :
    Different (regularScript guests V alpha) := by
  unfold regularScript
  split
  · exact different_gather host_notMem _ _
  · exact .nil

theorem different_epochsScript (maxIter steps : Nat) (printMetrics : Bool)
    (alpha : ℚ) (count : Nat) (c : Clock) :
    Different (epochsScript guests V maxIter steps printMetrics alpha count
      c) := by
  induction count generalizing c with
  | zero => exact .nil
  | succ count ih =>
      refine .append (.append (different_stepsScript maxIter steps c) ?_)
        (ih _)
      split
      · refine .append (different_refreshScript maxIter _) ?_
        refine .append (different_gather host_notMem _ _) ?_
        exact (different_regularScript alpha).append
          (.cons host_ne_coordinator .nil)
      · exact .nil

/-- No party sends a message to itself in the whole task. -/
theorem different_taskScript (settings : Settings)
    (maxIter batchSize numExamples : Nat) :
    Different (taskScript guests V settings maxIter batchSize
      numExamples) := by
  have hto : (Party.host : Party guests) ≠ .coordinator :=
    host_ne_coordinator
  refine .append (.cons hto .nil) (.append ?_ (.append ?_ ?_))
  · refine (different_scatter host_notMem _ _).append (.append ?_ ?_)
    · exact .cons hto (.cons (Ne.symm hto) .nil)
    · exact (different_scatter coordinator_notMem _ _).append
        (.cons hto .nil)
  · exact different_epochsScript _ _ _ _ _ _
  · exact different_refreshComms.append
      ((different_gather host_notMem _ _).append
        (different_regularScript _))

end Different

/-- Where each party is at the end of the task, when host and guests have
the clock `c`. -/
def EndsAt (maxIter : Nat) (alpha : ℚ) (steps : Nat) (c : Clock) :
    (i : Party guests) → Result guests V i → Prop
  | .coordinator => Coordinator.At maxIter steps c.quiet
  | .host => fun result => Host.At maxIter alpha c result.1
  | .guest _ => Guest.At maxIter alpha c

/-- The same clock for all, kept for a whole training, is what `InStep`
says. -/
theorem inStep_of_endsAt {maxIter steps : Nat} {alpha : ℚ} {c : Clock}
    (hfresh : c.SinceRefresh maxIter) {v : (i : Party guests) →
      Result guests V i} (h : ∀ i, EndsAt maxIter alpha steps c i (v i)) :
    InStep maxIter v := by
  have hcoordinator : (v .coordinator).toClock = c.quiet :=
    (h .coordinator).clock
  have hhost : (v .host).1.toClock = c := (h .host).clock
  have hguest : ∀ i, (v (.guest i)).toClock = c := fun i =>
    (h (.guest i)).clock
  constructor
  · rw [hcoordinator, hhost]
    rfl
  · intro i
    rw [hcoordinator, hguest i]
    rfl
  · rw [hcoordinator, hhost]
    rfl
  · intro i
    rw [hcoordinator, hguest i]
    rfl
  · rw [hhost]
    exact hfresh.fresh
  · intro i
    rw [hguest i]
    exact hfresh.fresh

/-- Whatever the schedule, host, guests and coordinator all come to the
end of the training: every message is received and nobody waits for one
that is not sent. They agree on the refreshes of every epoch and on the
counter after every epoch and metrics step, and no model is used for more
than `maxIter` steps between two refreshes. -/
theorem train_completes (ops : Arithmetic V α) (rng : GlobalRng γ)
    (settings : Settings) (maxIter : Nat) (hostX : List α)
    (hostY : List Nat) (guestX : Fin guests → List α)
    (states : Party guests → γ) (hn : 1 ≤ hostX.length)
    (hguests : ∀ i, (guestX i).length = hostX.length)
    (hpos : 1 ≤ settings.batchSize) (hmaxIter : 1 ≤ maxIter) :
    Completes (parties ops rng settings maxIter hostX hostY guestX states)
      (InStep maxIter) := by
  have hfollows : ∀ i : Party guests,
      Follows (parties ops rng settings maxIter hostX hostY guestX states i)
        (project i (taskScript guests V settings maxIter
          (min hostX.length settings.batchSize) hostX.length))
        (EndsAt maxIter settings.alpha
          (ceilDiv hostX.length (min hostX.length settings.batchSize))
          (Clock.zero.epochsWith maxIter
            (ceilDiv hostX.length (min hostX.length settings.batchSize))
            settings.printMetrics settings.epoch) i) := by
    intro i
    cases i with
    | coordinator => exact Coordinator.follows_run settings hn hpos hmaxIter
    | host => exact Host.follows_run settings hn hpos rng hostY _
    | guest i =>
        exact Guest.follows_run i settings (hguests i) hn hpos rng _
  refine (completes_of_follows (different_taskScript _ _ _ _)
    hfollows).mono fun v hv => inStep_of_endsAt ?_ hv
  exact Clock.sinceRefresh_zero.epochsWith hmaxIter _ _ _

/-- Exact arithmetic on integers, one feature, and no encryption. -/
def integers : Arithmetic Int Int where
  encrypt _ v := v
  decrypt v := v
  serialize v := v
  load _ v := v
  transpose v := v
  toArray _ v := v
  sum := List.sum
  zero := 0
  hostZeros _ _ := (0, 0)
  computeEncZ model x guestZ := x.sum * model.weight + model.bias + guestZ.sum
  computeZ model x guestZ := x.sum * model.weight + model.bias + guestZ.sum
  computeError _ y z := 2 + z - 4 * (y.sum : Int)
  computeRegularLoss model guests := model.weight ^ 2 + guests
  loss _ _ z regularLoss := z + regularLoss
  fit model x error := (model.weight + error * x.sum, model.bias + error)
  guestZeros _ _ := 0
  guestEncZ model x := x.sum * model.weight
  guestZ model x := x.sum * model.weight
  guestRegularLoss model := model.weight ^ 2
  guestFit model x error := model.weight + error * x.sum

/-- Two epochs of two batches with two guests; the model is used up after
every step. -/
theorem train_completes_two_guests :
    Completes (parties integers drawn ⟨2, true, 2, 1⟩ 1 [1, 2, 3] [0, 1, 0]
      (fun _ : Fin 2 => [4, 5, 6]) fun _ => [0]) (InStep 1) :=
  train_completes integers drawn ⟨2, true, 2, 1⟩ 1 [1, 2, 3] [0, 1, 0]
    (fun _ => [4, 5, 6]) (fun _ => [0]) (by decide) (fun _ => rfl)
    (by decide) (by decide)

end PrimiHub.FL.Ckks
