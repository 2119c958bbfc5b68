/-
Horizontal linear regression, against one party with all rows.

A task is federated averaging (`fedAvg`): the models of the clients after
their local passes, averaged by how many rows they have. Every schedule
comes to its end, all clients save one model and one scaler, and what the
server logs are the errors of these models on all rows
(`trained_by_averaging`). The clients' batches do not depend on the models, so
they are written down first (`passes`), and the script of the task with
them; the induction is over the global epochs, with the state of each
client's loader as the invariant (`Reached`).

Where each client has one batch and makes one pass in a global epoch, the
average of the local steps is the step on all rows (`fedAvg_central`), and
the task is the training of one party with all rows
(`trained_as_one_party`).

Chain: the loader, one client, the averages, the task, one party.
-/
import Mathlib.Algebra.Order.Ring.Rat
import PrimiHub.FL.Linear
import PrimiHub.FL.Proofs.GlobalRound
import PrimiHub.FL.Proofs.Loader
import PrimiHub.Lib.Descriptive

namespace PrimiHub.FL.Linear

open Lib Horizontal

variable {clients d : Nat} {K γ : Type}

-- =========================================================== specification

/-- The rows of all clients. -/
def pooled (parts : Fin clients → List (Example d K)) :
    List (Example d K) :=
  (List.finRange clients).flatMap parts

section Specification

variable [Field K]

/-- `StandardScaler` of scikit-learn, fitted on a whole table. -/
def standardScaler (num : Numerics K) (rows : List (Example d K)) :
    Scaler d K where
  mean j := Lib.mean (rows.map fun e => e.x j)
  scale j := Scaler.handleZeros num (variance (rows.map fun e => e.x j))
    (Lib.mean (rows.map fun e => e.x j)) rows.length

/-- A row behind a scaler. -/
def Scaler.scaled (scaler : Scaler d K) (e : Example d K) : Example d K :=
  ⟨fun j => (e.x j - scaler.mean j) / scaler.scale j, e.y⟩

/-- The clients' tables, scaled by what all of them are together. -/
def standardised (num : Numerics K) (parts : Fin clients → List (Example d K))
    (i : Fin clients) : List (Example d K) :=
  (parts i).map (standardScaler num (pooled parts)).scaled

/-- The model with these weights. -/
def Settings.modelAt (settings : Settings K) (theta : Fin (d + 1) → K) :
    LinearRegression (Fin d) K :=
  ⟨settings.learningRate, settings.alpha, fun j => theta j.succ,
    theta ⟨0, d.succ_pos⟩⟩

/-- One step on some rows. -/
def fitRows (model : LinearRegression (Fin d) K)
    (rows : List (Example d K)) : LinearRegression (Fin d) K :=
  model.fit (rows.map Example.x) (rows.map Example.y)

/-- The row numbers of the batches in a pass over so many rows, the
`count`-th one of a loader with these indices. -/
def passes (rng : GlobalRng γ) (n batchSize : Nat) (indices : List Nat)
    (state : γ) (count : Nat) : List (List Nat) :=
  slices batchSize (rng.inEpoch id state indices count)
    (ceilDiv n batchSize)

/-- A pass over the batches of some rows. -/
def localPass (rows : List (Example d K)) (batches : List (List Nat))
    (model : LinearRegression (Fin d) K) : LinearRegression (Fin d) K :=
  batches.foldl (fun model idx => fitRows model (rowsAt rows idx)) model

/-- A client's model after its passes in the global epoch `t`. -/
def localModel (rng : GlobalRng γ) (settings : Settings K)
    (rows : List (Example d K)) (state : γ) (t : Nat)
    (model : LinearRegression (Fin d) K) : LinearRegression (Fin d) K :=
  (List.range settings.localEpoch).foldl (fun model e =>
    localPass rows (passes rng rows.length
      (min rows.length settings.batchSize) (List.range rows.length) state
      (t * settings.localEpoch + e)) model) model

/-- Federated averaging: the weights after so many global epochs. -/
def fedAvg (rng : GlobalRng γ) (settings : Settings K)
    (parts : Fin clients → List (Example d K)) (states : Fin clients → γ) :
    Nat → Fin (d + 1) → K
  | 0 => fun _ => 0
  | t + 1 => fun j =>
      (∑ i, ((parts i).length : K)
        * (localModel rng settings (parts i) (states i) t (settings.modelAt
          (fedAvg rng settings parts states t))).getTheta j)
      / ((∑ i, (parts i).length : Nat) : K)

/-- The metrics of a model on some rows. -/
def metricsOn [LinearOrder K] (model : LinearRegression (Fin d) K)
    (rows : List (Example d K)) : K × K :=
  (meanSquaredError (rows.map Example.y)
      (model.predict (rows.map Example.x)),
    meanAbsoluteError (rows.map Example.y)
      (model.predict (rows.map Example.x)))

/-- What a task comes to: one scaler, that of all rows; one model, that of
federated averaging on the scaled rows; and the metrics of the models of
the global epochs on all scaled rows. -/
structure Trained [LinearOrder K] (num : Numerics K) (rng : GlobalRng γ)
    (settings : Settings K) (parts : Fin clients → List (Example d K))
    (states : Fin clients → γ)
    (v : (p : Horizontal.Party clients) → Result d K p) : Prop where
  scaler : (v .server).1 = standardScaler num (pooled parts)
    ∧ ∀ i, (v (.client i)).1 = standardScaler num (pooled parts)
  model : ∀ i, (v (.client i)).2 = settings.modelAt
    (fedAvg rng settings (standardised num parts) states
      settings.globalEpoch)
  printed : (v .server).2.1.printed =
    if settings.printMetrics then
      (List.range settings.globalEpoch).map fun t => metricsOn
        (settings.modelAt (fedAvg rng settings (standardised num parts)
          states (t + 1))) (pooled (standardised num parts))
    else []
  metrics : (v .server).2.2 = metricsOn
    (settings.modelAt (fedAvg rng settings (standardised num parts) states
      settings.globalEpoch)) (pooled (standardised num parts))

end Specification

-- ================================================================== loader

/-- A loader between two passes. -/
def loaderAt {α β : Type} (dataset : List α) (label : Option (List β))
    (batchSize : Nat) (indices : List Nat) : DataLoader α β where
  dataset := dataset
  label := label
  batchSize := batchSize
  shuffle := true
  nSamples := dataset.length
  indices := indices
  start := 0

/-- A pass of a loader. -/
theorem forEach_loaderAt {α β : Type} (rng : GlobalRng γ) {dataset : List α}
    (label : Option (List β)) {batchSize : Nat} {indices : List Nat}
    (hpos : 0 < batchSize) (hdata : dataset ≠ [])
    (hlen : indices.length = dataset.length) (state : γ) :
    (loaderAt dataset label batchSize indices).forEach rng state
      = some ((passes rng dataset.length batchSize indices state 0).map
          (loaderAt dataset label batchSize indices).getBatch,
        loaderAt dataset label batchSize (rng.shuffle state indices).1,
        (rng.shuffle state indices).2) :=
  DataLoader.forEach_eq rng (loaderAt dataset label batchSize indices) hlen
    hpos rfl rfl (List.length_pos_iff.mpr hdata) state

/-- Rows are taken by their positions, so a function goes through. -/
theorem rowsAt_map {α β : Type} (f : α → β) (rows : List α)
    (idx : List Nat) : rowsAt (rows.map f) idx = (rowsAt rows idx).map f := by
  unfold rowsAt
  rw [List.map_filterMap]
  simp only [List.getElem?_map]

/-- All row numbers in order. -/
theorem rowsAt_range {α : Type} (rows : List α) :
    rowsAt rows (List.range rows.length) = rows := by
  induction rows with
  | nil => rfl
  | cons row rows ih =>
      rw [List.length_cons, List.range_succ_eq_map]
      unfold rowsAt at ih ⊢
      rw [List.filterMap_cons, List.filterMap_map]
      exact congrArg (row :: ·) ih

/-- All rows, in another order. -/
theorem rowsAt_perm {α : Type} (rows : List α) {idx : List Nat}
    (h : idx.Perm (List.range rows.length)) :
    (rowsAt rows idx).Perm rows := by
  have hperm : (rowsAt rows idx).Perm
      (rowsAt rows (List.range rows.length)) := h.filterMap _
  rwa [rowsAt_range] at hperm

section Loader

/-- A client's loader between two passes. -/
def rowsLoader (rows : List (Example d K)) (batchSize : Nat)
    (indices : List Nat) : DataLoader (Fin d → K) K :=
  loaderAt (rows.map Example.x) (some (rows.map Example.y)) batchSize indices

variable (rng : GlobalRng γ) {rows : List (Example d K)} {batchSize : Nat}
  {indices : List Nat}

variable [Field K]

/-- The steps of a pass. -/
theorem fitBatches_getBatch (model : LinearRegression (Fin d) K)
    (batches : List (List Nat)) :
    Client.fitBatches model
        (batches.map (rowsLoader rows batchSize indices).getBatch)
      = localPass rows batches model := by
  unfold Client.fitBatches localPass
  rw [List.foldl_map]
  congr 1
  funext model idx
  show model.fit (rowsAt (rows.map Example.x) idx)
    (rowsAt (rows.map Example.y) idx) = _
  rw [rowsAt_map, rowsAt_map]
  rfl

/-- Some passes, and the loader they leave. -/
theorem localEpochs_loaderAt (hpos : 0 < batchSize) (hrows : rows ≠ [])
    (count : Nat) (model : LinearRegression (Fin d) K)
    (hlen : indices.length = rows.length) (state : γ) :
    ∃ indices' state',
      Client.localEpochs rng count
          ⟨model, rowsLoader rows batchSize indices, state⟩
        = .ok ⟨(List.range count).foldl (fun model e => localPass rows
            (passes rng rows.length batchSize indices state e) model) model,
          rowsLoader rows batchSize indices', state'⟩
      ∧ indices'.length = rows.length
      ∧ ∀ e, passes rng rows.length batchSize indices' state' e
          = passes rng rows.length batchSize indices state (count + e) := by
  induction count generalizing model indices state with
  | zero =>
      refine ⟨indices, state, rfl, hlen, fun e => ?_⟩
      rw [Nat.zero_add]
  | succ count ih =>
      have hlen' : (rng.shuffle state indices).1.length = rows.length :=
        (rng.shuffle_perm state indices).length_eq.trans hlen
      obtain ⟨indices', state', hok, hlength, hpasses⟩ :=
        ih (localPass rows
          (passes rng rows.length batchSize indices state 0) model) hlen'
          (rng.shuffle state indices).2
      refine ⟨indices', state', ?_, hlength, fun e => ?_⟩
      · have hpass := forEach_loaderAt rng (some (rows.map Example.y)) hpos
          (mt List.map_eq_nil_iff.mp hrows)
          (hlen.trans (List.length_map Example.x).symm) state
        rw [List.length_map] at hpass
        rw [Client.localEpochs, rowsLoader, hpass]
        show Client.localEpochs rng count ⟨Client.fitBatches model
          (List.map (rowsLoader rows batchSize indices).getBatch _), _, _⟩
          = _
        rw [fitBatches_getBatch]
        refine hok.trans ?_
        rw [List.range_succ_eq_map, List.foldl_cons, List.foldl_map]
        rfl
      · rw [hpasses, Nat.add_right_comm]
        rfl

end Loader

-- ============================================================== one client

section Client

variable [Field K] {rng : GlobalRng γ} {settings : Settings K}
  {rows : List (Example d K)}

/-- A client after so many passes, with this model. -/
structure Reached (rng : GlobalRng γ) (settings : Settings K)
    (rows : List (Example d K)) (start : γ) (count : Nat)
    (model : LinearRegression (Fin d) K) (client : Client d K γ) :
    Prop where
  model : client.model = model
  loader : ∃ indices, client.loader
      = rowsLoader rows (min rows.length settings.batchSize) indices
    ∧ indices.length = rows.length
    ∧ ∀ e, passes rng rows.length (min rows.length settings.batchSize)
        indices client.state e
      = passes rng rows.length (min rows.length settings.batchSize)
        (List.range rows.length) start (count + e)

/-- The local epochs of a global one. -/
theorem Reached.localEpochs (hrows : rows ≠ [])
    (hpos : 0 < settings.batchSize) {start : γ} {t : Nat}
    {model : LinearRegression (Fin d) K} {self : Client d K γ}
    (h : Reached rng settings rows start (t * settings.localEpoch) model
      self) :
    ∃ self', self.localEpochs rng settings.localEpoch = .ok self'
      ∧ Reached rng settings rows start ((t + 1) * settings.localEpoch)
          (localModel rng settings rows start t model) self' := by
  have hbatch : 0 < min rows.length settings.batchSize :=
    Nat.lt_min.mpr ⟨List.length_pos_iff.mpr hrows, hpos⟩
  obtain ⟨model', loader, state⟩ := self
  obtain ⟨rfl, indices, rfl, hlen, hpasses⟩ := h
  obtain ⟨indices', state', hok, hlen', hpasses'⟩ :=
    localEpochs_loaderAt rng hbatch hrows settings.localEpoch model' hlen
      state
  refine ⟨_, hok, ?_, indices', rfl, hlen', fun e => ?_⟩
  · unfold localModel
    simp only [hpasses]
  · rw [hpasses', hpasses, Nat.add_mul, Nat.one_mul, Nat.add_assoc]

/-- A step keeps the rates. -/
theorem setTheta_localPass (batches : List (List Nat))
    (model : LinearRegression (Fin d) K) (theta : Fin (d + 1) → K) :
    (localPass rows batches model).setTheta theta = model.setTheta theta := by
  unfold localPass
  induction batches generalizing model with
  | nil => rfl
  | cons batch batches ih => exact ih (fitRows model (rowsAt rows batch))

/-- A client's model with other weights. -/
theorem setTheta_localModel (state : γ) (t : Nat)
    (theta theta' : Fin (d + 1) → K) :
    (localModel rng settings rows state t
        (settings.modelAt theta)).setTheta theta'
      = settings.modelAt theta' := by
  have hkeep : ∀ (es : List Nat) (model : LinearRegression (Fin d) K),
      (es.foldl (fun model e => localPass rows (passes rng rows.length
        (min rows.length settings.batchSize) (List.range rows.length) state
        (t * settings.localEpoch + e)) model) model).setTheta theta'
      = model.setTheta theta' := by
    intro es
    induction es with
    | nil => exact fun _ => rfl
    | cons e es ih =>
        intro model
        exact (ih _).trans (setTheta_localPass _ model theta')
  exact hkeep _ _

end Client

-- ================================================================ averages

section Averages

/-- Clients with rows have rows together. -/
theorem total_ne_zero (hclients : 0 < clients)
    {parts : Fin clients → List (Example d K)} (hrows : ∀ i, parts i ≠ []) :
    ∑ i, (parts i).length ≠ 0 := by
  intro h
  have hfirst := Finset.sum_eq_zero_iff.mp h ⟨0, hclients⟩
    (Finset.mem_univ _)
  exact hrows _ (List.length_eq_zero_iff.mp hfirst)

/-- All rows, counted client by client. -/
theorem length_pooled (parts : Fin clients → List (Example d K)) :
    (pooled parts).length = ∑ i, (parts i).length := by
  rw [pooled, List.length_flatMap, Fin.sum_univ_def]

/-- A function on all rows is one on every client's rows. -/
theorem map_pooled {β : Type} (parts : Fin clients → List (Example d K))
    (f : Example d K → β) :
    (pooled parts).map f
      = (List.finRange clients).flatMap fun i => (parts i).map f :=
  List.map_flatMap

variable [Field K]

/-- A sum over all rows. -/
theorem sum_pooled (parts : Fin clients → List (Example d K))
    (f : Example d K → K) :
    ((pooled parts).map f).sum = ∑ i, ((parts i).map f).sum := by
  rw [map_pooled, List.flatMap_def, List.sum_flatten, List.map_map,
    Fin.sum_univ_def]
  rfl

/-- `np.average` of one value of each client. -/
theorem average_map (f : Fin clients → K) {size : Fin clients → Nat}
    (htotal : ∑ i, size i ≠ 0) :
    Server.average ((List.finRange clients).map f)
        ((List.finRange clients).map size)
      = .ok ((∑ i, (size i : K) * f i) / ((∑ i, size i : Nat) : K)) := by
  unfold Server.average
  rw [← Fin.sum_univ_def, if_neg htotal, List.zipWith_map,
    List.zipWith_self, Fin.sum_univ_def (fun i => (size i : K) * f i)]

/-- The server's average of a value per client, by the clients' sizes. -/
theorem averageModels_map (f : Fin clients → Fin (d + 1) → K)
    {size : Fin clients → Nat} (htotal : ∑ i, size i ≠ 0) :
    Server.averageModels ((List.finRange clients).map f)
        ((List.finRange clients).map size)
      = .ok fun j => (∑ i, (size i : K) * f i j)
        / ((∑ i, size i : Nat) : K) := by
  unfold Server.averageModels
  rw [← Fin.sum_univ_def, if_neg htotal]
  simp only [List.zipWith_map, List.zipWith_self, Fin.sum_univ_def]

/-- The loss of every row, added up. -/
theorem zipWith_predict (model : LinearRegression (Fin d) K)
    (loss : K → K → K) (rows : List (Example d K)) :
    List.zipWith loss (rows.map Example.y)
        (model.predict (rows.map Example.x))
      = rows.map fun e =>
          loss e.y (∑ j, e.x j * model.weight j + model.bias) := by
  unfold LinearRegression.predict
  rw [List.map_map, List.zipWith_map, List.zipWith_self]
  rfl

/-- The average of the clients' mean losses is that of all rows. -/
theorem average_loss [CharZero K] (model : LinearRegression (Fin d) K)
    (loss : K → K → K) {parts : Fin clients → List (Example d K)}
    (hrows : ∀ i, parts i ≠ []) :
    (∑ i, ((parts i).length : K)
        * ((List.zipWith loss ((parts i).map Example.y)
            (model.predict ((parts i).map Example.x))).sum
          / (((parts i).map Example.y).length : Nat)))
        / ((∑ i, (parts i).length : Nat) : K)
      = (List.zipWith loss ((pooled parts).map Example.y)
          (model.predict ((pooled parts).map Example.x))).sum
        / (((pooled parts).map Example.y).length : Nat) := by
  rw [zipWith_predict, sum_pooled, List.length_map, length_pooled]
  congr 1
  refine Finset.sum_congr rfl fun i _ => ?_
  have hlength : ((parts i).length : K) ≠ 0 :=
    Nat.cast_ne_zero.mpr (mt List.length_eq_zero_iff.mp (hrows i))
  rw [zipWith_predict, List.length_map, mul_div_cancel₀ _ hlength]

end Averages

-- ================================================================ the task

section Task

variable [Field K] [LinearOrder K] (rng : GlobalRng γ)
  (settings : Settings K) (parts : Fin clients → List (Example d K))
  (states : Fin clients → γ)

/-- The metrics of the model with these weights. -/
def metricsRounds (theta : Fin (d + 1) → K) :
    List (Horizontal.Round clients (Message d K)) :=
  [.gather .mse (fun p x => x = ofClients 0 (fun i =>
      (metricsOn (settings.modelAt theta) (parts i)).1) p),
    .gather .mae (fun p x => x = ofClients 0 (fun i =>
      (metricsOn (settings.modelAt theta) (parts i)).2) p)]

/-- The exchange of the models in a global epoch. -/
def trainRounds (t : Nat) : List (Horizontal.Round clients (Message d K)) :=
  [.gather .clientModel (fun p x => x = ofClients (fun _ => 0) (fun i =>
      (localModel rng settings (parts i) (states i) t (settings.modelAt
        (fedAvg rng settings parts states t))).getTheta) p),
    .scatter .serverModel (· = fedAvg rng settings parts states (t + 1))]

/-- A global epoch. -/
def epochRounds (t : Nat) : List (Horizontal.Round clients (Message d K)) :=
  trainRounds rng settings parts states t
  ++ if settings.printMetrics then
      metricsRounds settings parts (fedAvg rng settings parts states (t + 1))
    else []

/-- The global epochs from `t` on. -/
def epochsRounds (t count : Nat) :
    List (Horizontal.Round clients (Message d K)) :=
  (List.range' t count).flatMap (epochRounds rng settings parts states)

variable {rng settings parts states}

/-- A client sends its errors and the number of its rows. -/
theorem Client.follows_sendMetrics (i : Fin clients) {theta : Fin (d + 1) → K}
    {self : Client d K γ} (h : self.model = settings.modelAt theta) :
    Follows (self.sendMetrics ((parts i).map Example.x)
        ((parts i).map Example.y) : Action clients d K Unit)
      ((metricsRounds settings parts theta).map (Horizontal.Round.ofClient i))
      fun _ => True := by
  unfold Client.sendMetrics
  rw [h]
  exact .put_bind rfl (.put_bind rfl (.ret trivial))

/-- The metrics of a client, where they are asked for. -/
theorem Client.follows_printMetrics (i : Fin clients)
    {theta : Fin (d + 1) → K} {self : Client d K γ}
    (h : self.model = settings.modelAt theta) :
    Follows (self.printMetrics settings ((parts i).map Example.x)
        ((parts i).map Example.y) : Action clients d K Unit)
      ((if settings.printMetrics then metricsRounds settings parts theta
        else []).map (Horizontal.Round.ofClient i)) fun _ => True := by
  unfold Client.printMetrics
  split
  · exact Client.follows_sendMetrics i h
  · exact .ret trivial

omit [LinearOrder K] in
/-- The client sends its model and takes the averaged one. -/
theorem Client.follows_train {i : Fin clients} {t : Nat}
    {self : Client d K γ}
    (h : Reached rng settings (parts i) (states i)
      ((t + 1) * settings.localEpoch)
      (localModel rng settings (parts i) (states i) t
        (settings.modelAt (fedAvg rng settings parts states t))) self) :
    Follows (self.train : Action clients d K (Client d K γ))
      ((trainRounds rng settings parts states t).map
        (Horizontal.Round.ofClient i))
      (Reached rng settings (parts i) (states i)
        ((t + 1) * settings.localEpoch)
        (settings.modelAt (fedAvg rng settings parts states (t + 1)))) := by
  unfold Client.train
  refine .put_bind (congrArg _ h.model)
    (.get_bind fun theta htheta => .ret ⟨?_, h.loader⟩)
  rw [htheta, h.model]
  exact setTheta_localModel (states i) t _ _

/-- A client's global epochs: between two averages only its own batches
change its model. -/
theorem Client.follows_globalEpochs (i : Fin clients) (hrows : parts i ≠ [])
    (hpos : 0 < settings.batchSize) (count : Nat) {t : Nat}
    {self : Client d K γ}
    (h : Reached rng settings (parts i) (states i) (t * settings.localEpoch)
      (settings.modelAt (fedAvg rng settings parts states t)) self) :
    Follows (Client.globalEpochs rng settings ((parts i).map Example.x)
        ((parts i).map Example.y) count self :
          Action clients d K (Client d K γ))
      ((epochsRounds rng settings parts states t count).map
        (Horizontal.Round.ofClient i))
      fun self => self.model = settings.modelAt
        (fedAvg rng settings parts states (t + count)) := by
  induction count generalizing t self with
  | zero => exact .ret h.model
  | succ count ih =>
      obtain ⟨self', hok, hreached⟩ := h.localEpochs hrows hpos
      unfold Client.globalEpochs epochsRounds
      rw [hok, Proc.lift_ok, Proc.ret_bind, List.range'_succ,
        List.flatMap_cons, List.map_append, epochRounds, List.map_append,
        List.append_assoc]
      refine (Client.follows_train hreached).bind fun self h => ?_
      refine (Client.follows_printMetrics i h.model).bind fun _ _ => ?_
      have hrest := ih h
      rwa [Nat.add_right_comm, Nat.add_assoc] at hrest

omit [LinearOrder K] in
/-- A metric of all clients at the server. -/
theorem Server.follows_getScalarMetrics (tag : Tag)
    (value : Message d K tag → K) (server : Message d K tag)
    (m : Fin clients → Message d K tag) {weights : List Nat} {result : K}
    (h : Server.average ((List.finRange clients).map fun i => value (m i))
      weights = .ok result) :
    Follows (Server.getScalarMetrics weights tag value :
        Action clients d K K)
      (Horizontal.Round.gather tag fun p x => x = ofClients server m p :
        Horizontal.Round clients (Message d K)).ofServer (· = result) := by
  rw [← List.append_nil (Horizontal.Round.ofServer _)]
  refine (recvAll_follows tag _).bind fun ms hms => ?_
  have hvalues : (List.finRange clients).map (value ∘ m)
      = (List.finRange clients).map fun i => value (m i) := rfl
  rw [hms, map_ofClients, List.map_map, hvalues, h]
  exact .ret rfl

/-- The metrics of all clients at the server. -/
theorem Server.follows_getMetrics [CharZero K] (hclients : 0 < clients)
    (hrows : ∀ i, parts i ≠ []) (theta : Fin (d + 1) → K) :
    Follows (Server.getMetrics ((List.finRange clients).map fun i =>
        (parts i).length) : Action clients d K (K × K))
      ((metricsRounds settings parts theta).flatMap Horizontal.Round.ofServer)
      (· = metricsOn (settings.modelAt theta) (pooled parts)) := by
  have htotal := total_ne_zero hclients hrows
  have haverage := fun loss =>
    average_loss (settings.modelAt theta) loss hrows
  have hmse := haverage fun t p => (t - p) ^ 2
  have hmae := haverage fun t p => |t - p|
  refine (Server.follows_getScalarMetrics .mse id 0 _
    (average_map _ htotal)).bind fun mse hmse' => ?_
  refine (Server.follows_getScalarMetrics .mae id 0 _
    (average_map _ htotal)).bind fun mae hmae' => .ret ?_
  rw [hmse', hmae']
  exact Prod.ext hmse hmae

/-- The server keeps the metrics it prints. -/
theorem Server.follows_printMetrics [CharZero K] (hclients : 0 < clients)
    (hrows : ∀ i, parts i ≠ []) (theta : Fin (d + 1) → K)
    (self : Server d K) :
    Follows (self.printMetrics settings ((List.finRange clients).map
        fun i => (parts i).length) : Action clients d K (Server d K))
      ((if settings.printMetrics then metricsRounds settings parts theta
        else []).flatMap Horizontal.Round.ofServer)
      fun self' => self'.printed = self.printed
        ++ if settings.printMetrics then
          [metricsOn (settings.modelAt theta) (pooled parts)] else [] := by
  unfold Server.printMetrics
  split
  · rw [← List.append_nil (List.flatMap _ _)]
    refine (Server.follows_getMetrics hclients hrows _).bind
      fun metrics hmetrics => .ret ?_
    rw [hmetrics]
  · exact .ret (List.append_nil _).symm

omit [LinearOrder K] in
/-- The averaged model goes back to the clients. -/
theorem Server.follows_train (hclients : 0 < clients)
    (hrows : ∀ i, parts i ≠ []) (t : Nat) (self : Server d K) :
    Follows (self.train ((List.finRange clients).map fun i =>
        (parts i).length) : Action clients d K (Server d K))
      ((trainRounds rng settings parts states t).flatMap
        Horizontal.Round.ofServer)
      fun self' => self'.printed = self.printed := by
  unfold Server.train
  refine (recvAll_follows Tag.clientModel _).bind fun models hmodels => ?_
  rw [hmodels, map_ofClients,
    averageModels_map _ (total_ne_zero hclients hrows), Proc.lift_ok,
    Proc.ret_bind]
  exact (sendAll_follows Tag.serverModel _).bind fun _ _ => .ret rfl

/-- The server's global epochs: it averages what the clients send and logs
their errors. -/
theorem Server.follows_globalEpochs [CharZero K] (hclients : 0 < clients)
    (hrows : ∀ i, parts i ≠ []) (count : Nat) {t : Nat} (self : Server d K) :
    Follows (Server.globalEpochs settings ((List.finRange clients).map
        fun i => (parts i).length) count self :
          Action clients d K (Server d K))
      ((epochsRounds rng settings parts states t count).flatMap
        Horizontal.Round.ofServer)
      fun self' => self'.printed = self.printed
        ++ if settings.printMetrics then
          (List.range' t count).map fun t => metricsOn (settings.modelAt
            (fedAvg rng settings parts states (t + 1))) (pooled parts)
        else [] := by
  induction count generalizing t self with
  | zero =>
      refine .ret ?_
      split <;> exact (List.append_nil _).symm
  | succ count ih =>
      unfold Server.globalEpochs epochsRounds
      rw [List.range'_succ, List.flatMap_cons, List.flatMap_append,
        epochRounds, List.flatMap_append, List.append_assoc]
      refine (Server.follows_train hclients hrows t self).bind
        fun self₁ h₁ => ?_
      refine (Server.follows_printMetrics hclients hrows _ self₁).bind
        fun self₂ h₂ => (ih self₂).mono fun self₃ h₃ => ?_
      rw [h₃, h₂, h₁, List.append_assoc]
      split <;> rfl

end Task

-- ================================================================== scaler

section Scaler

variable [Field K] (num : Numerics K)
  (parts : Fin clients → List (Example d K))

/-- The sums of a client. -/
def columnSums (rows : List (Example d K)) : (Fin d → K) × (Fin d → K) :=
  (fun j => ((rows.map Example.x).map (· j)).sum,
    fun j => ((rows.map Example.x).map fun row => row j ^ 2).sum)

/-- The messages of the scaler. -/
def scalerRounds : List (Horizontal.Round clients (Message d K)) :=
  [.gather .nSamples (fun p x => x = ofClients 0 (fun i =>
      (parts i).length) p),
    .gather .sumSumSquare (fun p x => x = ofClients (columnSums [])
      (fun i => columnSums (parts i)) p),
    .scatter .meanScale (· = standardScaler num (pooled parts))]

variable {num parts}

/-- The server's scaler is that of all rows. -/
theorem ofSums_pooled [CharZero K] (htotal : ∑ i, (parts i).length ≠ 0) :
    Scaler.ofSums num
        (((List.finRange clients).map fun i => (parts i).length).foldl
          (· + ·) 0)
        (fun j => (((List.finRange clients).map fun i =>
          columnSums (parts i)).map fun s => s.1 j).sum)
        (fun j => (((List.finRange clients).map fun i =>
          columnSums (parts i)).map fun s => s.2 j).sum)
      = standardScaler num (pooled parts) := by
  have hcount : ((List.finRange clients).map fun i =>
      (parts i).length).foldl (· + ·) 0 = (pooled parts).length := by
    rw [← List.sum_eq_foldl, length_pooled, Fin.sum_univ_def]
  have hsum : ∀ j, (((List.finRange clients).map fun i =>
      columnSums (parts i)).map fun s => s.1 j).sum
        = ((pooled parts).map fun e => e.x j).sum := by
    intro j
    rw [sum_pooled, Fin.sum_univ_def, List.map_map]
    simp only [columnSums, Function.comp_def, List.map_map]
  have hsquare : ∀ j, (((List.finRange clients).map fun i =>
      columnSums (parts i)).map fun s => s.2 j).sum
        = (((pooled parts).map fun e => e.x j).map (· ^ 2)).sum := by
    intro j
    rw [List.map_map (l := pooled parts), sum_pooled, Fin.sum_univ_def,
      List.map_map]
    simp only [columnSums, Function.comp_def, List.map_map]
  have hlength : ∀ j, ((pooled parts).map fun e => e.x j).length
      = (pooled parts).length := fun j => List.length_map _
  have hne : ∀ j, (((pooled parts).map fun e => e.x j).length : K) ≠ 0 := by
    intro j
    rw [hlength, length_pooled]
    exact Nat.cast_ne_zero.mpr htotal
  unfold Scaler.ofSums standardScaler
  simp only [hcount, hsum, hsquare, variance_eq (hne _), Lib.mean, hlength]

/-- A client leaves the scaler of all rows. -/
theorem Client.follows_fitScaler (i : Fin clients) :
    Follows (Client.fitScaler ((parts i).map Example.x) :
        Action clients d K (Scaler d K))
      ((scalerRounds num parts).map (Horizontal.Round.ofClient i))
      (· = standardScaler num (pooled parts)) := by
  unfold Client.fitScaler
  refine .put_bind (List.length_map _) (.put_bind rfl ?_)
  exact .recv fun scaler hscaler => .ret hscaler

/-- The server joins the statistics of the clients to those of all rows. -/
theorem Server.follows_fitScaler [CharZero K]
    (htotal : ∑ i, (parts i).length ≠ 0) :
    Follows (Server.fitScaler num : Action clients d K (Scaler d K))
      ((scalerRounds num parts).flatMap Horizontal.Round.ofServer)
      (· = standardScaler num (pooled parts)) := by
  unfold Server.fitScaler
  refine (recvAll_follows Tag.nSamples _).bind fun ns hns => ?_
  refine (recvAll_follows Tag.sumSumSquare _).bind fun sums hsums => ?_
  rw [hns, hsums, map_ofClients, map_ofClients, ofSums_pooled htotal]
  exact sendAll_ret Tag.meanScale _ _

end Scaler

-- ============================================================== whole task

section Whole

variable [Field K] [LinearOrder K] {num : Numerics K} {rng : GlobalRng γ}
  {settings : Settings K} {parts : Fin clients → List (Example d K)}
  {states : Fin clients → γ}

/-- All messages of a task. -/
def taskRounds (num : Numerics K) (rng : GlobalRng γ)
    (settings : Settings K) (parts : Fin clients → List (Example d K))
    (states : Fin clients → γ) :
    List (Horizontal.Round clients (Message d K)) :=
  [.gather .numExamples (fun p x => x = ofClients 0 (fun i =>
      (parts i).length) p)]
  ++ (scalerRounds num parts
    ++ (epochsRounds rng settings (standardised num parts) states 0
        settings.globalEpoch
      ++ metricsRounds settings (standardised num parts)
        (fedAvg rng settings (standardised num parts) states
          settings.globalEpoch)))

omit [LinearOrder K] in
/-- Standardising keeps the number of rows. -/
theorem length_standardised (i : Fin clients) :
    (standardised num parts i).length = (parts i).length :=
  List.length_map _

omit [LinearOrder K] in
theorem standardised_ne_nil (hrows : ∀ i, parts i ≠ []) (i : Fin clients) :
    standardised num parts i ≠ [] :=
  mt List.map_eq_nil_iff.mp (hrows i)

omit [LinearOrder K] in
/-- A client transforms its rows with the scaler of all rows. -/
theorem transform_standardScaler (i : Fin clients) :
    (standardScaler num (pooled parts)).transform ((parts i).map Example.x)
      = (standardised num parts i).map Example.x := by
  unfold Scaler.transform standardised
  rw [List.map_map, List.map_map]
  rfl

omit [LinearOrder K] in
theorem map_y_standardised (i : Fin clients) :
    (standardised num parts i).map Example.y = (parts i).map Example.y := by
  unfold standardised
  rw [List.map_map]
  rfl

/-- The whole task of a client. -/
theorem Client.follows_run (hd : 0 < d) (hrows : ∀ i, parts i ≠ [])
    (hpos : 0 < settings.batchSize) (i : Fin clients) :
    Follows (Client.run rng settings (parts i) (states i) : Action clients d K _)
      ((taskRounds num rng settings parts states).map
        (Horizontal.Round.ofClient i))
      (· = (standardScaler num (pooled parts), settings.modelAt
        (fedAvg rng settings (standardised num parts) states
          settings.globalEpoch))) := by
  have hcheck : checkArray ((parts i).map Example.x)
      = .ok ((parts i).map Example.x) := by
    refine if_neg fun h => h.elim (fun h => ?_) hd.ne'
    exact hrows i (List.map_eq_nil_iff.mp h)
  unfold Client.run taskRounds
  rw [hcheck, Proc.lift_ok, Proc.ret_bind]
  simp only [List.map_append]
  refine .put_bind (List.length_map _) ?_
  refine (Client.follows_fitScaler i).bind fun scaler hscaler => ?_
  have hy : (standardised num parts i).map Example.y
      = (parts i).map Example.y := map_y_standardised i
  rw [hscaler, transform_standardScaler, ← hy]
  have hstart : Reached rng settings (standardised num parts i) (states i)
      (0 * settings.localEpoch)
      (settings.modelAt (fedAvg rng settings (standardised num parts)
        states 0))
      (⟨LinearRegression.init settings.learningRate settings.alpha,
        DataLoader.fresh ((standardised num parts i).map Example.x)
          (some ((standardised num parts i).map Example.y))
          (min ((standardised num parts i).map Example.x).length
            settings.batchSize) true, states i⟩ : Client d K γ) := by
    refine ⟨rfl, List.range (standardised num parts i).length, ?_,
      List.length_range, fun e => ?_⟩
    · unfold DataLoader.fresh rowsLoader loaderAt
      rw [List.length_map]
    · rw [Nat.zero_mul, Nat.zero_add]
  refine (Client.follows_globalEpochs i (standardised_ne_nil hrows i) hpos
    settings.globalEpoch hstart).bind fun self hself => ?_
  rw [Nat.zero_add] at hself
  rw [← List.append_nil (List.map _ (metricsRounds _ _ _))]
  refine (Client.follows_sendMetrics i hself).bind fun _ _ => .ret ?_
  rw [hself]

/-- What the server has at the end. -/
def ServerDone (num : Numerics K) (rng : GlobalRng γ) (settings : Settings K)
    (parts : Fin clients → List (Example d K)) (states : Fin clients → γ)
    (r : Scaler d K × Server d K × (K × K)) : Prop :=
  r.1 = standardScaler num (pooled parts)
  ∧ r.2.1.printed = (if settings.printMetrics then
      (List.range settings.globalEpoch).map fun t => metricsOn
        (settings.modelAt (fedAvg rng settings (standardised num parts)
          states (t + 1))) (pooled (standardised num parts))
    else [])
  ∧ r.2.2 = metricsOn
    (settings.modelAt (fedAvg rng settings (standardised num parts) states
      settings.globalEpoch)) (pooled (standardised num parts))

/-- The whole task of the server. -/
theorem Server.follows_run [CharZero K] (hclients : 0 < clients)
    (hrows : ∀ i, parts i ≠ []) :
    Follows (Server.run num settings : Action clients d K _)
      ((taskRounds num rng settings parts states).flatMap
        Horizontal.Round.ofServer)
      (ServerDone num rng settings parts states) := by
  have hlength : ((List.finRange clients).map fun i => (parts i).length)
      = (List.finRange clients).map fun i =>
        (standardised num parts i).length := by
    simp only [length_standardised]
  have hrows' : ∀ i, standardised num parts i ≠ [] :=
    standardised_ne_nil hrows
  unfold Server.run taskRounds
  rw [List.flatMap_append, List.flatMap_append, List.flatMap_append,
    List.flatMap_cons, List.flatMap_nil, List.append_nil]
  refine (recvAll_follows Tag.numExamples _).bind fun weights hweights => ?_
  rw [hweights, map_ofClients, hlength]
  refine (Server.follows_fitScaler (total_ne_zero hclients hrows)).bind
    fun scaler hscaler => ?_
  refine (Server.follows_globalEpochs hclients hrows' settings.globalEpoch
    ⟨none, []⟩).bind fun self hself => ?_
  rw [← List.append_nil (List.flatMap _ (metricsRounds _ _ _))]
  refine (Server.follows_getMetrics hclients hrows' _).bind
    fun metrics hmetrics => .ret ⟨hscaler, ?_, hmetrics⟩
  rw [hself, List.nil_append, List.range_eq_range']

/-- What a party has at the end. -/
def PartyDone (num : Numerics K) (rng : GlobalRng γ) (settings : Settings K)
    (parts : Fin clients → List (Example d K)) (states : Fin clients → γ) :
    (p : Horizontal.Party clients) → Result d K p → Prop
  | .server => ServerDone num rng settings parts states
  | .client _ => (· = (standardScaler num (pooled parts), settings.modelAt
      (fedAvg rng settings (standardised num parts) states
        settings.globalEpoch)))

/-- Every schedule comes to its end, with what each party has then. -/
theorem parties_done [CharZero K] (hclients : 0 < clients) (hd : 0 < d)
    (hrows : ∀ i, parts i ≠ []) (hpos : 0 < settings.batchSize) :
    Completes (parties num rng settings parts states) fun v =>
      ∀ p, PartyDone num rng settings parts states p (v p) :=
  completes_of_rounds (taskRounds num rng settings parts states)
    (Client.follows_run hd hrows hpos) (Server.follows_run hclients hrows)

/-- Whatever the schedule, all parties come to the end of the task. All
clients save the scaler of all rows and the model of federated averaging
on the scaled rows, and what the server logs and saves are the errors of
these models on all rows. -/
theorem trained_by_averaging [CharZero K] (hclients : 0 < clients)
    (hd : 0 < d) (hrows : ∀ i, parts i ≠ [])
    (hpos : 0 < settings.batchSize) :
    Completes (parties num rng settings parts states)
      (Trained num rng settings parts states) := by
  refine (parties_done hclients hd hrows hpos).mono fun v hv => ?_
  obtain ⟨hscaler, hprinted, hmetrics⟩ := hv .server
  have hclient : ∀ i, v (.client i) = _ := fun i => hv (.client i)
  refine ⟨⟨hscaler, fun i => ?_⟩, fun i => ?_, hprinted, hmetrics⟩
  · rw [hclient i]
  · rw [hclient i]

end Whole

-- =============================================================== one party

section OneParty

variable [Field K]

/-- `LinearRegression` trained on a whole table, one step on all rows in
an epoch. -/
def trainedOn (settings : Settings K) (rows : List (Example d K))
    (epochs : Nat) : LinearRegression (Fin d) K :=
  (fun model => fitRows model rows)^[epochs]
    (.init settings.learningRate settings.alpha)

/-- The error of a row. -/
def rowError (model : LinearRegression (Fin d) K) (e : Example d K) : K :=
  ∑ j, e.x j * model.weight j + model.bias - e.y

/-- The errors row by row. -/
theorem computeError_rows (model : LinearRegression (Fin d) K)
    (rows : List (Example d K)) :
    model.computeError (rows.map Example.x) (rows.map Example.y)
      = rows.map (rowError model) := by
  unfold LinearRegression.computeError LinearRegression.predict
  rw [List.map_map, List.zipWith_map, List.zipWith_self]
  rfl

/-- One step of the gradient, for a weight. -/
theorem fitRows_weight (model : LinearRegression (Fin d) K)
    (rows : List (Example d K)) (j : Fin d) :
    (fitRows model rows).weight j
      = model.weight j - model.learningRate
        * ((rows.map fun e => e.x j * rowError model e).sum
            / (rows.length : Nat) + model.alpha * model.weight j) := by
  show model.weight j - model.learningRate
    * LinearRegression.weightGrad model.alpha model.weight
      (rows.map Example.x)
      (model.computeError (rows.map Example.x) (rows.map Example.y)) j = _
  rw [computeError_rows, LinearRegression.weightGrad, List.zipWith_map,
    List.zipWith_self, List.length_map]

/-- One step of the gradient, for the bias. -/
theorem fitRows_bias (model : LinearRegression (Fin d) K)
    (rows : List (Example d K)) :
    (fitRows model rows).bias
      = model.bias - model.learningRate
        * ((rows.map (rowError model)).sum / (rows.length : Nat)) := by
  show model.bias - model.learningRate * LinearRegression.biasGrad
    (model.computeError (rows.map Example.x) (rows.map Example.y)) = _
  rw [computeError_rows, LinearRegression.biasGrad, List.length_map]

/-- The order of the rows does not matter to a step. -/
theorem fitRows_perm (model : LinearRegression (Fin d) K)
    {rows rows' : List (Example d K)} (h : rows.Perm rows') :
    fitRows model rows = fitRows model rows' := by
  refine LinearRegression.ext rfl rfl (funext fun j => ?_) ?_
  · rw [fitRows_weight, fitRows_weight, (h.map _).sum_eq, h.length_eq]
  · rw [fitRows_bias, fitRows_bias, (h.map _).sum_eq, h.length_eq]

/-- A pass with one batch is one step on all rows. -/
theorem localModel_one_batch (rng : GlobalRng γ) {settings : Settings K}
    {rows : List (Example d K)} (hrows : rows ≠ [])
    (hlocal : settings.localEpoch = 1)
    (hbatch : rows.length ≤ settings.batchSize) (state : γ) (t : Nat)
    (model : LinearRegression (Fin d) K) :
    localModel rng settings rows state t model = fitRows model rows := by
  have hn : 0 < rows.length := List.length_pos_iff.mpr hrows
  have hperm := inEpoch_perm rng id state (List.range rows.length)
    (t * 1 + 0)
  have hone : passes rng rows.length rows.length (List.range rows.length)
      state (t * 1 + 0)
      = [rng.inEpoch id state (List.range rows.length) (t * 1 + 0)] := by
    have hceil : ceilDiv rows.length rows.length = 0 + 1 := by
      rw [ceilDiv_sub hn hn, Nat.sub_self, ceilDiv_zero hn]
    have hlength : (rng.inEpoch id state (List.range rows.length)
        (t * 1 + 0)).length = rows.length := by
      rw [hperm.length_eq, List.length_range]
    unfold passes
    rw [hceil, slices, slices, List.take_of_length_le hlength.le]
  unfold localModel
  rw [hlocal, Nat.min_eq_left hbatch, List.range_one, List.foldl_cons,
    List.foldl_nil, hone]
  exact fitRows_perm model (rowsAt_perm rows hperm)

variable [CharZero K]

/-- The average of one step at each client is the step on all rows. -/
theorem fedAvg_central (rng : GlobalRng γ) {settings : Settings K}
    (hclients : 0 < clients) {parts : Fin clients → List (Example d K)}
    (hrows : ∀ i, parts i ≠ []) (hlocal : settings.localEpoch = 1)
    (hbatch : ∀ i, (parts i).length ≤ settings.batchSize)
    (states : Fin clients → γ) (t : Nat) :
    settings.modelAt (fedAvg rng settings parts states t)
      = trainedOn settings (pooled parts) t := by
  induction t with
  | zero => rfl
  | succ t ih =>
      have hsize : ∀ i, ((parts i).length : K) ≠ 0 := fun i =>
        Nat.cast_ne_zero.mpr (mt List.length_eq_zero_iff.mp (hrows i))
      have htotal : ∑ i, ((parts i).length : K) ≠ 0 := by
        rw [← Nat.cast_sum]
        exact Nat.cast_ne_zero.mpr (total_ne_zero hclients hrows)
      have hstep : trainedOn settings (pooled parts) (t + 1)
          = fitRows (settings.modelAt (fedAvg rng settings parts states t))
            (pooled parts) := by
        rw [ih]
        exact Function.iterate_succ_apply' _ _ _
      have hlocals := fun i => localModel_one_batch rng (hrows i) hlocal
        (hbatch i) (states i) t
        (settings.modelAt (fedAvg rng settings parts states t))
      rw [hstep]
      refine LinearRegression.ext rfl rfl (funext fun j => ?_) ?_
      · have haverage := Logistic.weighted_average hsize htotal
          (fun i => ((parts i).map fun e => e.x j * rowError
            (settings.modelAt (fedAvg rng settings parts states t)) e).sum)
          (fedAvg rng settings parts states t j.succ) settings.learningRate
          (settings.alpha * fedAvg rng settings parts states t j.succ)
        rw [fitRows_weight, sum_pooled, length_pooled, Nat.cast_sum]
        refine Eq.trans ?_ haverage
        show (∑ i, _ * (localModel rng settings (parts i) (states i) t
          _).weight j) / _ = _
        simp only [hlocals, fitRows_weight, Nat.cast_sum]
        rfl
      · have haverage := Logistic.weighted_average hsize htotal
          (fun i => ((parts i).map (rowError
            (settings.modelAt (fedAvg rng settings parts states t)))).sum)
          (fedAvg rng settings parts states t 0) settings.learningRate 0
        simp only [add_zero] at haverage
        rw [fitRows_bias, sum_pooled, length_pooled, Nat.cast_sum]
        refine Eq.trans ?_ haverage
        show (∑ i, _ * (localModel rng settings (parts i) (states i) t
          _).bias) / _ = _
        simp only [hlocals, fitRows_bias, Nat.cast_sum]
        rfl

/-- With one pass and one batch in a global epoch, what the clients save
is what one party with all rows would: the scaler of the whole table and
the model trained on it; and the server's metrics are those of this model
on the whole table. -/
theorem trained_as_one_party [LinearOrder K] {num : Numerics K}
    {rng : GlobalRng γ} {settings : Settings K} {states : Fin clients → γ}
    (hclients : 0 < clients) (hd : 0 < d)
    {parts : Fin clients → List (Example d K)} (hrows : ∀ i, parts i ≠ [])
    (hlocal : settings.localEpoch = 1)
    (hbatch : ∀ i, (parts i).length ≤ settings.batchSize) :
    Completes (parties num rng settings parts states) fun v =>
      let scaler := standardScaler num (pooled parts)
      let rows := (pooled parts).map scaler.scaled
      let model := trainedOn settings rows settings.globalEpoch
      (∀ i, v (.client i) = (scaler, model))
        ∧ (v .server).2.2 = metricsOn model rows := by
  have hpos : 0 < settings.batchSize :=
    Nat.lt_of_lt_of_le (List.length_pos_iff.mpr (hrows ⟨0, hclients⟩))
      (hbatch _)
  have hpooled : pooled (standardised num parts)
      = (pooled parts).map (standardScaler num (pooled parts)).scaled :=
    (map_pooled parts _).symm
  have hrows' : ∀ i, standardised num parts i ≠ [] :=
    standardised_ne_nil hrows
  have hbatch' : ∀ i, (standardised num parts i).length
      ≤ settings.batchSize :=
    fun i => (length_standardised i).trans_le (hbatch i)
  have hmodel := fedAvg_central rng hclients hrows' hlocal hbatch' states
    settings.globalEpoch
  rw [hpooled] at hmodel
  refine (parties_done hclients hd hrows hpos).mono fun v hv => ?_
  have hclient : ∀ i, v (.client i) = _ := fun i => hv (.client i)
  refine ⟨fun i => ?_, ?_⟩
  · rw [hclient i, hmodel]
  · rw [(hv .server).2.2, hmodel, hpooled]

end OneParty

/-- Rational numbers: the root is that of a square of a rational, and a
feature is constant if its variance is zero. -/
def rationals : Numerics ℚ where
  sqrt q := (Nat.sqrt q.num.toNat : ℚ) / (Nat.sqrt q.den : ℚ)
  isConstantFeature var _ _ := var = 0

/-- Two clients with two rows and one row. -/
def twoClients : Fin 2 → List (Example 1 ℚ) :=
  ![[⟨fun _ => 1, 2⟩, ⟨fun _ => 3, 4⟩], [⟨fun _ => 2, 7⟩]]

theorem twoClients_ne_nil : ∀ i, twoClients i ≠ [] :=
  Fin.forall_fin_two.mpr ⟨List.cons_ne_nil _ _, List.cons_ne_nil _ _⟩

/-- Two clients whose rows differ in number. -/
theorem trained_by_averaging_two :
    Completes (parties rationals drawn ⟨1 / 5, 1 / 100, 1, 2, 3, true⟩
        twoClients fun _ => [0, 1])
      (Trained rationals drawn ⟨1 / 5, 1 / 100, 1, 2, 3, true⟩ twoClients
        fun _ => [0, 1]) :=
  trained_by_averaging (by decide) (by decide) twoClients_ne_nil (by decide)

/-- Two clients with one batch each, against one party. -/
theorem trained_as_one_party_two :
    Completes (parties rationals drawn ⟨1 / 5, 1 / 100, 2, 3, 1, false⟩
        twoClients fun _ => [0, 1]) fun v =>
      let scaler := standardScaler rationals (pooled twoClients)
      let rows := (pooled twoClients).map scaler.scaled
      let model := trainedOn ⟨1 / 5, 1 / 100, 2, 3, 1, false⟩ rows 3
      (∀ i, v (.client i) = (scaler, model))
        ∧ (v .server).2.2 = metricsOn model rows :=
  trained_as_one_party (by decide) (by decide) twoClients_ne_nil rfl
    (Fin.forall_fin_two.mpr ⟨Nat.le_refl 2, Nat.le_succ 1⟩)

end PrimiHub.FL.Linear
