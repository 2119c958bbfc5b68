/-
The rounds of `TargetEncoder.fit_transform`, and what every party has at
the end (`fitTransform_completes`).

The server adds up what the clients send, so a category is encoded as if
one client had all the rows (`pooledEncoded`). The clients' arrays of a
multiclass target come class by class and are put in the order of the
features (`reorder_flatten`).
-/
import Mathlib.Algebra.BigOperators.Group.List.Basic
import Mathlib.Data.List.Flatten
import Mathlib.Tactic.Ring
import PrimiHub.FL.TargetEncoder

namespace PrimiHub.FL.TargetEncoder

open Lib Horizontal

variable {clients d k n : Nat} {t : TargetType} {β : Type}

-- =============================================================== the order

/-- An entry of rows of one length, one after another. -/
theorem getElem?_flatten_of_length {rows : List (List β)}
    (h : ∀ row ∈ rows, row.length = d) {i j : Nat} (hj : j < d) :
    rows.flatten[i * d + j]? = rows[i]?.bind fun row => row[j]? := by
  induction rows generalizing i with
  | nil => rfl
  | cons row rows ih =>
      have hrow : row.length = d := h row List.mem_cons_self
      have hrest := fun other hother =>
        h other (List.mem_cons_of_mem row hother)
      rw [List.flatten_cons]
      cases i with
      | zero =>
          rw [Nat.zero_mul, Nat.zero_add,
            List.getElem?_append_left (hrow.symm ▸ hj)]
          rfl
      | succ i =>
          have hle : row.length ≤ (i + 1) * d + j := by
            rw [hrow, Nat.succ_mul]
            omega
          have hsub : (i + 1) * d + j - row.length = i * d + j := by
            rw [hrow, Nat.succ_mul]
            omega
          rw [List.getElem?_append_right hle, hsub, ih hrest]
          rfl

/-- As many indices as there are classes. -/
theorem range'_of_lt {start : Nat} (nClasses : Nat) (h : start < d) :
    List.range' start (((nClasses * d - start) + d - 1) / d) d
      = (List.range nClasses).map fun i => i * d + start := by
  have hcount : ((nClasses * d - start) + d - 1) / d = nClasses := by
    cases nClasses with
    | zero => exact Nat.div_eq_of_lt (by omega)
    | succ m =>
        have hsum : (m + 1) * d - start + d - 1
            = (d - 1 - start) + d * (m + 1) := by
          rw [Nat.succ_mul, Nat.mul_succ, Nat.mul_comm d m]
          omega
        rw [hsum, Nat.add_mul_div_left _ _ (by omega),
          Nat.div_eq_of_lt (by omega), Nat.zero_add]
  rw [hcount]
  refine List.ext_getElem (by simp) fun i hi hi' => ?_
  rw [List.getElem_range', List.getElem_map, List.getElem_range,
    Nat.add_comm, Nat.mul_comm]

/-- The arrays of all columns of the target, feature by feature. -/
def byFeature (e : Output t → Fin d → β) : List β :=
  (List.finRange d).flatMap fun j => (outputs t).map fun o => e o j

/-- Class by class on the wire, feature by feature in the result. -/
theorem reorder_flatten (nClasses : Nat)
    (e : Output (.multiclass nClasses) → Fin d → β) :
    reorder nClasses d ((List.finRange nClasses).map fun o =>
      (List.finRange d).map (e o)).flatten = byFeature e := by
  have hlength : ∀ row ∈ (List.finRange nClasses).map fun o =>
      (List.finRange d).map (e o), row.length = d := by
    intro row hrow
    obtain ⟨o, -, rfl⟩ := List.mem_map.mp hrow
    rw [List.length_map, List.length_finRange]
  have hentry : ∀ (j : Fin d) (i : Fin nClasses),
      ((List.finRange nClasses).map fun o =>
        (List.finRange d).map (e o)).flatten[i.val * d + j]?
        = some (e i j) := by
    intro j i
    rw [getElem?_flatten_of_length hlength j.isLt]
    simp
  have hindex : reorderIndex nClasses d
      = (List.finRange d).flatMap fun j : Fin d =>
        (List.finRange nClasses).map fun i => i.val * d + j.val := by
    rw [reorderIndex, ← List.map_coe_finRange_eq_range, List.flatMap_map]
    refine List.flatMap_congr fun j _ => ?_
    rw [range'_of_lt nClasses j.isLt, ← List.map_coe_finRange_eq_range,
      List.map_map]
    rfl
  rw [reorder, hindex, List.filterMap_flatMap]
  refine List.flatMap_congr fun j _ => ?_
  rw [List.filterMap_map]
  simp only [Function.comp_def, hentry]
  exact congrFun List.filterMap_eq_map' _

/-- The fits of all columns of the target. -/
theorem fitOutputs_follows
    {fit : Output t → Action clients t d (List β)}
    {acts : Output t → List (Act (Horizontal.Party clients) (Message t d))}
    (e : Output t → Fin d → β)
    (h : ∀ o, Follows (fit o) (acts o) (· = (List.finRange d).map (e o))) :
    Follows (fitOutputs t fit) ((outputs t).flatMap acts)
      (· = byFeature e) := by
  cases t with
  | single =>
      show Follows (fit ()) (acts () ++ []) _
      rw [List.append_nil]
      refine (h ()).mono fun encodings heq => heq.trans ?_
      exact List.map_eq_flatMap
  | multiclass nClasses =>
      show Follows (Peer.forEach fit (List.finRange nClasses) >>= _)
        ((List.finRange nClasses).flatMap acts) _
      rw [← List.append_nil ((List.finRange nClasses).flatMap acts)]
      refine (Follows.forEach _ fun o _ => h o).bind fun encodings heq => ?_
      rw [heq]
      exact .ret (reorder_flatten nClasses e)

-- =================================================================== pooling

/-- The parts of all clients, one after another. -/
def pool (parts : Fin clients → List β) : List β :=
  (List.finRange clients).flatMap parts

/-- Sums over the clients are sums over all rows. -/
theorem sum_map_pool {M : Type} [AddMonoid M] (parts : Fin clients → List β)
    (f : β → M) :
    ((List.finRange clients).map fun i => ((parts i).map f).sum).sum
      = ((pool parts).map f).sum := by
  rw [pool, List.map_flatMap, List.flatMap_def, List.sum_flatten,
    List.map_map]
  rfl

/-- All rows, counted client by client. -/
theorem sum_length_pool (parts : Fin clients → List β) :
    ((List.finRange clients).map fun i => (parts i).length).sum
      = (pool parts).length := by
  rw [pool, List.length_flatMap]

/-- A function on all rows is one on every client's rows. -/
theorem map_pool {γ : Type} (parts : Fin clients → List β) (f : β → γ) :
    pool (fun i => (parts i).map f) = (pool parts).map f :=
  (List.map_flatMap ..).symm

/-- The rows of a category, client by client. -/
theorem matching_pool (parts : Fin clients → List (Sample d)) (j : Fin d)
    (c : Nat) :
    matching (pool parts) j c = pool fun i => matching (parts i) j c := by
  unfold matching pool
  rw [List.filter_flatMap, List.map_flatMap]

/-- What the server makes of a category of a feature: `clientMean` is what
the clients took the squared differences from. -/
def pooledEncoded (smooth : Smooth) (samples : List (Sample d))
    (clientMean serverMean : ℚ) (nSamples : Nat) (j : Fin d) (c : Nat) :
    Encoded :=
  match smooth with
  | .fixed s _ => encodeFixed s serverMean [(matching samples j c).sum]
      [(matching samples j c).length]
  | .auto => encodeAuto (sumSquareDiff samples clientMean / nSamples)
      serverMean [(matching samples j c).sum] [(matching samples j c).length]
      [((matching samples j c).map (· ^ 2)).sum]

-- ==================================================================== rounds

/-- The rounds of one fit. -/
def encodingRounds (smooth : Smooth) (parts : Fin clients → List (Sample d))
    (clientMean : ℚ) (e : List (List Encoded)) :
    List (Horizontal.Round clients (Message t d)) :=
  let sums : Horizontal.Round clients (Message t d) :=
    .gather .featSums fun p m =>
      m = ofClients (fun _ _ => 0) (fun i j c =>
        (matching (parts i) j c).sum) p
  let counts : Horizontal.Round clients (Message t d) :=
    .gather .featCounts fun p m =>
      m = ofClients (fun _ _ => 0) (fun i j c =>
        (matching (parts i) j c).length) p
  let encodings : Horizontal.Round clients (Message t d) :=
    .scatter .encodings (· = e.map (List.map Encoded.value))
  match smooth with
  | .fixed _ _ => [sums, counts, encodings]
  | .auto =>
    [.gather .ySumSquareDiff fun p m => m = ofClients 0
        (fun i => sumSquareDiff (parts i) clientMean) p,
      sums, counts,
      .gather .featSumSquares fun p m =>
        m = ofClients (fun _ _ => 0) (fun i j c =>
          ((matching (parts i) j c).map (· ^ 2)).sum) p,
      encodings]

/-- A client sends the counts and sums of every category and takes the
encodings. -/
theorem fitEncodingClient_follows (smooth : Smooth)
    (parts : Fin clients → List (Sample d)) (clientMean : ℚ)
    (e : List (List Encoded)) (i : Fin clients) :
    Follows (fitEncodingClient (t := t) smooth (parts i) clientMean)
      ((encodingRounds smooth parts clientMean e).map
        (Horizontal.Round.ofClient i))
      (· = e.map (List.map Encoded.value)) := by
  cases smooth with
  | fixed s hs =>
      exact .put_bind rfl (.put_bind rfl (.recv fun m hm => .ret hm))
  | auto =>
      exact .put_bind rfl (.put_bind rfl (.put_bind rfl (.put_bind rfl
        (.recv fun m hm => .ret hm))))

/-- The server's loop, by what it does for each category. -/
theorem overFeatures_congr {nCategories : Fin d → Nat}
    {f g : Fin d → Nat → β} (h : ∀ j c, f j c = g j c) :
    overFeatures nCategories f = overFeatures nCategories g :=
  congrArg _ (funext fun j => funext (h j))

/-- What the server collects of a category, added up. -/
theorem sum_matching_pool (parts : Fin clients → List (Sample d))
    (j : Fin d) (c : Nat) :
    ((List.finRange clients).map fun i => (matching (parts i) j c).sum).sum
      = (matching (pool parts) j c).sum := by
  have h := sum_map_pool (fun i => matching (parts i) j c) id
  simp only [List.map_id] at h
  rw [h, matching_pool]

/-- The squares of a category, client by client. -/
theorem sum_squares_pool (parts : Fin clients → List (Sample d))
    (j : Fin d) (c : Nat) :
    ((List.finRange clients).map fun i =>
        ((matching (parts i) j c).map (· ^ 2)).sum).sum
      = ((matching (pool parts) j c).map (· ^ 2)).sum := by
  rw [sum_map_pool, matching_pool]

/-- The rows of a category, counted client by client. -/
theorem length_matching_pool (parts : Fin clients → List (Sample d))
    (j : Fin d) (c : Nat) :
    ((List.finRange clients).map fun i =>
        (matching (parts i) j c).length).sum
      = (matching (pool parts) j c).length := by
  rw [sum_length_pool, matching_pool]

/-- The squared differences, client by client. -/
theorem sumSquareDiff_pool (parts : Fin clients → List (Sample d))
    (yMean : ℚ) :
    ((List.finRange clients).map fun i =>
      sumSquareDiff (parts i) yMean).sum = sumSquareDiff (pool parts) yMean :=
  sum_map_pool parts _

/-- The server's encodings are those of one client that has all rows. -/
theorem fitEncodingServer_follows (smooth : Smooth)
    (nCategories : Fin d → Nat) (parts : Fin clients → List (Sample d))
    (clientMean serverMean : ℚ) {nSamples : Nat} (hn : nSamples ≠ 0)
    {e : List (List Encoded)}
    (he : e = overFeatures nCategories (pooledEncoded smooth (pool parts)
      clientMean serverMean nSamples)) :
    Follows (fitEncodingServer smooth nCategories serverMean nSamples :
        Action clients t d (List (List Encoded)))
      ((encodingRounds smooth parts clientMean e).flatMap
        Horizontal.Round.ofServer)
      (· = e) := by
  cases smooth with
  | fixed s hs =>
      refine (recvAll_follows (μ := Message t d) Tag.featSums _).bind
        fun sums hsums => ?_
      refine (recvAll_follows (μ := Message t d) Tag.featCounts _).bind
        fun counts hcounts => ?_
      have hencoded : overFeatures nCategories (fun j c =>
          encodeFixed s serverMean (sums.map (· j c)) (counts.map (· j c)))
          = e := by
        rw [he, hsums, hcounts, map_ofClients, map_ofClients]
        refine overFeatures_congr fun j c => ?_
        simp only [encodeFixed, pooledEncoded, List.map_map,
          Function.comp_def, sum_matching_pool, length_matching_pool,
          List.sum_singleton]
      rw [hencoded]
      exact sendAll_ret (μ := Message t d) Tag.encodings _ _
  | auto =>
      refine (recvAll_follows (μ := Message t d) Tag.ySumSquareDiff _).bind
        fun diffs hdiffs => ?_
      rw [if_neg hn]
      refine (recvAll_follows (μ := Message t d) Tag.featSums _).bind
        fun sums hsums => ?_
      refine (recvAll_follows (μ := Message t d) Tag.featCounts _).bind
        fun counts hcounts => ?_
      refine (recvAll_follows (μ := Message t d) Tag.featSumSquares _).bind
        fun squares hsquares => ?_
      have hencoded : overFeatures nCategories (fun j c =>
          encodeAuto (diffs.sum / nSamples) serverMean (sums.map (· j c))
            (counts.map (· j c)) (squares.map (· j c))) = e := by
        rw [he, hdiffs, hsums, hcounts, hsquares, map_ofClients,
          map_ofClients, map_ofClients, map_ofClients]
        refine overFeatures_congr fun j c => ?_
        simp only [encodeAuto, pooledEncoded, List.map_map,
          Function.comp_def, sum_matching_pool, length_matching_pool,
          sum_squares_pool, sumSquareDiff_pool, List.sum_singleton]
      rw [hencoded]
      exact sendAll_ret (μ := Message t d) Tag.encodings _ _

-- ================================================================= the whole

section Whole

variable (smooth : Smooth) (nCategories : Fin d → Nat)
  (tables : Fin clients → Table t d k)

/-- All rows of all clients. -/
def allRows : List (Row t d) := pool fun i => (tables i).rows

/-- The rows of all clients outside a fold. -/
def trainRows (f : Fin k) : List (Row t d) :=
  pool fun i => (tables i).train f

/-- The rows of all clients that a fold holds out. -/
def heldOutRows (f : Fin k) : List (Row t d) :=
  pool fun i => (tables i).heldOut f

/-- `target_mean_`. -/
def targetMean (o : Output t) : ℚ :=
  ySum (allRows tables) o / ((allRows tables).length : Nat)

/-- `y_train_mean` as the server computes it. -/
def yTrainMean (f : Fin k) (o : Output t) : ℚ :=
  ySum (trainRows tables f) o / ((heldOutRows tables f).length : Nat)

/-- The encodings of a column of the target in `_fit_encodings_all`. -/
def encodedAll (o : Output t) : Fin d → Nat → Encoded :=
  pooledEncoded smooth ((allRows tables).map (Row.sample o))
    (targetMean tables o) (targetMean tables o) (allRows tables).length

/-- The encodings of a column of the target in a fold. -/
def encodedFold (f : Fin k) (o : Output t) : Fin d → Nat → Encoded :=
  pooledEncoded smooth ((trainRows tables f).map (Row.sample o))
    (yTrainMean tables f o) (targetMean tables o)
    (heldOutRows tables f).length

/-- The array of a feature. -/
def column (e : Fin d → Nat → β) (j : Fin d) : List β :=
  (List.range (nCategories j)).map (e j)

/-- What the parties return. -/
def transformed : (p : Horizontal.Party clients) → Transformed t p
  | .server => (List.finRange k).map fun f => byFeature fun o =>
      column nCategories (encodedFold smooth tables f o)
  | .client _ => (List.finRange k).map fun f =>
      ⟨byFeature fun o => column nCategories fun j c =>
          (encodedFold smooth tables f o j c).value,
        yTrainMean tables f⟩

/-- The rounds of `_fit_encodings_all`. -/
def fitRounds : List (Horizontal.Round clients (Message t d)) :=
  .gather .targetSum
      (fun p m => m = ofClients (fun _ => 0)
        (fun i => ySum (tables i).rows) p)
    :: .gather .nSamples
      (fun p m => m = ofClients 0 (fun i => (tables i).n) p)
    :: .scatter .targetMean (· = targetMean tables)
    :: (outputs t).flatMap fun o => encodingRounds smooth
      (fun i => (tables i).rows.map (Row.sample o)) (targetMean tables o)
      (overFeatures nCategories (encodedAll smooth tables o))

/-- The rounds of a fold. -/
def foldRounds (f : Fin k) : List (Horizontal.Round clients (Message t d)) :=
  .gather .yTrainSum
      (fun p m => m = ofClients (fun _ => 0)
        (fun i => ySum ((tables i).train f)) p)
    :: .scatter .yTrainMean (· = yTrainMean tables f)
    :: (outputs t).flatMap fun o => encodingRounds smooth
      (fun i => ((tables i).train f).map (Row.sample o))
      (yTrainMean tables f o)
      (overFeatures nCategories (encodedFold smooth tables f o))

end Whole

/-- The arrays of all features, with their values only. -/
theorem values_overFeatures (nCategories : Fin d → Nat)
    (e : Fin d → Nat → Encoded) :
    (overFeatures nCategories e).map (List.map Encoded.value)
      = (List.finRange d).map
        (column nCategories fun j c => (e j c).value) := by
  rw [overFeatures, List.map_map]
  refine List.map_congr_left fun j _ => ?_
  exact List.map_map

section Follow

variable {smooth : Smooth} {nCategories : Fin d → Nat}
  {tables : Fin clients → Table t d k}

/-- The rounds of `fit` at a client. -/
theorem fitEncodingsAllClient_follows (i : Fin clients) :
    Follows (fitEncodingsAllClient smooth (tables i))
      ((fitRounds smooth nCategories tables).map
        (Horizontal.Round.ofClient i))
      fun _ => True := by
  unfold fitRounds
  rw [List.map_cons, List.map_cons, List.map_cons, List.map_flatMap]
  refine .put_bind rfl (.put_bind rfl (.get_bind fun mean hmean => ?_))
  rw [hmean]
  refine (fitOutputs_follows (fun o => column nCategories fun j c =>
    (encodedAll smooth tables o j c).value) fun o => ?_).mono
    fun _ _ => trivial
  rw [← values_overFeatures]
  exact fitEncodingClient_follows smooth
    (fun i => (tables i).rows.map (Row.sample o)) _ _ i

/-- The rounds of one fold at a client, which sends the sums of its training
rows. -/
theorem foldClient_follows (i : Fin clients) (f : Fin k) :
    Follows (foldClient smooth (tables i) f)
      ((foldRounds smooth nCategories tables f).map
        (Horizontal.Round.ofClient i))
      (· = ⟨byFeature fun o => column nCategories fun j c =>
          (encodedFold smooth tables f o j c).value,
        yTrainMean tables f⟩) := by
  unfold foldRounds
  rw [List.map_cons, List.map_cons, List.map_flatMap]
  refine .put_bind rfl (.get_bind fun mean hmean => ?_)
  rw [hmean]
  rw [← List.append_nil (List.flatMap _ (outputs t))]
  refine (fitOutputs_follows (fun o => column nCategories fun j c =>
    (encodedFold smooth tables f o j c).value) fun o => ?_).bind
    fun encodings he => ?_
  · rw [← values_overFeatures]
    exact fitEncodingClient_follows smooth
      (fun i => ((tables i).train f).map (Row.sample o)) _ _ i
  · rw [he]
    exact .ret rfl

/-- All rounds of a client. -/
theorem fitTransformClient_follows (i : Fin clients) :
    Follows (fitTransformClient smooth (tables i))
      ((fitRounds smooth nCategories tables
        ++ (List.finRange k).flatMap
          (foldRounds smooth nCategories tables)).map
        (Horizontal.Round.ofClient i))
      (· = transformed smooth nCategories tables (.client i)) := by
  rw [List.map_append, List.map_flatMap]
  exact (fitEncodingsAllClient_follows i).bind fun _ _ =>
    Follows.forEach _ fun f _ => foldClient_follows i f

theorem length_rows (table : Table t d k) : table.rows.length = table.n := by
  rw [Table.rows, List.length_map, List.length_finRange]

/-- The number of rows that the server takes a fold to have is that of the
rows held out. -/
theorem getNSamplesPerFold_eq (tables : Fin clients → Table t d k)
    (f : Fin k) :
    getNSamplesPerFold ((List.finRange clients).map fun i => (tables i).n)
      k f = (heldOutRows tables f).length := by
  have hfold : ∀ (start : Nat) (ns : List Nat),
      ns.foldl (fun nSamples n => nSamples + n / k
        + if (f : Nat) < n % k then 1 else 0) start
      = start + (ns.map fun n => n / k
        + if (f : Nat) < n % k then 1 else 0).sum := by
    intro start ns
    induction ns generalizing start with
    | nil => rfl
    | cons n ns ih =>
        rw [List.foldl_cons, ih, List.map_cons, List.sum_cons]
        ring
  have hsize : ∀ i, (tables i).n / k
      + (if (f : Nat) < (tables i).n % k then 1 else 0)
      = ((tables i).heldOut f).length := by
    intro i
    rw [Table.heldOut, List.length_map, (tables i).split.size f]
  rw [getNSamplesPerFold, hfold, Nat.zero_add, List.map_map, heldOutRows,
    ← sum_length_pool]
  exact congrArg List.sum (List.map_congr_left fun i _ => hsize i)

/-- Every fold holds out a row. -/
theorem heldOut_ne_nil (table : Table t d k) (f : Fin k) :
    table.heldOut f ≠ [] := by
  have hk := table.split.two_le
  have hpos : 0 < table.n / k :=
    Nat.div_pos table.split.enough (by omega)
  refine List.ne_nil_of_length_pos ?_
  rw [Table.heldOut, List.length_map, table.split.size]
  omega

/-- And so do all clients together. -/
theorem heldOutRows_ne_nil (hclients : 0 < clients)
    (tables : Fin clients → Table t d k) (f : Fin k) :
    heldOutRows tables f ≠ [] := by
  obtain ⟨row, hrow⟩ := List.exists_mem_of_ne_nil _
    (heldOut_ne_nil (tables ⟨0, hclients⟩) f)
  exact List.ne_nil_of_mem
    (List.mem_flatMap.mpr ⟨_, List.mem_finRange _, hrow⟩)

theorem allRows_ne_nil (hclients : 0 < clients)
    (tables : Fin clients → Table t d k) : allRows tables ≠ [] := by
  have hn : 0 < (tables ⟨0, hclients⟩).n := by
    have hk := (tables ⟨0, hclients⟩).split.two_le
    have hle := (tables ⟨0, hclients⟩).split.enough
    omega
  have hrow : (tables ⟨0, hclients⟩).row ⟨0, hn⟩
      ∈ (tables ⟨0, hclients⟩).rows :=
    List.mem_map.mpr ⟨⟨0, hn⟩, List.mem_finRange _, rfl⟩
  exact List.ne_nil_of_mem
    (List.mem_flatMap.mpr ⟨_, List.mem_finRange _, hrow⟩)

/-- All rows, by the numbers the clients send. -/
theorem sum_n (tables : Fin clients → Table t d k) :
    ((List.finRange clients).map fun i => (tables i).n).sum
      = (allRows tables).length := by
  rw [allRows, ← sum_length_pool]
  exact congrArg List.sum
    (List.map_congr_left fun i _ => (length_rows (tables i)).symm)

/-- The sums of the clients' targets. -/
theorem sum_ySum (parts : Fin clients → List (Row t d)) (o : Output t) :
    (((List.finRange clients).map fun i => ySum (parts i)).map (· o)).sum
      = ySum (pool parts) o := by
  rw [List.map_map]
  exact sum_map_pool parts fun row => row.y o

/-- The rounds of `fit` at the server. -/
theorem fitEncodingsAllServer_follows (hclients : 0 < clients) :
    Follows (fitEncodingsAllServer smooth nCategories :
        Action clients t d ((Output t → ℚ) × List Nat))
      ((fitRounds smooth nCategories tables).flatMap
        Horizontal.Round.ofServer)
      (· = (targetMean tables,
        (List.finRange clients).map fun i => (tables i).n)) := by
  have hrows : (allRows tables).length ≠ 0 :=
    mt List.length_eq_zero_iff.mp (allRows_ne_nil hclients tables)
  unfold fitRounds
  rw [List.flatMap_cons, List.flatMap_cons, List.flatMap_cons,
    List.flatMap_assoc]
  refine (recvAll_follows (μ := Message t d) Tag.targetSum _).bind
    fun sums hsums => ?_
  refine (recvAll_follows (μ := Message t d) Tag.nSamples _).bind
    fun ns hns => ?_
  rw [hsums, hns, map_ofClients, map_ofClients, sum_n, if_neg hrows]
  have hmean : (fun o => (((List.finRange clients).map fun i =>
      ySum (tables i).rows).map (· o)).sum
      / (((allRows tables).length : Nat) : ℚ)) = targetMean tables := by
    funext o
    rw [sum_ySum]
    rfl
  rw [hmean]
  refine (sendAll_follows (μ := Message t d) Tag.targetMean
    (targetMean tables)).bind fun _ _ => ?_
  rw [← List.append_nil (List.flatMap _ (outputs t))]
  refine (fitOutputs_follows (fun o => column nCategories
    (encodedAll smooth tables o)) fun o => ?_).bind fun _ _ => .ret rfl
  refine fitEncodingServer_follows smooth nCategories _ _ _ hrows ?_
  rw [map_pool]
  rfl

/-- The rounds of one fold at the server, with the mean of all rows. -/
theorem foldServer_follows (hclients : 0 < clients) (f : Fin k) :
    Follows (foldServer smooth nCategories (targetMean tables)
        ((List.finRange clients).map fun i => (tables i).n) f)
      ((foldRounds smooth nCategories tables f).flatMap
        Horizontal.Round.ofServer)
      (· = byFeature fun o =>
        column nCategories (encodedFold smooth tables f o)) := by
  have hrows : (heldOutRows tables f).length ≠ 0 :=
    mt List.length_eq_zero_iff.mp (heldOutRows_ne_nil hclients tables f)
  unfold foldRounds
  rw [List.flatMap_cons, List.flatMap_cons, List.flatMap_assoc]
  refine (recvAll_follows (μ := Message t d) Tag.yTrainSum _).bind
    fun sums hsums => ?_
  rw [hsums, map_ofClients, getNSamplesPerFold_eq, if_neg hrows]
  have hmean : (fun o => (((List.finRange clients).map fun i =>
      ySum ((tables i).train f)).map (· o)).sum
      / (((heldOutRows tables f).length : Nat) : ℚ))
      = yTrainMean tables f := by
    funext o
    rw [sum_ySum]
    rfl
  rw [hmean]
  refine (sendAll_follows (μ := Message t d) Tag.yTrainMean
    (yTrainMean tables f)).bind fun _ _ => ?_
  refine fitOutputs_follows (fun o => column nCategories
    (encodedFold smooth tables f o)) fun o => ?_
  refine fitEncodingServer_follows smooth nCategories _ _ _ hrows ?_
  rw [map_pool]
  rfl

/-- What every party has at the end, whatever the schedule. -/
theorem fitTransform_completes (hclients : 0 < clients) (smooth : Smooth)
    (nCategories : Fin d → Nat) (tables : Fin clients → Table t d k) :
    Completes (fitTransform smooth nCategories tables)
      fun v => ∀ p, v p = transformed smooth nCategories tables p := by
  refine completes_of_rounds (μ := Message t d)
    (Q := fun p x => x = transformed smooth nCategories tables p)
    (fitRounds smooth nCategories tables
      ++ (List.finRange k).flatMap (foldRounds smooth nCategories tables))
    (fun i => fitTransformClient_follows i) ?_
  rw [List.flatMap_append, List.flatMap_assoc]
  refine (fitEncodingsAllServer_follows hclients).bind
    fun fitted hfitted => ?_
  rw [hfitted]
  exact Follows.forEach _ fun f _ => foldServer_follows hclients f

end Follow

end PrimiHub.FL.TargetEncoder
