/-
The horizontal fit groups as a fit on all rows would, exactly where the
counts the clients hold back do not matter.

The protocol first: the parties agree on what the server's search finds,
or on nothing if it raises (`hfit_agree`, `hfit_not_agree`). Then the
columns. With `max_categories` and a count for `min_frequency` the values
are always grouped right. Without `max_categories` the clients send only
the counts below the threshold, so a category is marked wrongly if one
client has enough of it and the rest, less than the threshold, is at
others. The count of nan is never sent, though `OneHotEncoder` keeps nan as
a category. A
fraction together with `max_categories` asks the sketch for the items above
`min_frequency - 1`, which takes in counts short of the threshold by less
than one; `max_categories` alone is refused by `check_frequent_params`.
-/
import PrimiHub.FL.Proofs.Grouping

namespace PrimiHub.FL.Encoder

open Lib Horizontal

variable {clients d : Nat} {β : Type} [LinearOrder β]

-- ============================================================== the grouping

/-- The count a category has to reach, of so many rows. -/
def threshold (settings : Settings) (n : Nat) : ℚ :=
  match settings.minFrequency with
  | none => 0
  | some (.count m _) => m
  | some (.fraction q _) => timesSamples q n

/-- The categories of a column that are grouped. A missing entry is one of
them for `OneHotEncoder`, and for `OrdinalEncoder`, which ignores it, none. -/
def grouped (settings : Settings) (X : Table d β) (j : Fin d) :
    List (Option β) :=
  if settings.ignoreMissing then (values (column X j)).map some
  else unique (column X j)

/-- The categories of a column that reach the threshold. -/
def eligible (settings : Settings) (X : Table d β) (j : Fin d) :
    Finset (Option β) :=
  (grouped settings X j).toFinset.filter fun x =>
    threshold settings X.length ≤ ((column X j).count x : ℚ)

/-- How many categories keep a place of their own: `max_categories` counts
the group of the infrequent ones. -/
def places (settings : Settings) (eligible : Nat) : Nat :=
  match settings.maxCategories with
  | none => eligible
  | some m => m.1 - 1

/-- The grouping of a column by all rows: the most frequent of the
categories that reach the threshold are not marked. -/
def Grouping (settings : Settings) (X : Table d β) (j : Fin d)
    (marked : Option β → Prop) : Prop :=
  ∃ frequent : Finset (Option β),
    IsTop (places settings (eligible settings X j).card)
      (column X j).count (eligible settings X j) frequent
    ∧ ∀ x ∈ grouped settings X j, marked x ↔ x ∉ frequent

/-- The fit is that of all rows. -/
structure Centralised (settings : Settings) (X : Table d β)
    (r : Encoding d β) : Prop where
  categories : ∀ j, r.categories j = unique (column X j)
  enabled : r.infrequentIndices.isSome = settings.infrequentEnabled
  infrequent : ∀ indices ∈ r.infrequentIndices, ∀ j,
    Grouping settings X j (Marks (r.categories j) (indices j))

/-- Whatever the schedule, all parties end with one fit, and it is that of
all rows. -/
def Groups (lib : SketchLib (Option β)) (settings : Settings)
    (parts : Fin clients → Table d β) : Prop :=
  Agree (hfit lib settings parts)
    (Centralised settings (pooled parts))

-- ============================================================== the protocol

/-- The categories of all clients. -/
def union (parts : Fin clients → Table d β) (j : Fin d) :
    List (Option β) :=
  unique (column (pooled parts) j)

/-- `min_frequency` for so many rows. -/
def number (settings : Settings) (n : Nat) : Option Number :=
  match settings.minFrequency with
  | none => none
  | some (.count m _) => some ⟨m, false⟩
  | some (.fraction q _) => some ⟨timesSamples q n, true⟩

/-- The counts a client sends: without `max_categories` those below the
threshold. -/
def sends (settings : Settings) (n : Nat) (count : Nat) : Bool :=
  if settings.maxCategories = none then
    decide ((count : ℚ) < threshold settings n)
  else true

/-- What the server finds in the clients' sketches. -/
def searched (lib : SketchLib (Option β)) (settings : Settings)
    (parts : Fin clients → Table d β) :
    Except Raised (Fin d → Option (List Nat)) :=
  infrequentIndices lib settings
    (number settings (pooled parts).length) (union parts)
    (settings.missingIndices (union parts))
    (mergedSketch (sends settings (pooled parts).length) parts)

/-- The first two rounds. -/
def exchange (parts : Fin clients → Table d β) :
    List (Horizontal.Round clients (Message d β)) :=
  [.gather .categories
      (fun p m => m = (fitted (rowsOf parts p)).categories),
    .scatter .categories (· = union parts)]

/-- The rounds of the search up to the sketches. -/
def inquiry (settings : Settings) (parts : Fin clients → Table d β) :
    List (Horizontal.Round clients (Message d β)) :=
  (if settings.isFraction then
    [.gather .nSamples (fun p m => m = (rowsOf parts p).length)]
  else [])
  ++ (if settings.maxCategories = none then
    [.scatter .minFrequency
      (· = number settings (pooled parts).length)]
  else [])
  ++ [.gather .localFiSketch fun p m =>
      m = localFiSketch (sentItems
        (sends settings (pooled parts).length) (rowsOf parts p))]

theorem fit_eq_ok {X : Table d β} (hX : X ≠ []) (hd : 0 < d) :
    fit X = .ok (fitted X) := by
  rw [fit, if_neg hX, if_neg (Nat.ne_of_gt hd)]

/-- The union of the clients' categories. -/
theorem itemsUnion_clients (hclients : 0 < clients)
    (parts : Fin clients → Table d β) :
    itemsUnion ((allClients clients).map fun p =>
      (fitted (rowsOf parts p)).categories) = .ok (union parts) := by
  have hunion : ∀ j, unique (((allClients clients).map fun p =>
      (fitted (rowsOf parts p)).categories).flatMap (· j))
        = union parts j := by
    intro j
    rw [List.flatMap_map, union, pooled, column, List.map_flatMap]
    exact unique_flatMap _ _
  have hne : allClients clients ≠ [] :=
    List.ne_nil_of_mem (mem_allClients ⟨0, hclients⟩)
  obtain ⟨first, rest, heq⟩ := List.exists_cons_of_ne_nil hne
  rw [heq] at hunion ⊢
  exact congrArg Except.ok (funext hunion)

/-- The sum of the clients' sketches. -/
theorem mergeLocalFiSketch_clients (hclients : 0 < clients)
    (f : Nat → Bool) (parts : Fin clients → Table d β) :
    mergeLocalFiSketch ((allClients clients).map fun p =>
      localFiSketch (sentItems f (rowsOf parts p)))
        = .ok (mergedSketch f parts) := by
  have hmerged : ∀ j, ((allClients clients).map fun p =>
      localFiSketch (sentItems f (rowsOf parts p))).foldl
        (fun t s => t.merge (s j)) .empty = mergedSketch f parts j := by
    intro j
    rw [List.foldl_map]
    rfl
  have hne : allClients clients ≠ [] :=
    List.ne_nil_of_mem (mem_allClients ⟨0, hclients⟩)
  obtain ⟨first, rest, heq⟩ := List.exists_cons_of_ne_nil hne
  rw [heq] at hmerged ⊢
  exact congrArg Except.ok (funext hmerged)

theorem sum_length_clients {β : Type} (parts : Fin clients → Table d β) :
    ((allClients clients).map fun p => (rowsOf parts p).length).sum
      = (pooled parts).length := by
  rw [pooled, List.length_flatMap]

/-- The server computes the threshold. -/
theorem serverMinFrequency_follows {β : Type} (settings : Settings)
    (parts : Fin clients → Table d β) :
    Follows (serverMinFrequency (β := β) (d := d) settings)
      ((if settings.isFraction then
        [.gather .nSamples fun p m => m = (rowsOf parts p).length]
      else [] : List (Horizontal.Round clients (Message d β))).flatMap
        Horizontal.Round.ofServer)
      (· = number settings (pooled parts).length) := by
  unfold serverMinFrequency number Settings.isFraction
  cases settings.minFrequency with
  | none => exact .ret rfl
  | some f =>
      cases f with
      | count n h => exact .ret rfl
      | fraction q h =>
          refine Follows.bind (recvAll_follows _ _) fun ns hns => ?_
          rw [hns, sum_length_clients]
          exact .ret rfl

/-- The threshold as a number of Python. -/
theorem number_eq_some {settings : Settings} {f : MinFrequency}
    (h : settings.minFrequency = some f) (n : Nat) :
    number settings n
      = some ⟨threshold settings n, settings.isFraction⟩ := by
  unfold number threshold Settings.isFraction
  rw [h]
  cases f <;> rfl

/-- Without `max_categories` a client sends the counts below. -/
theorem localItems_eq_ok {settings : Settings} {f : MinFrequency}
    (hmin : settings.minFrequency = some f)
    (hmax : settings.maxCategories = none) (X : Table d β) (n : Nat) :
    localItems (fitted X) (number settings n)
      = .ok (sentItems (sends settings n) X) := by
  rw [number_eq_some hmin]
  have hsends : sends settings n
      = fun count : Nat => decide ((count : ℚ) < threshold settings n) :=
    funext fun count => if_pos hmax
  rw [hsends]
  rfl

/-- With `max_categories` a client sends all. -/
theorem removeMissing_eq_sentItems {settings : Settings}
    {m : {m : Nat // 1 ≤ m}} (hmax : settings.maxCategories = some m)
    (X : Table d β) (n : Nat) :
    removeMissing (fitted X) = sentItems (sends settings n) X := by
  funext j
  have hsends : ∀ count, sends settings n count = true := by
    intro count
    rw [sends, hmax]
    rfl
  rw [sentItems, List.filter_eq_self.mpr fun row _ => hsends row.2]

section Parties

variable {lib : SketchLib (Option β)} {settings : Settings}
  {parts : Fin clients → Table d β}

/-- A client up to the union of the categories. -/
theorem hfitClient_reaches {i : Fin clients} (hrow : parts i ≠ [])
    (hd : 0 < d) {acts : List (Act (Horizontal.Party clients) (Message d β))}
    {P : Action clients d β (Encoding d β) → Prop}
    (h : Reaches (group settings (union parts)
      (askInfrequent settings (fitted (parts i)))) acts P) :
    Reaches (hfitClient settings (parts i))
      ((exchange parts).map (Horizontal.Round.ofClient i) ++ acts) P := by
  unfold hfitClient
  rw [fit_eq_ok hrow hd]
  refine .send rfl (.recv fun m hm => ?_)
  rw [hm]
  exact h

/-- The server up to the union of the categories. -/
theorem hfitServer_reaches (hclients : 0 < clients)
    {acts : List (Act (Horizontal.Party clients) (Message d β))}
    {P : Action clients d β (Encoding d β) → Prop}
    (h : Reaches (group settings (union parts)
      (answerInfrequent lib settings (union parts))) acts P) :
    Reaches (hfitServer lib settings)
      ((exchange parts).flatMap Horizontal.Round.ofServer ++ acts) P := by
  unfold hfitServer exchange
  simp only [List.flatMap_cons, List.flatMap_nil, List.append_nil,
    List.append_assoc]
  refine Reaches.bind (recvAll_follows _ _) fun ms hms => ?_
  rw [hms, itemsUnion_clients hclients, Proc.lift_ok, Proc.ret_bind]
  exact Reaches.bind (sendAll_follows _ _) fun _ _ => h

/-- A client's side of the search, up to the answer. -/
theorem askInfrequent_reaches {i : Fin clients}
    (henabled : settings.infrequentEnabled = true)
    {acts : List (Act (Horizontal.Party clients) (Message d β))}
    {P : Action clients d β (Fin d → Option (List Nat)) → Prop}
    (h : Reaches (recv .server .infrequentIndices) acts P) :
    Reaches (askInfrequent settings (fitted (parts i)))
      ((inquiry settings parts).map (Horizontal.Round.ofClient i) ++ acts)
      P := by
  unfold askInfrequent inquiry
  have hrest : ∀ items, items = sentItems
      (sends settings (pooled parts).length) (parts i) →
      Reaches (send (β := β) (d := d) .server .localFiSketch
          (localFiSketch items) >>= fun _ =>
        recv .server .infrequentIndices)
      ((.send .server .localFiSketch (· = localFiSketch
        (sentItems (sends settings (pooled parts).length) (parts i))))
          :: acts) P := by
    intro items hitems
    exact .send (by rw [hitems]) h
  -- without a limit the client waits for the number of rows before it sends
  cases hmax : settings.maxCategories with
  | none =>
      obtain ⟨f, hf⟩ : ∃ f, settings.minFrequency = some f := by
        rw [Settings.infrequentEnabled, hmax] at henabled
        exact Option.isSome_iff_exists.mp henabled
      have hasked : Reaches
          (Proc.lift (localItems (fitted (parts i))
              (number settings (pooled parts).length))
            >>= fun items => send .server .localFiSketch
              (localFiSketch items) >>= fun _ =>
            recv .server .infrequentIndices)
          ((.send .server .localFiSketch (· = localFiSketch (sentItems
            (sends settings (pooled parts).length) (parts i)))) :: acts)
          P := by
        rw [localItems_eq_ok hf hmax]
        exact hrest _ rfl
      cases hfraction : settings.isFraction with
      | false =>
          refine .recv fun m hm => ?_
          rw [hm]
          exact hasked
      | true =>
          refine .send rfl (.recv fun m hm => ?_)
          rw [hm]
          exact hasked
  | some m =>
      have hall := removeMissing_eq_sentItems hmax (parts i)
        (pooled parts).length
      cases hfraction : settings.isFraction with
      | false => exact hrest _ hall
      | true => exact .send rfl (hrest _ hall)

/-- The server's side of the search, up to what it finds. -/
theorem answerInfrequent_reaches (hclients : 0 < clients)
    {acts : List (Act (Horizontal.Party clients) (Message d β))}
    {P : Action clients d β (Fin d → Option (List Nat)) → Prop}
    (h : Reaches (Proc.lift (searched lib settings parts) >>= fun indices =>
        Peer.sendAll .infrequentIndices indices (allClients clients)
          >>= fun _ => pure indices) acts P) :
    Reaches (answerInfrequent lib settings (union parts))
      ((inquiry settings parts).flatMap Horizontal.Round.ofServer ++ acts)
      P := by
  have hsketches : Reaches
      (Peer.recvAll .localFiSketch (allClients clients) >>= fun sketches =>
        Proc.lift (mergeLocalFiSketch sketches >>= fun sketch =>
          infrequentIndices lib settings
            (number settings (pooled parts).length) (union parts)
            (settings.missingIndices (union parts)) sketch)
          >>= fun indices =>
        Peer.sendAll .infrequentIndices indices (allClients clients)
          >>= fun _ => pure indices)
      ((Horizontal.Round.gather (μ := Message d β) .localFiSketch fun p m =>
        m = localFiSketch (sentItems
          (sends settings (pooled parts).length)
          (rowsOf parts p))).ofServer ++ acts) P := by
    refine Reaches.bind (recvAll_follows _ _) fun sketches hsketches => ?_
    rw [hsketches, mergeLocalFiSketch_clients hclients]
    exact h
  unfold answerInfrequent inquiry
  rw [List.flatMap_append, List.flatMap_append, List.append_assoc,
    List.append_assoc]
  refine Reaches.bind (serverMinFrequency_follows settings parts)
    fun minFrequency hmin => ?_
  rw [hmin]
  by_cases hmax : settings.maxCategories = none
  · rw [if_pos hmax, if_pos hmax]
    simp only [List.flatMap_singleton]
    exact Reaches.bind (sendAll_follows _ _) fun _ _ => hsketches
  · rw [if_neg hmax, if_neg hmax]
    simp only [List.flatMap_singleton]
    exact hsketches

/-- The search is needed. -/
def Settings.searches (self : Settings) : Prop :=
  self.infrequentEnabled = true ∧ self.maxCategories.any (·.1 = 1) = false

theorem group_search {categories : Fin d → List (Option β)}
    (hsearch : settings.searches)
    (search : Action clients d β (Fin d → Option (List Nat))) :
    group settings categories search = search >>= fun indices =>
      Proc.lift (encoding settings categories indices) := by
  unfold group
  rw [if_pos hsearch.1, if_neg (by rw [hsearch.2]; exact Bool.false_ne_true)]

/-- If the search succeeds, the parties agree on its result. -/
theorem hfit_agree (hclients : 0 < clients) (hd : 0 < d)
    (hrows : ∀ i, parts i ≠ []) (hsearch : settings.searches)
    {indices : Fin d → Option (List Nat)} {r : Encoding d β}
    (hfound : searched lib settings parts = .ok indices)
    (hr : encoding settings (union parts) indices = .ok r) :
    Agree (hfit lib settings parts) (· = r) := by
  have hend : ∀ q : Action clients d β (Fin d → Option (List Nat)),
      q = .ret indices → (q >>= fun indices =>
        Proc.lift (encoding settings (union parts) indices))
          = .ret r := by
    intro q hq
    rw [hq, Proc.ret_bind, hr]
    rfl
  refine agree_of_rounds (μ := Message d β) (exchange parts
    ++ (inquiry settings parts
      ++ [.scatter .infrequentIndices (· = indices)])) (fun i => ?_) ?_
  · rw [List.map_append, List.map_append]
    refine Reaches.follows (P := fun p => p = .ret r)
      (hfitClient_reaches (hrows i) hd ?_) fun q hq => ⟨r, rfl, hq⟩
    rw [group_search hsearch]
    exact (askInfrequent_reaches hsearch.1 (P := fun q => q = .ret indices)
      (.recv fun m hm => .done (congrArg Proc.ret hm))).bind_left hend
  · rw [List.flatMap_append, List.flatMap_append]
    refine Reaches.follows (P := fun p => p = .ret r)
      (hfitServer_reaches hclients ?_) fun q hq => ⟨r, rfl, hq⟩
    rw [group_search hsearch]
    refine (answerInfrequent_reaches hclients
      (P := fun q => q = .ret indices) ?_).bind_left hend
    rw [hfound, Proc.lift_ok, Proc.ret_bind]
    refine (sendAll_ret (μ := Message d β) Tag.infrequentIndices indices
      indices).reaches.mono
      fun q hq => ?_
    obtain ⟨a, rfl, hq⟩ := hq
    exact hq

/-- If the search fails, they do not. -/
theorem hfit_not_agree (hclients : 0 < clients) (hd : 0 < d)
    (hrows : ∀ i, parts i ≠ []) (hsearch : settings.searches)
    {e : Raised} (hfound : searched lib settings parts = .error e)
    {Q : Encoding d β → Prop} : ¬ Agree (hfit lib settings parts) Q := by
  refine not_agree_of_rounds (μ := Message d β)
    (exchange parts ++ inquiry settings parts) (fun i => ?_) ?_
  · rw [List.map_append]
    refine hfitClient_reaches (hrows i) hd ?_
    rw [group_search hsearch]
    have hasked : Reaches (askInfrequent settings (fitted (parts i)))
        ((inquiry settings parts).map (Horizontal.Round.ofClient i) ++ [])
        fun _ => True :=
      askInfrequent_reaches hsearch.1 (.done trivial)
    rw [List.append_nil] at hasked
    exact hasked.bind_left fun _ _ => trivial
  · rw [List.flatMap_append]
    refine hfitServer_reaches hclients ?_
    rw [group_search hsearch]
    have hanswered : Reaches
        (answerInfrequent lib settings (union parts))
        ((inquiry settings parts).flatMap Horizontal.Round.ofServer ++ [])
        fun q => q = .raise e :=
      answerInfrequent_reaches hclients (.done (by rw [hfound]; rfl))
    rw [List.append_nil] at hanswered
    exact hanswered.bind_left fun q hq => ⟨e, by rw [hq]; rfl⟩

/-- Without a search, the parties agree on what each finds by itself. -/
theorem hfit_agree_of_group (hclients : 0 < clients) (hd : 0 < d)
    (hrows : ∀ i, parts i ≠ []) {r : Encoding d β}
    (hgroup : ∀ search : Action clients d β (Fin d → Option (List Nat)),
      group settings (union parts) search = .ret r) :
    Agree (hfit lib settings parts) (· = r) := by
  refine agree_of_rounds (μ := Message d β) (exchange parts)
    (fun i => ?_) ?_
  · have hreach : Reaches (hfitClient settings (parts i))
        ((exchange parts).map (Horizontal.Round.ofClient i) ++ [])
        fun q => q = .ret r :=
      hfitClient_reaches (hrows i) hd (.done (hgroup _))
    rw [List.append_nil] at hreach
    exact hreach.follows fun q hq => ⟨r, rfl, hq⟩
  · have hreach : Reaches (hfitServer lib settings)
        ((exchange parts).flatMap Horizontal.Round.ofServer ++ [])
        fun q => q = .ret r :=
      hfitServer_reaches hclients (.done (hgroup _))
    rw [List.append_nil] at hreach
    exact hreach.follows fun q hq => ⟨r, rfl, hq⟩

theorem hfit_not_agree_of_group (hclients : 0 < clients) (hd : 0 < d)
    (hrows : ∀ i, parts i ≠ []) {e : Raised}
    (hgroup : ∀ search : Action clients d β (Fin d → Option (List Nat)),
      group settings (union parts) search = .raise e)
    {Q : Encoding d β → Prop} : ¬ Agree (hfit lib settings parts) Q := by
  refine not_agree_of_rounds (μ := Message d β) (exchange parts)
    (fun i => ?_) ?_
  · have hreach : Reaches (hfitClient settings (parts i))
        ((exchange parts).map (Horizontal.Round.ofClient i) ++ [])
        fun _ => True :=
      hfitClient_reaches (hrows i) hd (.done trivial)
    rw [List.append_nil] at hreach
    exact hreach
  · have hreach : Reaches (hfitServer lib settings)
        ((exchange parts).flatMap Horizontal.Round.ofServer ++ [])
        fun q => q = .raise e :=
      hfitServer_reaches hclients (.done (hgroup _))
    rw [List.append_nil] at hreach
    exact hreach.mono fun q hq => ⟨e, hq⟩

end Parties

end PrimiHub.FL.Encoder
