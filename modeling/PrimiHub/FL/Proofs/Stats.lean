/-
The statistics of a horizontally partitioned table are those of the whole
table.

Reducing the clients' reductions is reducing all rows, and the counts of
the clients add up to the number of present entries of each column. So the
server's value depends only on the present entries of the pooled table,
however the rows are distributed; the clients receive what the server
computed, whatever the schedule. A client without a row does not get that
far: `check_array` refuses its table.
-/
import Mathlib.Data.Fin.VecNotation
import PrimiHub.FL.Stats
import PrimiHub.Lib.Descriptive

namespace PrimiHub.FL.Stats

open Lib Horizontal

variable {clients d : Nat}

-- ====================================================== pooled statistics

/-- The present entries of a column. -/
def present (T : Table d) (j : Fin d) : List ℚ :=
  (T.map (· j)).reduceOption

/-- The rows of the clients, one client after the other. -/
def pooled (parts : Fin clients → Table d) : Table d :=
  (allClients clients).flatMap (rowsOf parts)

/-- The clients hold the rows of the table, in any order. -/
def Distributes (T : Table d) (parts : Fin clients → Table d) : Prop :=
  (pooled parts).Perm T

instance (T : Table d) (parts : Fin clients → Table d) :
    Decidable (Distributes T parts) :=
  inferInstanceAs (Decidable ((pooled parts).Perm T))

/-- The statistics of the clients' rows are those of the table. -/
structure Pooled (T : Table d) (parts : Fin clients → Table d) : Prop where
  sum : Agree (horizontal colSum parts true) fun v =>
    ∀ j, v j = some (present T j).sum
  mean : Agree (horizontal colMean parts true) fun v =>
    ∀ j, v j = some (Lib.mean (present T j))
  var : Agree (horizontal colVar parts true) fun v =>
    ∀ j, v j = some (variance (present T j))
  min : Agree (horizontal colMin parts true) fun v =>
    ∀ j, ∃ x, v j = some x ∧ IsLeast {y | y ∈ present T j} x
  max : Agree (horizontal colMax parts true) fun v =>
    ∀ j, ∃ x, v j = some x ∧ IsGreatest {y | y ∈ present T j} x
  minMax : Agree (horizontal colMinMax parts true) fun v => ∀ j,
    (∃ x, v.1 j = some x ∧ IsLeast {y | y ∈ present T j} x)
    ∧ ∃ x, v.2 j = some x ∧ IsGreatest {y | y ∈ present T j} x

-- ============================================================ the reductions

/-- A reduction of reductions is one of everything. -/
theorem reduce_flatten (stat : Stat) (columns : List (List Entry)) :
    stat.reduce true (columns.map (stat.reduce true))
      = stat.reduce true columns.flatten := by
  cases stat with
  | sum =>
      show some _ = some _
      rw [reduceOption_map_eq_filterMap, reduceOption_flatten,
        List.sum_flatten, List.map_map]
      have hsome : columns.filterMap nansum
          = columns.map (List.sum ∘ List.reduceOption) :=
        congrFun List.filterMap_eq_map columns
      exact congrArg (fun xs => some (List.sum xs)) hsome
  | min =>
      show nanmin (columns.map nanmin) = nanmin columns.flatten
      rw [nanmin, nanmin, reduceOption_map_eq_filterMap,
        reduceOption_flatten, ← min?_filterMap_min?, List.filterMap_map]
      rfl
  | max =>
      show nanmax (columns.map nanmax) = nanmax columns.flatten
      rw [nanmax, nanmax, reduceOption_map_eq_filterMap,
        reduceOption_flatten, ← max?_filterMap_max?, List.filterMap_map]
      rfl

/-- Reducing what the parties' reductions give is reducing their pooled
rows. -/
theorem axis0_flatMap (stat : Stat) (parties : List (Horizontal.Party clients))
    (rows : Horizontal.Party clients → Table d) :
    axis0 (stat.reduce true)
        (parties.map fun p => axis0 (stat.reduce true) (rows p))
      = axis0 (stat.reduce true) (parties.flatMap rows) := by
  funext j
  unfold axis0
  rw [List.map_map, List.map_flatMap, List.flatMap, ← reduce_flatten,
    List.map_map]
  rfl

@[simp] theorem axis0_sum (X : Table d) (j : Fin d) :
    axis0 (Stat.sum.reduce true) X j = some (present X j).sum := rfl

@[simp] theorem axis0_min (X : Table d) (j : Fin d) :
    axis0 (Stat.min.reduce true) X j = (present X j).min? := rfl

@[simp] theorem axis0_max (X : Table d) (j : Fin d) :
    axis0 (Stat.max.reduce true) X j = (present X j).max? := rfl

/-- The squares are present where the entries are. -/
theorem present_square (X : Table d) (j : Fin d) :
    present (X.map square) j = (present X j).map (· ^ 2) := by
  rw [present, present, ← List.reduceOption_map, List.map_map,
    List.map_map]
  rfl

/-- The order of the rows does not matter for what is present. -/
theorem present_perm {X Y : Table d} (h : X.Perm Y) (j : Fin d) :
    (present X j).Perm (present Y j) :=
  List.Perm.filterMap id (h.map fun row : Cols d => row j)

/-- The present entries, counted party by party. -/
theorem present_flatMap (parties : List (Horizontal.Party clients))
    (rows : Horizontal.Party clients → Table d) (j : Fin d) :
    (present (parties.flatMap rows) j).length
      = (parties.map fun p => (present (rows p) j).length).sum := by
  unfold present
  rw [List.map_flatMap, List.flatMap, reduceOption_flatten,
    List.length_flatten, List.map_map, List.map_map]
  rfl

-- ================================================================= the counts

/-- A client counts the present entries of each column, in either form. -/
theorem clientColN_forCol (X : Table d) (j : Fin d) :
    (clientColN true X).forCol j = (present X j).length := by
  have hlen : X.length = (present X j).length + colNNan X j := by
    have h := List.length_eq_reduceOption_length_add_filter_none
      (l := X.map (· j))
    rw [List.length_map, ← List.countP_eq_length_filter] at h
    exact h
  unfold clientColN
  split
  · show X.length - colNNan X j = _
    omega
  · next hnone =>
    have hzero : colNNan X j = 0 := by
      by_contra hne
      exact hnone ⟨rfl, j, hne⟩
    show X.length = _
    omega

/-- The counts of two parties, column by column. -/
theorem add_forCol (m n : Count d) (j : Fin d) :
    (m.add n).forCol j = m.forCol j + n.forCol j := by
  cases m <;> cases n <;> rfl

/-- The server adds the counts column by column. -/
theorem serverColN_forCol (ns : List (Count d)) (j : Fin d) :
    (serverColN ns).forCol j = (ns.map (Count.forCol · j)).sum := by
  have hfold : ∀ (acc : Count d), (ns.foldl Count.add acc).forCol j
      = acc.forCol j + (ns.map (Count.forCol · j)).sum := by
    induction ns with
    | nil => intro acc; rfl
    | cons n ns ih =>
        intro acc
        rw [List.foldl_cons, ih, add_forCol, List.map_cons, List.sum_cons,
          Nat.add_assoc]
  rw [serverColN, hfold]
  exact Nat.zero_add _

/-- The server's count is the number of present entries of all. -/
theorem serverColN_clients (parties : List (Horizontal.Party clients))
    (rows : Horizontal.Party clients → Table d) (j : Fin d) :
    (serverColN (parties.map fun p => clientColN true (rows p))).forCol j
      = (present (parties.flatMap rows) j).length := by
  rw [serverColN_forCol, present_flatMap, List.map_map]
  congr 1
  exact List.map_congr_left fun p _ => clientColN_forCol (rows p) j

/-- A quotient, where something is present. -/
theorem divide_eq_some {s : Cols d} {n : Count d} {j : Fin d} {q : ℚ}
    (hs : s j = some q) (hn : n.forCol j ≠ 0) :
    divide s n j = some (q / n.forCol j) := by
  rw [divide, hs, Option.bind_some, if_neg hn]

/-- A variance, where something is present. -/
theorem var_eq_some {s sSquare : Cols d} {n : Count d} {j : Fin d}
    {q r : ℚ} (hs : s j = some q) (hsq : sSquare j = some r)
    (hn : n.forCol j ≠ 0) :
    var s sSquare n j = some (r / n.forCol j - (q / n.forCol j) ^ 2) := by
  rw [var, divide_eq_some hs hn, divide_eq_some hsq hn]
  rfl

-- ================================================================ the values

/-- A table with a row and a column passes. -/
theorem checkArray_eq_ok {X : Table d} (hX : X ≠ []) (hd : 0 < d) :
    checkArray true X = .ok X := by
  unfold checkArray
  rw [if_neg (by simp), if_neg hX, if_neg (Nat.ne_of_gt hd)]

section Rounds

variable {parts : Fin clients → Table d}

/-- A client's side of a reduction. -/
theorem colStatClient_follows {stat : Stat} {X : Table d} (hX : X ≠ [])
    (hd : 0 < d) (v : Cols d) :
    Follows (colStatClient stat X true true true : Action clients d (Cols d))
      [.send .server (.clientCol stat)
          (· = axis0 (stat.reduce true) X),
        .recv .server (.serverCol stat) (· = v)] (· = v) := by
  unfold colStatClient
  rw [checkArray_eq_ok hX hd]
  exact .put_bind rfl (.recv fun m hm => .ret hm)

/-- The value of a reduction is that of the pooled rows. -/
theorem colStat_agree (stat : Stat) (hd : 0 < d)
    (hrows : ∀ i, parts i ≠ []) :
    Agree (horizontal
        (byRole (colStatClient stat) (colStatServer stat)) parts true)
      (· = axis0 (stat.reduce true) (pooled parts)) := by
  refine agree_of_rounds (μ := Message d)
    [.gather (.clientCol stat)
        (fun p m => m = axis0 (stat.reduce true) (rowsOf parts p)),
      .scatter (.serverCol stat)
        (· = axis0 (stat.reduce true) (pooled parts))]
    (fun i => colStatClient_follows (hrows i) hd _) ?_
  show Follows (colStatServer stat true) _ _
  unfold colStatServer
  refine (recvAll_follows _ _).bind fun ms hms => ?_
  rw [hms, axis0_flatMap]
  exact sendAll_ret _ _ _

/-- `col_min` also checks what the server received. -/
theorem colMin_agree (hclients : 0 < clients) (hd : 0 < d)
    (hrows : ∀ i, parts i ≠ []) :
    Agree (horizontal colMin parts true)
      (· = axis0 (Stat.min.reduce true) (pooled parts)) := by
  refine agree_of_rounds (μ := Message d)
    [.gather (.clientCol .min)
        (fun p m => m = axis0 (Stat.min.reduce true) (rowsOf parts p)),
      .scatter (.serverCol .min)
        (· = axis0 (Stat.min.reduce true) (pooled parts))]
    (fun i => colStatClient_follows (hrows i) hd _) ?_
  show Follows (colMinServer true) _ _
  unfold colMinServer
  refine (recvAll_follows _ _).bind fun ms hms => ?_
  have hne : ms ≠ [] := by
    rw [hms]
    exact List.ne_nil_of_mem (List.mem_map_of_mem
      (mem_allClients ⟨0, hclients⟩))
  rw [checkArray_eq_ok hne hd, Proc.lift_ok, Proc.ret_bind, hms,
    axis0_flatMap]
  exact sendAll_ret _ _ _

/-- `col_min_max` reduces both at once. -/
theorem colMinMax_agree (hd : 0 < d) (hrows : ∀ i, parts i ≠ []) :
    Agree (horizontal colMinMax parts true)
      (· = (axis0 (Stat.min.reduce true) (pooled parts),
        axis0 (Stat.max.reduce true) (pooled parts))) := by
  refine agree_of_rounds (μ := Message d)
    [.gather .clientColMinMax
        (fun p m => m = (axis0 (Stat.min.reduce true) (rowsOf parts p),
          axis0 (Stat.max.reduce true) (rowsOf parts p))),
      .scatter .serverColMinMax
        (· = (axis0 (Stat.min.reduce true) (pooled parts),
          axis0 (Stat.max.reduce true) (pooled parts)))] ?_ ?_
  · intro i
    show Follows (colMinMaxClient (parts i) true true true) _ _
    unfold colMinMaxClient
    rw [checkArray_eq_ok (hrows i) hd]
    exact .put_bind rfl (.recv fun m hm => .ret hm)
  · show Follows (colMinMaxServer true) _ _
    unfold colMinMaxServer
    refine (recvAll_follows _ _).bind fun ms hms => ?_
    rw [hms, List.map_map, List.map_map]
    have hmin := axis0_flatMap .min (allClients clients) (rowsOf parts)
    have hmax := axis0_flatMap .max (allClients clients) (rowsOf parts)
    rw [pooled, ← hmin, ← hmax]
    exact sendAll_ret _ _ _

/-- `col_mean` divides the sum by the number of present entries. -/
theorem colMean_agree (hd : 0 < d) (hrows : ∀ i, parts i ≠ []) :
    Agree (horizontal colMean parts true)
      (· = divide (axis0 (Stat.sum.reduce true) (pooled parts))
        (serverColN ((allClients clients).map fun p =>
          clientColN true (rowsOf parts p)))) := by
  refine agree_of_rounds (μ := Message d)
    [.gather (.clientCol .sum)
        (fun p m => m = axis0 (Stat.sum.reduce true) (rowsOf parts p)),
      .gather .clientColN
        (fun p m => m = clientColN true (rowsOf parts p)),
      .scatter .serverColMean
        (· = divide (axis0 (Stat.sum.reduce true) (pooled parts))
          (serverColN ((allClients clients).map fun p =>
            clientColN true (rowsOf parts p))))] ?_ ?_
  · intro i
    show Follows (colMeanClient (parts i) true true true) _ _
    unfold colMeanClient
    rw [checkArray_eq_ok (hrows i) hd]
    exact .put_bind rfl (.put_bind rfl (.recv fun m hm => .ret hm))
  · show Follows (colMeanServer true) _ _
    unfold colMeanServer
    refine (recvAll_follows _ _).bind fun sums hsums => ?_
    refine (recvAll_follows _ _).bind fun ns hns => ?_
    rw [hsums, hns, axis0_flatMap]
    exact sendAll_ret _ _ _

/-- `col_var` also sends the sums of the squares. -/
theorem colVar_agree (hd : 0 < d) (hrows : ∀ i, parts i ≠ []) :
    Agree (horizontal colVar parts true)
      (· = var (axis0 (Stat.sum.reduce true) (pooled parts))
        (axis0 (Stat.sum.reduce true) ((pooled parts).map square))
        (serverColN ((allClients clients).map fun p =>
          clientColN true (rowsOf parts p)))) := by
  refine agree_of_rounds (μ := Message d)
    [.gather .clientColSumSumSquare
        (fun p m => m = (axis0 (Stat.sum.reduce true) (rowsOf parts p),
          axis0 (Stat.sum.reduce true) ((rowsOf parts p).map square))),
      .gather .clientColN
        (fun p m => m = clientColN true (rowsOf parts p)),
      .scatter .serverColVar
        (· = var (axis0 (Stat.sum.reduce true) (pooled parts))
          (axis0 (Stat.sum.reduce true) ((pooled parts).map square))
          (serverColN ((allClients clients).map fun p =>
            clientColN true (rowsOf parts p))))] ?_ ?_
  · intro i
    show Follows (colVarClient (parts i) true true true) _ _
    unfold colVarClient
    rw [checkArray_eq_ok (hrows i) hd]
    exact .put_bind rfl (.put_bind rfl (.recv fun m hm => .ret hm))
  · show Follows (colVarServer true) _ _
    unfold colVarServer
    refine (recvAll_follows _ _).bind fun sums hsums => ?_
    refine (recvAll_follows _ _).bind fun ns hns => ?_
    have hsum := axis0_flatMap .sum (allClients clients) (rowsOf parts)
    have hsquare := axis0_flatMap .sum (allClients clients)
      fun p => (rowsOf parts p).map square
    rw [hsums, hns, List.map_map, List.map_map, pooled, List.map_flatMap,
      ← hsum, ← hsquare]
    exact sendAll_ret _ _ _

end Rounds

-- ================================================================= the result

section Values

variable {T : Table d} {parts : Fin clients → Table d} {j : Fin d}

/-- Rows in another order have the same entries. -/
theorem setOf_mem_present {X : Table d} (h : X.Perm T) (j : Fin d) :
    {y | y ∈ present X j} = {y | y ∈ present T j} :=
  Set.ext fun _ => (present_perm h j).mem_iff

/-- A column with entries has them in any order of the rows. -/
theorem present_ne_nil {X : Table d} (h : X.Perm T)
    (hj : present T j ≠ []) : present X j ≠ [] := by
  intro hnil
  have hperm := present_perm h j
  rw [hnil] at hperm
  exact hj hperm.nil_eq.symm

/-- The minimum of a column with entries. -/
theorem exists_least {X : Table d} (h : X.Perm T) (hj : present T j ≠ []) :
    ∃ x, axis0 (Stat.min.reduce true) X j = some x
      ∧ IsLeast {y | y ∈ present T j} x := by
  obtain ⟨x, hx⟩ := Option.isSome_iff_exists.mp
    (List.isSome_min?_iff.mpr (present_ne_nil h hj))
  refine ⟨x, hx, ?_⟩
  rw [← setOf_mem_present h j]
  exact min?_eq_some_iff_isLeast.mp hx

/-- The maximum of a column with entries. -/
theorem exists_greatest {X : Table d} (h : X.Perm T)
    (hj : present T j ≠ []) :
    ∃ x, axis0 (Stat.max.reduce true) X j = some x
      ∧ IsGreatest {y | y ∈ present T j} x := by
  obtain ⟨x, hx⟩ := Option.isSome_iff_exists.mp
    (List.isSome_max?_iff.mpr (present_ne_nil h hj))
  refine ⟨x, hx, ?_⟩
  rw [← setOf_mem_present h j]
  exact max?_eq_some_iff_isGreatest.mp hx

/-- The sum does not depend on the order of the rows. -/
theorem axis0_sum_perm {X : Table d} (h : X.Perm T) (j : Fin d) :
    axis0 (Stat.sum.reduce true) X j = some (present T j).sum := by
  rw [axis0_sum, (present_perm h j).sum_eq]

/-- Nor does the sum of squares. -/
theorem axis0_sum_square_perm {X : Table d} (h : X.Perm T) (j : Fin d) :
    axis0 (Stat.sum.reduce true) (X.map square) j
      = some ((present T j).map (· ^ 2)).sum := by
  rw [axis0_sum, present_square, ((present_perm h j).map _).sum_eq]

/-- The number the server divides by. -/
theorem serverColN_eq (h : Distributes T parts) (j : Fin d) :
    (serverColN ((allClients clients).map fun p =>
      clientColN true (rowsOf parts p))).forCol j
        = (present T j).length := by
  rw [serverColN_clients]
  exact (present_perm h j).length_eq

/-- Where there is a row, there is a client. -/
theorem Distributes.clients_pos (h : Distributes T parts) (hT : T ≠ []) :
    0 < clients := by
  by_contra hzero
  obtain rfl : clients = 0 := by omega
  exact hT (List.Perm.nil_eq h).symm

end Values

/-- Where the table has a column, every column an entry and every client a
row, the statistics are those of the table. -/
theorem pooled_statistics {T : Table d} {parts : Fin clients → Table d}
    (hd : 0 < d) (h : Distributes T parts)
    (hpresent : ∀ j, present T j ≠ []) (hrows : ∀ i, parts i ≠ []) :
    Pooled T parts := by
  have hT : T ≠ [] := by
    intro hnil
    rw [hnil] at hpresent
    exact hpresent ⟨0, hd⟩ rfl
  have hn : ∀ j, (present T j).length ≠ 0 :=
    fun j hzero => hpresent j (List.length_eq_zero_iff.mp hzero)
  refine ⟨?_, ?_, ?_, ?_, ?_, ?_⟩
  · refine (colStat_agree .sum hd hrows).mono fun v hv j => ?_
    rw [hv]
    exact axis0_sum_perm h j
  · refine (colMean_agree hd hrows).mono fun v hv j => ?_
    rw [hv, divide_eq_some (axis0_sum_perm h j)
      (by rw [serverColN_eq h]; exact hn j), serverColN_eq h]
    rfl
  · refine (colVar_agree hd hrows).mono fun v hv j => ?_
    rw [hv, var_eq_some (axis0_sum_perm h j) (axis0_sum_square_perm h j)
      (by rw [serverColN_eq h]; exact hn j), serverColN_eq h,
      variance_eq (Nat.cast_ne_zero.mpr (hn j))]
  · refine (colMin_agree (h.clients_pos hT) hd hrows).mono fun v hv j => ?_
    rw [hv]
    exact exists_least h (hpresent j)
  · refine (colStat_agree .max hd hrows).mono fun v hv j => ?_
    rw [hv]
    exact exists_greatest h (hpresent j)
  · refine (colMinMax_agree hd hrows).mono fun v hv j => ?_
    rw [hv]
    exact ⟨exists_least h (hpresent j), exists_greatest h (hpresent j)⟩

/-- Two clients, the first with nothing in the second column. -/
theorem pooled_statistics_two :
    @Pooled 2 2
      [![some 1, none], ![some 3, some 5], ![none, some 4]]
      ![[![some 1, none]], [![none, some 4], ![some 3, some 5]]] :=
  pooled_statistics (by decide) (by decide) (by decide) (by decide)

/-- A client without a row raises, and the protocol does not end. -/
theorem not_pooled_of_nil {T : Table d} {parts : Fin clients → Table d}
    {i : Fin clients} (h : parts i = []) : ¬ Pooled T parts := by
  intro hpooled
  have hraise : horizontal colSum parts true (.client i)
      = .raise .noSamples := by
    show colStatClient .sum (parts i) true true true = _
    rw [h]
    rfl
  exact not_completes_of_raise hraise hpooled.sum

/-- All rows at one of two clients. -/
theorem not_pooled_all_at_one :
    ∃ (T : Table 1) (parts : Fin 2 → Table 1), Distributes T parts
      ∧ (∀ j, present T j ≠ []) ∧ ¬ Pooled T parts :=
  ⟨[![some 1]], ![[![some 1]], []], by decide, by decide,
    not_pooled_of_nil (i := 1) rfl⟩

end PrimiHub.FL.Stats
