/-
`row_min` and `row_max` give every party the least and the greatest entry
of each row, and `row_min_max` gives nobody anything.

The two reductions are one protocol, a gathering and a scattering, and
reducing the parties' reductions is reducing the whole row
(`axis0_rows`). The joint one asks its channel for `recv`. The channel of
a host with guests has no such method, so the host raises at once; a
channel with that method gives the list of one guest, two arrays that the
host's list of two does not stack with. Either way the host raises, and
the guests wait for what it does not send.
-/
import PrimiHub.FL.Proofs.Stats
import PrimiHub.FL.RowStats

namespace PrimiHub.FL.RowStats

open Lib Horizontal
open Stats (Entry Stat axis0 checkArray nanmin nanmax reduce_flatten)

variable {guests n : Nat} {parts : Horizontal.Party guests → Part n}

-- ========================================================== row_min, row_max

/-- A row, over all parties, the host last. -/
def wholeRow (parts : Horizontal.Party guests → Part n) (i : Fin n) :
    List Entry :=
  ((allClients guests).map fun p => (parts p).row i).flatten
    ++ (parts .server).row i

/-- Reducing what the parties' reductions give is reducing the row. -/
theorem axis0_rows (stat : Stat) (i : Fin n) :
    axis0 (stat.reduce true)
        (((allClients guests).map fun p => axis1 (stat.reduce true) (parts p))
          ++ [axis1 (stat.reduce true) (parts .server)]) i
      = stat.reduce true (wholeRow parts i) := by
  have hflat := reduce_flatten stat
    (((allClients guests).map fun p => (parts p).row i)
      ++ [(parts .server).row i])
  rw [List.flatten_append, List.flatten_singleton] at hflat
  rw [wholeRow, ← hflat, axis0, List.map_append, List.map_append,
    List.map_map, List.map_map]
  rfl

/-- The parties' tables pass the check. -/
def Checked (parts : Horizontal.Party guests → Part n) : Prop :=
  ∀ p, checkPart true (parts p) = .ok ()

/-- All parties return the reduction of each row. -/
theorem rowStat_agree (stat : Stat) (h : Checked parts) :
    Agree (vertical (rowStatGuest stat)
        (rowStatHost stat .multiGrpcClients) parts true)
      (· = fun i => stat.reduce true (wholeRow parts i)) := by
  refine agree_of_rounds (μ := Message n)
    [.gather (.guestRow stat)
        (fun p m => m = axis1 (stat.reduce true) (parts p)),
      .scatter (.globalRow stat)
        (· = fun i => stat.reduce true (wholeRow parts i))] ?_ ?_
  · intro i
    show Follows (rowStatGuest stat (parts (.client i)) true) _ _
    unfold rowStatGuest
    rw [h (.client i)]
    exact .put_bind rfl (.recv fun m hm => .ret hm)
  · show Follows (rowStatHost stat .multiGrpcClients (parts .server) true) _ _
    unfold rowStatHost
    rw [h .server, Proc.lift_ok, Proc.ret_bind]
    refine (recvAll_follows (μ := Message n) (.guestRow stat)
      fun p => axis1 (stat.reduce true) (parts p)).bind fun ms hms => ?_
    have hglobal : axis0 (stat.reduce true)
          (ms ++ [axis1 (stat.reduce true) (parts .server)])
        = fun i => stat.reduce true (wholeRow parts i) := by
      funext i
      rw [hms]
      exact axis0_rows stat i
    rw [hglobal]
    exact sendAll_ret _ _ _

/-- Every row has a value at every party. -/
def EachPresent (parts : Horizontal.Party guests → Part n) : Prop :=
  ∀ p i, ∃ j, (parts p).entries i j ≠ none

theorem EachPresent.checked (hn : 0 < n) (h : EachPresent parts) :
    Checked parts := by
  intro p
  obtain ⟨j, -⟩ := h p ⟨0, hn⟩
  have hrows : (List.ofFn (parts p).entries : Stats.Table _) ≠ [] := by
    intro hnil
    rw [List.ofFn_eq_nil_iff] at hnil
    omega
  rw [checkPart, Stats.checkArray_eq_ok hrows (Fin.pos j)]

theorem mem_wholeRow {i : Fin n} {e : Entry} :
    e ∈ wholeRow parts i ↔ ∃ p, e ∈ (parts p).row i := by
  rw [wholeRow, List.mem_append, List.mem_flatten]
  refine ⟨?_, ?_⟩
  · rintro (⟨row, hrow, he⟩ | he)
    · obtain ⟨p, -, rfl⟩ := List.mem_map.1 hrow
      exact ⟨p, he⟩
    · exact ⟨.server, he⟩
  · rintro ⟨p, he⟩
    cases p with
    | server => exact Or.inr he
    | client g =>
        exact Or.inl ⟨_, List.mem_map_of_mem (mem_allClients g), he⟩

theorem setOf_mem_wholeRow (i : Fin n) :
    {x | x ∈ (wholeRow parts i).reduceOption} = rowValues parts i :=
  Set.ext fun _ => List.reduceOption_mem_iff.trans mem_wholeRow

/-- A row that has a value somewhere has one in the whole. -/
theorem EachPresent.wholeRow_ne_nil (h : EachPresent parts) (i : Fin n) :
    (wholeRow parts i).reduceOption ≠ [] := by
  obtain ⟨j, hj⟩ := h .server i
  obtain ⟨x, hx⟩ := Option.ne_none_iff_exists'.1 hj
  have hmem : some x ∈ wholeRow parts i := by
    refine mem_wholeRow.2 ⟨.server, ?_⟩
    rw [Part.row, List.mem_ofFn]
    exact ⟨j, hx⟩
  exact List.ne_nil_of_mem (List.reduceOption_mem_iff.2 hmem)

/-- `row_min` and `row_max` do what they are for. -/
theorem separate_extremes (hn : 0 < n) (h : EachPresent parts) :
    ∃ v : Rows n × Rows n,
      Agree (vertical rowMinGuest (rowMinHost .multiGrpcClients) parts true)
          (· = v.1)
        ∧ Agree (vertical rowMaxGuest (rowMaxHost .multiGrpcClients) parts
          true) (· = v.2)
        ∧ (∀ i, ∃ x, v.1 i = some x ∧ IsLeast (rowValues parts i) x)
        ∧ ∀ i, ∃ x, v.2 i = some x ∧ IsGreatest (rowValues parts i) x := by
  refine ⟨(fun i => nanmin (wholeRow parts i),
    fun i => nanmax (wholeRow parts i)), rowStat_agree .min (h.checked hn),
    rowStat_agree .max (h.checked hn), fun i => ?_, fun i => ?_⟩
  · obtain ⟨x, hx⟩ := Option.isSome_iff_exists.mp
      (List.isSome_min?_iff.mpr (h.wholeRow_ne_nil i))
    refine ⟨x, hx, ?_⟩
    rw [← setOf_mem_wholeRow]
    exact min?_eq_some_iff_isLeast.mp hx
  · obtain ⟨x, hx⟩ := Option.isSome_iff_exists.mp
      (List.isSome_max?_iff.mpr (h.wholeRow_ne_nil i))
    refine ⟨x, hx, ?_⟩
    rw [← setOf_mem_wholeRow]
    exact max?_eq_some_iff_isGreatest.mp hx

-- ============================================================== row_min_max

/-- A host whose table does not pass the check, or whose channel has no
`recv`, raises at once. -/
theorem rowMinMaxHost_multi (X : Part n) :
    ∃ e, (rowMinMaxHost .multiGrpcClients X true
      : Action guests n (Rows n × Rows n)) = .raise e := by
  unfold rowMinMaxHost
  cases checkPart true X with
  | error e => exact ⟨e, rfl⟩
  | ok _ => exact ⟨.attributeError, rfl⟩

/-- A host that can receive from one guest receives, and raises: the two
arrays of the guest and its own list of two are no array. -/
theorem rowMinMaxHost_single {X : Part n} (h : checkPart true X = .ok ())
    (guest : Fin guests) :
    Reaches (rowMinMaxHost (.grpcClient guest) X true)
      [.recv (.client guest) .guestRowMinMax fun _ => True]
      fun q => ∃ e, q = .raise e := by
  unfold rowMinMaxHost
  rw [h]
  exact .recv fun _ _ => .done ⟨.inhomogeneous, rfl⟩

theorem rowMinMaxGuest_reaches {X : Part n} (h : checkPart true X = .ok ()) :
    Reaches (rowMinMaxGuest X true : Action guests n (Rows n × Rows n))
      [.send .server .guestRowMinMax fun _ => True] fun _ => True := by
  unfold rowMinMaxGuest
  rw [h]
  exact .send trivial (.done trivial)

/-- The host receives from one guest. -/
def singleScript (guest : Fin guests) :
    List (Comm (Horizontal.Party guests) (Message n)) :=
  [⟨.client guest, .server, .guestRowMinMax, fun _ => True⟩]

theorem singleScript_src_ne_dst (guest : Fin guests) :
    ∀ c ∈ singleScript (n := n) guest, c.src ≠ c.dst := by
  intro c hc
  cases List.mem_singleton.1 hc
  intro heq
  cases heq

/-- The script with one guest ends in the host's exception. -/
theorem not_agree_single {guest : Fin guests}
    (hhost : checkPart true (parts .server) = .ok ())
    (hguest : checkPart true (parts (.client guest)) = .ok ())
    (Q : Rows n × Rows n → Prop) :
    ¬ Agree (vertical rowMinMaxGuest (rowMinMaxHost (.grpcClient guest))
      parts true) Q := by
  refine not_completes_of_reaches (singleScript_src_ne_dst guest)
    (i := Horizontal.Party.server)
    (P := fun p q => p = .server → ∃ e, q = .raise e)
    (fun p => ?_) fun q hq => hq rfl
  cases p with
  | server =>
      have hpart : project .server (singleScript (n := n) guest)
          = [.recv (.client guest) .guestRowMinMax fun _ => True] := rfl
      rw [hpart]
      exact (rowMinMaxHost_single hhost guest).mono fun q hq _ => hq
  | client g =>
      have hother : ∀ q : Action guests n (Rows n × Rows n),
          Horizontal.Party.client g = .server → ∃ e, q = .raise e := by
        intro q heq
        cases heq
      rw [singleScript, project]
      by_cases hg : Horizontal.Party.client guest = .client g
      · rw [if_pos hg]
        cases hg
        exact (rowMinMaxGuest_reaches hguest).mono fun q _ => hother q
      · rw [if_neg hg, if_neg fun heq => by cases heq]
        exact .done (hother _)

/-- The joint protocol never ends, whatever the host's channel. -/
theorem not_agree_rowMinMax (channel : HostChannel guests)
    (parts : Horizontal.Party guests → Part n)
    (Q : Rows n × Rows n → Prop) :
    ¬ Agree (vertical rowMinMaxGuest (rowMinMaxHost channel) parts true)
      Q := by
  cases channel with
  | multiGrpcClients =>
      obtain ⟨e, he⟩ := @rowMinMaxHost_multi guests n (parts .server)
      exact not_completes_of_raise (i := Horizontal.Party.server) he
  | grpcClient guest =>
      cases hhost : checkPart true (parts .server) with
      | error e =>
          refine not_completes_of_raise (i := Horizontal.Party.server)
            (e := e) ?_
          show rowMinMaxHost _ _ _ = _
          unfold rowMinMaxHost
          rw [hhost]
          rfl
      | ok _ =>
          cases hguest : checkPart true (parts (.client guest)) with
          | error e =>
              refine not_completes_of_raise
                (i := Horizontal.Party.client guest) (e := e) ?_
              show rowMinMaxGuest _ _ = _
              unfold rowMinMaxGuest
              rw [hguest]
              rfl
          | ok _ => exact not_agree_single hhost hguest Q

/-- No host and guests, and no channel of either class, get the joint
extremes. -/
theorem not_jointExtremes (channel : HostChannel guests)
    (parts : Horizontal.Party guests → Part n) (v : Rows n × Rows n) :
    ¬ JointExtremes channel parts v :=
  fun h => not_agree_rowMinMax channel parts _ h.joint

/-- One row, with a column at the host and one at its only guest. -/
def onePart : Horizontal.Party 1 → Part 1
  | .server => ⟨1, fun _ _ => some 1⟩
  | .client _ => ⟨1, fun _ _ => some 2⟩

/-- `row_min` and `row_max` give one and two; `row_min_max` gives
nothing. -/
theorem not_jointExtremes_one :
    ¬ JointExtremes .multiGrpcClients onePart
      (fun _ => some 1, fun _ => some 2) :=
  fun h => not_agree_rowMinMax .multiGrpcClients onePart _ h.joint

end PrimiHub.FL.RowStats
