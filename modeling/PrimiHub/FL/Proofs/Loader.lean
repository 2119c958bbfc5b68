/-
The batches two loaders give.

One epoch is one shuffle and then the slices of the shuffled row numbers
(`forEach_eq`): after the first batch `start` is not 0 until the loader is
exhausted, so `loop_rest` has no shuffle in it. `epochs_eq` puts epoch
after epoch. Slices that reach the end flatten to what was cut, so equal
batches are equal shuffles (`sameBatches_iff`), and what is left is
whether both processes were seeded.
-/
import Mathlib.Data.List.Nodup
import PrimiHub.FL.Loader

namespace PrimiHub.FL

open Lib

variable {α β γ : Type}

namespace DataLoader

-- ============================================================== one epoch

/-- A batch that starts inside the rows. -/
theorem advance_of_lt (self : DataLoader α β)
    (hindices : self.indices.length = self.nSamples)
    (hlt : self.start < self.nSamples) :
    self.advance
      = (some (self.getBatch
          ((self.indices.drop self.start).take self.batchSize)),
        { self with start := self.start + self.batchSize }) := by
  have htake : ∀ stop, stop = (if self.start + self.batchSize > self.nSamples
      then self.nSamples else self.start + self.batchSize) →
      (self.indices.drop self.start).take (stop - self.start)
        = (self.indices.drop self.start).take self.batchSize := by
    intro stop hstop
    rw [List.take_eq_take_iff, List.length_drop, hindices, hstop]
    split <;> omega
  simp only [advance, if_pos hlt, htake _ rfl]

/-- The end of an epoch. -/
theorem advance_of_ge (self : DataLoader α β)
    (hge : self.nSamples ≤ self.start) :
    self.advance = (none, { self with start := 0 }) := by
  simp only [advance, if_neg (Nat.not_lt.mpr hge)]

/-- Inside an epoch nothing is shuffled. -/
theorem next_of_start_ne_zero (rng : GlobalRng γ) {self : DataLoader α β}
    (hstart : self.start ≠ 0) (g : γ) :
    self.next rng g = (self.advance.1, self.advance.2, g) := by
  simp only [next, shuffled, if_neg hstart]

/-- The turns of an epoch after its first batch. -/
theorem loop_rest (rng : GlobalRng γ) (fuel : Nat) (self : DataLoader α β)
    (hindices : self.indices.length = self.nSamples)
    (hpos : 0 < self.batchSize) (hstart : self.start ≠ 0)
    (hfuel : self.nSamples - self.start < fuel) (g : γ) :
    loop rng fuel self g
      = some ((slices self.batchSize (self.indices.drop self.start)
            (ceilDiv (self.nSamples - self.start) self.batchSize)).map
              self.getBatch,
          { self with start := 0 }, g) := by
  induction fuel generalizing self with
  | zero => omega
  | succ fuel ih =>
      rw [loop, next_of_start_ne_zero rng hstart]
      by_cases hlt : self.start < self.nSamples
      · rw [advance_of_lt self hindices hlt]
        have hrest := ih { self with start := self.start + self.batchSize }
          hindices hpos (by show self.start + self.batchSize ≠ 0; omega)
          (by
            show self.nSamples - (self.start + self.batchSize) < fuel
            omega)
        have hcount : ceilDiv (self.nSamples - self.start) self.batchSize
            = ceilDiv (self.nSamples - (self.start + self.batchSize))
                self.batchSize + 1 := by
          rw [ceilDiv_sub (Nat.sub_pos_of_lt hlt) hpos, Nat.sub_sub]
        simp only [hrest]
        rw [hcount, slices, List.map_cons, List.drop_drop]
        rfl
      · rw [advance_of_ge self (Nat.not_lt.mp hlt),
          Nat.sub_eq_zero_of_le (Nat.not_lt.mp hlt), ceilDiv_zero hpos]
        rfl

/-- An epoch: one shuffle, and the slices of its result. -/
theorem forEach_eq (rng : GlobalRng γ) (self : DataLoader α β)
    (hindices : self.indices.length = self.nSamples)
    (hpos : 0 < self.batchSize) (hstart : self.start = 0)
    (hshuffle : self.shuffle = true) (hsamples : 0 < self.nSamples)
    (g : γ) :
    self.forEach rng g
      = some ((slices self.batchSize (rng.shuffle g self.indices).1
            (ceilDiv self.nSamples self.batchSize)).map self.getBatch,
          { self with indices := (rng.shuffle g self.indices).1 },
          (rng.shuffle g self.indices).2) := by
  obtain ⟨dataset, label, batchSize, shuffle, nSamples, indices, start⟩ := self
  simp only at hindices hpos hstart hshuffle hsamples
  subst hstart hshuffle
  have hlen : (rng.shuffle g indices).1.length = nSamples := by
    rw [(rng.shuffle_perm g indices).length_eq, hindices]
  have hfirst := advance_of_lt (⟨dataset, label, batchSize, true, nSamples,
    (rng.shuffle g indices).1, 0⟩ : DataLoader α β) hlen hsamples
  have hrest := loop_rest rng nSamples (⟨dataset, label, batchSize, true,
    nSamples, (rng.shuffle g indices).1, 0 + batchSize⟩ : DataLoader α β)
    hlen hpos
    (by show 0 + batchSize ≠ 0; omega)
    (by show nSamples - (0 + batchSize) < nSamples; omega)
    (rng.shuffle g indices).2
  simp only [forEach, loop, next, shuffled, if_true, hfirst, hrest]
  rw [ceilDiv_sub hsamples hpos, slices, List.map_cons, List.drop_zero,
    Nat.zero_add]
  rfl

-- ============================================================= all epochs

/-- The row numbers of epoch after epoch. -/
theorem epochs_eq (rng : GlobalRng γ) (between : γ → γ) (count : Nat)
    (self : DataLoader α β)
    (hindices : self.indices.length = self.nSamples)
    (hpos : 0 < self.batchSize) (hstart : self.start = 0)
    (hshuffle : self.shuffle = true) (hsamples : 0 < self.nSamples)
    (g : γ) :
    ∃ es, self.epochs rng between count g = some es
      ∧ rowNumbers es = (List.range count).map fun epoch =>
          slices self.batchSize (rng.inEpoch between g self.indices epoch)
            (ceilDiv self.nSamples self.batchSize) := by
  induction count generalizing self g with
  | zero => exact ⟨[], rfl, rfl⟩
  | succ count ih =>
      have hone := forEach_eq rng self hindices hpos hstart hshuffle hsamples g
      have hlen : (rng.shuffle g self.indices).1.length = self.nSamples := by
        rw [(rng.shuffle_perm g self.indices).length_eq, hindices]
      obtain ⟨es, hes, hnumbers⟩ := ih
        { self with indices := (rng.shuffle g self.indices).1 }
        hlen hpos hstart hshuffle hsamples
        (between (rng.shuffle g self.indices).2)
      simp only [epochs, hone, hes]
      refine ⟨_, rfl, ?_⟩
      rw [List.range_succ_eq_map, List.map_cons, List.map_map, rowNumbers,
        List.map_cons, List.map_map]
      congr 1
      exact List.map_id _

/-- The same from a loader that was just built. -/
theorem epochs_fresh (rng : GlobalRng γ) (between : γ → γ) (count : Nat)
    {dataset : List α} (label : Option (List β)) {batchSize : Nat}
    (hpos : 0 < batchSize) (hn : 0 < dataset.length) (g : γ) :
    ∃ es, (fresh dataset label batchSize true).epochs rng between count g
        = some es
      ∧ rowNumbers es = (List.range count).map fun epoch =>
          slices batchSize
            (rng.inEpoch between g (List.range dataset.length) epoch)
            (ceilDiv dataset.length batchSize) :=
  epochs_eq rng between count (fresh dataset label batchSize true)
    List.length_range hpos rfl rfl hn g

end DataLoader

-- =============================================================== coverage

/-- Whatever is shuffled how often, the numbers stay the same. -/
theorem inEpoch_perm (rng : GlobalRng γ) (between : γ → γ) (g : γ)
    (xs : List Nat) (epoch : Nat) :
    (rng.inEpoch between g xs epoch).Perm xs := by
  induction epoch generalizing g xs with
  | zero => exact rng.shuffle_perm g xs
  | succ epoch ih => exact (ih _ _).trans (rng.shuffle_perm g xs)

/-- The slices of rearranged row numbers cover the rows. -/
theorem covers_slices {n batchSize : Nat} (hn : 0 < n) (hpos : 0 < batchSize)
    {xs : List Nat} (hperm : xs.Perm (List.range n)) :
    Covers n batchSize (slices batchSize xs (ceilDiv n batchSize)) := by
  have hlen : xs.length = n := by
    rw [hperm.length_eq, List.length_range]
  have hflat : (slices batchSize xs (ceilDiv n batchSize)).flatten = xs :=
    slices_flatten (by rw [hlen]; exact ceilDiv_mul_ge n hpos)
  refine ⟨slices_length _ _ _, ?_, ?_, ?_⟩
  · intro batch hbatch
    refine slices_ne_nil hpos ?_ hbatch
    rw [hlen]
    exact ceilDiv_mul_lt hn hpos
  · have hnodup : xs.Nodup := hperm.nodup_iff.mpr List.nodup_range
    rw [← hflat, List.nodup_flatten] at hnodup
    exact hnodup.2
  · rw [hflat]
    exact hperm

-- ============================================================ two parties

theorem init_eq (rng : GlobalRng γ) (dataset : List α)
    (label : Option (List β)) (batchSize : Nat) {seed : Int}
    (hseed : 0 ≤ seed ∧ seed < 2 ^ 32) (g : γ) :
    DataLoader.init rng dataset label batchSize true (some seed) g
      = .ok (.fresh dataset label batchSize true, rng.seeded seed g) := by
  unfold DataLoader.init GlobalRng.seeded
  by_cases hzero : seed = 0
  · simp only [if_pos hzero]
    rfl
  · simp only [if_neg hzero, GlobalRng.npRandomSeed, if_pos hseed]
    rfl

/-- Equal batches in every epoch are equal shuffles in every epoch. -/
theorem alike_iff {rng : GlobalRng γ} {between : γ → γ} {n batchSize : Nat}
    (hpos : 0 < batchSize) {g₁ g₂ : γ} :
    (∀ count, ((List.range count).map fun epoch =>
        slices batchSize (rng.inEpoch between g₁ (List.range n) epoch)
          (ceilDiv n batchSize))
      = (List.range count).map fun epoch =>
        slices batchSize (rng.inEpoch id g₂ (List.range n) epoch)
          (ceilDiv n batchSize))
      ↔ rng.Alike between n g₁ g₂ := by
  constructor
  · intro h epoch
    have hslices := List.map_inj_left.mp (h (epoch + 1)) epoch
      (List.mem_range.mpr (Nat.lt_succ_self epoch))
    have hflat : ∀ between g,
        (slices batchSize (rng.inEpoch between g (List.range n) epoch)
          (ceilDiv n batchSize)).flatten
            = rng.inEpoch between g (List.range n) epoch := by
      intro between g
      apply slices_flatten
      rw [(inEpoch_perm rng between g _ epoch).length_eq, List.length_range]
      exact ceilDiv_mul_ge n hpos
    rw [← hflat between g₁, ← hflat id g₂, hslices]
  · intro h count
    apply List.map_congr_left
    intro epoch _
    rw [h epoch]

section Parties

variable {α' : Type} (rng : GlobalRng γ) (method : Method)
  (printMetrics : Bool) (hostX : List α) (hostY : List Nat)
  (guestX : List α') (batchSize : Nat) (seed : Int)

/-- When the two parties get the same batches, from the states their
generators are in after the loaders were built. -/
theorem sameBatches_iff_alike (hn : 0 < hostX.length)
    (hlen : guestX.length = hostX.length) (hpos : 0 < batchSize)
    (hseed : 0 ≤ seed ∧ seed < 2 ^ 32) (hostState guestState : γ) :
    SameBatches rng method printMetrics hostX hostY guestX batchSize seed
        hostState guestState
      ↔ rng.Alike (hostBetween rng method printMetrics hostY) hostX.length
          (rng.seeded seed hostState) (rng.seeded seed guestState) := by
  rw [← alike_iff hpos]
  have hhost := fun count => DataLoader.epochs_fresh rng
    (hostBetween rng method printMetrics hostY) count (some hostY) hpos hn
    (rng.seeded seed hostState)
  have hguest := fun count => DataLoader.epochs_fresh rng id count
    (none : Option (List Nat)) hpos (Nat.lt_of_lt_of_eq hn hlen.symm)
    (rng.seeded seed guestState)
  simp only [hlen] at hguest
  have hcovers : ∀ (between : γ → γ) (g : γ) (count : Nat), ∀ batches ∈
      ((List.range count).map fun epoch => slices batchSize
        (rng.inEpoch between g (List.range hostX.length) epoch)
          (ceilDiv hostX.length batchSize)),
      Covers hostX.length batchSize batches := by
    intro between g count batches hbatches
    obtain ⟨epoch, -, rfl⟩ := List.mem_map.mp hbatches
    exact covers_slices hn hpos (inEpoch_perm rng between g _ epoch)
  unfold SameBatches
  constructor
  · intro h count
    obtain ⟨host, guest, hh, hg, hall⟩ := h
    rw [init_eq rng _ _ _ hseed, Except.ok.injEq] at hh hg
    subst hh hg
    obtain ⟨hostEs, guestEs, hhe, hge, hsame, -, -⟩ := hall count
    obtain ⟨es, he, hnum⟩ := hhost count
    obtain ⟨es', he', hnum'⟩ := hguest count
    have hes : es = hostEs := Option.some.inj (he.symm.trans hhe)
    have hes' : es' = guestEs := Option.some.inj (he'.symm.trans hge)
    rw [← hnum, ← hnum', hes, hes', hsame]
  · intro h
    refine ⟨_, _, init_eq rng _ _ _ hseed _, init_eq rng _ _ _ hseed _, ?_⟩
    intro count
    obtain ⟨es, he, hnum⟩ := hhost count
    obtain ⟨es', he', hnum'⟩ := hguest count
    simp only [hlen]
    refine ⟨es, es', he, he', ?_, ?_, ?_⟩
    · rw [hnum, hnum', h count]
    · rw [hnum]
      exact hcovers _ _ count
    · rw [hnum']
      exact hcovers _ _ count

/-- One row comes out in one order. -/
theorem alike_one (between : γ → γ) (g₁ g₂ : γ) :
    rng.Alike between 1 g₁ g₂ := by
  have hone : ∀ between g epoch,
      rng.inEpoch between g (List.range 1) epoch = [0] :=
    fun between g epoch =>
      List.perm_singleton.mp (inEpoch_perm rng between g _ epoch)
  intro epoch
  rw [hone, hone]

/-- Without noise the host does nothing with the generator. -/
theorem hostBetween_of_not_noisy (h : ¬ Noisy method printMetrics hostY) :
    hostBetween rng method printMetrics hostY = id := by
  funext g
  rw [hostBetween, if_neg h]
  rfl

/-- The same seed other than 0 gives every two processes the same batches
as long as the host adds no noise to its metrics; otherwise they get them
exactly where the shuffles happen to come out alike, which without a seed
and for more than one row they do not for all states. -/
theorem sameBatches_iff (hn : 0 < hostX.length)
    (hlen : guestX.length = hostX.length) (hpos : 0 < batchSize)
    (hseed : 0 ≤ seed ∧ seed < 2 ^ 32) :
    (∀ hostState guestState,
      SameBatches rng method printMetrics hostX hostY guestX batchSize seed
          hostState guestState
        ↔ (seed ≠ 0 ∧ ¬ Noisy method printMetrics hostY)
          ∨ rng.Alike (hostBetween rng method printMetrics hostY)
              hostX.length (rng.seeded seed hostState)
              (rng.seeded seed guestState))
    ∧ (¬ Noisy method printMetrics hostY → rng.Varied →
      ((∀ hostState guestState, SameBatches rng method printMetrics hostX
          hostY guestX batchSize seed hostState guestState)
        ↔ seed ≠ 0 ∨ hostX.length = 1)) := by
  have hiff := sameBatches_iff_alike rng method printMetrics hostX hostY guestX
    batchSize seed hn hlen hpos hseed
  have hseeded : seed ≠ 0 → ¬ Noisy method printMetrics hostY →
      ∀ s₁ s₂, rng.Alike (hostBetween rng method printMetrics hostY)
        hostX.length (rng.seeded seed s₁) (rng.seeded seed s₂) := by
    intro hne hquiet s₁ s₂ epoch
    rw [hostBetween_of_not_noisy rng method printMetrics hostY hquiet,
      GlobalRng.seeded, GlobalRng.seeded, if_neg hne, if_neg hne]
  constructor
  · intro s₁ s₂
    rw [hiff]
    constructor
    · exact Or.inr
    · intro h
      obtain ⟨hne, hquiet⟩ | halike := h
      · exact hseeded hne hquiet s₁ s₂
      · exact halike
  · intro hquiet hvaried
    constructor
    · intro hall
      by_cases hzero : seed = 0
      · right
        by_contra hone
        obtain ⟨g₁, g₂, hdiff⟩ := hvaried hostX.length (by omega)
        have halike := (hiff g₁ g₂).mp (hall g₁ g₂) 0
        rw [GlobalRng.seeded, GlobalRng.seeded, if_pos hzero, if_pos hzero]
          at halike
        exact hdiff halike
      · exact Or.inl hzero
    · intro h s₁ s₂
      apply (hiff s₁ s₂).mpr
      obtain hne | hone := h
      · exact hseeded hne hquiet s₁ s₂
      · rw [hone]
        exact alike_one rng _ _ _

end Parties

-- ====================================================== a shuffle by draws

/-- Two places of a list exchanged. -/
def swapAt (xs : List Nat) (i j : Nat) : List Nat :=
  if h : i < xs.length ∧ j < xs.length then
    (xs.set i (xs.get ⟨j, h.2⟩)).set j (xs.get ⟨i, h.1⟩)
  else xs

/-- The loop of numpy's shuffle, from the last place down: place `i` is
exchanged with the drawn one. -/
def drawnLoop : Nat → List Nat → List Nat → List Nat × List Nat
  | 0, draws, xs => (xs, draws)
  | _ + 1, [], xs => (xs, [])
  | i + 1, j :: draws, xs => drawnLoop i draws (swapAt xs (i + 1) j)

theorem swapAt_perm (xs : List Nat) (i j : Nat) :
    (swapAt xs i j).Perm xs := by
  unfold swapAt
  split
  · next h => exact List.set_set_perm h.1 h.2
  · exact List.Perm.refl xs

theorem drawnLoop_perm (i : Nat) (draws : List Nat) (xs : List Nat) :
    (drawnLoop i draws xs).1.Perm xs := by
  induction i generalizing draws xs with
  | zero => exact List.Perm.refl xs
  | succ i ih =>
      cases draws with
      | nil => exact List.Perm.refl xs
      | cons j draws => exact (ih draws _).trans (swapAt_perm xs (i + 1) j)

/-- numpy's shuffle, with the numbers the generator draws as its state.
After `np.random.seed(0)` the first draw below 2 is 0, after
`np.random.seed(1)` it is 1. -/
def drawn : GlobalRng (List Nat) where
  seed s := [s % 2]
  shuffle draws xs := drawnLoop (xs.length - 1) draws xs
  normal draws count := draws.drop count
  shuffle_perm draws xs := drawnLoop_perm (xs.length - 1) draws xs

/-- The last row comes first, or nothing moves. -/
theorem drawn_varied : drawn.Varied := by
  intro n hn
  refine ⟨[0], [], ?_⟩
  obtain ⟨n, rfl⟩ : ∃ m, n = m + 2 := ⟨n - 2, by omega⟩
  show (drawnLoop ((List.range (n + 2)).length - 1) [0] _).1
    ≠ (drawnLoop ((List.range (n + 2)).length - 1) [] _).1
  rw [List.length_range]
  show (drawnLoop n [] (swapAt (List.range (n + 2)) (n + 1) 0)).1
    ≠ List.range (n + 2)
  have hend : (drawnLoop n [] (swapAt (List.range (n + 2)) (n + 1) 0)).1
      = swapAt (List.range (n + 2)) (n + 1) 0 := by
    cases n <;> rfl
  rw [hend]
  intro h
  have hfirst := congrArg (·[0]?) h
  simp [swapAt] at hfirst

theorem sameBatches_iff_drawn :
    SameBatches drawn .plaintext true [10, 11] [0, 1] [20, 21] 1 1 [0] [1]
    ∧ ∀ s₁ s₂,
      SameBatches drawn .plaintext true [10] [1] [20] 1 0 s₁ s₂ :=
  ⟨((sameBatches_iff drawn .plaintext true [10, 11] [0, 1] [20, 21] 1 1
      (by decide) rfl (by decide) (by decide)).1 [0] [1]).mpr
        (Or.inl ⟨by decide, by decide⟩),
    ((sameBatches_iff drawn .plaintext true [10] [1] [20] 1 0 (by decide)
      rfl (by decide) (by decide)).2 (by decide) drawn_varied).mpr
        (Or.inr rfl)⟩

/-- With the seed 0 the host's first batch is row 1 and the guest's is
row 0. -/
theorem not_sameBatches_seed_zero :
    ¬ SameBatches drawn .plaintext true [10, 11] [0, 1] [20, 21] 1 0 [0]
        [1] := by
  intro h
  have halike := (sameBatches_iff_alike drawn .plaintext true [10, 11]
    [0, 1] [20, 21] 1 0 (by decide) rfl (by decide) (by decide) [0] [1]).mp h
  exact absurd (halike 0) (by decide)

end PrimiHub.FL
