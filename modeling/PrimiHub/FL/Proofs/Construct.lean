/-
Host and guest build a tree in lock step.

Both decide from the same two optional gains, so they take the same
branch (`hostDecision_eq`), and at each node they meet at the sums, at the
cuts and, if they split, at the ids (`split_synced`). The recursion then
keeps an invariant: the tables of both parties are over one set of
labels, and their records agree (`InStep`). A record is given once, at
the node of its key (`Numbered`), and stands in the lookup table of the
party that owns it. Both return, unless `min_child_sample` is not positive
and they come to an empty table (`Overflows`).
-/
import PrimiHub.FL.Boost
import PrimiHub.Lib.Meet

namespace PrimiHub.FL

open Lib

variable {ι ω σ η : Type}

-- ================================================================ records

/-- The next record of a role. -/
def Party.record (self : Party ω) : Role → Nat
  | .host => self.hostRecord
  | .guest => self.guestRecord

/-- Host and guest count alike, and each can look up its own records. -/
structure InStep (host guest : Party ω) : Prop where
  hostRecord : host.hostRecord = guest.hostRecord
  guestRecord : host.guestRecord = guest.guestRecord
  hostLookup : ∀ r < host.hostRecord, (host.lookupTable r).isSome
  guestLookup : ∀ r < guest.guestRecord, (guest.lookupTable r).isSome

/-- The keys of a tree are the records given while it was built. -/
structure Numbered (tree : Tree ω) (before after : Party ω) : Prop where
  le : ∀ role, before.record role ≤ after.record role
  range : ∀ key ∈ tree.keys,
    before.record key.1 ≤ key.2 ∧ key.2 < after.record key.1
  nodup : tree.keys.Nodup

theorem InStep.fresh : InStep (Party.fresh ω) (Party.fresh ω) where
  hostRecord := rfl
  guestRecord := rfl
  hostLookup := by
    intro r hr
    cases hr
  guestLookup := by
    intro r hr
    cases hr

theorem Numbered.leaf {before after : Party ω}
    (h : ∀ role, before.record role ≤ after.record role) :
    Numbered .leaf before after where
  le := h
  range := by
    intro key hkey
    cases hkey
  nodup := List.nodup_nil

/-- An entry joins the records below it. -/
theorem isSome_update {lookup : Nat → Option (String × ω)} {n : Nat}
    {entry : String × ω} (h : ∀ r < n, (lookup r).isSome) :
    ∀ r < n + 1, (Function.update lookup n (some entry) r).isSome := by
  intro r hr
  by_cases hrn : r = n
  · rw [hrn, Function.update_self]
    rfl
  · rw [Function.update_of_ne hrn]
    exact h r (by omega)

/-- A node is numbered before its subtrees, the left one before the
right. -/
theorem Numbered.node {role : Role} {record : Nat} {wLeft wRight : ω}
    {left right : Tree ω} {before split middle after : Party ω}
    (hle : ∀ role, before.record role ≤ split.record role)
    (hrecord : record = before.record role)
    (hlt : record < split.record role)
    (hleft : Numbered left split middle)
    (hright : Numbered right middle after) :
    Numbered (.node role record wLeft left wRight right) before after where
  le r := Nat.le_trans (hle r) (Nat.le_trans (hleft.le r) (hright.le r))
  range := by
    intro key hkey
    obtain _ | ⟨_, hkey⟩ := hkey
    · have h₁ := hleft.le role
      have h₂ := hright.le role
      show before.record role ≤ record ∧ record < after.record role
      omega
    · have h₁ := hle key.1
      have h₂ := hleft.le key.1
      have h₃ := hright.le key.1
      obtain hkey | hkey := List.mem_append.mp hkey
      · have h := hleft.range key hkey
        omega
      · have h := hright.range key hkey
        omega
  nodup := by
    apply List.nodup_cons.mpr
    constructor
    · -- the subtrees only have records given after the split
      intro hkey
      obtain hkey | hkey := List.mem_append.mp hkey
      · have h : split.record role ≤ record := (hleft.range _ hkey).1
        omega
      · have h : middle.record role ≤ record := (hright.range _ hkey).1
        have h₁ := hleft.le role
        omega
    · apply List.nodup_append.mpr
      refine ⟨hleft.nodup, hright.nodup, ?_⟩
      intro a ha b hb hab
      have h₁ := (hleft.range a ha).2
      have h₂ := (hright.range b hb).1
      rw [hab] at h₁
      omega

-- ============================================================== decisions

section Decisions

variable [Zero ω] [DecidableEq ω] [LT ω] [DecidableLT ω]

theorem hostDecision_eq (hostGain guestGain : Option ω) :
    hostDecision hostGain guestGain = guestDecision hostGain guestGain := by
  unfold hostDecision guestDecision
  rw [Bool.and_comm (!truthy hostGain)]

/-- The host splits on a gain of its own. -/
theorem isSome_of_hostDecision {hostGain guestGain : Option ω}
    (h : hostDecision hostGain guestGain = .host) : hostGain.isSome := by
  cases hostGain with
  | some x => rfl
  | none =>
      cases guestGain with
      | none => cases h
      | some y =>
          by_cases hy : y = 0 <;> simp [hostDecision, truthy, hy] at h

/-- The guest splits on a gain of its own. -/
theorem isSome_of_guestDecision {hostGain guestGain : Option ω}
    (h : guestDecision hostGain guestGain = .guest) : guestGain.isSome := by
  cases guestGain with
  | some x => rfl
  | none =>
      cases hostGain with
      | none => cases h
      | some y =>
          by_cases hy : y = 0 <;> simp [guestDecision, truthy, hy] at h

end Decisions

-- =================================================================== node

/-- What host and guest have after the exchange at a node. -/
structure SplitAgree (x : Table ι ω) (before : Party ω)
    (host guest : Option (Split ι ω) × Party ω) : Prop where
  same : host.1 = guest.1
  inStep : InStep host.2 guest.2
  le : ∀ role, before.record role ≤ host.2.record role
  hasLeft : ∀ s, host.1 = some s → x.Has s.idsW.idLeft
  hasRight : ∀ s, host.1 = some s → x.Has s.idsW.idRight
  record : ∀ s, host.1 = some s →
    s.record = before.record s.role ∧ s.record < host.2.record s.role

/-- No split. -/
theorem SplitAgree.stop {x : Table ι ω} {self self' : Party ω}
    (h : InStep self self') :
    SplitAgree x self (none, self) (none, self') where
  same := rfl
  inStep := h
  le _ := Nat.le_refl _
  hasLeft := by
    intro s hs
    cases hs
  hasRight := by
    intro s hs
    cases hs
  record := by
    intro s hs
    cases hs

/-- A split that both have. -/
theorem SplitAgree.split {x : Table ι ω} {before host guest : Party ω}
    {s : Split ι ω} (hstep : InStep host guest)
    (hle : ∀ role, before.record role ≤ host.record role)
    (hids : x.Has s.idsW.idLeft ∧ x.Has s.idsW.idRight)
    (hrecord : s.record = before.record s.role
      ∧ s.record < host.record s.role) :
    SplitAgree x before (some s, host) (some s, guest) where
  same := rfl
  inStep := hstep
  le := hle
  hasLeft := by
    intro s' hs'
    cases hs'
    exact hids.1
  hasRight := by
    intro s' hs'
    cases hs'
    exact hids.2
  record := by
    intro s' hs'
    cases hs'
    exact hrecord

/-- The host's split. -/
theorem SplitAgree.host {x : Table ι ω} {self self' : Party ω}
    (h : InStep self self') {idsW : IdsW ι ω} {entry : String × ω}
    (hids : x.Has idsW.idLeft ∧ x.Has idsW.idRight) :
    SplitAgree x self
      (some ⟨.host, self.hostRecord, idsW⟩,
        { self with
          lookupTable := Function.update self.lookupTable self.hostRecord
            (some entry)
          hostRecord := self.hostRecord + 1 })
      (some ⟨.host, self'.hostRecord, idsW⟩,
        { self' with hostRecord := self'.hostRecord + 1 }) := by
  rw [← h.hostRecord]
  refine SplitAgree.split ?_ ?_ hids ⟨rfl, Nat.lt_succ_self _⟩
  · exact
      { hostRecord := rfl
        guestRecord := h.guestRecord
        hostLookup := isSome_update h.hostLookup
        guestLookup := h.guestLookup }
  · intro role
    cases role with
    | host => exact Nat.le_succ _
    | guest => exact Nat.le_refl _

/-- The guest's split. -/
theorem SplitAgree.guest {x : Table ι ω} {self self' : Party ω}
    (h : InStep self self') {idsW : IdsW ι ω} {entry : String × ω}
    (hids : x.Has idsW.idLeft ∧ x.Has idsW.idRight) :
    SplitAgree x self
      (some ⟨.guest, self.guestRecord, idsW⟩,
        { self with guestRecord := self.guestRecord + 1 })
      (some ⟨.guest, self'.guestRecord, idsW⟩,
        { self' with
          lookupTable := Function.update self'.lookupTable self'.guestRecord
            (some entry)
          guestRecord := self'.guestRecord + 1 }) := by
  have hlookup : ∀ r < self.guestRecord, (self'.lookupTable r).isSome := by
    rw [h.guestRecord]
    exact h.guestLookup
  rw [← h.guestRecord]
  refine SplitAgree.split ?_ ?_ hids ⟨rfl, Nat.lt_succ_self _⟩
  · exact
      { hostRecord := h.hostRecord
        guestRecord := rfl
        hostLookup := h.hostLookup
        guestLookup := isSome_update hlookup }
  · intro role
    cases role with
    | host => exact Nat.le_refl _
    | guest => exact Nat.le_succ _

variable [LT ω] [DecidableLT ω]

theorem has_splitIds (x : Table ι ω) (var : String) (cut : ω) :
    x.Has (splitIds x var cut).idLeft
      ∧ x.Has (splitIds x var cut).idRight :=
  ⟨x.has_filter _, x.has_filter _⟩

variable [Zero ω] [DecidableEq ω] [Neg ω] [Add ω] [Div ω]

/-- The exchange at a node: sums, cuts and, for a split, ids. -/
theorem split_synced {settings : Settings ω} {search : Searches ι ω σ η}
    {node : List Branch} {x y : Table ι ω} {gh : Frame ι (Grad ω)}
    {ghs : Frame ι η} {self self' : Party ω} (hxy : SameIndex x y)
    (h : InStep self self') {E : Raised → Prop} :
    Settles (hostSplit search node x gh self)
      (guestSplit settings search node y ghs self') E
      (SplitAgree x self) := by
  unfold hostSplit guestSplit
  apply Settles.get_put
  apply Settles.put_get
  dsimp only
  generalize search.hostBestCut node x gh = hostBest
  generalize search.guestBestCut node (search.sums node y ghs) gh = guestBest
  rw [← hostDecision_eq]
  cases hd : hostDecision (hostBest.map (·.bestGain))
    (guestBest.map (·.gain)) with
  | stop => exact Settles.ret (SplitAgree.stop h)
  | guest =>
      rw [hostDecision_eq] at hd
      have hsome := isSome_of_guestDecision hd
      cases guestBest with
      | none => cases hsome
      | some best =>
          apply Settles.get_put
          apply Settles.ret
          refine SplitAgree.guest h ?_
          -- the guest cut its own table, over the same labels
          have hids := has_splitIds y best.var best.cut
          exact ⟨hids.1.of_sameIndex hxy.symm, hids.2.of_sameIndex hxy.symm⟩
  | host =>
      have hsome := isSome_of_hostDecision hd
      cases hostBest with
      | none => cases hsome
      | some best =>
          apply Settles.put_get
          apply Settles.ret
          exact SplitAgree.host h (has_splitIds x best.bestVar best.bestCut)

-- =================================================================== tree

/-- What host and guest have after a tree. -/
structure TreeAgree (x : Table ι ω) (before : Party ω) (fT : Frame ι ω)
    (host : Tree ω × Party ω × Frame ι ω) (guest : Tree ω × Party ω) :
    Prop where
  same : host.1 = guest.1
  leaf : x.size = 0 → host.1 = .leaf
  inStep : InStep host.2.1 guest.2
  numbered : Numbered host.1 before host.2.1
  index : host.2.2.index = fT.index

variable [DecidableEq ι]

/-- Host and guest build one tree in lock step. -/
theorem construct_synced {settings : Settings ω}
    {search : Searches ι ω σ η} (node : List Branch) (x y : Table ι ω)
    (fT : Frame ι ω) (depth : Int) (gh : Frame ι (Grad ω)) (ghs : Frame ι η)
    (self self' : Party ω) (hxy : SameIndex x y) (hfT : fT.Has x.index)
    (hgh : gh.Has x.index) (hghs : ghs.Has x.index)
    (h : InStep self self') :
    Settles (hostTreeConstruct settings search node x fT depth gh self)
      (guestTreeConstruct settings search node y ghs depth self')
      (Overflows settings) (TreeAgree x self fT) := by
  -- on the levels that are left below `max_depth`
  induction hn : (settings.maxDepth + 1 - depth).toNat
    using Nat.strongRecOn
    generalizing node x y fT depth gh ghs self self' with
  | _ n ih =>
    rw [hostTreeConstruct, guestTreeConstruct, ← hxy.size_eq]
    by_cases hstop : (x.size : Int) < settings.minChildSample
        ∨ settings.maxDepth < depth
    · rw [if_pos hstop, if_pos hstop]
      exact Settles.ret
        ⟨rfl, fun _ => rfl, h, .leaf fun _ => Nat.le_refl _, rfl⟩
    rw [if_neg hstop, if_neg hstop]
    by_cases hempty : x.size = 0
    · rw [if_pos hempty, if_pos hempty]
      exact Settles.raise ⟨rfl, by omega⟩
    rw [if_neg hempty, if_neg hempty]
    apply Settles.bind (split_synced hxy h)
    rintro ⟨split, host⟩ ⟨split', guest⟩ - hsplit
    obtain rfl : split = split' := hsplit.same
    cases split with
    | none =>
        exact Settles.ret
          ⟨rfl, fun _ => rfl, hsplit.inStep, .leaf hsplit.le, rfl⟩
    | some s =>
        obtain ⟨role, record, ids⟩ := s
        have hl : x.Has ids.idLeft := hsplit.hasLeft _ rfl
        have hr : x.Has ids.idRight := hsplit.hasRight _ rfl
        have hrecord := hsplit.record _ rfl
        -- every row the ids name is in the tables of both
        obtain ⟨fT₁, hfT₁, hindex₁⟩ :=
          fT.assign_of_has ids.wLeft (hfT.trans hl)
        obtain ⟨fT₂, hfT₂, hindex₂⟩ :=
          fT₁.assign_of_has ids.wRight ((hfT.trans hr).of_index hindex₁)
        have hindex : fT₂.index = fT.index := hindex₂.trans hindex₁
        simp only [Frame.loc_of_has hl, Frame.loc_of_has hr,
          Frame.loc_of_has (hgh.trans hl), Frame.loc_of_has (hgh.trans hr),
          Frame.loc_of_has (hl.of_sameIndex hxy),
          Frame.loc_of_has (hr.of_sameIndex hxy),
          Frame.loc_of_has (hghs.trans hl), Frame.loc_of_has (hghs.trans hr),
          hfT₁, hfT₂, Proc.lift_ok, Proc.ret_bind]
        -- both recurse on the rows of the ids, one level deeper
        have hchild : ∀ (branch : Branch) (rows : Index ι) (fT' : Frame ι ω)
            (host' guest' : Party ω), x.Has rows → fT'.index = fT.index →
            InStep host' guest' →
            Settles (hostTreeConstruct settings search (node ++ [branch])
                ⟨rows, x.row⟩ fT' (depth + 1) ⟨rows, gh.row⟩ host')
              (guestTreeConstruct settings search (node ++ [branch])
                ⟨rows, y.row⟩ ⟨rows, ghs.row⟩ (depth + 1) guest')
              (Overflows settings) (TreeAgree ⟨rows, x.row⟩ host' fT') := by
          intro branch rows fT' host' guest' hrows hindex' hstep
          refine ih _ ?_ _ _ _ _ _ _ _ _ _ ?_ ?_ ?_ ?_ hstep rfl
          · omega
          · exact fun _ => Iff.rfl
          · exact (hfT.trans hrows).of_index hindex'
          · exact fun _ hi => hi
          · exact fun _ hi => hi
        apply Settles.bind (hchild .left ids.idLeft fT₂ host guest hl hindex
          hsplit.inStep)
        rintro ⟨left, host₁, fT₃⟩ ⟨left', guest₁⟩ - hleft
        obtain rfl : left = left' := hleft.same
        have hindex₃ : fT₃.index = fT.index := hleft.index.trans hindex
        apply Settles.bind (hchild .right ids.idRight fT₃ host₁ guest₁ hr
          hindex₃ hleft.inStep)
        rintro ⟨right, host₂, fT₄⟩ ⟨right', guest₂⟩ - hright
        obtain rfl : right = right' := hright.same
        exact Settles.ret
          { same := rfl
            leaf := fun h => absurd h hempty
            inStep := hright.inStep
            numbered := .node hsplit.le hrecord.1 hrecord.2 hleft.numbered
              hright.numbered
            index := hright.index.trans hindex₃ }

end PrimiHub.FL
