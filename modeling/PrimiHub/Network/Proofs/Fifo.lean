/-
When the channel of the MPC engine is FIFO.

The threads of one side are workers in turn (Lib/InTurn.lean) as long as
each sends or takes a message only when those of the earlier calls are
through; what the transport holds is then what has been sent and not yet
taken (`Ordered.stream`), and the library hands over by rank. The gate
before the receives orders nothing: in no run is it ever closed
(`gate_open`).
-/
import Mathlib.Algebra.Order.BigOperators.Group.List
import Mathlib.Algebra.Order.Ring.Nat
import PrimiHub.Lib.InTurn
import PrimiHub.Network.MessageInterface

namespace PrimiHub.Network

open Lib (InTurn Along run run_invariant along_cons_iff)
open Node (Bytes)

-- ===================================================== one entry of a list

section Entry

variable {α β : Type*} {l : List α} {i : Nat} {x y : α}

/-- An entry changed in what `f` does not see. -/
theorem map_set_of_eq {f : α → β} (hi : l[i]? = some x) (h : f y = f x) :
    (l.set i y).map f = l.map f := by
  obtain ⟨back, heq, -, hset⟩ := Lib.exists_around hi
  rw [hset]
  conv_rhs => rw [heq]
  rw [List.map_append, List.map_append, List.map_cons, List.map_cons, h]

theorem forall_set {P : α → Prop} (h : ∀ t ∈ l, P t) (hy : P y) :
    ∀ t ∈ l.set i y, P t := by
  intro t ht
  obtain ht | rfl := List.mem_or_eq_of_mem_set ht
  · exact h t ht
  · exact hy

/-- An entry counted once more. -/
theorem sum_map_set {f : α → Nat} (hi : l[i]? = some x)
    (h : f y = f x + 1) :
    ((l.set i y).map f).sum = (l.map f).sum + 1 := by
  obtain ⟨back, heq, -, hset⟩ := Lib.exists_around hi
  rw [hset]
  conv_rhs => rw [heq]
  rw [List.map_append, List.map_append, List.sum_append, List.sum_append,
    List.map_cons, List.map_cons, List.sum_cons, List.sum_cons, h]
  omega

end Entry

-- ================================================================= threads

/-- What a sending thread has done and what it has left. -/
def SendThread.work (t : SendThread) : List Bytes × List Bytes :=
  (t.buffers.take t.index, t.buffers.drop t.index)

/-- What a receiving thread has copied and the sizes it has left. -/
def RecvThread.work (t : RecvThread) : List Bytes × List Nat :=
  (t.received, t.sizes.drop t.received.length)

/-- What holds of a sending thread at any time. -/
structure SendThread.Ok (t : SendThread) : Prop where
  index_le : t.index ≤ t.buffers.length
  bytes : t.bytesSend = ((t.buffers.take t.index).map List.length).sum
  called : t.calls ≠ [] →
    t.index = t.buffers.length ∧ t.calls = [⟨.success, t.bytesSend⟩]

/-- What a receiving thread has to show in each phase. -/
def RecvThread.PhaseOk (t : RecvThread) : Prop :=
  match t.phase with
  | .entering => t.received = [] ∧ t.calls = []
  | .waiting => False
  | .receiving => t.calls = []
  | .leaving | .finished =>
      t.received.length = t.sizes.length
        ∧ t.calls = [⟨.success, t.bytesRecv⟩]

/-- What holds of a receiving thread while all goes well. -/
structure RecvThread.Ok (t : RecvThread) : Prop where
  errcode : t.errcode = .success
  fits : t.received.map List.length = t.sizes.take t.received.length
  bytes : t.bytesRecv = (t.received.map List.length).sum
  phase : t.PhaseOk

/-- A call of `async_send` begins well. -/
theorem SendThread.Ok.start (buffers : List Bytes) :
    (SendThread.start buffers).Ok :=
  ⟨Nat.zero_le _, rfl, fun h => absurd rfl h⟩

/-- A call of `async_recv` begins well. -/
theorem RecvThread.Ok.start (sizes : List Nat) :
    (RecvThread.start sizes).Ok :=
  ⟨rfl, rfl, rfl, rfl, rfl⟩

/-- No thread takes more than its buffers. -/
theorem RecvThread.Ok.length_le {t : RecvThread} (h : t.Ok) :
    t.received.length ≤ t.sizes.length := by
  have hlength := congrArg List.length h.fits
  rw [List.length_map, List.length_take] at hlength
  omega

/-- The turn of a sending thread, in all it does. -/
theorem SendThread.send_inv {t t' : SendThread} {buffer : Bytes}
    (h : t.send = some (buffer, t')) :
    t.work.2 = buffer :: t'.work.2 ∧ t'.work.1 = t.work.1 ++ [buffer]
      ∧ t'.buffers = t.buffers ∧ t'.index = t.index + 1
      ∧ t'.calls = t.calls := by
  unfold SendThread.send at h
  split at h
  · cases h
  · rename_i hbuffer
    cases h
    obtain ⟨hlt, rfl⟩ := List.getElem?_eq_some_iff.mp hbuffer
    exact ⟨List.drop_eq_getElem_cons hlt, List.take_succ_eq_append_getElem hlt,
      rfl, rfl, rfl⟩

/-- The turn keeps the count of the bytes. -/
theorem SendThread.Ok.send {t t' : SendThread} {buffer : Bytes} (ht : t.Ok)
    (h : t.send = some (buffer, t')) : t'.Ok := by
  unfold SendThread.send at h
  split at h
  · cases h
  · rename_i hbuffer
    cases h
    obtain ⟨hlt, rfl⟩ := List.getElem?_eq_some_iff.mp hbuffer
    refine ⟨hlt, ?_, fun hcalls => ?_⟩
    · dsimp only
      rw [List.take_succ_eq_append_getElem hlt, List.map_append,
        List.sum_append, ht.bytes]
      rfl
    · have hindex := (ht.called hcalls).1
      omega

/-- A sending thread calls its handler once, after its last buffer. -/
theorem SendThread.complete_inv {t t' : SendThread}
    (h : t.complete = some t') :
    t.index = t.buffers.length ∧ t.calls = []
      ∧ t' = { t with calls := [⟨.success, t.bytesSend⟩] } := by
  unfold SendThread.complete at h
  split at h
  · rename_i hdone
    exact ⟨hdone.1, hdone.2, (Option.some.inj h).symm⟩
  · cases h

theorem SendThread.Ok.complete {t t' : SendThread} (ht : t.Ok)
    (h : t.complete = some t') : t'.Ok := by
  obtain ⟨hindex, -, rfl⟩ := SendThread.complete_inv h
  exact ⟨ht.index_le, ht.bytes, fun _ => ⟨hindex, rfl⟩⟩

/-- A thread that wants a message of some size. -/
theorem RecvThread.wants_eq_some_iff {t : RecvThread} {size : Nat} :
    t.wants = some size ↔ t.phase = .receiving ∧ t.errcode = .success
      ∧ t.sizes[t.received.length]? = some size := by
  unfold RecvThread.wants
  split
  · rename_i hloop
    simp only [hloop.1, hloop.2, true_and]
  · rename_i hloop
    refine ⟨fun h => absurd h (Option.some_ne_none size).symm, fun h => ?_⟩
    exact absurd ⟨h.1, h.2.1⟩ hloop

/-- The turn of a receiving thread that gets a message of the right
size. -/
theorem RecvThread.recv_eq {t : RecvThread} {size : Nat} {recvStr : Bytes}
    (hne : recvStr ≠ []) (hsize : recvStr.length = size) :
    t.recv size recvStr = { t with
      received := t.received ++ [recvStr]
      bytesRecv := t.bytesRecv + size } := by
  unfold RecvThread.recv
  rw [if_neg (mt List.length_eq_zero_iff.mp hne), if_neg (not_not.mpr hsize)]

/-- A message of the size of the buffer is copied whole, and no error is
set. -/
theorem RecvThread.Ok.recv {t : RecvThread} {size : Nat} {recvStr : Bytes}
    (ht : t.Ok) (hwants : t.wants = some size) (hne : recvStr ≠ [])
    (hsize : recvStr.length = size) : (t.recv size recvStr).Ok := by
  obtain ⟨hphase, -, hget⟩ := RecvThread.wants_eq_some_iff.mp hwants
  obtain ⟨hlt, hget⟩ := List.getElem?_eq_some_iff.mp hget
  have hphaseOk := ht.phase
  rw [RecvThread.recv_eq hne hsize]
  refine ⟨ht.errcode, ?_, ?_, ?_⟩
  · dsimp only
    rw [List.map_append, ht.fits, List.length_append, List.length_singleton,
      List.take_succ_eq_append_getElem hlt, List.map_singleton, hsize, hget]
  · dsimp only
    rw [List.map_append, List.sum_append, ht.bytes, List.map_singleton,
      List.sum_singleton, hsize]
  · unfold RecvThread.PhaseOk at hphaseOk ⊢
    rw [hphase] at hphaseOk
    dsimp only
    rw [hphase]
    exact hphaseOk

/-- A receiving thread calls its handler with what it has counted. -/
theorem RecvThread.complete_inv {t t' : RecvThread}
    (h : t.complete = some t') :
    t.phase = .receiving ∧ t.wants = none
      ∧ t' = { t with
        phase := .leaving
        calls := t.calls ++ [⟨t.errcode, t.bytesRecv⟩] } := by
  unfold RecvThread.complete at h
  split at h
  · rename_i hdone
    exact ⟨hdone.1, hdone.2, (Option.some.inj h).symm⟩
  · cases h

/-- A thread whose loop has ended well has filled all its buffers. -/
theorem RecvThread.Ok.full {t : RecvThread} (ht : t.Ok)
    (hphase : t.phase = .receiving) (hwants : t.wants = none) :
    t.received.length = t.sizes.length := by
  unfold RecvThread.wants at hwants
  rw [if_pos ⟨hphase, ht.errcode⟩] at hwants
  exact Nat.le_antisymm ht.length_le (List.getElem?_eq_none_iff.mp hwants)

theorem RecvThread.Ok.complete {t t' : RecvThread} (ht : t.Ok)
    (h : t.complete = some t') : t'.Ok := by
  obtain ⟨hphase, hwants, rfl⟩ := RecvThread.complete_inv h
  have hcalls := ht.phase
  unfold RecvThread.PhaseOk at hcalls
  rw [hphase] at hcalls
  refine ⟨ht.errcode, ht.fits, ht.bytes, ht.full hphase hwants, ?_⟩
  dsimp only
  rw [hcalls, ht.errcode]
  rfl

-- ================================================================ the gate

/-- The gate of the receives is open: nobody is in the queue and the mutex
is free. -/
def GateOpen (s : ChannelState) : Prop :=
  s.recvWaitQueue = [] ∧ s.recvQueueMu = none

/-- A thread goes through an open gate. -/
theorem recvEnter_inv {s s' : ChannelState} {i : Nat} {t : RecvThread}
    (hgate : GateOpen s) (h : s.recvEnter i t = some s') :
    t.phase = .entering
      ∧ s' = { s with recvs := s.recvs.set i { t with phase := .receiving } } := by
  unfold ChannelState.recvEnter at h
  split at h
  · rename_i hphase
    rw [if_pos hgate.1] at h
    exact ⟨hphase.1, (Option.some.inj h).symm⟩
  · cases h

/-- A thread leaves and notifies nobody. -/
theorem recvLeave_inv {s s' : ChannelState} {i : Nat} {t : RecvThread}
    (hgate : GateOpen s) (h : s.recvLeave i t = some s') :
    t.phase = .leaving
      ∧ s' = { s with recvs := s.recvs.set i { t with phase := .finished } } := by
  unfold ChannelState.recvLeave at h
  split at h
  · rename_i hphase
    split at h
    · exact ⟨hphase.1, (Option.some.inj h).symm⟩
    · rename_i hqueue
      rw [hgate.1] at hqueue
      cases hqueue
  · cases h

section Steps

variable {sender receiver : TaskMessagePassInterface} {c : Calls}
  {s s' : ChannelState} {i : Nat}

theorem step_asyncSend_inv
    (h : channelStep sender receiver c s .asyncSend = some s') :
    ∃ buffers, c.sends[s.sends.length]? = some buffers
      ∧ s' = { s with sends := s.sends ++ [SendThread.start buffers] } := by
  obtain ⟨buffers, hbuffers, heq⟩ := Option.bind_eq_some_iff.mp h
  exact ⟨buffers, hbuffers, (Option.some.inj heq).symm⟩

theorem step_asyncRecv_inv
    (h : channelStep sender receiver c s .asyncRecv = some s') :
    ∃ sizes, c.recvs[s.recvs.length]? = some sizes
      ∧ s' = { s with recvs := s.recvs ++ [RecvThread.start sizes] } := by
  obtain ⟨sizes, hsizes, heq⟩ := Option.bind_eq_some_iff.mp h
  exact ⟨sizes, hsizes, (Option.some.inj heq).symm⟩

/-- One buffer leaves the thread and joins the queue of the key. -/
theorem step_send_inv
    (h : channelStep sender receiver c s (.send i) = some s') :
    ∃ t buffer t', s.sends[i]? = some t ∧ t.send = some (buffer, t')
      ∧ s' = { s with
        sends := s.sends.set i t'
        transport := Function.update s.transport sender.sendKey
          (s.transport sender.sendKey ++ [buffer]) } := by
  obtain ⟨t, ht, hrest⟩ := Option.bind_eq_some_iff.mp h
  obtain ⟨⟨buffer, t'⟩, hsend, heq⟩ := Option.bind_eq_some_iff.mp hrest
  exact ⟨t, buffer, t', ht, hsend, (Option.some.inj heq).symm⟩

theorem step_sendComplete_inv
    (h : channelStep sender receiver c s (.sendComplete i) = some s') :
    ∃ t t', s.sends[i]? = some t ∧ t.complete = some t'
      ∧ s' = { s with sends := s.sends.set i t' } := by
  obtain ⟨t, ht, hrest⟩ := Option.bind_eq_some_iff.mp h
  obtain ⟨t', hcomplete, heq⟩ := Option.bind_eq_some_iff.mp hrest
  exact ⟨t, t', ht, hcomplete, (Option.some.inj heq).symm⟩

/-- Behind an open gate a thread goes straight to its receives. -/
theorem step_recvEnter_inv (hgate : GateOpen s)
    (h : channelStep sender receiver c s (.recvEnter i) = some s') :
    ∃ t, s.recvs[i]? = some t ∧ t.phase = .entering
      ∧ s' = { s with recvs := s.recvs.set i { t with phase := .receiving } } := by
  obtain ⟨t, ht, hrest⟩ := Option.bind_eq_some_iff.mp h
  exact ⟨t, ht, recvEnter_inv hgate hrest⟩

/-- A receiving thread takes the head of the queue of its key. -/
theorem step_recv_inv
    (h : channelStep sender receiver c s (.recv i) = some s') :
    ∃ t size recvStr rest, s.recvs[i]? = some t ∧ t.wants = some size
      ∧ s.transport receiver.recvKey = recvStr :: rest
      ∧ s' = { s with
        recvs := s.recvs.set i (t.recv size recvStr)
        transport := Function.update s.transport receiver.recvKey rest } := by
  obtain ⟨t, ht, hrest⟩ := Option.bind_eq_some_iff.mp h
  obtain ⟨size, hsize, hrest⟩ := Option.bind_eq_some_iff.mp hrest
  split at hrest
  · cases hrest
  · rename_i recvStr rest htransport
    exact ⟨t, size, recvStr, rest, ht, hsize, htransport,
      (Option.some.inj hrest).symm⟩

theorem step_recvComplete_inv
    (h : channelStep sender receiver c s (.recvComplete i) = some s') :
    ∃ t t', s.recvs[i]? = some t ∧ t.complete = some t'
      ∧ s' = { s with recvs := s.recvs.set i t' } := by
  obtain ⟨t, ht, hrest⟩ := Option.bind_eq_some_iff.mp h
  obtain ⟨t', hcomplete, heq⟩ := Option.bind_eq_some_iff.mp hrest
  exact ⟨t, t', ht, hcomplete, (Option.some.inj heq).symm⟩

/-- A thread that leaves finds nobody to wake. -/
theorem step_recvLeave_inv (hgate : GateOpen s)
    (h : channelStep sender receiver c s (.recvLeave i) = some s') :
    ∃ t, s.recvs[i]? = some t ∧ t.phase = .leaving
      ∧ s' = { s with recvs := s.recvs.set i { t with phase := .finished } } := by
  obtain ⟨t, ht, hrest⟩ := Option.bind_eq_some_iff.mp h
  exact ⟨t, ht, recvLeave_inv hgate hrest⟩

/-- No step closes the gate: a thread enters the queue of waiting threads
only when another is already in it. -/
theorem GateOpen.step (hgate : GateOpen s) {a : ChannelAction}
    (h : channelStep sender receiver c s a = some s') : GateOpen s' := by
  cases a with
  | asyncSend =>
      obtain ⟨_, _, rfl⟩ := step_asyncSend_inv h
      exact hgate
  | asyncRecv =>
      obtain ⟨_, _, rfl⟩ := step_asyncRecv_inv h
      exact hgate
  | send i =>
      obtain ⟨_, _, _, _, _, rfl⟩ := step_send_inv h
      exact hgate
  | sendComplete i =>
      obtain ⟨_, _, _, _, rfl⟩ := step_sendComplete_inv h
      exact hgate
  | recvEnter i =>
      obtain ⟨_, _, _, rfl⟩ := step_recvEnter_inv hgate h
      exact hgate
  | recv i =>
      obtain ⟨_, _, _, _, _, _, _, rfl⟩ := step_recv_inv h
      exact hgate
  | recvComplete i =>
      obtain ⟨_, _, _, _, rfl⟩ := step_recvComplete_inv h
      exact hgate
  | recvLeave i =>
      obtain ⟨_, _, _, rfl⟩ := step_recvLeave_inv hgate h
      exact hgate

/-- In no run does a receive ever wait for another one. -/
theorem gate_open {as : List ChannelAction}
    (h : run (channelStep sender receiver c) .init as = some s) :
    GateOpen s :=
  run_invariant (fun _ _ _ hgate hstep => hgate.step hstep) ⟨rfl, rfl⟩ h

end Steps

-- ================================================================ in order

/-- What holds while the threads of each side take turns; key is the one
that the two peers share. -/
structure Ordered (c : Calls) (key : String) (s : ChannelState) : Prop where
  sendsMade : s.sends.map SendThread.buffers <+: c.sends
  recvsMade : s.recvs.map RecvThread.sizes <+: c.recvs
  sendsOk : ∀ t ∈ s.sends, t.Ok
  recvsOk : ∀ t ∈ s.recvs, t.Ok
  sendTurn : InTurn (s.sends.map SendThread.work)
  recvTurn : InTurn (s.recvs.map RecvThread.work)
  stream : ((s.sends.map SendThread.work).map Prod.fst).flatten
    = ((s.recvs.map RecvThread.work).map Prod.fst).flatten ++ s.transport key
  gate : GateOpen s

/-- A prefix and the entry after it. -/
theorem prefix_snoc {α : Type*} {l m : List α} {x : α} (h : l <+: m)
    (hx : m[l.length]? = some x) : l ++ [x] <+: m := by
  obtain ⟨tail, rfl⟩ := h
  rw [List.getElem?_append_right (Nat.le_refl _), Nat.sub_self] at hx
  cases tail with
  | nil => cases hx
  | cons y tail =>
      cases hx
      exact ⟨tail, by rw [List.append_assoc, List.singleton_append]⟩

/-- What is made of the calls so far, in the place of the call. -/
theorem getElem?_of_made {α β : Type*} {l : List α} {m : List β} {f : α → β}
    {i : Nat} {x : α} (h : l.map f <+: m) (hi : l[i]? = some x) :
    m[i]? = some (f x) := by
  obtain ⟨tail, rfl⟩ := h
  have hmap : (l.map f)[i]? = some (f x) := by
    rw [List.getElem?_map, hi, Option.map_some]
  obtain ⟨hlt, -⟩ := List.getElem?_eq_some_iff.mp hmap
  rw [List.getElem?_append_left hlt, hmap]

section Ordered

variable {sender receiver : TaskMessagePassInterface} {c : Calls}
  {s s' : ChannelState} {i : Nat} {key : String}

/-- Nothing is under way yet. -/
theorem Ordered.init : Ordered c key .init :=
  ⟨List.nil_prefix, List.nil_prefix, fun _ h => absurd h List.not_mem_nil,
    fun _ h => absurd h List.not_mem_nil, List.Pairwise.nil,
    List.Pairwise.nil, rfl, rfl, rfl⟩

/-- The works of the two sides match, rank by rank. -/
theorem Ordered.matched (h : Ordered c key s) (hc : c.Matching) :
    Lib.Matched (s.sends.map SendThread.work)
      (s.recvs.map RecvThread.work) := by
  intro i p q hp hq
  rw [List.getElem?_map, Option.map_eq_some_iff] at hp hq
  obtain ⟨t, ht, rfl⟩ := hp
  obtain ⟨r, hr, rfl⟩ := hq
  have hmatch := congrArg List.length (hc.2 i t.buffers r.sizes
    (getElem?_of_made h.sendsMade ht) (getElem?_of_made h.recvsMade hr))
  have hindex := (h.sendsOk t (List.mem_of_getElem? ht)).index_le
  have hreceived := (h.recvsOk r (List.mem_of_getElem? hr)).length_le
  rw [List.length_map] at hmatch
  dsimp only [SendThread.work, RecvThread.work]
  rw [List.length_take, List.length_drop, List.length_drop]
  omega

/-- What a sending thread has done and has left is what it was given. -/
theorem SendThread.work_append (t : SendThread) :
    t.work.1 ++ t.work.2 = t.buffers :=
  List.take_append_drop t.index t.buffers

/-- What a receive in its turn has done and has left, and that those
before it have nothing left. -/
theorem RecvThread.work_of_turn {recvs : List RecvThread} {i size : Nat}
    {t : RecvThread} (hi : recvs[i]? = some t) (hwants : t.wants = some size)
    (horder : ∀ t ∈ recvs.take i, t.received.length = t.sizes.length) :
    (recvs.map RecvThread.work)[i]?
        = some (t.received, size :: t.sizes.drop (t.received.length + 1))
      ∧ ∀ w ∈ (recvs.map RecvThread.work).take i, w.2 = [] := by
  obtain ⟨-, -, hget⟩ := RecvThread.wants_eq_some_iff.mp hwants
  obtain ⟨hlt, hget⟩ := List.getElem?_eq_some_iff.mp hget
  constructor
  · rw [List.getElem?_map, hi, Option.map_some, RecvThread.work,
      List.drop_eq_getElem_cons hlt, hget]
  · intro w hw
    rw [← List.map_take] at hw
    obtain ⟨r, hr, rfl⟩ := List.mem_map.mp hw
    exact List.drop_eq_nil_of_le (Nat.le_of_eq (horder r hr).symm)

/-- The message a receive takes in its turn is the next buffer of the send
of its rank. -/
theorem Ordered.message {t : RecvThread} {size : Nat} {recvStr : Bytes}
    {rest : List Bytes} (h : Ordered c key s) (hc : c.Matching)
    (hi : s.recvs[i]? = some t) (hwants : t.wants = some size)
    (htransport : s.transport key = recvStr :: rest)
    (horder : ∀ t ∈ s.recvs.take i, t.received.length = t.sizes.length) :
    recvStr ≠ [] ∧ recvStr.length = size := by
  obtain ⟨-, -, hget⟩ := RecvThread.wants_eq_some_iff.mp hwants
  obtain ⟨hlt, hget⟩ := List.getElem?_eq_some_iff.mp hget
  have hstream := h.stream
  rw [htransport] at hstream
  obtain ⟨hwork, hbefore⟩ := RecvThread.work_of_turn hi hwants horder
  obtain ⟨p, hp, hprefix⟩ := h.sendTurn.next h.recvTurn hstream
    (h.matched hc) hwork hbefore
  rw [List.getElem?_map, Option.map_eq_some_iff] at hp
  obtain ⟨sent, hsent, rfl⟩ := hp
  rw [sent.work_append] at hprefix
  -- the next buffer of that send is the message
  obtain ⟨later, hbuffers⟩ := hprefix
  have hmem : recvStr ∈ sent.buffers := by
    rw [← hbuffers]
    simp
  have hcall := getElem?_of_made h.sendsMade hsent
  refine ⟨hc.1 _ (List.mem_of_getElem? hcall) _ hmem, ?_⟩
  have hsizes := hc.2 i sent.buffers t.sizes hcall
    (getElem?_of_made h.recvsMade hi)
  have hnext : t.sizes[t.received.length]? = some recvStr.length := by
    rw [← hsizes, ← hbuffers]
    simp
  rw [List.getElem?_eq_getElem hlt, hget] at hnext
  exact (Option.some.inj hnext).symm

/-- A sending thread that only calls its handler. -/
theorem Ordered.setSend (h : Ordered c key s) {t t' : SendThread}
    (hi : s.sends[i]? = some t) (hok : t'.Ok)
    (hbuffers : t'.buffers = t.buffers) (hwork : t'.work = t.work) :
    Ordered c key { s with sends := s.sends.set i t' } := by
  have hmap := map_set_of_eq hi hwork
  refine ⟨?_, h.recvsMade, forall_set h.sendsOk hok, h.recvsOk, ?_, h.recvTurn,
    ?_, h.gate⟩
  · rw [map_set_of_eq hi hbuffers]
    exact h.sendsMade
  · rw [hmap]
    exact h.sendTurn
  · rw [hmap]
    exact h.stream

/-- A receiving thread that goes on without taking a message. -/
theorem Ordered.setRecv (h : Ordered c key s) {t t' : RecvThread}
    (hi : s.recvs[i]? = some t) (hok : t'.Ok)
    (hsizes : t'.sizes = t.sizes) (hwork : t'.work = t.work) :
    Ordered c key { s with recvs := s.recvs.set i t' } := by
  have hmap := map_set_of_eq hi hwork
  refine ⟨h.sendsMade, ?_, h.sendsOk, forall_set h.recvsOk hok, h.sendTurn, ?_,
    ?_, h.gate⟩
  · rw [map_set_of_eq hi hsizes]
    exact h.recvsMade
  · rw [hmap]
    exact h.recvTurn
  · rw [hmap]
    exact h.stream

/-- A new sender has all its buffers before it, behind those of the others.
-/
theorem Ordered.asyncSend (h : Ordered c key s) {buffers : List Bytes}
    (hcall : c.sends[s.sends.length]? = some buffers) :
    Ordered c key
      { s with sends := s.sends ++ [SendThread.start buffers] } := by
  refine ⟨?_, h.recvsMade, ?_, h.recvsOk, ?_, h.recvTurn, ?_, h.gate⟩
  · rw [List.map_append]
    refine prefix_snoc h.sendsMade ?_
    rw [List.length_map, hcall]
    rfl
  · exact List.forall_mem_append.mpr ⟨h.sendsOk,
      List.forall_mem_singleton.mpr (SendThread.Ok.start buffers)⟩
  · rw [List.map_append]
    exact h.sendTurn.append buffers
  · dsimp only
    rw [List.map_append, List.map_append, List.flatten_append, h.stream]
    simp [SendThread.work, SendThread.start]

/-- A new receiver comes after all others. -/
theorem Ordered.asyncRecv (h : Ordered c key s) {sizes : List Nat}
    (hcall : c.recvs[s.recvs.length]? = some sizes) :
    Ordered c key { s with recvs := s.recvs ++ [RecvThread.start sizes] } := by
  refine ⟨h.sendsMade, ?_, h.sendsOk, ?_, h.sendTurn, ?_, ?_, h.gate⟩
  · rw [List.map_append]
    refine prefix_snoc h.recvsMade ?_
    rw [List.length_map, hcall]
    rfl
  · exact List.forall_mem_append.mpr ⟨h.recvsOk,
      List.forall_mem_singleton.mpr (RecvThread.Ok.start sizes)⟩
  · rw [List.map_append]
    exact h.recvTurn.append sizes
  · dsimp only
    rw [h.stream, List.map_append, List.map_append, List.flatten_append]
    simp [RecvThread.work, RecvThread.start]

/-- A sender whose predecessors are through adds to the end of the stream.
-/
theorem Ordered.send (h : Ordered c key s) {t t' : SendThread}
    {buffer : Bytes} (hi : s.sends[i]? = some t)
    (hsend : t.send = some (buffer, t'))
    (horder : ∀ t ∈ s.sends.take i, t.index = t.buffers.length) :
    Ordered c key { s with
      sends := s.sends.set i t'
      transport := Function.update s.transport key
        (s.transport key ++ [buffer]) } := by
  obtain ⟨hleft, hdone, hbuffers, -, -⟩ := SendThread.send_inv hsend
  have hwork : (s.sends.map SendThread.work)[i]?
      = some (t.work.1, buffer :: t'.work.2) := by
    rw [List.getElem?_map, hi, Option.map_some, ← hleft]
  have hbefore : ∀ w ∈ (s.sends.map SendThread.work).take i, w.2 = [] := by
    intro w hw
    rw [← List.map_take] at hw
    obtain ⟨r, hr, rfl⟩ := List.mem_map.mp hw
    exact List.drop_eq_nil_of_le (Nat.le_of_eq (horder r hr).symm)
  -- nothing is left before it, so its buffer is the next of all buffers
  obtain ⟨hturn, hflat⟩ := h.sendTurn.advance hwork hbefore buffer
  rw [← hdone] at hturn hflat
  refine ⟨?_, h.recvsMade, ?_, h.recvsOk, ?_, h.recvTurn, ?_, h.gate⟩
  · rw [map_set_of_eq hi hbuffers]
    exact h.sendsMade
  · exact forall_set h.sendsOk
      ((h.sendsOk t (List.mem_of_getElem? hi)).send hsend)
  · rw [List.map_set]
    exact hturn
  · dsimp only
    rw [List.map_set, hflat, Function.update_self, h.stream,
      List.append_assoc]

/-- A receiver whose predecessors are through takes the head of the stream,
which has the size of its buffer. -/
theorem Ordered.recv (h : Ordered c key s) (hc : c.Matching)
    {t : RecvThread} {size : Nat} {recvStr : Bytes} {rest : List Bytes}
    (hi : s.recvs[i]? = some t) (hwants : t.wants = some size)
    (htransport : s.transport key = recvStr :: rest)
    (horder : ∀ t ∈ s.recvs.take i, t.received.length = t.sizes.length) :
    Ordered c key { s with
      recvs := s.recvs.set i (t.recv size recvStr)
      transport := Function.update s.transport key rest } := by
  obtain ⟨hne, hsize⟩ := h.message hc hi hwants htransport horder
  obtain ⟨hwork, hbefore⟩ := RecvThread.work_of_turn hi hwants horder
  obtain ⟨hturn, hflat⟩ := h.recvTurn.advance hwork hbefore recvStr
  -- it has the size of the buffer, so neither error branch is taken
  have heq : (t.recv size recvStr).work
      = (t.received ++ [recvStr], t.sizes.drop (t.received.length + 1)) := by
    rw [RecvThread.recv_eq hne hsize, RecvThread.work, List.length_append,
      List.length_singleton]
  rw [← heq] at hturn hflat
  refine ⟨h.sendsMade, ?_, h.sendsOk, ?_, h.sendTurn, ?_, ?_, h.gate⟩
  · rw [map_set_of_eq hi]
    · exact h.recvsMade
    · rw [RecvThread.recv_eq hne hsize]
  · exact forall_set h.recvsOk
      ((h.recvsOk t (List.mem_of_getElem? hi)).recv hwants hne hsize)
  · rw [List.map_set]
    exact hturn
  · dsimp only
    rw [List.map_set, hflat, Function.update_self, h.stream, htransport,
      List.append_assoc, List.singleton_append]

/-- Passing the gate changes the phase alone. -/
theorem RecvThread.Ok.enter {t : RecvThread} (ht : t.Ok)
    (hphase : t.phase = .entering) :
    RecvThread.Ok { t with phase := .receiving } := by
  have hcalls := ht.phase
  unfold RecvThread.PhaseOk at hcalls
  rw [hphase] at hcalls
  exact ⟨ht.errcode, ht.fits, ht.bytes, hcalls.2⟩

/-- Leaving changes the phase alone. -/
theorem RecvThread.Ok.leave {t : RecvThread} (ht : t.Ok)
    (hphase : t.phase = .leaving) :
    RecvThread.Ok { t with phase := .finished } := by
  have hcalls := ht.phase
  unfold RecvThread.PhaseOk at hcalls
  rw [hphase] at hcalls
  exact ⟨ht.errcode, ht.fits, ht.bytes, hcalls⟩

/-- Every step in order keeps the two sides in order. -/
theorem Ordered.step (hjoined : Joined sender receiver) (hc : c.Matching)
    {a : ChannelAction} (h : Ordered c receiver.recvKey s)
    (horder : InOrder s a)
    (hstep : channelStep sender receiver c s a = some s') :
    Ordered c receiver.recvKey s' := by
  cases a with
  | asyncSend =>
      obtain ⟨buffers, hcall, rfl⟩ := step_asyncSend_inv hstep
      exact h.asyncSend hcall
  | asyncRecv =>
      obtain ⟨sizes, hcall, rfl⟩ := step_asyncRecv_inv hstep
      exact h.asyncRecv hcall
  | send i =>
      obtain ⟨t, buffer, t', hi, hsend, rfl⟩ := step_send_inv hstep
      rw [hjoined.key_eq]
      exact h.send hi hsend horder
  | sendComplete i =>
      obtain ⟨t, t', hi, hcomplete, rfl⟩ := step_sendComplete_inv hstep
      have hok := (h.sendsOk t (List.mem_of_getElem? hi)).complete hcomplete
      obtain ⟨-, -, rfl⟩ := SendThread.complete_inv hcomplete
      exact h.setSend hi hok rfl rfl
  | recvEnter i =>
      obtain ⟨t, hi, hphase, rfl⟩ := step_recvEnter_inv h.gate hstep
      have hok := (h.recvsOk t (List.mem_of_getElem? hi)).enter hphase
      exact h.setRecv hi hok rfl rfl
  | recv i =>
      obtain ⟨t, size, recvStr, rest, hi, hwants, htransport, rfl⟩ :=
        step_recv_inv hstep
      exact h.recv hc hi hwants htransport horder
  | recvComplete i =>
      obtain ⟨t, t', hi, hcomplete, rfl⟩ := step_recvComplete_inv hstep
      have hok := (h.recvsOk t (List.mem_of_getElem? hi)).complete hcomplete
      obtain ⟨-, -, rfl⟩ := RecvThread.complete_inv hcomplete
      exact h.setRecv hi hok rfl rfl
  | recvLeave i =>
      obtain ⟨t, hi, hphase, rfl⟩ := step_recvLeave_inv h.gate hstep
      have hok := (h.recvsOk t (List.mem_of_getElem? hi)).leave hphase
      exact h.setRecv hi hok rfl rfl

end Ordered

-- ============================================================== completion

section Completion

variable {sender receiver : TaskMessagePassInterface} {c : Calls}
  {s s' : ChannelState} {i : Nat} {key : String}

/-- A receive whose handler has been called is through. -/
theorem RecvThread.Ok.called {t : RecvThread} (ht : t.Ok)
    (hcalls : t.calls ≠ []) :
    t.received.length = t.sizes.length
      ∧ t.calls = [⟨.success, t.bytesRecv⟩] := by
  have hphase := ht.phase
  unfold RecvThread.PhaseOk at hphase
  split at hphase
  · exact absurd hphase.2 hcalls
  · exact hphase.elim
  · exact absurd hphase hcalls
  · exact hphase
  · exact hphase

/-- What the handler of a sending thread hears. -/
theorem SendThread.Ok.completion {t : SendThread} (ht : t.Ok)
    (hcalls : t.calls ≠ []) :
    t.calls = [⟨.success, (t.buffers.map List.length).sum⟩] := by
  obtain ⟨hindex, hcalled⟩ := ht.called hcalls
  rw [hcalled, ht.bytes, hindex, List.take_length]

/-- A receive that is through has all that the send of its rank gave. -/
theorem Ordered.delivers (h : Ordered c key s) (hc : c.Matching)
    {t : RecvThread} (hi : s.recvs[i]? = some t) (hcalls : t.calls ≠ []) :
    t.Delivers s.sends[i]? := by
  have hok := h.recvsOk t (List.mem_of_getElem? hi)
  obtain ⟨hfull, hcalled⟩ := hok.called hcalls
  refine ⟨?_, ?_⟩
  · rw [hcalled, hok.bytes, hok.fits, hfull, List.take_length]
  · have hwork : (s.recvs.map RecvThread.work)[i]? = some (t.received, []) := by
      rw [List.getElem?_map, hi, Option.map_some, RecvThread.work, hfull,
        List.drop_length]
    -- a call without buffers is through at once, and its send has none either
    by_cases hnil : t.received = []
    · cases hsent : s.sends[i]? with
      | none => exact hnil
      | some sent =>
          have hmatch := hc.2 i sent.buffers t.sizes
            (getElem?_of_made h.sendsMade hsent)
            (getElem?_of_made h.recvsMade hi)
          rw [hnil, List.length_nil] at hfull
          rw [List.length_eq_zero_iff.mp hfull.symm,
            List.map_eq_nil_iff] at hmatch
          rw [hnil, Option.map_some, Option.getD_some, hmatch]
    · obtain ⟨p, hp, heq⟩ := h.sendTurn.complete h.recvTurn h.stream
        (h.matched hc) hwork hnil
      rw [List.getElem?_map, Option.map_eq_some_iff] at hp
      obtain ⟨sent, hsent, rfl⟩ := hp
      rw [heq, sent.work_append, hsent, Option.map_some, Option.getD_some]

/-- A thread that cannot go on sending has called its handler. -/
theorem Ordered.send_called (h : Ordered c key s)
    (hquiet : Quiet sender receiver c s) {t : SendThread}
    (hi : s.sends[i]? = some t) :
    t.index = t.buffers.length ∧ t.calls ≠ [] := by
  have hok := h.sendsOk t (List.mem_of_getElem? hi)
  -- a buffer left would be a step that is not blocked
  have hindex : t.index = t.buffers.length := by
    by_contra hne
    have hlt : t.index < t.buffers.length :=
      Nat.lt_of_le_of_ne hok.index_le hne
    have hstuck := hquiet (.send i) rfl
    simp [channelStep, hi, SendThread.send, hlt] at hstuck
  refine ⟨hindex, fun hcalls => ?_⟩
  have hstuck := hquiet (.sendComplete i) rfl
  simp [channelStep, hi, SendThread.complete, hindex, hcalls] at hstuck

/-- A receive that waits for a message, with those before it through and
nothing on its way, has no send of its rank. -/
theorem Ordered.starved (h : Ordered c key s) (hc : c.Matching)
    (hquiet : Quiet sender receiver c s) {t : RecvThread} {size : Nat}
    (hi : s.recvs[i]? = some t) (hwants : t.wants = some size)
    (htransport : s.transport key = [])
    (hcalled : ∀ k < i, ∀ r, s.recvs[k]? = some r → r.calls ≠ []) :
    s.sends.length ≤ i := by
  obtain ⟨-, -, hget⟩ := RecvThread.wants_eq_some_iff.mp hwants
  obtain ⟨hlt, -⟩ := List.getElem?_eq_some_iff.mp hget
  have hstream := h.stream
  rw [htransport, List.append_nil] at hstream
  have hwork : (s.recvs.map RecvThread.work)[i]? = some (t.received,
      t.sizes[t.received.length] :: t.sizes.drop (t.received.length + 1)) := by
    rw [List.getElem?_map, hi, Option.map_some, RecvThread.work,
      List.drop_eq_getElem_cons hlt]
  have hbefore : ∀ w ∈ (s.recvs.map RecvThread.work).take i, w.2 = [] := by
    intro w hw
    rw [← List.map_take] at hw
    obtain ⟨r, hr, rfl⟩ := List.mem_map.mp hw
    obtain ⟨k, hk⟩ := List.mem_iff_getElem?.mp hr
    rw [List.getElem?_take] at hk
    split at hk
    · rename_i hki
      have hok := h.recvsOk r (List.mem_of_getElem? hk)
      have hfull := (hok.called (hcalled k hki r hk)).1
      exact List.drop_eq_nil_of_le (Nat.le_of_eq hfull.symm)
    · cases hk
  have hgiven : ∀ p ∈ s.sends.map SendThread.work, p.2 = [] := by
    intro p hp
    obtain ⟨sent, hsent, rfl⟩ := List.mem_map.mp hp
    obtain ⟨k, hk⟩ := List.mem_iff_getElem?.mp hsent
    have hindex := (h.send_called hquiet hk).1
    exact List.drop_eq_nil_of_le (Nat.le_of_eq hindex.symm)
  have hle := h.recvTurn.not_starved hstream (h.matched hc) hgiven hwork hbefore
  rwa [List.length_map] at hle

/-- Where no thread can take a step, every receive whose send has been made
has called its handler. -/
theorem Ordered.recv_called (h : Ordered c receiver.recvKey s)
    (hc : c.Matching) (hquiet : Quiet sender receiver c s) {t : RecvThread}
    (hi : s.recvs[i]? = some t) (hlt : i < s.sends.length) :
    t.calls ≠ [] := by
  induction i using Nat.strongRecOn generalizing t with
  | ind i ih =>
      intro hcalls
      have hok := h.recvsOk t (List.mem_of_getElem? hi)
      have hphase := hok.phase
      unfold RecvThread.PhaseOk at hphase
      split at hphase
      · rename_i hentering
        have hstuck := hquiet (.recvEnter i) rfl
        simp [channelStep, hi, ChannelState.recvEnter, hentering,
          h.gate.1, h.gate.2] at hstuck
      · exact hphase
      · rename_i hreceiving
        cases hwants : t.wants with
        | none =>
            have hstuck := hquiet (.recvComplete i) rfl
            simp [channelStep, hi, RecvThread.complete, hreceiving,
              hwants] at hstuck
        | some size =>
            have hstuck := hquiet (.recv i) rfl
            cases htransport : s.transport receiver.recvKey with
            | cons recvStr rest =>
                simp [channelStep, hi, hwants, htransport] at hstuck
            | nil =>
                have hstarved := h.starved hc hquiet hi hwants htransport
                  fun k hk r hr => ih k hk hr (Nat.lt_trans hk hlt)
                omega
      · exact absurd (hphase.2.symm.trans hcalls) (List.cons_ne_nil _ _)
      · exact absurd (hphase.2.symm.trans hcalls) (List.cons_ne_nil _ _)

/-- While the threads are in turn, every receiver has what was sent at its
rank. -/
theorem Ordered.fifo (h : Ordered c receiver.recvKey s) (hc : c.Matching) :
    Fifo sender receiver c s := by
  refine ⟨?_, ?_, fun hquiet => ⟨?_, ?_⟩⟩
  · intro t ht hcalls
    exact (h.sendsOk t ht).completion hcalls
  · intro i t hi hcalls
    exact h.delivers hc hi hcalls
  · intro t ht
    obtain ⟨i, hi⟩ := List.mem_iff_getElem?.mp ht
    exact (h.send_called hquiet hi).2
  · intro i t hi hlt
    exact h.recv_called hc hquiet hi hlt

-- ============================================================ steps taken

/-- The steps a sending thread has taken. -/
def SendThread.spent (t : SendThread) : Nat := t.index + t.calls.length

/-- The steps a receiving thread has taken outside the loop. -/
def Phase.spent : Phase → Nat
  | .entering | .waiting => 0
  | .receiving => 1
  | .leaving => 2
  | .finished => 3

/-- The steps a receiving thread has taken. -/
def RecvThread.spent (t : RecvThread) : Nat :=
  t.received.length + t.phase.spent

/-- The steps all threads have taken. -/
def ChannelState.spent (s : ChannelState) : Nat :=
  (s.sends.map SendThread.spent).sum + (s.recvs.map RecvThread.spent).sum

/-- A turn of a sender is spent. -/
theorem spent_setSend {t t' : SendThread} (hi : s.sends[i]? = some t)
    (hspent : t'.spent = t.spent + 1) (transport : String → List Bytes) :
    ChannelState.spent { s with
      sends := s.sends.set i t'
      transport := transport } = s.spent + 1 := by
  unfold ChannelState.spent
  dsimp only
  rw [sum_map_set hi hspent]
  omega

/-- A turn of a receiver is spent. -/
theorem spent_setRecv {t t' : RecvThread} (hi : s.recvs[i]? = some t)
    (hspent : t'.spent = t.spent + 1) (transport : String → List Bytes) :
    ChannelState.spent { s with
      recvs := s.recvs.set i t'
      transport := transport } = s.spent + 1 := by
  unfold ChannelState.spent
  dsimp only
  rw [sum_map_set hi hspent]
  omega

/-- A step of a thread, in order, is one more step taken. -/
theorem Ordered.spent_step (hc : c.Matching) {a : ChannelAction}
    (h : Ordered c receiver.recvKey s) (horder : InOrder s a)
    (hstep : channelStep sender receiver c s a = some s') :
    s'.spent = s.spent + if a.isThread then 1 else 0 := by
  cases a with
  | asyncSend =>
      obtain ⟨buffers, -, rfl⟩ := step_asyncSend_inv hstep
      simp [ChannelState.spent, ChannelAction.isThread, SendThread.spent,
        SendThread.start]
  | asyncRecv =>
      obtain ⟨sizes, -, rfl⟩ := step_asyncRecv_inv hstep
      simp [ChannelState.spent, ChannelAction.isThread, RecvThread.spent,
        RecvThread.start, Phase.spent]
  | send i =>
      obtain ⟨t, buffer, t', hi, hsend, rfl⟩ := step_send_inv hstep
      obtain ⟨-, -, -, hindex, hcalls⟩ := SendThread.send_inv hsend
      refine spent_setSend hi ?_ _
      rw [SendThread.spent, SendThread.spent, hindex, hcalls]
      omega
  | sendComplete i =>
      obtain ⟨t, t', hi, hcomplete, rfl⟩ := step_sendComplete_inv hstep
      obtain ⟨-, hcalls, rfl⟩ := SendThread.complete_inv hcomplete
      refine spent_setSend hi ?_ _
      rw [SendThread.spent, SendThread.spent, hcalls]
      rfl
  | recvEnter i =>
      obtain ⟨t, hi, hphase, rfl⟩ := step_recvEnter_inv h.gate hstep
      refine spent_setRecv hi ?_ _
      rw [RecvThread.spent, RecvThread.spent, hphase]
      rfl
  | recv i =>
      obtain ⟨t, size, recvStr, rest, hi, hwants, htransport, rfl⟩ :=
        step_recv_inv hstep
      -- in its turn the message fits, so the thread goes on
      obtain ⟨hne, hsize⟩ := h.message hc hi hwants htransport horder
      refine spent_setRecv hi ?_ _
      rw [RecvThread.recv_eq hne hsize, RecvThread.spent, RecvThread.spent]
      dsimp only
      rw [List.length_append, List.length_singleton]
      omega
  | recvComplete i =>
      obtain ⟨t, t', hi, hcomplete, rfl⟩ := step_recvComplete_inv hstep
      obtain ⟨hphase, -, rfl⟩ := RecvThread.complete_inv hcomplete
      refine spent_setRecv hi ?_ _
      rw [RecvThread.spent, RecvThread.spent, hphase]
      rfl
  | recvLeave i =>
      obtain ⟨t, hi, hphase, rfl⟩ := step_recvLeave_inv h.gate hstep
      refine spent_setRecv hi ?_ _
      rw [RecvThread.spent, RecvThread.spent, hphase]
      rfl

/-- A bound for each call bounds the calls begun so far. -/
theorem sum_map_le_of_made {α β : Type*} {l : List α} {m : List β}
    {f : α → β} {g : α → Nat} {w : β → Nat} (h : l.map f <+: m)
    (hle : ∀ t ∈ l, g t ≤ w (f t)) : (l.map g).sum ≤ (m.map w).sum := by
  obtain ⟨tail, rfl⟩ := h
  have hsum : (l.map g).sum ≤ (l.map fun t => w (f t)).sum :=
    List.sum_le_sum hle
  rw [List.map_append, List.sum_append, List.map_map]
  exact Nat.le_trans hsum (Nat.le_add_right _ _)

/-- A sender has a turn for each buffer and one for its handler. -/
theorem SendThread.Ok.spent_le {t : SendThread} (ht : t.Ok) :
    t.spent ≤ t.buffers.length + 1 := by
  unfold SendThread.spent
  have hindex := ht.index_le
  by_cases hcalls : t.calls = []
  · rw [hcalls, List.length_nil]
    omega
  · rw [(ht.called hcalls).2, List.length_singleton]
    omega

/-- A receiver has a turn for each buffer, two for the gate and one for its
handler. -/
theorem RecvThread.Ok.spent_le {t : RecvThread} (ht : t.Ok) :
    t.spent ≤ t.sizes.length + 3 := by
  have hphase : t.phase.spent ≤ 3 := by
    cases t.phase <;> decide
  have hlength := ht.length_le
  unfold RecvThread.spent
  omega

/-- The threads take no more steps than they have to. -/
theorem Ordered.spent_le (h : Ordered c key s) : s.spent ≤ c.work :=
  Nat.add_le_add
    (sum_map_le_of_made h.sendsMade fun t ht => (h.sendsOk t ht).spent_le)
    (sum_map_le_of_made h.recvsMade fun t ht => (h.recvsOk t ht).spent_le)

end Completion

-- ============================================================== main result

/-- Where messages are sent and taken only in the order of the calls, the
channel is FIFO, and its threads come to an end. -/
theorem fifo_of_inOrder {sender receiver : TaskMessagePassInterface}
    {c : Calls} {as : List ChannelAction} {s : ChannelState}
    (hjoined : Joined sender receiver) (hc : c.Matching)
    (hrun : run (channelStep sender receiver c) .init as = some s)
    (horder : Along (channelStep sender receiver c) InOrder .init as) :
    Fifo sender receiver c s
      ∧ as.countP ChannelAction.isThread ≤ c.work := by
  have hordered : Ordered c receiver.recvKey s :=
    Lib.run_invariant_of_along
      (fun _ _ _ h hin hstep => h.step hjoined hc hin hstep) Ordered.init
      horder hrun
  have hcount : s.spent
      = ChannelState.spent .init + as.countP ChannelAction.isThread := by
    refine Lib.run_count_of_along (I := Ordered c receiver.recvKey) ?_ ?_
      Ordered.init horder hrun
    · intro _ _ _ h hin hstep
      exact h.step hjoined hc hin hstep
    · intro _ _ _ h hin hstep
      exact h.spent_step hc hin hstep
  have hle := hordered.spent_le
  have hzero : ChannelState.spent .init = 0 := rfl
  exact ⟨hordered.fifo hc, by omega⟩

-- ================================================================ two calls

/-- The two ends of a channel. -/
def senderEnd : TaskMessagePassInterface := ⟨"req", "0", "PARTY0", "PARTY1"⟩

def receiverEnd : TaskMessagePassInterface := ⟨"req", "0", "PARTY1", "PARTY0"⟩

/-- Two sends of one byte each, and two receives. -/
def twoCalls : Calls := ⟨[[[1]], [[2]]], [[1], [1]]⟩

theorem joined_ends : Joined senderEnd receiverEnd := ⟨rfl, rfl, rfl, rfl⟩

theorem twoCalls_matching : twoCalls.Matching := by
  refine ⟨by decide, ?_⟩
  intro i buffers sizes hsend hrecv
  match i with
  | 0 =>
      cases hsend
      cases hrecv
      rfl
  | 1 =>
      cases hsend
      cases hrecv
      rfl
  | i + 2 => cases hsend

/-- All four calls are made and both messages are on their way; the second
receive is then let run first. -/
def overlapping : List ChannelAction :=
  [.asyncSend, .asyncSend, .asyncRecv, .asyncRecv, .send 0, .send 1,
    .recvEnter 0, .recvEnter 1, .recv 1, .recvComplete 1]

/-- The same calls, each receive through before the next one is run. -/
def oneByOne : List ChannelAction :=
  [.asyncSend, .asyncSend, .asyncRecv, .asyncRecv, .send 0, .send 1,
    .recvEnter 0, .recvEnter 1, .recv 0, .recvComplete 0, .recv 1,
    .recvComplete 1]

/-- The channel is FIFO where the receives run one after the other. -/
theorem fifo_oneByOne : ∃ s,
    run (channelStep senderEnd receiverEnd twoCalls) .init oneByOne = some s
      ∧ Fifo senderEnd receiverEnd twoCalls s
      ∧ oneByOne.countP ChannelAction.isThread ≤ twoCalls.work := by
  refine ⟨_, rfl, ?_⟩
  exact fifo_of_inOrder joined_ends twoCalls_matching rfl (by decide)

/-- Overlapping receives: the second one completes with what the first
send was given. -/
theorem not_fifo_overlapping :
    ¬ ∀ (sender receiver : TaskMessagePassInterface) (c : Calls)
      (as : List ChannelAction) (s : ChannelState),
      Joined sender receiver → c.Matching →
      run (channelStep sender receiver c) .init as = some s →
      Fifo sender receiver c s := by
  intro h
  obtain ⟨-, hrecvs, -⟩ := h senderEnd receiverEnd twoCalls overlapping _
    joined_ends twoCalls_matching rfl
  obtain ⟨-, hreceived⟩ := hrecvs 1 _ rfl (List.cons_ne_nil _ _)
  exact absurd hreceived (by decide)

end PrimiHub.Network
