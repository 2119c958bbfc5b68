/-
Ids and wiring: `MergePartyAccessInfo` numbers the parties in name order
whatever the request and the parties found, and `dispatch` builds the ring
from the order in which the protobuf map happens to iterate.

`add_vm` reads the peers' addresses out of `party_nodes[id]`, and
`party_nodes` is in iteration order, so the ring is right exactly when the
node in position k has the ip of the party with id k
(`ring_wired_iff`). For three hosts with ips of their own that is the
name order and no other of the six. What does not come from `party_nodes`
is right in every order: ports, session names and which end serves.

Chain: `getElem?_refill` (the numbering), `wireParties_ok` and `addVm_ok`
(what is sent), `wired_iff` (three ids, three nodes), the theorem.
-/
import PrimiHub.Task.Party

namespace PrimiHub.Task

open Lib

-- ====================================================== the statement

/-- The names of a party map. -/
def PartyMap.names (m : PartyMap) : List String := m.entries.map Prod.fst

/-- Where a party is, as `dispatch` compares it. -/
def address (e : String × PbNode) : String := (pbNode2Node e.2).toAddress

/-- The ids are 0..n-1, one for each name of the request or of the parties
found, in name order. -/
structure Numbered (request : PartyMap) (found : SortedMap String Node)
    (merged : List (String × PbNode)) : Prop where
  names : ∀ name, name ∈ merged.map Prod.fst
    ↔ name ∈ request.names ∨ name ∈ found.keys
  names_increase : (merged.map Prod.fst).Pairwise (· < ·)
  ids : merged.map (·.2.partyId)
    = (List.range merged.length).map Int.ofNat

/-- The ring as the parties are sent it: every party as it was, with one
machine whose neighbours are the next and the previous id, and the two
ends of a link in agreement. -/
structure RingWired (parties sent : List (String × PbNode)) : Prop where
  kept : sent.map (fun e => (e.1, { e.2 with vm := [] })) = parties
  machine : ∀ e ∈ sent, ∃ v, e.2.vm = [v] ∧ v.partyId = e.2.partyId
  next_ip : ∀ e ∈ sent, ∀ q ∈ parties, ∀ v ∈ e.2.vm,
    q.2.partyId = (e.2.partyId + 1) % 3 → v.next.ip = q.2.ip
  prev_ip : ∀ e ∈ sent, ∀ q ∈ parties, ∀ v ∈ e.2.vm,
    q.2.partyId = (e.2.partyId + 2) % 3 → v.prev.ip = q.2.ip
  link : ∀ e ∈ sent, ∀ q ∈ sent, ∀ v ∈ e.2.vm, ∀ w ∈ q.2.vm,
    q.2.partyId = (e.2.partyId + 1) % 3 →
      v.next.port = w.prev.port ∧ v.next.name = w.prev.name
        ∧ Xor (v.next.linkType = .server) (w.prev.linkType = .server)

/-- The node in position k has the ip of the party with id k. -/
def InIdOrder (parties : List (String × PbNode)) : Prop :=
  ∀ q ∈ parties,
    parties[q.2.partyId.toNat]?.map (·.2.ip) = some q.2.ip

instance (parties : List (String × PbNode)) :
    Decidable (InIdOrder parties) :=
  inferInstanceAs (Decidable (∀ q ∈ parties, _ = _))

-- ========================================================== numbering

@[simp] theorem length_refill (p : Int) (l : List (String × Node)) :
    (refill p l).length = l.length := by
  induction l generalizing p with
  | nil => rfl
  | cons e rest ih => rw [refill, List.length_cons, List.length_cons, ih]

/-- The k-th entry of the refilled map. -/
theorem getElem?_refill (p : Int) (l : List (String × Node)) (k : Nat) :
    (refill p l)[k]?
      = l[k]?.map fun e =>
          (e.1, { node2PbNode e.2 with partyId := p + k }) := by
  induction l generalizing p k with
  | nil => rfl
  | cons e rest ih =>
      cases k with
      | zero => simp [refill]
      | succ k =>
          have hp : p + 1 + (k : Int) = p + ((k + 1 : Nat) : Int) := by omega
          rw [refill, List.getElem?_cons_succ, List.getElem?_cons_succ, ih, hp]

/-- An entry of the refilled map has its position for an id, and no
machine yet. -/
theorem of_getElem?_refill {l : List (String × Node)} {k : Nat}
    {e : String × PbNode} (h : (refill 0 l)[k]? = some e) :
    e.2.partyId = k ∧ e.2.vm = [] := by
  rw [getElem?_refill] at h
  obtain ⟨n, -, rfl⟩ := Option.map_eq_some_iff.1 h
  exact ⟨by simp, rfl⟩

/-- The parties are numbered in the order of their names. -/
theorem refill_ids (l : List (String × Node)) :
    (refill 0 l).map (·.2.partyId)
      = (List.range l.length).map Int.ofNat := by
  apply List.ext_getElem?
  intro k
  rw [List.getElem?_map, List.getElem?_map, getElem?_refill]
  by_cases hk : k < l.length
  · rw [List.getElem?_range hk, List.getElem?_eq_getElem hk]
    simp
  · have hle : l.length ≤ k := Nat.le_of_not_lt hk
    rw [List.getElem?_eq_none hle, List.getElem?_eq_none (by simpa using hle)]
    rfl

/-- What `filtered_party` has for a name: the request's entry, or else the
one found. -/
theorem find?_filteredParty (request : PartyMap)
    (found : SortedMap String Node) (name : String) :
    (filteredParty request found).find? name
      = ((request.entries.map fun e => (e.1, pbNode2Node e.2)).lookup
          name).or (found.find? name) := by
  rw [filteredParty, SortedMap.find?_insertNewAll,
    SortedMap.find?_insertNewAll, SortedMap.find?_empty, Option.none_or]
  rfl

/-- The names that are merged. -/
theorem mem_filteredParty_keys (request : PartyMap)
    (found : SortedMap String Node) (name : String) :
    name ∈ (filteredParty request found).keys
      ↔ name ∈ request.names ∨ name ∈ found.keys := by
  have hreq : request.names
      = (request.entries.map fun e => (e.1, pbNode2Node e.2)).map Prod.fst := by
    rw [PartyMap.names, List.map_map]
    rfl
  rw [SortedMap.mem_keys_iff, find?_filteredParty, SortedMap.mem_keys_iff,
    hreq, ← exists_lookup_iff]
  cases (request.entries.map fun e => (e.1, pbNode2Node e.2)).lookup name with
  | none => simp
  | some node => simp

/-- Whatever is found, the ids are those of the merged names in order. -/
theorem merge_numbered (request : PartyMap)
    (found : SortedMap String Node) :
    Numbered request found (mergePartyAccessInfo request found).entries where
  names := fun name => by
    rw [mergePartyAccessInfo, refill_names]
    exact mem_filteredParty_keys request found name
  names_increase := by
    rw [mergePartyAccessInfo, refill_names]
    exact (filteredParty request found).keys_sorted
  ids := by
    rw [mergePartyAccessInfo, refill_ids, length_refill]

-- ============================================================= wiring

/-- A party is altered in its place. -/
theorem alterParty_ok {name : String} {node node' : PbNode}
    {f : PbNode → Except DispatchError PbNode}
    {done rest : List (String × PbNode)} (hout : ∀ d ∈ done, d.1 ≠ name)
    (hf : f node = .ok node') :
    alterParty name f (done ++ (name, node) :: rest)
      = .ok (done ++ (name, node') :: rest) := by
  induction done with
  | nil => simp [alterParty, hf, bind, Except.bind, pure, Except.pure]
  | cons d done ih =>
      have hd : d.1 ≠ name := hout d (List.mem_cons_self ..)
      have hdone := ih fun c hc => hout c (List.mem_cons_of_mem _ hc)
      rw [List.cons_append, alterParty, if_neg hd, hdone]
      rfl

/-- A loop that meets every name once changes every entry once. -/
theorem wireParties_ok {info : TaskInfo} {nodes : List PbNode}
    {g : PbNode → PbNode} (done rest : List (String × PbNode))
    (hok : ∀ e ∈ rest, addVm e.2.partyId info nodes e.2 = .ok (g e.2))
    (hnodup : ((done ++ rest).map Prod.fst).Nodup) :
    wireParties info nodes (rest.map Prod.fst) (done ++ rest)
      = .ok (done ++ rest.map fun e => (e.1, g e.2)) := by
  induction rest generalizing done with
  | nil => rw [List.map_nil, List.map_nil, wireParties]
  | cons e rest ih =>
      have halter : alterParty e.1
          (fun node => addVm node.partyId info nodes node) (done ++ e :: rest)
            = .ok (done ++ (e.1, g e.2) :: rest) := by
        refine alterParty_ok ?_ (hok e (List.mem_cons_self ..))
        rw [List.map_append, List.nodup_append] at hnodup
        intro d hd heq
        exact hnodup.2.2 _ (List.mem_map_of_mem hd) e.1 (by simp) heq
      have hrest := ih (done ++ [(e.1, g e.2)])
        (fun d hd => hok d (List.mem_cons_of_mem _ hd))
        (by simpa [List.append_assoc] using hnodup)
      rw [List.map_cons, wireParties, halter]
      change wireParties info nodes (rest.map Prod.fst)
        (done ++ (e.1, g e.2) :: rest) = _
      simpa [List.append_assoc] using hrest

/-- The machine of party `id`, with its peers' addresses out of `nodes`. -/
def ringVm (info : TaskInfo) (nodes : List PbNode) (id : Int) :
    VirtualMachine where
  partyId := id
  next := endPoint info id ((id + 1) % 3)
    (nodes.getD ((id + 1) % 3).toNat {}).ip
  prev := endPoint info id ((id + 2) % 3)
    (nodes.getD ((id + 2) % 3).toNat {}).ip

/-- A party with its machine added. -/
def ringNode (info : TaskInfo) (nodes : List PbNode) (node : PbNode) :
    PbNode :=
  { node with vm := node.vm ++ [ringVm info nodes node.partyId] }

/-- The node at a position that there is. -/
theorem nodeAt_ok {nodes : List PbNode} {i : Int} (h0 : 0 ≤ i)
    (hlt : i.toNat < nodes.length) :
    nodeAt nodes i = .ok (nodes.getD i.toNat {}) := by
  rw [nodeAt, if_neg (by omega), List.getD_eq_getElem?_getD,
    List.getElem?_eq_getElem hlt, Option.getD_some]

/-- A party is given its machine and its neighbours. -/
theorem addVm_ok {info : TaskInfo} {nodes : List PbNode} (node : PbNode)
    (hlen : nodes.length = 3) (h0 : 0 ≤ node.partyId) :
    addVm node.partyId info nodes node = .ok (ringNode info nodes node) := by
  generalize hid : node.partyId = id at h0
  have hnext : (id + 1).tmod 3 = (id + 1) % 3 :=
    Int.tmod_eq_emod_of_nonneg (by omega)
  have hprev : (id + 2).tmod 3 = (id + 2) % 3 :=
    Int.tmod_eq_emod_of_nonneg (by omega)
  have hnextNode : nodeAt nodes ((id + 1) % 3)
      = .ok (nodes.getD ((id + 1) % 3).toNat {}) :=
    nodeAt_ok (by omega) (by omega)
  have hprevNode : nodeAt nodes ((id + 2) % 3)
      = .ok (nodes.getD ((id + 2) % 3).toNat {}) :=
    nodeAt_ok (by omega) (by omega)
  rw [addVm, hnext, hprev, hnextNode, hprevNode, ringNode, hid]
  rfl

-- ======================================================= three parties

section Three

variable {parties : List (String × PbNode)} {info : TaskInfo}

/-- What `dispatch` sends three parties. -/
def wired (info : TaskInfo) (parties : List (String × PbNode)) :
    List (String × PbNode) :=
  parties.map fun e => (e.1, ringNode info (parties.map Prod.snd) e.2)

/-- Three parties with different addresses are sent the ring. -/
theorem dispatch_ok (order : PartyMap) (hlen : order.entries.length = 3)
    (hids : ∀ e ∈ order.entries, 0 ≤ e.2.partyId)
    (haddr : (order.entries.map address).Nodup) :
    dispatch .actorTask info order = .ok (wired info order.entries) := by
  have hfilter : ((order.entries.map Prod.snd).map fun node =>
      (pbNode2Node node).toAddress).dedup.length = 3 := by
    rw [List.map_map]
    change (order.entries.map address).dedup.length = 3
    rw [haddr.dedup, List.length_map, hlen]
  have hnames : (order.entries.map Prod.fst).dedup.length = 3 := by
    rw [order.nodup.dedup, List.length_map, hlen]
  have hnodes : (order.entries.map Prod.snd).length = 3 := by
    rw [List.length_map, hlen]
  have hwire : wireParties info (order.entries.map Prod.snd)
      (order.entries.map Prod.fst) ([] ++ order.entries)
        = .ok ([] ++ wired info order.entries) :=
    wireParties_ok [] order.entries
      (fun e he => addVm_ok e.2 hnodes (hids e he)) order.nodup
  rw [dispatch, if_pos rfl]
  simp only [hfilter, hnames, ne_eq, not_true_eq_false, if_false]
  exact hwire

/-- Three parties have all three ids. -/
theorem ids_three {request : PartyMap} {found : SortedMap String Node}
    (hperm : parties.Perm (mergePartyAccessInfo request found).entries)
    (hlen : parties.length = 3) :
    (parties.map (·.2.partyId)).Perm [0, 1, 2] := by
  have hmerged := (merge_numbered request found).ids
  rw [← hperm.length_eq, hlen] at hmerged
  have h := hperm.map (·.2.partyId)
  rwa [hmerged] at h

/-- The ids are 0, 1 and 2. -/
theorem id_cases (h : (parties.map (·.2.partyId)).Perm [0, 1, 2])
    {e : String × PbNode} (he : e ∈ parties) :
    e.2.partyId = 0 ∨ e.2.partyId = 1 ∨ e.2.partyId = 2 := by
  have hmem := h.mem_iff.1 (List.mem_map_of_mem he)
  simpa using hmem

/-- And each is there. -/
theorem exists_id (h : (parties.map (·.2.partyId)).Perm [0, 1, 2])
    {i : Int} (hi : i ∈ [0, 1, 2]) : ∃ e ∈ parties, e.2.partyId = i := by
  obtain ⟨e, he, hid⟩ := List.mem_map.1 (h.mem_iff.2 hi)
  exact ⟨e, he, hid⟩

/-- The two ends of a link agree on everything but the address, whatever
the order of the nodes. -/
theorem ringVm_link (nodes : List PbNode) {p q : Int}
    (hp : p = 0 ∨ p = 1 ∨ p = 2) (hq : q = (p + 1) % 3) :
    (ringVm info nodes p).next.port = (ringVm info nodes q).prev.port
      ∧ (ringVm info nodes p).next.name = (ringVm info nodes q).prev.name
      ∧ Xor ((ringVm info nodes p).next.linkType = .server)
          ((ringVm info nodes q).prev.linkType = .server) := by
  subst hq
  rcases hp with rfl | rfl | rfl
  · exact ⟨rfl, rfl, by simp [ringVm, endPoint]⟩
  · exact ⟨rfl, rfl, by simp [ringVm, endPoint]⟩
  · exact ⟨rfl, rfl, by simp [ringVm, endPoint]⟩

/-- The address read for a peer is the peer's own, for nodes in id
order. -/
theorem getD_ip (hord : InIdOrder parties) {q : String × PbNode}
    (hq : q ∈ parties) :
    ((parties.map Prod.snd).getD q.2.partyId.toNat {}).ip = q.2.ip := by
  have h := hord q hq
  obtain ⟨e, he, hip⟩ := Option.map_eq_some_iff.1 h
  rw [List.getD_eq_getElem?_getD, List.getElem?_map, he]
  exact hip

/-- What is sent, party by party. -/
theorem mem_wired (hids : (parties.map (·.2.partyId)).Perm [0, 1, 2])
    (hvm : ∀ e ∈ parties, e.2.vm = []) {e : String × PbNode}
    (he : e ∈ wired info parties) :
    ∃ d ∈ parties, e.1 = d.1 ∧ e.2.partyId = d.2.partyId
      ∧ e.2.vm = [ringVm info (parties.map Prod.snd) d.2.partyId]
      ∧ (d.2.partyId = 0 ∨ d.2.partyId = 1 ∨ d.2.partyId = 2) := by
  obtain ⟨d, hd, rfl⟩ := List.mem_map.1 he
  refine ⟨d, hd, rfl, rfl, ?_, id_cases hids hd⟩
  rw [ringNode, hvm d hd, List.nil_append]

/-- Besides its machine every party is sent as it was. -/
theorem wired_kept (hvm : ∀ e ∈ parties, e.2.vm = []) :
    (wired info parties).map (fun e => (e.1, { e.2 with vm := [] }))
      = parties := by
  rw [wired, List.map_map]
  conv_rhs => rw [← List.map_id parties]
  refine List.map_congr_left fun e he => ?_
  change (e.1, { e.2 with vm := [] }) = e
  rw [← hvm e he]

/-- In a right ring the node in position `k` is that of the party with id
`k`. -/
theorem inIdOrder_of_wired
    (hids : (parties.map (·.2.partyId)).Perm [0, 1, 2])
    (h : RingWired parties (wired info parties)) : InIdOrder parties := by
  intro q hq
  have hlen : parties.length = 3 := by simpa using hids.length_eq
  have hqid := id_cases hids hq
  obtain ⟨d, hd, hdid⟩ := exists_id hids
    (show (q.2.partyId + 2) % 3 ∈ [0, 1, 2] by
      rcases hqid with h | h | h <;> rw [h] <;> decide)
  have hnext : q.2.partyId = (d.2.partyId + 1) % 3 := by omega
  have hip := h.next_ip _ (List.mem_map_of_mem hd) q hq
    (ringVm info (parties.map Prod.snd) d.2.partyId)
    (by simp [ringNode]) hnext
  change ((parties.map Prod.snd).getD ((d.2.partyId + 1) % 3).toNat {}).ip
    = q.2.ip at hip
  have hlt : q.2.partyId.toNat < parties.length := by omega
  rw [← hnext, List.getD_eq_getElem?_getD, List.getElem?_map,
    List.getElem?_eq_getElem hlt] at hip
  rw [List.getElem?_eq_getElem hlt]
  exact congrArg some hip

/-- And where it is, the ring is right. -/
theorem wired_of_inIdOrder
    (hids : (parties.map (·.2.partyId)).Perm [0, 1, 2])
    (hvm : ∀ e ∈ parties, e.2.vm = []) (h : InIdOrder parties) :
    RingWired parties (wired info parties) where
  kept := wired_kept hvm
  machine := fun e he => by
    obtain ⟨d, -, -, hid, hv, -⟩ := mem_wired hids hvm he
    exact ⟨_, hv, hid.symm⟩
  next_ip := fun e he q hq v hv hid => by
    obtain ⟨d, -, -, hde, hvm', -⟩ := mem_wired hids hvm he
    rw [hvm', List.mem_singleton] at hv
    rw [hv, ← getD_ip h hq, hid, hde]
    rfl
  prev_ip := fun e he q hq v hv hid => by
    obtain ⟨d, -, -, hde, hvm', -⟩ := mem_wired hids hvm he
    rw [hvm', List.mem_singleton] at hv
    rw [hv, ← getD_ip h hq, hid, hde]
    rfl
  link := fun e he q hq v hv w hw hid => by
    obtain ⟨d, -, -, hde, hvd, hcases⟩ := mem_wired hids hvm he
    obtain ⟨c, -, -, hcq, hvc, -⟩ := mem_wired hids hvm hq
    rw [hvd, List.mem_singleton] at hv
    rw [hvc, List.mem_singleton] at hw
    rw [hv, hw]
    exact ringVm_link _ hcases (by rw [← hcq, hid, hde])

end Three

/-- Hosts with ips of their own are in id order only in name order. -/
theorem inIdOrder_iff_eq {l : List (String × Node)}
    {parties : List (String × PbNode)} (hperm : parties.Perm (refill 0 l))
    (hips : (parties.map (·.2.ip)).Nodup) :
    InIdOrder parties ↔ parties = refill 0 l := by
  constructor
  · intro h
    apply List.ext_getElem?
    intro k
    cases hk : (refill 0 l)[k]? with
    | none =>
        rw [List.getElem?_eq_none_iff] at hk ⊢
        rwa [hperm.length_eq]
    | some e =>
        have hid := (of_getElem?_refill hk).1
        have hmem := hperm.mem_iff.2 (List.mem_of_getElem? hk)
        obtain ⟨d, hd, hip⟩ := Option.map_eq_some_iff.1 (h e hmem)
        rw [hid, Int.toNat_natCast] at hd
        rw [hd,
          List.inj_on_of_nodup_map hips (List.mem_of_getElem? hd) hmem hip]
  · rintro rfl e he
    obtain ⟨k, hk⟩ := List.mem_iff_getElem?.1 he
    rw [(of_getElem?_refill hk).1, Int.toNat_natCast, hk]
    rfl

/-- The numbering is right always. The wiring is right exactly when the
map iterates so that the node in position k has the ip of the party with
id k, which hosts with ips of their own have in name order only. -/
theorem ring_wired_iff (request : PartyMap)
    (found : SortedMap String Node) :
    Numbered request found (mergePartyAccessInfo request found).entries
      ∧ ∀ (order : PartyMap) (info : TaskInfo),
        order.entries.Perm (mergePartyAccessInfo request found).entries →
        order.entries.length = 3 →
        (order.entries.map address).Nodup →
        (∃ sent, dispatch .actorTask info order = .ok sent
            ∧ (RingWired order.entries sent ↔ InIdOrder order.entries))
          ∧ ((order.entries.map (·.2.ip)).Nodup →
              (InIdOrder order.entries ↔ order.entries
                = (mergePartyAccessInfo request found).entries)) := by
  refine ⟨merge_numbered request found, ?_⟩
  intro order info hperm hlen haddr
  have hids := ids_three hperm hlen
  have hvm : ∀ e ∈ order.entries, e.2.vm = [] := by
    intro e he
    obtain ⟨k, hk⟩ := List.mem_iff_getElem?.1 (hperm.mem_iff.1 he)
    exact (of_getElem?_refill hk).2
  have hnonneg : ∀ e ∈ order.entries, 0 ≤ e.2.partyId := by
    intro e he
    have hcases := id_cases hids he
    omega
  refine ⟨⟨_, dispatch_ok order hlen hnonneg haddr, ?_⟩, fun hips => ?_⟩
  · exact ⟨inIdOrder_of_wired hids, wired_of_inIdOrder hids hvm⟩
  · exact inIdOrder_iff_eq hperm hips

/-- A host of the examples. -/
def host (nodeId ip : String) (partyId : Int) : PbNode where
  nodeId := nodeId
  ip := ip
  port := 50050
  partyId := partyId

/-- Three hosts, as a request names them. -/
def threeHosts : PartyMap where
  entries := [("PARTY0", host "node0" "10.0.0.1" 0),
    ("PARTY1", host "node1" "10.0.0.2" 0),
    ("PARTY2", host "node2" "10.0.0.3" 0)]
  nodup := by decide

/-- The hosts with their ids, in name order. -/
def numberedHosts : PartyMap := mergePartyAccessInfo threeHosts .empty

/-- Three hosts numbered in the order of their names. -/
theorem ring_of_numberedHosts :
    ∃ sent, dispatch .actorTask ⟨"task", "job"⟩ numberedHosts = .ok sent
      ∧ RingWired numberedHosts.entries sent := by
  have hall := (ring_wired_iff threeHosts .empty).2 numberedHosts
    ⟨"task", "job"⟩ (List.Perm.refl _) (by decide) (by decide)
  obtain ⟨sent, hsent, hiff⟩ := hall.1
  exact ⟨sent, hsent, hiff.2 (by decide)⟩

/-- The same map, iterated in another order. -/
def swappedHosts : PartyMap where
  entries := [("PARTY1", host "node1" "10.0.0.2" 1),
    ("PARTY0", host "node0" "10.0.0.1" 0),
    ("PARTY2", host "node2" "10.0.0.3" 2)]
  nodup := by decide

/-- In that order party 0 is told to find party 1 at its own address. -/
theorem swappedHosts_miswired :
    swappedHosts.entries.Perm (mergePartyAccessInfo threeHosts .empty).entries
      ∧ swappedHosts.entries.length = 3
      ∧ (swappedHosts.entries.map address).Nodup
      ∧ ¬ ∃ sent,
        dispatch .actorTask ⟨"task", "job"⟩ swappedHosts = .ok sent
          ∧ RingWired swappedHosts.entries sent := by
  have hperm : swappedHosts.entries.Perm
      (mergePartyAccessInfo threeHosts .empty).entries := by decide
  have haddr : (swappedHosts.entries.map address).Nodup := by decide
  refine ⟨hperm, rfl, haddr, ?_⟩
  intro h
  obtain ⟨sent, hsent, hring⟩ := h
  rw [dispatch_ok swappedHosts rfl (by decide) haddr] at hsent
  obtain rfl := Except.ok.inj hsent
  have hord := inIdOrder_of_wired (ids_three hperm rfl) hring
  exact absurd hord (by decide)

end PrimiHub.Task
