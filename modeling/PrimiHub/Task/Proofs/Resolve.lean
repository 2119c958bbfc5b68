/-
What the dataset resolution ends with, when the meta service answers.

A (dataset, party) pair goes through a map keyed by the dataset, a list in
the order of the reply, and a map keyed by the party; then the request's
own entries are put over the result. The three lookups are followed by
their `find?` equations, and each stage has one lemma that says what it
leaves: `find?_id2tag`, `metaList_fst`, `metasToPartyAccessInfo_eq` and
`find?_filteredParty`.

An entry is always accounted for, shared ids or not: it is the request's
own, or the address recorded for a dataset of that very party. That a
party is there at all is proved for a party with a dataset id no other
party lists. `id2tag` keeps one party for each id, and a party none of
whose ids stay with it is left to the code.
-/
import PrimiHub.Task.Dataset
import PrimiHub.Task.Proofs.Ring

namespace PrimiHub.Task

open Lib

-- ====================================================== the statement

/-- The party lists the dataset, under some index. -/
def Lists (parties : PartyDatasets) (party id : String) : Prop :=
  id ≠ "" ∧ ∃ datasets, (party, datasets) ∈ parties
    ∧ id ∈ datasets.map Prod.snd

/-- The service answers every requested id with an available record, once
for each time it is requested, and with addresses that can be read. -/
structure Answered (ids : List String) (reply : List DatasetData) :
    Prop where
  records : ((reply.filter fun data =>
    data.available && ids.contains data.id).map (·.id)).Perm ids
  addresses : ∀ data ∈ reply, data.available →
    ∃ node, fromString data.address = some node

/-- The party has an entry, and it is the address recorded for one of its
own datasets. -/
def EntryFromDatasets (parties : PartyDatasets) (reply : List DatasetData)
    (result : PartyMap) (party : String) : Prop :=
  ∃ e data, (party, e) ∈ result.entries ∧ data ∈ reply ∧ data.available
    ∧ Lists parties party data.id
    ∧ fromString data.address = some (pbNode2Node e)

/-- What the resolution owes: the request's own entries stay, every other
entry is the party's own dataset's, a party with a dataset of its own is
there, and nobody else is. -/
structure Resolved (parties : PartyDatasets) (request : PartyMap)
    (reply : List DatasetData) (result : PartyMap) : Prop where
  kept : ∀ name node, (name, node) ∈ request.entries →
    ∃ e, (name, e) ∈ result.entries ∧ pbNode2Node e = pbNode2Node node
  recorded : ∀ party ∈ result.names, party ∉ request.names →
    EntryFromDatasets parties reply result party
  complete : ∀ party id, Lists parties party id →
    (∀ other, Lists parties other id → other = party) →
      party ∈ result.names
  nothing_else : ∀ party ∈ result.names,
    party ∈ request.names ∨ ∃ id, Lists parties party id

-- ========================================================= the stages

theorem mem_parseDatasets (parties : PartyDatasets) (id party : String) :
    (id, party) ∈ parseDatasets parties ↔ Lists parties party id := by
  simp only [parseDatasets, Lists, List.mem_flatMap, List.mem_filterMap,
    List.mem_map]
  constructor
  · intro h
    obtain ⟨⟨name, datasets⟩, hmem, dataset, hd, hsome⟩ := h
    split_ifs at hsome with hempty
    obtain ⟨rfl, rfl⟩ := Prod.mk.inj (Option.some.inj hsome)
    exact ⟨hempty, datasets, hmem, dataset, hd, rfl⟩
  · intro h
    obtain ⟨hempty, datasets, hmem, dataset, hd, rfl⟩ := h
    exact ⟨(party, datasets), hmem, dataset, hd, by rw [if_neg hempty]⟩

/-- An id finds the party that listed it last. -/
theorem find?_id2tag (datasets : List (String × String)) (id : String) :
    (id2tag datasets).find? id = datasets.reverse.lookup id := by
  rw [id2tag, SortedMap.find?_insertAll, SortedMap.find?_empty,
    Option.or_none]

theorem mem_of_find?_id2tag {datasets : List (String × String)}
    {id party : String} (h : (id2tag datasets).find? id = some party) :
    (id, party) ∈ datasets := by
  rw [find?_id2tag] at h
  exact List.mem_reverse.1 (mem_of_lookup h)

theorem exists_find?_id2tag (datasets : List (String × String))
    (id : String) :
    (∃ party, (id2tag datasets).find? id = some party)
      ↔ id ∈ datasets.map Prod.fst := by
  rw [find?_id2tag, exists_lookup_iff, List.map_reverse, List.mem_reverse]

/-- The records that make it into `meta_list`. -/
theorem metaList_fst (datasets : List (String × String))
    (reply : List DatasetData) :
    (metaList (id2tag datasets) reply).map Prod.fst
      = reply.filter fun data =>
          data.available && (datasets.map Prod.fst).contains data.id := by
  induction reply with
  | nil => rfl
  | cons data rest ih =>
      rw [List.filter_cons]
      have hfound := exists_find?_id2tag datasets data.id
      cases havail : data.available with
      | false => simpa [metaList, havail] using ih
      | true =>
          cases htag : (id2tag datasets).find? data.id with
          | none =>
              have hout : data.id ∉ datasets.map Prod.fst := by
                rintro hin
                obtain ⟨party, hparty⟩ := hfound.2 hin
                rw [htag] at hparty
                cases hparty
              rw [if_neg (by simpa using hout)]
              simpa [metaList, havail, htag] using ih
          | some party =>
              have hin : data.id ∈ datasets.map Prod.fst :=
                hfound.1 ⟨party, htag⟩
              rw [if_pos (by simpa using hin)]
              simpa [metaList, havail, htag] using ih

theorem mem_metaList {tags : SortedMap String String}
    {reply : List DatasetData} {data : DatasetData} {party : String} :
    (data, party) ∈ metaList tags reply
      ↔ data ∈ reply ∧ data.available = true
        ∧ tags.find? data.id = some party := by
  simp only [metaList, List.mem_filterMap]
  constructor
  · intro h
    obtain ⟨d, hd, hsome⟩ := h
    split_ifs at hsome with havail
    obtain ⟨tag, htag, heq⟩ := Option.map_eq_some_iff.1 hsome
    obtain ⟨rfl, rfl⟩ := Prod.mk.inj heq
    exact ⟨hd, havail, htag⟩
  · intro h
    obtain ⟨hd, havail, htag⟩ := h
    exact ⟨data, hd, by rw [if_pos havail, htag, Option.map_some]⟩

/-- The node a record gives. -/
def recordedNode (data : DatasetData) : Node :=
  (fromString data.address).getD {}

theorem metasToPartyAccessInfo_eq (metas : List (DatasetData × String))
    (access : SortedMap String Node)
    (hread : ∀ m ∈ metas, ∃ node, fromString m.1.address = some node) :
    metasToPartyAccessInfo metas access
      = some (access.insertAll
          (metas.map fun m => (m.2, recordedNode m.1))) := by
  induction metas generalizing access with
  | nil => rfl
  | cons m rest ih =>
      obtain ⟨data, party⟩ := m
      obtain ⟨node, hnode⟩ := hread _ (List.mem_cons_self ..)
      have hrest := ih (access.insert party node) fun m hm =>
        hread m (List.mem_cons_of_mem _ hm)
      rw [metasToPartyAccessInfo, hnode]
      change metasToPartyAccessInfo rest (access.insert party node) = _
      rw [hrest, List.map_cons, recordedNode, hnode]
      rfl

-- ========================================================== the merge

theorem pbNode2Node_node2PbNode (node : Node) (id : Int) :
    pbNode2Node { node2PbNode node with partyId := id } = node := by
  simp [pbNode2Node, node2PbNode]

/-- A party of `filtered_party` is in the merged map, at its address. -/
theorem merged_of_find? {request : PartyMap} {found : SortedMap String Node}
    {name : String} {node : Node}
    (h : (filteredParty request found).find? name = some node) :
    ∃ e, (name, e) ∈ (mergePartyAccessInfo request found).entries
      ∧ pbNode2Node e = node := by
  have hmem := ((filteredParty request found).mem_entries_iff name node).2 h
  obtain ⟨k, hk⟩ := List.mem_iff_getElem?.1 hmem
  refine ⟨{ node2PbNode node with partyId := 0 + k }, ?_,
    pbNode2Node_node2PbNode node _⟩
  apply List.mem_of_getElem? (i := k)
  rw [mergePartyAccessInfo, getElem?_refill, hk, Option.map_some]

/-- The request's own entry wins. -/
theorem find?_filteredParty_of_mem {request : PartyMap}
    {found : SortedMap String Node} {name : String} {node : PbNode}
    (h : (name, node) ∈ request.entries) :
    (filteredParty request found).find? name = some (pbNode2Node node) := by
  have hlookup : (request.entries.map fun e => (e.1, pbNode2Node e.2)).lookup
      name = some (pbNode2Node node) := by
    refine lookup_of_mem ?_ (List.mem_map.2 ⟨(name, node), h, rfl⟩)
    rw [List.map_map]
    exact request.nodup
  rw [find?_filteredParty, hlookup, Option.some_or]

/-- Where the request has no entry, the party found is taken. -/
theorem find?_filteredParty_of_not_mem {request : PartyMap}
    {found : SortedMap String Node} {name : String}
    (h : name ∉ request.names) :
    (filteredParty request found).find? name = found.find? name := by
  have hlookup : (request.entries.map fun e => (e.1, pbNode2Node e.2)).lookup
      name = none := by
    by_contra hne
    obtain ⟨node, hnode⟩ := Option.ne_none_iff_exists'.1 hne
    obtain ⟨e, he, heq⟩ := List.mem_map.1 (mem_of_lookup hnode)
    obtain ⟨rfl, -⟩ := Prod.mk.inj heq
    exact h (List.mem_map_of_mem he)
  rw [find?_filteredParty, hlookup, Option.none_or]

-- ========================================================= the result

section Result

variable {parties : PartyDatasets} {reply : List DatasetData}

/-- The parties found, of an answered request. -/
def foundParties (parties : PartyDatasets) (reply : List DatasetData) :
    SortedMap String Node :=
  SortedMap.empty.insertAll
    ((metaList (id2tag (parseDatasets parties)) reply).map fun m =>
      (m.2, recordedNode m.1))

/-- A party found has the address of a record of one of its datasets. -/
theorem of_find?_foundParties {party : String} {node : Node}
    (haddr : ∀ data ∈ reply, data.available →
      ∃ node, fromString data.address = some node)
    (h : (foundParties parties reply).find? party = some node) :
    ∃ data ∈ reply, data.available ∧ Lists parties party data.id
      ∧ fromString data.address = some node := by
  rw [foundParties, SortedMap.find?_insertAll, SortedMap.find?_empty,
    Option.or_none] at h
  obtain ⟨m, hm, heq⟩ := List.mem_map.1 (List.mem_reverse.1 (mem_of_lookup h))
  obtain ⟨data, tag⟩ := m
  obtain ⟨rfl, rfl⟩ := Prod.mk.inj heq
  obtain ⟨hd, havail, htag⟩ := mem_metaList.1 hm
  refine ⟨data, hd, havail, ?_, ?_⟩
  · exact (mem_parseDatasets parties data.id tag).1 (mem_of_find?_id2tag htag)
  · obtain ⟨node, hnode⟩ := haddr data hd havail
    rw [recordedNode, hnode, Option.getD_some]

/-- A party with an answered dataset of its own is found. -/
theorem exists_find?_foundParties {party id : String}
    (hrecords : ((reply.filter fun data => data.available
      && ((parseDatasets parties).map Prod.fst).contains data.id).map
        (·.id)).Perm ((parseDatasets parties).map Prod.fst))
    (hlists : Lists parties party id)
    (hown : ∀ other, Lists parties other id → other = party) :
    ∃ node, (foundParties parties reply).find? party = some node := by
  have hpair := (mem_parseDatasets parties id party).2 hlists
  have hid : id ∈ (parseDatasets parties).map Prod.fst :=
    List.mem_map_of_mem hpair
  obtain ⟨data, hdata, rfl⟩ := List.mem_map.1 (hrecords.mem_iff.2 hid)
  obtain ⟨hd, hkeep⟩ := List.mem_filter.1 hdata
  have havail : data.available = true := (Bool.and_eq_true_iff.1 hkeep).1
  obtain ⟨tag, htag⟩ := (exists_find?_id2tag _ _).2 hid
  have htagparty : tag = party :=
    hown tag ((mem_parseDatasets parties _ _).1 (mem_of_find?_id2tag htag))
  subst htagparty
  rw [foundParties, SortedMap.find?_insertAll, SortedMap.find?_empty,
    Option.or_none, exists_lookup_iff, List.map_reverse, List.mem_reverse,
    List.map_map]
  exact List.mem_map.2
    ⟨(data, tag), mem_metaList.2 ⟨hd, havail, htag⟩, rfl⟩

theorem metasToPartyAccessInfo_answered
    (haddr : ∀ data ∈ reply, data.available →
      ∃ node, fromString data.address = some node) :
    metasToPartyAccessInfo (metaList (id2tag (parseDatasets parties)) reply)
      SortedMap.empty = some (foundParties parties reply) := by
  refine metasToPartyAccessInfo_eq _ _ fun m hm => ?_
  obtain ⟨hd, havail, -⟩ := mem_metaList.1 hm
  exact haddr m.1 hd havail

/-- As many records are kept as datasets were asked for. -/
theorem metaList_length
    (h : Answered ((parseDatasets parties).map Prod.fst) reply) :
    (parseDatasets parties).length
      = (metaList (id2tag (parseDatasets parties)) reply).length := by
  have hlen := h.records.length_eq
  rw [← metaList_fst, List.length_map, List.length_map,
    List.length_map] at hlen
  exact hlen.symm

theorem resolved_of_answered (request : PartyMap)
    (h : Answered ((parseDatasets parties).map Prod.fst) reply) :
    Resolved parties request reply
      (mergePartyAccessInfo request (foundParties parties reply)) := by
  have hnames := (merge_numbered request (foundParties parties reply)).names
  refine ⟨?_, ?_, ?_, ?_⟩
  · intro name node hnode
    exact merged_of_find? (find?_filteredParty_of_mem hnode)
  · intro party hparty hout
    have hkey := ((hnames party).1 hparty).resolve_left hout
    obtain ⟨node, hnode⟩ := (SortedMap.mem_keys_iff _ _).1 hkey
    obtain ⟨data, hd, havail, hlists, hread⟩ :=
      of_find?_foundParties h.addresses hnode
    rw [← find?_filteredParty_of_not_mem hout] at hnode
    obtain ⟨e, he, rfl⟩ := merged_of_find? hnode
    exact ⟨e, data, he, hd, havail, hlists, hread⟩
  · intro party id hlists hown
    refine (hnames party).2 (Or.inr ((SortedMap.mem_keys_iff _ _).2 ?_))
    exact exists_find?_foundParties h.records hlists hown
  · intro party hparty
    rcases (hnames party).1 hparty with hin | hkey
    · exact Or.inl hin
    · obtain ⟨node, hnode⟩ := (SortedMap.mem_keys_iff _ _).1 hkey
      obtain ⟨data, -, -, hlists, -⟩ :=
        of_find?_foundParties h.addresses hnode
      exact Or.inr ⟨data.id, hlists⟩

end Result

/-- Every task that lists a dataset resolves when the meta service answers.
Each entry is the request's own or the address recorded for one of the
party's own datasets, each party with a dataset id of its own has one, and
no other name does. -/
theorem datasets_resolve (parties : PartyDatasets) (request : PartyMap)
    (service : MetaService) (retryMaxTimes : Nat)
    (reply : GetDatasetResponse)
    (hlisted : ∃ party id, Lists parties party id)
    (hreply : getDataset service ((parseDatasets parties).map Prod.fst)
      retryMaxTimes 0 = some reply)
    (hsuccess : reply.success = true)
    (hanswered : Answered ((parseDatasets parties).map Prod.fst)
      reply.dataSet) :
    ∃ result, parseDatasetToPartyAccessInfo true service retryMaxTimes
        (parseDatasets parties) request = .ok result
      ∧ Resolved parties request reply.dataSet result := by
  have hne : parseDatasets parties ≠ [] := by
    obtain ⟨party, id, hlists⟩ := hlisted
    exact List.ne_nil_of_mem ((mem_parseDatasets parties id party).2 hlists)
  have hfind : findPeerListFromDatasets service retryMaxTimes
      (parseDatasets parties)
        = .handled (metaList (id2tag (parseDatasets parties))
            reply.dataSet) := by
    rw [findPeerListFromDatasets, if_neg hne, hreply]
    simp only [hsuccess, if_true, metaList_length hanswered, ne_eq,
      not_true_eq_false, if_false]
  refine ⟨mergePartyAccessInfo request (foundParties parties reply.dataSet),
    ?_, resolved_of_answered request hanswered⟩
  simp only [parseDatasetToPartyAccessInfo, if_true, hfind,
    metasToPartyAccessInfo_answered hanswered.addresses]

/-- Two parties with a dataset each. -/
def twoParties : PartyDatasets :=
  [("PARTY0", [("Data_File", "ds0")]), ("PARTY1", [("Data_File", "ds1")])]

/-- The records of their datasets. -/
def twoRecords : GetDatasetResponse where
  success := true
  dataSet := [⟨true, "ds1", "node1:10.0.0.2:50051:0:default"⟩,
    ⟨true, "ds0", "node0:10.0.0.1:50050:0:default"⟩]

theorem twoRecords_answered :
    Answered ((parseDatasets twoParties).map Prod.fst)
      twoRecords.dataSet := by
  refine ⟨by decide, fun data hdata _ => ?_⟩
  rcases List.mem_cons.1 hdata with rfl | hdata
  · exact ⟨⟨"node1", "10.0.0.2", 50051, false, "default"⟩, by decide⟩
  · rcases List.mem_singleton.1 hdata with rfl
    exact ⟨⟨"node0", "10.0.0.1", 50050, false, "default"⟩, by decide⟩

theorem party0_lists : Lists twoParties "PARTY0" "ds0" :=
  ⟨by decide, [("Data_File", "ds0")], by decide, by decide⟩

/-- A service that fails once and then answers. -/
def flakyService : MetaService := fun attempt _ =>
  if attempt = 0 then none else some twoRecords

theorem twoParties_resolve :
    ∃ result, parseDatasetToPartyAccessInfo true flakyService 3
        (parseDatasets twoParties) ⟨[], List.nodup_nil⟩ = .ok result
      ∧ Resolved twoParties ⟨[], List.nodup_nil⟩ twoRecords.dataSet result :=
  datasets_resolve twoParties ⟨[], List.nodup_nil⟩ flakyService 3 twoRecords
    ⟨"PARTY0", "ds0", party0_lists⟩ rfl rfl twoRecords_answered

/-- A request that says itself where party 0 is. -/
def requestOfParty0 : PartyMap where
  entries := [("PARTY0", host "node0" "192.168.1.7" 0)]
  nodup := by decide

/-- The request's entry stays, and it is no address of a dataset of
party 0. -/
theorem requestOfParty0_stays :
    Lists twoParties "PARTY0" "ds0"
      ∧ Answered ((parseDatasets twoParties).map Prod.fst) twoRecords.dataSet
      ∧ ∃ result, parseDatasetToPartyAccessInfo true
          (fun _ _ => some twoRecords) 3 (parseDatasets twoParties)
            requestOfParty0 = .ok result
        ∧ ¬ EntryFromDatasets twoParties twoRecords.dataSet result
            "PARTY0" := by
  have hnone : ∀ p ∈ (mergePartyAccessInfo requestOfParty0
      (foundParties twoParties twoRecords.dataSet)).entries,
      ∀ data ∈ twoRecords.dataSet, p.1 = "PARTY0" →
        fromString data.address ≠ some (pbNode2Node p.2) := by
    decide
  refine ⟨party0_lists, twoRecords_answered, mergePartyAccessInfo
    requestOfParty0 (foundParties twoParties twoRecords.dataSet), rfl, ?_⟩
  intro h
  obtain ⟨e, data, he, hd, -, -, hread⟩ := h
  exact hnone (_, e) he data hd rfl hread

end PrimiHub.Task
