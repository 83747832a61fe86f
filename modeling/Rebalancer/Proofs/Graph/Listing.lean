import Mathlib.Logic.Relation
import Rebalancer.Proofs.Graph.Restart

set_option autoImplicit false

/-! # The listing of halves by destination

The halves that lead to a node are listed apart from the table of halves, and only adding a half
adds to the lists. An addition is in order if the half was not known (`Fresh`), which each operation
finds out in its own way: the gossip and a snapshot ask for each half when its turn comes, while the
missing halves of own channels are computed before the first of them is added. The lists then have
every half once, under its destination (`Coherent`), also after a restart from a snapshot.
-/

namespace Rebalancer.Graph

open Std

/-! ## Additions of halves -/

/-- Every half is listed for its destination. -/
def Lists (g : Graph) : Prop :=
  ∀ {id : HalfId} {h : Half}, g.halves[id]? = some h → id ∈ g.inbound.getD h.destination []

theorem Reshapes.lists {g g' : Graph} (h : Reshapes g g') (hg : g.Lists) : g'.Lists := by
  intro id k hk
  obtain ⟨k', hk', -, -, hd⟩ := h.exists_before hk
  rw [h.inbound, hd]
  exact hg hk'

/-- Whatever half is added, it is listed, and the lists only grow. -/
theorem Lists.insertHalf {g : Graph} (hg : g.Lists) (h : Half) : (g.insertHalf h).Lists := by
  intro id k hk
  have hrow : (g.insertHalf h).inbound.getD k.destination [] =
      if compare h.destination k.destination = .eq then
        g.inbound.getD h.destination [] ++ [h.id]
      else g.inbound.getD k.destination [] := TreeMap.getD_insert
  rw [getElem?_insertHalf] at hk
  rw [hrow]
  by_cases hid : h.id = id
  · rw [if_pos hid, Option.some_inj] at hk
    subst hk
    rw [if_pos ReflCmp.compare_self, ← hid]
    exact List.mem_append_right _ (List.mem_singleton_self h.id)
  · rw [if_neg hid] at hk
    have hold : id ∈ g.inbound.getD k.destination [] := hg hk
    split
    · rename_i hdest
      rw [LawfulEqCmp.eq_of_compare hdest]
      exact List.mem_append_left _ hold
    · exact hold

theorem Evolves.lists {Fit : Graph → Half → Prop} {g g' : Graph} (h : Evolves Fit g g')
    (hg : g.Lists) : g'.Lists := by
  induction h with
  | refl g => exact hg
  | trans _ _ ih ih' => exact ih' (ih hg)
  | reshape halves _ => exact halves.lists hg
  | name g id nickname => exact (reshapes_nameNode g id nickname).lists hg
  | connect g => exact (reshapes_syncNodes g).lists hg
  | insert _ => exact hg.insertHalf _

theorem Reachable.lists {g : Graph} (h : g.Reachable) : g.Lists := by
  refine h.induct (motive := fun g => g.Lists) (fun selfId id h hh => ?_)
    fun g c hg => (evolves_after g c).lists hg
  simp [empty] at hh

/-! ## Additions of unknown halves -/

/-- The direction of every half is that of its ends, and the halves are listed by destination,
each once. -/
structure Listed (g : Graph) : Prop where
  directed : ∀ {id : HalfId} {h : Half}, g.halves[id]? = some h → h.Directed
  lists : ∀ {id : HalfId} {h : Half}, g.halves[id]? = some h →
    id ∈ g.inbound.getD h.destination []
  nodup : ∀ node : String, (g.inbound.getD node []).Nodup

theorem listed_empty (selfId : String) : (empty selfId).Listed := by
  constructor
  · intro id h hh
    simp [empty] at hh
  · intro id h hh
    simp [empty] at hh
  · intro node
    simp [empty]

theorem Reshapes.listed {g g' : Graph} (h : Reshapes g g') (hg : g.Listed) : g'.Listed := by
  constructor
  · intro id k hk
    obtain ⟨k', hk', hw⟩ := h.exists_before hk
    exact hw.directed (hg.directed hk')
  · exact h.lists hg.lists
  · rw [h.inbound]
    exact hg.nodup

theorem Listed.insertHalf {g : Graph} (hg : g.Listed) (hkeyed : g.Keyed) {h : Half}
    (hf : Fresh g h) : (g.insertHalf h).Listed := by
  have hrow : ∀ node, (g.insertHalf h).inbound.getD node [] =
      if compare h.destination node = .eq then g.inbound.getD h.destination [] ++ [h.id]
      else g.inbound.getD node [] :=
    fun node => TreeMap.getD_insert
  constructor
  · intro id k hk
    rw [getElem?_insertHalf] at hk
    split at hk
    · cases hk
      exact hf.directed
    · exact hg.directed hk
  · exact Lists.insertHalf hg.lists h
  · intro node
    rw [hrow]
    split
    · -- What is listed is known, and the new half is not.
      have hnew : h.id ∉ g.inbound.getD h.destination [] := by
        intro hmem
        obtain ⟨k, hk, -⟩ := hkeyed.leads hmem
        exact hf.unknown (TreeMap.mem_iff_isSome_getElem?.mpr (by rw [hk]; rfl))
      refine List.nodup_append.mpr ⟨hg.nodup h.destination, List.nodup_singleton h.id, ?_⟩
      intro id hid id' hid' heq
      rw [List.mem_singleton.mp hid'] at heq
      exact hnew (heq ▸ hid)
    · exact hg.nodup node

/-- Additions of unknown halves keep the listing in order. -/
theorem Evolves.listed {g g' : Graph} (h : Evolves Fresh g g') (hkeyed : g.Keyed)
    (hg : g.Listed) : g'.Listed := by
  induction h with
  | refl g => exact hg
  | trans first _ ih ih' =>
      exact ih' (first.fits_of_fresh.preserves.keyed hkeyed) (ih hkeyed hg)
  | reshape halves _ => exact halves.listed hg
  | name g id nickname => exact (reshapes_nameNode g id nickname).listed hg
  | connect g => exact (reshapes_syncNodes g).listed hg
  | insert fit => exact hg.insertHalf hkeyed fit

/-! ## Missing halves of own channels -/

theorem ids_ownHalves {g : Graph} {now : Time} {scid : String} {c : OwnChannel}
    (hp : c.peer ≠ g.selfId) : (g.ownHalves now scid c).Pairwise fun h k => h.id ≠ k.id := by
  refine List.pairwise_pair.mpr fun hid => ?_
  exact directionOf_ne_swap hp (congrArg HalfId.direction hid)

/-- If no channel of the local node is one with itself, no two missing halves have one name. -/
theorem ids_missingOwn {g : Graph} (hp : ∀ (scid : String) (c : OwnChannel),
    g.own[scid]? = some c → c.peer ≠ g.selfId) (now : Time) :
    (g.missingOwn now).Pairwise fun h k => h.id ≠ k.id := by
  refine List.Pairwise.filter _ (List.pairwise_flatMap.mpr ⟨fun e he => ?_, ?_⟩)
  · exact ids_ownHalves (hp e.1 e.2 (TreeMap.mem_toList_iff_getElem?_eq_some.mp he))
  · refine TreeMap.distinct_keys_toList.imp fun {e e'} hne h hh k hk hid => hne ?_
    -- Halves of different channels differ in the id of the channel.
    have hscid : e.1 = e'.1 :=
      calc e.1 = h.id.scid := (scid_of_mem_ownHalves hh).symm
        _ = k.id.scid := by rw [hid]
        _ = e'.1 := scid_of_mem_ownHalves hk
    rw [hscid]
    exact ReflCmp.compare_self

theorem evolves_addMissing_of_away {g : Graph} (hp : ∀ (scid : String) (c : OwnChannel),
    g.own[scid]? = some c → c.peer ≠ g.selfId) (now : Time) :
    Evolves Fresh g (g.addMissing now) := by
  refine evolves_insertAll fun before h after heq => ?_
  have hh : h ∈ g.missingOwn now := by
    rw [heq]
    simp
  obtain ⟨hunknown, _, _, -, hmem⟩ := exists_own_of_mem_missingOwn hh
  refine ⟨fun hknown => ?_, directed_of_mem_ownHalves hmem⟩
  -- A half that is known by now was known before, or was added before this one.
  obtain ⟨k, hk⟩ := Option.isSome_iff_exists.mp (TreeMap.mem_iff_isSome_getElem?.mp hknown)
  rcases mem_or_known_of_insertAll hk with ⟨hbefore, hid⟩ | hold
  · have hpair := ids_missingOwn hp now
    rw [heq, List.pairwise_append] at hpair
    exact hpair.2.2 k hbefore h List.mem_cons_self hid
  · exact hunknown (TreeMap.mem_iff_isSome_getElem?.mpr (by rw [hold]; rfl))

theorem peer_ne_of_withOwn {g : Graph} {channels : List OwnChannel}
    (hp : ∀ c ∈ channels, c.peer ≠ g.selfId) {scid : String} {c : OwnChannel}
    (hc : (g.withOwn channels).own[scid]? = some c) : c.peer ≠ (g.withOwn channels).selfId := by
  have hmem : (scid, c) ∈ keyed channels := mem_of_getElem?_ofList hc
  obtain ⟨c', hc', hkey⟩ := List.mem_filterMap.mp hmem
  obtain ⟨_, -, hpair⟩ := Option.map_eq_some_iff.mp hkey
  cases hpair
  exact hp c hc'

theorem evolves_applyOwn_of_away {g : Graph} {channels : List OwnChannel}
    (hp : ∀ c ∈ channels, c.peer ≠ g.selfId) (now : Time) :
    Evolves Fresh g (g.applyOwn channels now) := by
  have hadded := evolves_addMissing_of_away (fun _ _ hc => peer_ne_of_withOwn hp hc) now
  rw [applyOwn_eq]
  exact .trans (.trans ((evolves_withOwn g channels).trans hadded) (evolves_syncOwn _ now))
    (.connect _)

/-! ## Graphs and their stores -/

/-- A graph with the store that its snapshots go to. -/
structure Kept where
  graph : Graph
  store : Store

/-- A graph that knows nothing and a store that holds nothing. -/
def Kept.start (selfId : String) : Kept := ⟨.empty selfId, {}⟩

/-- What can happen to a graph. No record of an own channel names the local node as its peer. -/
inductive Operation : Kept → Kept → Prop
  | gossip (k : Kept) (gossip : List Announcement) (nodes : List NodeAnnouncement) (now : Time)
      (reset : UInt64) :
      Operation k { k with graph := k.graph.applyGossip gossip nodes now reset }
  | own (k : Kept) (channels : List OwnChannel) (now : Time)
      (away : ∀ c ∈ channels, c.peer ≠ k.graph.selfId) :
      Operation k { k with graph := k.graph.applyOwn channels now }
  | payment (k : Kept) (route : Route) (amount : Msat) (now : Time) :
      Operation k { k with graph := k.graph.applyPayment route amount now }
  | failure (k : Kept) (id : HalfId) (amount : Msat) (now : Time) :
      Operation k { k with graph := k.graph.after (.failure id amount now) }
  | save (k : Kept) : Operation k { k with store := k.store.save k.graph }
  | load (k : Kept) (read : Snapshot) (gives : k.store.snapshot.Gives read) :
      Operation k { k with graph := read.load k.graph }

/-- An operation, or a restart, after which the store is all that is left. -/
inductive Step : Kept → Kept → Prop
  | operation {k k' : Kept} (h : Operation k k') : Step k k'
  | restart (k : Kept) : Step k { k with graph := .empty k.graph.selfId }

/-- What every step keeps. -/
structure Kept.Sound (k : Kept) : Prop where
  keyed : k.graph.Keyed
  known : k.graph.Known
  listed : k.graph.Listed
  rows : ∀ r ∈ k.store.snapshot.halves, r.half.Directed

theorem sound_empty {selfId : String} {store : Store}
    (rows : ∀ r ∈ store.snapshot.halves, r.half.Directed) : (Kept.mk (.empty selfId) store).Sound :=
  ⟨keyed_empty selfId, known_empty selfId, listed_empty selfId, rows⟩

/-- A graph that comes from a sound one by additions of unknown halves. -/
theorem Kept.Sound.evolves {k : Kept} (hk : k.Sound) {g : Graph}
    (h : Evolves Fresh k.graph g) : (Kept.mk g k.store).Sound :=
  ⟨h.fits_of_fresh.preserves.keyed hk.keyed, h.known hk.known, h.listed hk.keyed hk.listed, hk.rows⟩

theorem Operation.evolves {k k' : Kept} (h : Operation k k') (hk : k.Sound) :
    Evolves Fresh k.graph k'.graph := by
  cases h with
  | gossip gossip nodes now reset => exact evolves_applyGossip k.graph gossip nodes now reset
  | own channels now away => exact evolves_applyOwn_of_away away now
  | payment route amount now => exact evolves_applyPayment k.graph route amount now
  | failure id amount now =>
      show Evolves Fresh k.graph ((k.graph.applyFailure id amount now).getD k.graph)
      cases hf : k.graph.applyFailure id amount now with
      | none => exact .refl k.graph
      | some g => exact evolves_applyFailure hf
  | save => exact .refl k.graph
  | load read gives =>
      refine evolves_restore (fun g h hh hunknown => ⟨hunknown, ?_⟩) k.graph read.nodes
      obtain ⟨r, hr, rfl⟩ := List.mem_map.mp hh
      exact hk.rows r (gives.halves.mem_iff.mp hr)

/-- The rows of a store are those from before or those of the graph that is saved. -/
theorem mem_halves_save {s : Store} {g : Graph} {r : HalfRow}
    (hr : r ∈ (s.save g).snapshot.halves) :
    r ∈ s.snapshot.halves ∨ ∃ h ∈ g.halves.values, HalfRow.ofHalf h = r := by
  unfold Store.save at hr
  split at hr
  · rename_i snapshot hsnapshot
    simp only [Snapshot.ofGraph?] at hsnapshot
    split at hsnapshot
    · cases hsnapshot
      exact Or.inr (List.mem_map.mp hr)
    · cases hsnapshot
  · exact Or.inl hr

theorem Kept.Sound.save {k : Kept} (hk : k.Sound) :
    (Kept.mk k.graph (k.store.save k.graph)).Sound := by
  refine ⟨hk.keyed, hk.known, hk.listed, fun r hr => ?_⟩
  rcases mem_halves_save hr with hold | ⟨h, hh, rfl⟩
  · exact hk.rows r hold
  · obtain ⟨id, hid⟩ := mem_values_iff.mp hh
    rw [HalfRow.half_ofHalf]
    exact hk.listed.directed hid

theorem Step.sound {k k' : Kept} (h : Step k k') (hk : k.Sound) : k'.Sound := by
  cases h with
  | restart => exact sound_empty hk.rows
  | operation h =>
      have hsteps := h.evolves hk
      cases h with
      | save => exact hk.save
      | gossip | own | payment | failure | load => exact hk.evolves hsteps

theorem sound_of_steps {selfId : String} {k : Kept}
    (h : Relation.ReflTransGen Step (.start selfId) k) : k.Sound := by
  induction h with
  | refl => exact sound_empty (by simp)
  | tail _ step ih => exact step.sound ih

/-! ## Coherence -/

/-- Halves and nodes stand under their own names, each half between known nodes and in the direction
of its ends, and the halves that lead to a node are each listed once for it. -/
structure Coherent (g : Graph) : Prop where
  half_id : ∀ {id : HalfId} {h : Half}, g.halves[id]? = some h → h.id = id
  direction : ∀ {id : HalfId} {h : Half}, g.halves[id]? = some h →
    id.direction = directionOf h.source h.destination
  two_halves : ∀ scid : String, (g.halves.values.filter fun h => h.id.scid == scid).length ≤ 2
  ends : ∀ {id : HalfId} {h : Half}, g.halves[id]? = some h →
    h.source ∈ g.nodes ∧ h.destination ∈ g.nodes
  node_id : ∀ {id : String} {n : Node}, g.nodes[id]? = some n → n.id = id
  incoming : ∀ (node : String) (h : Half), (g.incoming node).count h =
    if g.halves[h.id]? = some h ∧ h.destination = node then 1 else 0

/-- `g'` has the halves of `g` with their ends, and its nodes. -/
structure Extends (g g' : Graph) : Prop extends Grows g g' where
  nodes : ∀ id ∈ g.nodes, id ∈ g'.nodes

theorem nodup_ids_values {g : Graph} (hg : g.Keyed) : (g.halves.values.map Half.id).Nodup := by
  have hkeys : g.halves.values.map Half.id = g.halves.keys := by
    rw [values_eq_map_toList, List.map_map, ← TreeMap.map_fst_toList_eq_keys]
    refine List.map_congr_left fun e he => ?_
    exact hg.id_eq (TreeMap.mem_toList_iff_getElem?_eq_some.mp he)
  rw [hkeys]
  exact TreeMap.nodup_keys

/-- A channel has one half for each direction between nodes. -/
theorem Listed.two_halves {g : Graph} (hg : g.Keyed) (hl : g.Listed) (scid : String) :
    (g.halves.values.filter fun h => h.id.scid == scid).length ≤ 2 := by
  have hnodup : ((g.halves.values.filter fun h => h.id.scid == scid).map Half.id).Nodup :=
    (nodup_ids_values hg).sublist (List.filter_sublist.map Half.id)
  have hsub : (g.halves.values.filter fun h => h.id.scid == scid).map Half.id ⊆
      [⟨scid, 0⟩, ⟨scid, 1⟩] := by
    intro id hid
    obtain ⟨h, hh, rfl⟩ := List.mem_map.mp hid
    obtain ⟨hmem, hscid⟩ := List.mem_filter.mp hh
    obtain ⟨k, hk⟩ := mem_values_iff.mp hmem
    have hdirection : h.id.direction = 0 ∨ h.id.direction = 1 := by
      rw [hl.directed hk, directionOf]
      split
      · exact Or.inl rfl
      · exact Or.inr rfl
    have heta : h.id = ⟨scid, h.id.direction⟩ := by rw [← beq_iff_eq.mp hscid]
    rcases hdirection with hd | hd
    · rw [heta, hd]
      simp
    · rw [heta, hd]
      simp
  have hlength := (hnodup.subperm hsub).length_le
  rwa [List.length_map] at hlength

theorem mem_incoming_iff {g : Graph} (hg : g.Keyed) (hl : g.Lists) {node : String} {h : Half} :
    h ∈ g.incoming node ↔ g.halves[h.id]? = some h ∧ h.destination = node := by
  rw [incoming, List.mem_filterMap]
  constructor
  · rintro ⟨id, hid, hh⟩
    obtain ⟨k, hk, hd⟩ := hg.leads hid
    obtain rfl : k = h := Option.some.inj (hk.symm.trans hh)
    rw [hg.id_eq hh]
    exact ⟨hh, hd⟩
  · rintro ⟨hh, rfl⟩
    exact ⟨h.id, hl hh, hh⟩

theorem nodup_incoming {g : Graph} (hg : g.Keyed) (hl : g.Listed) (node : String) :
    (g.incoming node).Nodup := by
  refine (hl.nodup node).filterMap fun id id' h hid hid' => ?_
  exact (hg.id_eq hid).symm.trans (hg.id_eq hid')

theorem Kept.Sound.coherent {k : Kept} (hk : k.Sound) : k.graph.Coherent := by
  constructor
  · exact hk.keyed.id_eq
  · intro id h hh
    rw [← hk.keyed.id_eq hh]
    exact hk.listed.directed hh
  · exact hk.listed.two_halves hk.keyed
  · exact hk.known.ends
  · exact hk.known.id_eq
  · intro node h
    have hmem : h ∈ k.graph.incoming node ↔
        k.graph.halves[h.id]? = some h ∧ h.destination = node :=
      mem_incoming_iff hk.keyed hk.listed.lists
    by_cases hin : h ∈ k.graph.incoming node
    · rw [if_pos (hmem.mp hin)]
      exact List.count_eq_one_of_mem (nodup_incoming hk.keyed hk.listed node) hin
    · rw [if_neg fun hh => hin (hmem.mpr hh)]
      exact List.count_eq_zero_of_not_mem hin

/-- The table admits the directions of all halves. -/
theorem Kept.Sound.storable {k : Kept} (hk : k.Sound) : k.graph.Storable := by
  intro id h hh
  rw [← hk.keyed.id_eq hh, hk.listed.directed hh, directionOf]
  split <;> decide

theorem extends_of_evolves {g g' : Graph} (h : Evolves Fresh g g') : Extends g g' :=
  ⟨h.fits_of_fresh.preserves.grows, fun _ hid => h.mem_nodes hid⟩

theorem extends_of_alike {g g' : Graph} (h : Alike g g') : Extends g g' := by
  refine ⟨⟨h.selfId, fun id k hk => ⟨k, ?_, .refl k⟩⟩, fun id hid => ?_⟩
  · rw [h.halves, hk]
  · exact (mem_nodes_congr (h.names id)).mpr hid

/-- Whatever happens to a graph, restarts included, it stays coherent. No operation drops a half or
a node or moves a half, and neither does a restart after the graph was saved. -/
theorem coherent_of_steps {selfId : String} {k : Kept}
    (h : Relation.ReflTransGen Step (.start selfId) k) :
    k.graph.Coherent ∧ (∀ k', Operation k k' → Extends k.graph k'.graph) ∧
      ∀ read, (k.store.save k.graph).snapshot.Gives read →
        Extends k.graph (read.load (.empty k.graph.selfId)) := by
  have hk := sound_of_steps h
  refine ⟨hk.coherent, fun k' hop => extends_of_evolves (hop.evolves hk),
    fun read hread => ?_⟩
  exact extends_of_alike (alike_load hk.keyed hk.known hk.storable hread)

/-- The store after the two channels were saved in it. -/
def storeOfTwo : Store := ({} : Store).save twoChannels

/-- The two channels as a restart leaves them. -/
def reopened : Kept := ⟨storeOfTwo.snapshot.load (.empty twoChannels.selfId), storeOfTwo⟩

theorem coherent_reopened :
    Relation.ReflTransGen Step (.start "a") reopened ∧ reopened.graph.halves.size = 4 ∧
      reopened.graph.Coherent ∧ (∀ k', Operation reopened k' → Extends reopened.graph k'.graph) ∧
      ∀ read, (reopened.store.save reopened.graph).snapshot.Gives read →
        Extends reopened.graph (read.load (.empty reopened.graph.selfId)) := by
  have hown : Step (.start "a") ⟨twoChannels, {}⟩ :=
    .operation (.own (.start "a")
      [channelWith "b" "1x1" 1000000 0, channelWith "b" "2x1" 0 1000000] 0 (by decide))
  have hsave : Step ⟨twoChannels, {}⟩ ⟨twoChannels, storeOfTwo⟩ := .operation (.save _)
  have hrestart : Step ⟨twoChannels, storeOfTwo⟩ ⟨.empty twoChannels.selfId, storeOfTwo⟩ :=
    .restart _
  have hload : Step ⟨.empty twoChannels.selfId, storeOfTwo⟩ reopened :=
    .operation (.load _ storeOfTwo.snapshot ⟨.refl _, .refl _⟩)
  have hsteps : Relation.ReflTransGen Step (.start "a") reopened :=
    (((Relation.ReflTransGen.single hown).tail hsave).tail hrestart).tail hload
  exact ⟨hsteps, by decide +kernel, coherent_of_steps hsteps⟩

end Rebalancer.Graph
