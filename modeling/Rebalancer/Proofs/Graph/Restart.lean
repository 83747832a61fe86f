import Rebalancer.Graph.Stats
import Rebalancer.Proofs.Graph.Nodes
import Rebalancer.Proofs.Graph.OwnHalves
import Rebalancer.Proofs.Tables
import Rebalancer.Store

set_option autoImplicit false

/-! # Restarts

A snapshot keeps the halves of a graph and the names of its nodes. The records of the own channels,
the connectivity and the listing of halves by destination are not kept, yet nothing is lost: what
is read back has the same halves and names (`Alike`), and the next refresh puts in the records and
derives the rest from them. From then on the two graphs have the same view of the network.
-/

namespace Rebalancer

open Std

/-- `read` has the rows of `s`. The tables give their rows in no particular order. -/
structure Snapshot.Gives (s read : Snapshot) : Prop where
  halves : read.halves.Perm s.halves
  nodes : read.nodes.Perm s.nodes

namespace Graph

/-! ## What a snapshot keeps -/

/-- `g'` has the halves of `g`, and nodes with the same ids and aliases. -/
structure Alike (g g' : Graph) : Prop where
  selfId : g'.selfId = g.selfId
  halves : ∀ id : HalfId, g'.halves[id]? = g.halves[id]?
  names : ∀ id : String, g'.named? id = g.named? id

/-- All halves have a direction that the table admits. -/
def Storable (g : Graph) : Prop :=
  ∀ (id : HalfId) (h : Half), g.halves[id]? = some h → id.direction ≤ 1

instance (g : Graph) : Decidable g.Storable :=
  decidable_of_iff (∀ e ∈ g.halves.toList, e.1.direction ≤ 1) (by
    simp only [Prod.forall, TreeMap.mem_toList_iff_getElem?_eq_some]
    exact Iff.rfl)

theorem snapshot_save {g : Graph} (hg : g.Keyed) (hdir : g.Storable) (s : Store) :
    (s.save g).snapshot =
      ⟨g.halves.values.map .ofHalf, g.nodes.values.map fun n => (n.id, n.nickname)⟩ := by
  have hvalid : (g.halves.values.map HalfRow.ofHalf).all HalfRow.valid = true := by
    rw [List.all_map, List.all_eq_true]
    intro h hh
    obtain ⟨id, hid⟩ := mem_values_iff.mp hh
    have hd : h.id.direction ≤ 1 := by
      rw [hg.id_eq hid]
      exact hdir id h hid
    exact decide_eq_true hd
  rw [Store.save, Snapshot.ofGraph?, if_pos hvalid]

/-- The half that the graph has under a name is the only one of the name among all its halves. -/
theorem find?_id_eq {g : Graph} (hg : g.Keyed) {l : List Half}
    (hl : ∀ h, h ∈ l ↔ h ∈ g.halves.values) (id : HalfId) :
    l.find? (fun h => h.id == id) = g.halves[id]? := by
  cases hfound : l.find? (fun h => h.id == id) with
  | some h =>
      obtain ⟨k, hk⟩ := mem_values_iff.mp ((hl h).mp (List.mem_of_find?_eq_some hfound))
      have hid : h.id = id := by simpa using List.find?_some hfound
      rw [← hid, hg.id_eq hk, hk]
  | none =>
      cases hk : g.halves[id]? with
      | none => rfl
      | some h =>
          have hmem : h ∈ l := (hl h).mpr (mem_values_iff.mpr ⟨id, hk⟩)
          have hne := List.find?_eq_none.mp hfound h hmem
          exact absurd (by simpa using hg.id_eq hk) hne

/-! ## Reading it back -/

/-- Halves between known nodes bring no node. -/
theorem named?_insertNew {l : List Half} {g : Graph}
    (hends : ∀ h ∈ l, h.source ∈ g.nodes ∧ h.destination ∈ g.nodes) (id : String) :
    (g.insertNew l).named? id = g.named? id := by
  induction l generalizing g with
  | nil => rfl
  | cons h rest ih =>
      obtain ⟨hs, hd⟩ := hends h List.mem_cons_self
      show (((if h.id ∈ g.halves then g else g.insertHalf h)).insertNew rest).named? id = _
      have hrest : ∀ k ∈ rest, k.source ∈ g.nodes ∧ k.destination ∈ g.nodes :=
        fun k hk => hends k (List.mem_cons_of_mem h hk)
      split
      · exact ih hrest
      · have hsame : ∀ id, (g.insertHalf h).named? id = g.named? id :=
          named?_insertHalf_of_mem hs hd
        rw [ih (g := g.insertHalf h) fun k hk => ?_, hsame]
        rw [mem_nodes_congr (hsame _), mem_nodes_congr (hsame _)]
        exact hrest k hk

/-- Naming the nodes of a list gives each the name that the list has for it. -/
theorem named?_nameAll {t : String → Option (String × String)} {l : List (String × String)}
    (hl : ∀ e ∈ l, t e.1 = some e) {g : Graph} (hg : g.Known) (id : String) :
    (g.nameAll l).named? id =
      if id ∈ l.map (·.1) then t id else g.named? id := by
  induction l generalizing g with
  | nil => rfl
  | cons e rest ih =>
      show ((g.nameNode e.1 (some e.2)).nameAll rest).named? id = _
      rw [ih (fun e he => hl e (List.mem_cons_of_mem _ he)) (hg.nameNode e.1 (some e.2)),
        named?_nameNode, List.map_cons]
      by_cases hrest : id ∈ rest.map (·.1)
      · rw [if_pos hrest, if_pos (List.mem_cons_of_mem _ hrest)]
      · rw [if_neg hrest]
        by_cases hid : e.1 = id
        · have hhead : t id = some e := hid ▸ hl e List.mem_cons_self
          rw [if_pos hid, if_pos (hid ▸ List.mem_cons_self), hhead, hg.fst_getD, ← hid]
          rfl
        · have hnot : id ∉ e.1 :: rest.map (·.1) := by
            rw [List.mem_cons, not_or]
            exact ⟨fun h => hid h.symm, hrest⟩
          rw [if_neg hid, if_neg hnot]

theorem mem_map_values_iff {g : Graph} (hg : g.Known) {e : String × String} :
    e ∈ g.nodes.values.map (fun n => (n.id, n.nickname)) ↔ g.named? e.1 = some e := by
  rw [List.mem_map]
  constructor
  · rintro ⟨n, hn, rfl⟩
    obtain ⟨id, hid⟩ := mem_values_iff.mp hn
    show g.named? n.id = _
    rw [hg.id_eq hid, named?, hid, Option.map_some, hg.id_eq hid]
  · intro he
    obtain ⟨n, hn, hp⟩ := Option.map_eq_some_iff.mp he
    exact ⟨n, mem_values_iff.mpr ⟨e.1, hn⟩, hp⟩

section Reload

variable {g : Graph} {s : Store} {read : Snapshot} (hg : g.Keyed) (hk : g.Known)
  (hdir : g.Storable) (hread : (s.save g).snapshot.Gives read)

include hg hdir hread

/-- The halves that are read are those that were saved. -/
theorem perm_halves : (read.halves.map HalfRow.half).Perm g.halves.values := by
  rw [snapshot_save hg hdir s] at hread
  have hperm := hread.halves.map HalfRow.half
  have hround : HalfRow.half ∘ HalfRow.ofHalf = id := funext HalfRow.half_ofHalf
  rwa [List.map_map, hround, List.map_id] at hperm

include hk

/-- The names that are read are those that were saved. -/
theorem mem_nodes_read_iff {e : String × String} : e ∈ read.nodes ↔ g.named? e.1 = some e := by
  rw [snapshot_save hg hdir s] at hread
  rw [hread.nodes.mem_iff]
  exact mem_map_values_iff hk

/-- Naming the nodes of a snapshot gives a fresh graph the names that were saved. -/
theorem named?_nameAll_read (selfId id : String) :
    ((empty selfId).nameAll read.nodes).named? id = g.named? id := by
  have hname : ∀ {e}, e ∈ read.nodes ↔ g.named? e.1 = some e := mem_nodes_read_iff hg hk hdir hread
  rw [named?_nameAll (fun e he => hname.mp he) (known_empty selfId)]
  split
  · rfl
  · rename_i hnot
    cases hp : g.named? id with
    | none => simp [named?, empty]
    | some p =>
        have hfst : p.1 = id := hk.fst_eq hp
        have he : p ∈ read.nodes := hname.mpr (by rw [hfst, hp])
        exact absurd (List.mem_map.mpr ⟨p, he, hfst⟩) hnot

/-- A fresh graph filled from the snapshot of another is like it. -/
theorem alike_load : Alike g (read.load (.empty g.selfId)) := by
  have hperm := perm_halves hg hdir hread
  have hnames := named?_nameAll_read hg hk hdir hread g.selfId
  set named : Graph := (empty g.selfId).nameAll read.nodes
  -- The ends of the halves are named before the halves are added.
  have hends : ∀ h ∈ read.halves.map HalfRow.half, h.source ∈ named.nodes ∧
      h.destination ∈ named.nodes := by
    intro h hh
    obtain ⟨id, hid⟩ := mem_values_iff.mp (hperm.mem_iff.mp hh)
    rw [mem_nodes_congr (hnames _), mem_nodes_congr (hnames _)]
    exact hk.ends hid
  constructor
  · exact (evolves_restore (fun g h _ hu => fits_of_unknown hu) _ read.nodes).preserves.grows.selfId
  · intro id
    show ((empty g.selfId).restore (read.halves.map HalfRow.half) read.nodes).halves[id]? = _
    rw [getElem?_restore, find?_id_eq hg fun h => hperm.mem_iff, empty, TreeMap.getElem?_emptyc,
      Option.none_or]
  · intro id
    show (named.insertNew (read.halves.map HalfRow.half)).syncNodes.named? id = _
    rw [named?_syncNodes, named?_insertNew hends, hnames]

end Reload

/-! ## Refreshing two graphs that are alike -/

/-- Graphs that are alike and have the same own channels. -/
structure Twins (g g' : Graph) : Prop extends Alike g g' where
  own : g'.own = g.own

/-- No question about halves, nodes, own channels or counts tells the two graphs apart. -/
structure SameView (g g' : Graph) : Prop where
  selfId : g'.selfId = g.selfId
  halves : ∀ id : HalfId, g'.halves[id]? = g.halves[id]?
  nodes : ∀ id : String, g'.nodes[id]? = g.nodes[id]?
  own : ∀ scid : String, g'.own[scid]? = g.own[scid]?
  stats : g'.stats = g.stats

section Refresh

variable {g g' : Graph}

theorem Twins.foldl {β : Type} {step : Graph → β → Graph}
    (hstep : ∀ b {g g'}, Twins g g' → Twins (step g b) (step g' b)) (h : Twins g g')
    (l : List β) : Twins (l.foldl step g) (l.foldl step g') :=
  List.foldl_rel h fun b _ _ _ ht => hstep b ht

theorem Twins.ensureNode (h : Twins g g') (id : String) :
    Twins (g.ensureNode id) (g'.ensureNode id) := by
  refine ⟨⟨h.selfId, h.halves, fun k => ?_⟩, h.own⟩
  rw [named?_ensureNode, named?_ensureNode, h.names]

theorem Twins.nameNode (h : Twins g g') (id : String) (nickname : Option String) :
    Twins (g.nameNode id nickname) (g'.nameNode id nickname) := by
  refine ⟨⟨?_, fun k => ?_, fun k => ?_⟩, ?_⟩
  · cases nickname <;> exact h.selfId
  · rw [halves_nameNode, halves_nameNode, h.halves]
  · rw [named?_nameNode, named?_nameNode, h.names]
  · rw [own_nameNode, own_nameNode, h.own]

/-- Putting one half into both. -/
theorem Twins.insert (h : Twins g g') (id : HalfId) (k : Half) :
    Twins { g with halves := g.halves.insert id k }
      { g' with halves := g'.halves.insert id k } := by
  refine ⟨⟨h.selfId, fun id' => ?_, h.names⟩, h.own⟩
  rw [TreeMap.getElem?_insert, TreeMap.getElem?_insert, h.halves]

/-- Changing all halves of both. -/
theorem Twins.map (h : Twins g g') (f : HalfId → Half → Half) :
    Twins { g with halves := g.halves.map f } { g' with halves := g'.halves.map f } := by
  refine ⟨⟨h.selfId, fun id => ?_, h.names⟩, h.own⟩
  rw [TreeMap.getElem?_map, TreeMap.getElem?_map, h.halves]

theorem Twins.insertHalf (h : Twins g g') (k : Half) :
    Twins (g.insertHalf k) (g'.insertHalf k) := by
  have hends := (h.ensureNode k.source).ensureNode k.destination
  have hput := hends.insert k.id k
  exact ⟨⟨hput.selfId, hput.halves, hput.names⟩, hput.own⟩

theorem Twins.announce (h : Twins g g') (now : Time) (a : Announcement) :
    Twins (g.announce now a) (g'.announce now a) := by
  unfold Graph.announce
  rw [h.halves]
  cases g.halves[a.id]? with
  | none => exact h.insertHalf (.ofAnnouncement a now)
  | some k => exact h.insert a.id (k.announced a)

theorem Twins.ageAll (h : Twins g g') (gossip : List Announcement) (now : Time) (reset : UInt64) :
    Twins (g.ageAll gossip now reset) (g'.ageAll gossip now reset) := by
  have hown : ∀ scid, g'.isOwn scid = g.isOwn scid := fun scid => by rw [isOwn, isOwn, h.own]
  unfold Graph.ageAll
  simp only [hown]
  exact h.map _

theorem Twins.syncOwn (h : Twins g g') (now : Time) : Twins (g.syncOwn now) (g'.syncOwn now) := by
  unfold Graph.syncOwn
  rw [ownState_congr h.own h.selfId]
  exact h.map _

theorem Twins.syncNodes (h : Twins g g') : Twins g.syncNodes g'.syncNodes := by
  refine ⟨⟨h.selfId, h.halves, fun id => ?_⟩, h.own⟩
  rw [named?_syncNodes, named?_syncNodes, h.names]

theorem Twins.missingOwn (h : Twins g g') (now : Time) :
    g'.missingOwn now = g.missingOwn now := by
  have hcontains : ∀ id : HalfId, g'.halves.contains id = g.halves.contains id := fun id => by
    rw [TreeMap.contains_eq_isSome_getElem?, TreeMap.contains_eq_isSome_getElem?, h.halves]
  simp only [Graph.missingOwn, ownHalves, h.own, h.selfId, hcontains]

/-- The records come with the refresh, so it does not matter which were there before. -/
theorem Alike.applyOwn (h : Alike g g') (channels : List OwnChannel) (now : Time) :
    Twins (g.applyOwn channels now) (g'.applyOwn channels now) := by
  have howned : Twins (g.withOwn channels) (g'.withOwn channels) :=
    ⟨⟨h.selfId, h.halves, h.names⟩, rfl⟩
  have hadded : Twins ((g.withOwn channels).addMissing now)
      ((g'.withOwn channels).addMissing now) := by
    unfold addMissing
    rw [howned.missingOwn now]
    exact howned.foldl (fun k _ _ ht => ht.insertHalf k) _
  rw [applyOwn_eq, applyOwn_eq]
  exact (hadded.syncOwn now).syncNodes

/-- Whether the node `id` is connected. -/
def isConnected (g : Graph) (id : String) : Bool :=
  id == g.selfId || g.peerLinks.getD id (g.activeEnds.contains id)

theorem getElem?_syncNodes (g : Graph) (id : String) :
    g.syncNodes.nodes[id]? = (g.named? id).map fun p => ⟨p.1, p.2, g.isConnected id⟩ := by
  show (g.nodes.map _)[id]? = _
  rw [TreeMap.getElem?_map, named?, Option.map_map]
  rfl

/-- Deriving the connectivity of twins leaves no difference. -/
theorem Twins.sameView (h : Twins g g') : SameView g.syncNodes g'.syncNodes := by
  have hhalves : g'.halves.Equiv g.halves := equiv_of_getElem? h.halves
  have hends : g'.activeEnds = g.activeEnds := hhalves.foldl_eq
  have hlinks : g'.peerLinks = g.peerLinks := by rw [peerLinks, peerLinks, h.own]
  have hnodes : ∀ id : String, g'.syncNodes.nodes[id]? = g.syncNodes.nodes[id]? := by
    intro id
    rw [getElem?_syncNodes, getElem?_syncNodes, h.names, isConnected, isConnected, h.selfId, hends,
      hlinks]
  refine ⟨h.selfId, h.halves, hnodes, fun scid => ?_, ?_⟩
  · show g'.own[scid]? = g.own[scid]?
    rw [h.own]
  · show GraphStats.collect g'.syncNodes.nodes.size g'.halves.values =
      .collect g.syncNodes.nodes.size g.halves.values
    rw [(equiv_of_getElem? hnodes).size_eq, hhalves.values_eq]

theorem Twins.applyGossip (h : Twins g g') (gossip : List Announcement)
    (nodes : List NodeAnnouncement) (now : Time) (reset : UInt64) :
    SameView (g.applyGossip gossip nodes now reset) (g'.applyGossip gossip nodes now reset) := by
  have hannounced := h.foldl (fun a _ _ ht => ht.announce now a) gossip
  have hheard := hannounced.foldl
    (fun (n : NodeAnnouncement) _ _ ht => ht.nameNode n.id n.nickname) nodes
  rw [applyGossip_eq, applyGossip_eq]
  exact ((hheard.ageAll gossip now reset).syncOwn now).sameView

end Refresh

/-- A node that saved `saved` for the graph `g` and reads `read` after a restart has lost nothing:
all halves were written and are read, the graph they make is like `g`, and the refresh that follows
makes of it what it would have made of `g`. -/
structure Restores (g : Graph) (saved read : Snapshot) : Prop where
  written : saved.halves.length = g.halves.size
  loaded : read.halves.length = g.halves.size
  alike : Alike g (read.load (.empty g.selfId))
  refreshed : ∀ (channels : List OwnChannel) (gossip : List Announcement)
    (nodes : List NodeAnnouncement) (now later : Time) (reset : UInt64),
    SameView ((g.applyOwn channels now).applyGossip gossip nodes later reset)
      (((read.load (.empty g.selfId)).applyOwn channels now).applyGossip gossip nodes later reset)

/-- A restart loses nothing of a reachable graph, whatever the store held before and in whatever
order it gives its rows. -/
theorem Reachable.restores_save {g : Graph} (h : g.Reachable) (hdir : g.Storable) (s : Store)
    {read : Snapshot} (hread : (s.save g).snapshot.Gives read) :
    g.Restores (s.save g).snapshot read := by
  have hwritten : (s.save g).snapshot.halves.length = g.halves.size := by
    rw [snapshot_save h.keyed hdir s, List.length_map, length_values]
  have hloaded : read.halves.length = g.halves.size := hread.halves.length_eq.trans hwritten
  have halike := alike_load h.keyed h.known hdir hread
  refine ⟨hwritten, hloaded, halike, ?_⟩
  intro channels gossip nodes now later reset
  exact (halike.applyOwn channels now).applyGossip gossip nodes later reset

/-- A store that holds the snapshot of another graph. -/
def usedStore : Store := { snapshot := { nodes := [("z", "left over")] } }

theorem restores_save_twoChannels :
    twoChannels.Reachable ∧ twoChannels.Storable ∧
      (usedStore.save twoChannels).snapshot.Gives
        ⟨(usedStore.save twoChannels).snapshot.halves.reverse,
          (usedStore.save twoChannels).snapshot.nodes.reverse⟩ ∧
      twoChannels.Restores (usedStore.save twoChannels).snapshot
        ⟨(usedStore.save twoChannels).snapshot.halves.reverse,
          (usedStore.save twoChannels).snapshot.nodes.reverse⟩ := by
  have hdir : twoChannels.Storable := by decide +kernel
  have hread : (usedStore.save twoChannels).snapshot.Gives
      ⟨(usedStore.save twoChannels).snapshot.halves.reverse,
        (usedStore.save twoChannels).snapshot.nodes.reverse⟩ :=
    ⟨List.reverse_perm _, List.reverse_perm _⟩
  exact ⟨reachable_twoChannels, hdir, hread,
    reachable_twoChannels.restores_save hdir usedStore hread⟩

end Graph

end Rebalancer
