import Rebalancer.Proofs.Graph.Idempotence

set_option autoImplicit false

/-! # What the graph knows after a gossip snapshot

A snapshot may list a half several times, and the passes that come after the listings change halves
again. In the end a listed half has the policy of its last entry, one that is not listed is out of
use, and a half of an own channel follows its record (`Converges`). Halves and nodes are only added.
A half keeps the ends with which it was first known, so an entry that names other ends for it brings
no node.
-/

namespace Rebalancer

/-- The half has the capacity, the fees, the delay and the limits that an entry lists. -/
structure Half.Bears (h : Half) (a : Announcement) : Prop where
  capacity : h.capacity = a.capacity
  baseFee : h.baseFee = a.baseFee
  rate : h.rate = a.rate
  delay : h.delay = a.delay
  htlcMin : h.htlcMin = a.htlcMin
  htlcMax : h.htlcMax = a.htlcMax.getD a.capacity

theorem Half.bears_announced (h : Half) (a : Announcement) : (h.announced a).Bears a :=
  ⟨rfl, rfl, rfl, rfl, rfl, rfl⟩

/-- Activity and estimate are no part of what an entry lists. -/
theorem Half.Bears.withState {h : Half} {a : Announcement} (hb : h.Bears a) (active : Bool)
    (liquidity : Msat) (now : Time) :
    ({ h with active := active }.withLiquidity liquidity now).Bears a :=
  ⟨hb.capacity, hb.baseFee, hb.rate, hb.delay, hb.htlcMin, hb.htlcMax⟩

namespace Graph

open Std

variable {g : Graph} {gossip : List Announcement} {nodes : List NodeAnnouncement} {now : Time}
  {reset : UInt64} {id : HalfId} {a : Announcement} {k h : Half}

/-! ## Halves -/

/-- The last entry has overwritten the earlier ones. -/
theorem exists_heard_eq (last : (listingsOf gossip id).getLast? = some a) (k : Half) :
    ∃ before : Half, heard gossip id k = before.announced a := by
  obtain ⟨before, hbefore⟩ := List.getLast?_eq_some_iff.mp last
  refine ⟨before.foldl Half.announced k, ?_⟩
  rw [heard, hbefore, List.foldl_append]
  rfl

theorem mem_of_getLast?_listingsOf (last : (listingsOf gossip id).getLast? = some a) :
    id ∈ gossip.map Announcement.id := by
  have hmem : a ∈ listingsOf gossip id := List.mem_of_getLast? last
  obtain ⟨hgossip, hid⟩ := List.mem_filter.mp hmem
  rw [← eq_of_beq hid]
  exact List.mem_map_of_mem hgossip

theorem aged_listed_cases (now : Time) (reset : UInt64) (k : Half) :
    aged now reset true k = k ∨ aged now reset true k = k.withLiquidity (k.capacity / 2) now := by
  have hlisted : aged now reset true k =
      if reset.toNat ≤ estimateAge k now then k.withLiquidity (k.capacity / 2) now else k := rfl
  rw [hlisted]
  split
  · exact Or.inr rfl
  · exact Or.inl rfl

/-- Neither age nor the record of an own channel touches the policy of a half. -/
theorem bears_gossiped (last : (listingsOf gossip id).getLast? = some a) (g : Graph) (now : Time)
    (reset : UInt64) (k : Half) : (g.gossiped gossip now reset id k).Bears a := by
  obtain ⟨before, hheard⟩ := exists_heard_eq last k
  have hlisted : (gossip.map Announcement.id).contains id = true :=
    List.contains_iff_mem.mpr (mem_of_getLast?_listingsOf last)
  have hb := before.bears_announced a
  have hstate : ∀ k : Half, k.Bears a → (g.ownState now id k).Bears a := by
    intro k hk
    rcases ownState_cases g now id with hkeeps | ⟨active, liquidity, hsets⟩
    · rw [hkeeps]
      exact hk
    · rw [hsets]
      exact hk.withState active liquidity now
  unfold gossiped
  refine hstate _ ?_
  rw [hheard, hlisted]
  split
  · exact hb
  · rcases aged_listed_cases now reset (before.announced a) with hsame | hreset
    · rw [hsame]
      exact hb
    · rw [hreset]
      exact hb.withState (before.announced a).active _ now

theorem active_gossiped (last : (listingsOf gossip id).getLast? = some a)
    (other : g.isOwn id.scid = false) (now : Time) (reset : UInt64) (k : Half) :
    (g.gossiped gossip now reset id k).active = a.active := by
  obtain ⟨before, hheard⟩ := exists_heard_eq last k
  have hlisted : (gossip.map Announcement.id).contains id = true :=
    List.contains_iff_mem.mpr (mem_of_getLast?_listingsOf last)
  rw [gossiped, ownState_of_other other, other, if_neg Bool.false_ne_true, hheard, hlisted]
  rcases aged_listed_cases now reset (before.announced a) with hsame | hreset
  · rw [hsame]
    rfl
  · rw [hreset]
    rfl

theorem gossiped_unlisted (unlisted : id ∉ gossip.map Announcement.id)
    (other : g.isOwn id.scid = false) (now : Time) (reset : UInt64) (k : Half) :
    g.gossiped gossip now reset id k = { k with active := false } := by
  have hnone : (gossip.map Announcement.id).contains id = false := by
    rw [Bool.eq_false_iff, ne_eq, List.contains_iff_mem]
    exact unlisted
  rw [gossiped, ownState_of_other other, other, if_neg Bool.false_ne_true, hnone, heard,
    listingsOf_eq_nil_iff.mpr unlisted]
  rfl

theorem directionOf_eq_or (source destination : String) :
    directionOf source destination = 0 ∨ directionOf source destination = 1 := by
  unfold directionOf
  split
  · exact Or.inl rfl
  · exact Or.inr rfl

/-- Of the two directions, the one that a half does not have is that of its opposite. -/
theorem eq_opposite_of_ne {id id' : HalfId} (hscid : id.scid = id'.scid) (hne : id ≠ id')
    (hdir : id.direction = 0 ∨ id.direction = 1) (hdir' : id'.direction = 0 ∨ id'.direction = 1) :
    id = id'.opposite := by
  have hother : id.direction ≠ id'.direction := by
    intro heq
    exact hne (congrArg₂ HalfId.mk hscid heq)
  have hswap : id.direction = id'.direction ^^^ 1 := by
    rcases hdir with hd | hd <;> rcases hdir' with hd' | hd'
    · exact absurd (hd.trans hd'.symm) hother
    · rw [hd, hd']
      rfl
    · rw [hd, hd']
      rfl
    · exact absurd (hd.trans hd'.symm) hother
  exact congrArg₂ HalfId.mk hscid hswap

/-- A record settles activity and estimate of both halves of its channel. -/
theorem state_ownState {c : OwnChannel} (hc : g.own[id.scid]? = some c)
    (hdir : id.direction = 0 ∨ id.direction = 1) (now : Time) (k : Half) :
    (g.ownState now id k).active = c.usable ∧
      (g.ownState now id k).liquidity =
        if id = g.outId id.scid c then c.spendable else c.receivable := by
  unfold ownState
  rw [hc]
  dsimp only
  by_cases hout : id = g.outId id.scid c
  · rw [if_pos hout, if_pos hout]
    exact ⟨rfl, rfl⟩
  · have hin : id = (g.outId id.scid c).opposite :=
      eq_opposite_of_ne rfl hout hdir (directionOf_eq_or g.selfId c.peer)
    rw [if_neg hout, if_pos hin, if_neg hout]
    exact ⟨rfl, rfl⟩

theorem sameWay_gossiped (g : Graph) (gossip : List Announcement) (now : Time) (reset : UInt64)
    (id : HalfId) (k : Half) : (g.gossiped gossip now reset id k).SameWay k := by
  have hheard : ∀ (l : List Announcement) (k : Half), (l.foldl Half.announced k).SameWay k := by
    intro l
    induction l with
    | nil => exact .refl
    | cons a rest ih => exact fun k => (ih (k.announced a)).trans (k.sameWay_announced a)
  refine (g.sameWay_ownState now id _).trans ?_
  split
  · exact hheard _ k
  · exact (sameWay_aged now reset _ _).trans (hheard _ k)

/-! ## Nodes -/

/-- Every node that the entries bring is an end of a half that is listed. -/
theorem mem_nodes_announceAll {node : String} (h : node ∈ (g.announceAll gossip now).nodes) :
    node ∈ g.nodes ∨ ∃ a ∈ gossip, ∃ k : Half, (g.announceAll gossip now).halves[a.id]? = some k ∧
      (node = k.source ∨ node = k.destination) := by
  induction gossip generalizing g with
  | nil => exact Or.inl h
  | cons a rest ih =>
      have hgrows : Grows (g.announce now a) ((g.announce now a).announceAll rest now) :=
        (evolves_announceAll _ rest now).fits_of_fresh.preserves.grows
      rcases ih (g := g.announce now a) h with hnode | ⟨b, hb, k, hk, hend⟩
      · cases hold : g.halves[a.id]? with
        | some k =>
            rw [announce, hold] at hnode
            exact Or.inl hnode
        | none =>
            have hnew : g.announce now a = g.insertHalf (.ofAnnouncement a now) := by
              rw [announce, hold]
            have hput : (g.announce now a).halves[a.id]? = some (.ofAnnouncement a now) := by
              rw [hnew]
              exact TreeMap.getElem?_insert_self
            obtain ⟨k, hk, -, hs, hd⟩ := hgrows.halves _ _ hput
            rw [hnew] at hnode
            rcases TreeMap.mem_insertIfNew.mp hnode with hdest | hnode
            · refine Or.inr ⟨a, List.mem_cons_self, k, hk, Or.inr ?_⟩
              rw [hd]
              exact (LawfulEqCmp.eq_of_compare hdest).symm
            · rcases TreeMap.mem_insertIfNew.mp hnode with hsource | hnode
              · refine Or.inr ⟨a, List.mem_cons_self, k, hk, Or.inl ?_⟩
                rw [hs]
                exact (LawfulEqCmp.eq_of_compare hsource).symm
              · exact Or.inl hnode
      · exact Or.inr ⟨b, List.mem_cons_of_mem a hb, k, hk, hend⟩

theorem mem_nodes_hearNodes {node : String} :
    node ∈ (g.hearNodes nodes).nodes ↔ node ∈ g.nodes ∨ node ∈ nodes.map (·.id) := by
  rw [mem_nodes_iff, named?_hearNodes, mem_nodes_iff]
  by_cases hlisted : node ∈ nodes.map (·.id)
  · rw [if_pos hlisted]
    exact iff_of_true rfl (Or.inr hlisted)
  · rw [if_neg hlisted]
    exact (or_iff_left hlisted).symm

/-- After the entries and the nodes have been heard, no pass changes ids and aliases. -/
theorem named?_applyGossip (g : Graph) (gossip : List Announcement)
    (nodes : List NodeAnnouncement) (now : Time) (reset : UInt64) (node : String) :
    (g.applyGossip gossip nodes now reset).named? node =
      ((g.announceAll gossip now).hearNodes nodes).named? node := by
  rw [applyGossip_eq, named?_syncNodes]
  rfl

/-- The alias of a node; none for a node that is not known. -/
def aliasOf (g : Graph) (node : String) : String := ((g.named? node).map (·.2)).getD ""

theorem aliasOf_ensureNode (g : Graph) (id node : String) :
    (g.ensureNode id).aliasOf node = g.aliasOf node := by
  rw [aliasOf, named?_ensureNode, aliasOf]
  split
  · cases g.named? node with
    | none => rfl
    | some p => rfl
  · rfl

theorem aliasOf_announceAll (g : Graph) (gossip : List Announcement) (now : Time) (node : String) :
    (g.announceAll gossip now).aliasOf node = g.aliasOf node := by
  induction gossip generalizing g with
  | nil => rfl
  | cons a rest ih =>
      refine (ih (g.announce now a)).trans ?_
      unfold announce
      split
      · rfl
      · exact (aliasOf_ensureNode _ _ node).trans (aliasOf_ensureNode g _ node)

theorem aliasOf_hearNodes (g : Graph) (nodes : List NodeAnnouncement) (node : String) :
    (g.hearNodes nodes).aliasOf node = (lastNickname nodes node).getD (g.aliasOf node) := by
  rw [aliasOf, named?_hearNodes, aliasOf]
  by_cases hlisted : node ∈ nodes.map (·.id)
  · rw [if_pos hlisted]
    cases g.named? node with
    | none => rfl
    | some p => rfl
  · rw [if_neg hlisted, lastNickname_eq_none hlisted]
    rfl

theorem mem_nodes_applyGossip (hg : g.Reachable) (gossip : List Announcement)
    (nodes : List NodeAnnouncement) (now : Time) (reset : UInt64) (node : String) :
    node ∈ (g.applyGossip gossip nodes now reset).nodes ↔
      node ∈ g.nodes ∨ node ∈ nodes.map (·.id) ∨ ∃ a ∈ gossip, ∃ k : Half,
        (g.applyGossip gossip nodes now reset).halves[a.id]? = some k ∧
          (node = k.source ∨ node = k.destination) := by
  have hafter : (g.applyGossip gossip nodes now reset).Known :=
    (hg.after (.gossip gossip nodes now reset)).known
  have hlater : Grows (g.announceAll gossip now) (g.applyGossip gossip nodes now reset) := by
    rw [applyGossip_eq]
    exact (Evolves.trans (.trans ((@evolves_hearNodes Fits _ nodes).trans
      (evolves_ageAll _ gossip now reset)) (evolves_syncOwn _ now)) (.connect _)).preserves.grows
  rw [mem_nodes_congr (named?_applyGossip g gossip nodes now reset node), mem_nodes_hearNodes]
  constructor
  · rintro (hnode | hnode)
    · rcases mem_nodes_announceAll hnode with hold | ⟨a, ha, k, hk, hend⟩
      · exact Or.inl hold
      · obtain ⟨k', hk', -, hs, hd⟩ := hlater.halves _ _ hk
        rw [← hs, ← hd] at hend
        exact Or.inr (Or.inr ⟨a, ha, k', hk', hend⟩)
    · exact Or.inr (Or.inl hnode)
  · rintro (hold | hlisted | ⟨a, ha, k, hk, hend⟩)
    · exact Or.inl ((evolves_announceAll g gossip now).mem_nodes hold)
    · exact Or.inr hlisted
    · rw [← mem_nodes_hearNodes,
        ← mem_nodes_congr (named?_applyGossip g gossip nodes now reset node)]
      obtain ⟨hs, hd⟩ := hafter.ends hk
      rcases hend with rfl | rfl
      · exact hs
      · exact hd

/-! ## The graph -/

/-- What the graph `g'` knows when `g` has taken over a gossip snapshot. -/
structure Converges (g : Graph) (gossip : List Announcement) (nodes : List NodeAnnouncement)
    (g' : Graph) : Prop where
  listed : ∀ (id : HalfId) (a : Announcement), (listingsOf gossip id).getLast? = some a →
    ∃ h : Half, g'.halves[id]? = some h ∧ h.Bears a ∧
      (g.isOwn id.scid = false → h.active = a.active)
  unlisted : ∀ (id : HalfId) (h : Half), id ∉ gossip.map Announcement.id →
    g.isOwn id.scid = false → g.halves[id]? = some h →
      g'.halves[id]? = some { h with active := false }
  /-- Both halves of an own channel follow its record. -/
  own : ∀ (id : HalfId) (c : OwnChannel) (h : Half), g.own[id.scid]? = some c →
    id.direction = 0 ∨ id.direction = 1 → g'.halves[id]? = some h →
      h.active = c.usable ∧
        h.liquidity = if id = g.outId id.scid c then c.spendable else c.receivable
  known_halves : ∀ id : HalfId,
    id ∈ g'.halves ↔ id ∈ g.halves ∨ id ∈ gossip.map Announcement.id
  /-- A half keeps its ends, which are those of the entry that brought it. -/
  ends : ∀ (id : HalfId) (h : Half), g'.halves[id]? = some h →
    (∀ k : Half, g.halves[id]? = some k → h.source = k.source ∧ h.destination = k.destination) ∧
      (id ∉ g.halves → ∃ a : Announcement, (listingsOf gossip id).head? = some a ∧
        h.source = a.source ∧ h.destination = a.destination)
  known_nodes : ∀ node : String, node ∈ g'.nodes ↔ node ∈ g.nodes ∨ node ∈ nodes.map (·.id) ∨
    ∃ a ∈ gossip, ∃ h : Half, g'.halves[a.id]? = some h ∧
      (node = h.source ∨ node = h.destination)
  /-- If each entry names the ends of its half, all ends that are listed are known. -/
  listed_ends : (∀ a ∈ gossip, ∀ h : Half, g'.halves[a.id]? = some h →
      h.source = a.source ∧ h.destination = a.destination) →
    ∀ node : String, node ∈ g'.nodes ↔ node ∈ g.nodes ∨ node ∈ nodes.map (·.id) ∨
      ∃ a ∈ gossip, node = a.source ∨ node = a.destination
  aliases : ∀ (node : String) (n : Node), g'.nodes[node]? = some n →
    n.nickname = (lastNickname nodes node).getD (g.aliasOf node)

theorem mem_halves_applyGossip (g : Graph) (gossip : List Announcement)
    (nodes : List NodeAnnouncement) (now : Time) (reset : UInt64) (id : HalfId) :
    id ∈ (g.applyGossip gossip nodes now reset).halves ↔
      id ∈ g.halves ∨ id ∈ gossip.map Announcement.id := by
  have hfirst : (firstHeard gossip id now).isSome = true ↔ id ∈ gossip.map Announcement.id := by
    rw [firstHeard, Option.isSome_map, List.isSome_head?, ne_eq, listingsOf_eq_nil_iff, not_not]
  rw [TreeMap.mem_iff_isSome_getElem?, getElem?_applyGossip_eq, Option.isSome_map,
    Option.isSome_or, Bool.or_eq_true, hfirst, ← TreeMap.mem_iff_isSome_getElem?]

/-- Whatever the graph held before, it takes over a gossip snapshot in this way. -/
theorem converges_applyGossip (hg : g.Reachable) (gossip : List Announcement)
    (nodes : List NodeAnnouncement) (now : Time) (reset : UInt64) :
    g.Converges gossip nodes (g.applyGossip gossip nodes now reset) := by
  have hhalves := getElem?_applyGossip_eq g gossip nodes now reset
  constructor
  case listed =>
    intro id a last
    have hthere : id ∈ (g.applyGossip gossip nodes now reset).halves := by
      rw [mem_halves_applyGossip]
      exact Or.inr (mem_of_getLast?_listingsOf last)
    rw [TreeMap.mem_iff_isSome_getElem?, hhalves] at hthere
    obtain ⟨h, hh⟩ := Option.isSome_iff_exists.mp hthere
    obtain ⟨k, -, rfl⟩ := Option.map_eq_some_iff.mp hh
    exact ⟨_, (hhalves id).trans hh, bears_gossiped last g now reset k,
      fun other => active_gossiped last other now reset k⟩
  case unlisted =>
    intro id h unlisted other hh
    rw [hhalves, hh, Option.some_or, Option.map_some, gossiped_unlisted unlisted other]
  case own =>
    intro id c h hc hdir hh
    rw [hhalves] at hh
    obtain ⟨k, -, rfl⟩ := Option.map_eq_some_iff.mp hh
    exact state_ownState hc hdir now _
  case known_halves => exact mem_halves_applyGossip g gossip nodes now reset
  case ends =>
    intro id h hh
    rw [hhalves] at hh
    obtain ⟨k, hk, rfl⟩ := Option.map_eq_some_iff.mp hh
    obtain ⟨-, hs, hd⟩ := sameWay_gossiped g gossip now reset id k
    constructor
    · intro k' hk'
      rw [hk', Option.some_or] at hk
      cases hk
      exact ⟨hs, hd⟩
    · intro hnew
      rw [TreeMap.getElem?_eq_none hnew, Option.none_or] at hk
      obtain ⟨a, ha, rfl⟩ := Option.map_eq_some_iff.mp hk
      exact ⟨a, ha, hs, hd⟩
  case known_nodes => exact mem_nodes_applyGossip hg gossip nodes now reset
  case listed_ends =>
    intro hends node
    rw [mem_nodes_applyGossip hg]
    refine or_congr_right (or_congr_right (exists_congr fun a => and_congr_right fun ha => ?_))
    constructor
    · rintro ⟨h, hh, hend⟩
      obtain ⟨hs, hd⟩ := hends a ha h hh
      rwa [hs, hd] at hend
    · intro hend
      have hthere : a.id ∈ (g.applyGossip gossip nodes now reset).halves := by
        rw [mem_halves_applyGossip]
        exact Or.inr (List.mem_map_of_mem ha)
      obtain ⟨h, hh⟩ := Option.isSome_iff_exists.mp (TreeMap.mem_iff_isSome_getElem?.mp hthere)
      obtain ⟨hs, hd⟩ := hends a ha h hh
      rw [← hs, ← hd] at hend
      exact ⟨h, hh, hend⟩
  case aliases =>
    intro node n hn
    have halias : n.nickname = (g.applyGossip gossip nodes now reset).aliasOf node := by
      rw [aliasOf, named?, hn]
      rfl
    rw [halias, aliasOf, named?_applyGossip, ← aliasOf, aliasOf_hearNodes, aliasOf_announceAll]

/-! ## Snapshots that list a half twice -/

/-- An entry for a channel of 4000 satoshi. -/
def entryOver (source destination scid : String) (rate : Ppm) (active : Bool) : Announcement :=
  ⟨source, destination, scid, 4000000, active, 1000, rate, 6, 0, none⟩

/-- Two channels of the local node, and one between `b` and `c`. -/
def twoAndFar : Graph := twoChannels.after (.gossip [entryOver "b" "c" "3x1" 10 true] [] 5 1000000)

/-- An own half and one from `c` to `d` are listed twice, and `b` is named twice. The channel
between `b` and `c` is left out. -/
theorem converges_twoAndFar :
    twoAndFar.Reachable ∧
      ∃ g' : Graph, g' = twoAndFar.applyGossip
          [entryOver "a" "b" "1x1" 1 true, entryOver "c" "d" "4x1" 10 true,
            entryOver "c" "d" "4x1" 20 false, entryOver "a" "b" "1x1" 2 false]
          [⟨"b", some "bob"⟩, ⟨"b", some "bobby"⟩, ⟨"b", none⟩] 6 1000000 ∧
        twoAndFar.Converges
          [entryOver "a" "b" "1x1" 1 true, entryOver "c" "d" "4x1" 10 true,
            entryOver "c" "d" "4x1" 20 false, entryOver "a" "b" "1x1" 2 false]
          [⟨"b", some "bob"⟩, ⟨"b", some "bobby"⟩, ⟨"b", none⟩] g' ∧
        g'.halves[(⟨"1x1", 0⟩ : HalfId)]?.map (fun h => (h.rate, h.active, h.liquidity)) =
          some (2, true, 1000000) ∧
        g'.halves[(⟨"4x1", 0⟩ : HalfId)]?.map (fun h => (h.rate, h.active)) = some (20, false) ∧
        g'.halves[(⟨"3x1", 0⟩ : HalfId)]?.map (fun h => (h.rate, h.active)) = some (10, false) ∧
        g'.nodes["b"]?.map (·.nickname) = some "bobby" := by
  have hg : twoAndFar.Reachable := reachable_twoChannels.after _
  exact ⟨hg, _, rfl, converges_applyGossip hg _ _ 6 1000000, by decide +kernel, by decide +kernel,
    by decide +kernel, by decide +kernel⟩

/-- Not every end that the gossip lists becomes known: here the second entry is for the half that
the first one has brought. -/
theorem unknown_end_of_relisting :
    ¬ ∀ (g : Graph) (gossip : List Announcement) (nodes : List NodeAnnouncement) (now : Time)
      (reset : UInt64), g.Reachable → ∀ node : String,
        node ∈ (g.applyGossip gossip nodes now reset).nodes ↔
          node ∈ g.nodes ∨ node ∈ nodes.map (·.id) ∨
            ∃ a ∈ gossip, node = a.source ∨ node = a.destination := by
  intro hall
  have hd := hall (empty "a") [entryOver "b" "c" "1x1" 10 true, entryOver "d" "e" "1x1" 10 true] []
    5 1000000 ⟨"a", [], rfl⟩ "d"
  have hunknown : "d" ∉ ((empty "a").applyGossip
      [entryOver "b" "c" "1x1" 10 true, entryOver "d" "e" "1x1" 10 true] [] 5 1000000).nodes := by
    decide +kernel
  exact hunknown (hd.mpr (Or.inr (Or.inr ⟨_, List.mem_cons_of_mem _ List.mem_cons_self,
    Or.inl rfl⟩)))

end Graph

end Rebalancer
