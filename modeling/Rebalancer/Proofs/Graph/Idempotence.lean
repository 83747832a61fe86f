import Rebalancer.Proofs.Graph.Estimates

set_option autoImplicit false

/-! # Refreshing twice

A refresh takes over the records of the own channels and then the gossip (`refreshed`). Each half
changes by itself: the gossip may overwrite it, age may reset it, and the record of an own channel
has the last word. If the gossip lists the half at most once, none of them finds anything to do a
second time (`gossiped_gossiped`). The second refresh knows every half that it could bring and gives
every node the name that it has already (`named?_hearNodes_twice`), so it leaves the graph as it is
(`sameView_refreshed`).
-/

namespace Rebalancer.Graph

open Std

/-! ## A half -/

section Half

variable {gossip : List Announcement} {id : HalfId}

theorem ownState_ownState (g : Graph) (now : Time) (id : HalfId) (k : Half) :
    g.ownState now id (g.ownState now id k) = g.ownState now id k := by
  rcases ownState_cases g now id with hkeeps | ⟨active, liquidity, hsets⟩
  · rw [hkeeps]
  · rw [hsets, hsets]
    rfl

theorem announced_announced (k : Half) (a : Announcement) :
    (k.announced a).announced a = k.announced a := by
  have hclamp : min (min k.liquidity a.capacity) a.capacity = min k.liquidity a.capacity := by
    refine UInt64.toNat_inj.mp ?_
    rw [toNat_min_word, toNat_min_word]
    exact Nat.min_eq_left (Nat.min_le_right _ _)
  show { k.announced a with liquidity := min (min k.liquidity a.capacity) a.capacity } = _
  rw [hclamp]
  rfl

/-- A gossip that names each half at most once lists a half once or not at all. -/
theorem listingsOf_cases (once : (gossip.map Announcement.id).Nodup) (id : HalfId) :
    listingsOf gossip id = [] ∨ ∃ a : Announcement, listingsOf gossip id = [a] := by
  induction gossip with
  | nil => exact Or.inl rfl
  | cons a rest ih =>
      obtain ⟨hnew, hrest⟩ := List.nodup_cons.mp once
      rw [listingsOf_cons]
      by_cases hid : a.id = id
      · rw [if_pos hid, listingsOf_eq_nil_iff.mpr (hid ▸ hnew)]
        exact Or.inr ⟨a, rfl⟩
      · rw [if_neg hid]
        exact ih hrest

theorem heard_heard (once : (gossip.map Announcement.id).Nodup) (k : Half) :
    heard gossip id (heard gossip id k) = heard gossip id k := by
  rw [heard, heard]
  rcases listingsOf_cases once id with hnone | ⟨a, hone⟩
  · rw [hnone]
    rfl
  · rw [hone]
    exact announced_announced k a

/-- What the gossip says of activity and estimate comes to nothing where a record settles them. -/
theorem ownState_heard_ownState (once : (gossip.map Announcement.id).Nodup) (g : Graph)
    (now : Time) (k : Half) :
    g.ownState now id (heard gossip id (g.ownState now id k)) =
      g.ownState now id (heard gossip id k) := by
  rcases ownState_cases g now id with hkeeps | ⟨active, liquidity, hsets⟩
  · rw [hkeeps k]
  · rw [hsets, hsets, hsets, heard, heard]
    rcases listingsOf_cases once id with hnone | ⟨a, hone⟩
    · rw [hnone]
      rfl
    · rw [hone]
      rfl

/-- An estimate that age has reset is left as it is, by the listing and by age itself. -/
theorem aged_announced_aged (now : Time) (reset : UInt64) (a : Announcement) (k : Half) :
    aged now reset true ((aged now reset true (k.announced a)).announced a) =
      aged now reset true (k.announced a) := by
  have hlisted : ∀ k : Half, aged now reset true k =
      if reset.toNat ≤ estimateAge k now then k.withLiquidity (k.capacity / 2) now else k :=
    fun _ => rfl
  by_cases hdue : reset.toNat ≤ estimateAge (k.announced a) now
  · have hreset : aged now reset true (k.announced a) =
        (k.announced a).withLiquidity (a.capacity / 2) now := (hlisted _).trans (if_pos hdue)
    have hclamp : ((k.announced a).withLiquidity (a.capacity / 2) now).announced a =
        (k.announced a).withLiquidity (a.capacity / 2) now := by
      show { (k.announced a).withLiquidity (a.capacity / 2) now with
        liquidity := min (a.capacity / 2) a.capacity } = _
      rw [min_half_self]
      rfl
    rw [hreset, hclamp, hlisted]
    split
    · rfl
    · rfl
  · have hkept : aged now reset true (k.announced a) = k.announced a :=
      (hlisted _).trans (if_neg hdue)
    rw [hkept, announced_announced, hkept]

theorem aged_heard_aged (once : (gossip.map Announcement.id).Nodup) (now : Time) (reset : UInt64)
    (k : Half) :
    aged now reset ((gossip.map Announcement.id).contains id) (heard gossip id
        (aged now reset ((gossip.map Announcement.id).contains id) (heard gossip id k))) =
      aged now reset ((gossip.map Announcement.id).contains id) (heard gossip id k) := by
  have hlisted : (gossip.map Announcement.id).contains id = true ↔ listingsOf gossip id ≠ [] := by
    rw [ne_eq, listingsOf_eq_nil_iff, not_not, List.contains_iff_mem]
  rcases listingsOf_cases once id with hnone | ⟨a, hone⟩
  · have hout : (gossip.map Announcement.id).contains id = false := by
      rw [Bool.eq_false_iff, ne_eq, hlisted, hnone]
      exact not_not_intro rfl
    rw [hout, heard, heard, hnone]
    rfl
  · have hin : (gossip.map Announcement.id).contains id = true := by
      rw [hlisted, hone]
      exact List.cons_ne_nil a []
    rw [hin, heard, heard, hone]
    exact aged_announced_aged now reset a k

theorem gossiped_congr {g g' : Graph} (hown : g'.own = g.own) (hself : g'.selfId = g.selfId) :
    g'.gossiped = g.gossiped := by
  unfold gossiped isOwn
  rw [ownState_congr hown hself, hown]

/-- What a gossip refresh makes of a half, it makes of it only once. -/
theorem gossiped_gossiped (once : (gossip.map Announcement.id).Nodup) (g : Graph) (now : Time)
    (reset : UInt64) (k : Half) :
    g.gossiped gossip now reset id (g.gossiped gossip now reset id k) =
      g.gossiped gossip now reset id k := by
  cases hown : g.isOwn id.scid with
  | true =>
      have hrecord : ∀ k, g.gossiped gossip now reset id k =
          g.ownState now id (heard gossip id k) := by
        intro k
        rw [gossiped, hown, if_pos rfl]
      rw [hrecord, hrecord, ownState_heard_ownState once, heard_heard once]
  | false =>
      have hage : ∀ k, g.gossiped gossip now reset id k =
          aged now reset ((gossip.map Announcement.id).contains id) (heard gossip id k) := by
        intro k
        rw [gossiped, ownState_of_other hown, hown, if_neg Bool.false_ne_true]
      rw [hage, hage, aged_heard_aged once]

theorem ownState_gossiped (g : Graph) (now : Time) (reset : UInt64) (k : Half) :
    g.ownState now id (g.gossiped gossip now reset id k) = g.gossiped gossip now reset id k :=
  ownState_ownState g now id _

end Half

/-! ## A node -/

/-- The name that the list gives a node last, if it gives it one. -/
def lastNickname : List NodeAnnouncement → String → Option String
  | [], _ => none
  | n :: rest, id => (lastNickname rest id).or (if n.id = id then n.nickname else none)

theorem lastNickname_eq_none {nodes : List NodeAnnouncement} {id : String}
    (h : id ∉ nodes.map (·.id)) : lastNickname nodes id = none := by
  induction nodes with
  | nil => rfl
  | cons n rest ih =>
      rw [List.map_cons, List.mem_cons, not_or] at h
      rw [lastNickname, ih h.2, if_neg fun hid => h.1 hid.symm, Option.none_or]

theorem named?_hearNodes (g : Graph) (nodes : List NodeAnnouncement) (id : String) :
    (g.hearNodes nodes).named? id =
      if id ∈ nodes.map (·.id) then
        some (((g.named? id).getD (id, "")).1,
          (lastNickname nodes id).getD ((g.named? id).getD (id, "")).2)
      else g.named? id := by
  induction nodes generalizing g with
  | nil => rfl
  | cons n rest ih =>
      show ((g.nameNode n.id n.nickname).hearNodes rest).named? id = _
      rw [ih, named?_nameNode, lastNickname]
      by_cases hid : n.id = id
      · have hmem : id ∈ (n :: rest).map (·.id) := by
          rw [List.map_cons, hid]
          exact List.mem_cons_self
        rw [if_pos hid, if_pos hid, if_pos hmem, Option.getD_some]
        split
        · cases lastNickname rest id with
          | none => rfl
          | some nickname => rfl
        · rename_i hrest
          rw [lastNickname_eq_none hrest, Option.none_or]
      · have hmem : id ∈ (n :: rest).map (·.id) ↔ id ∈ rest.map (·.id) := by
          rw [List.map_cons, List.mem_cons]
          exact or_iff_right fun h => hid h.symm
        rw [if_neg hid, if_neg hid, Option.or_none]
        simp only [hmem]

/-- A graph whose names are those of one that has heard the list learns no name from it. -/
theorem named?_hearNodes_twice {g g' : Graph} {nodes : List NodeAnnouncement} {id : String}
    (h : g'.named? id = (g.hearNodes nodes).named? id) :
    (g'.hearNodes nodes).named? id = g'.named? id := by
  rw [named?_hearNodes, h, named?_hearNodes]
  split
  · rw [Option.getD_some]
    cases lastNickname nodes id with
    | none => rfl
    | some nickname => rfl
  · rfl

/-! ## The graph -/

/-- All that a full refresh takes over: the records of the own channels, the gossip and the nodes,
as reported at one time. -/
structure Refresh where
  channels : List OwnChannel
  gossip : List Announcement
  nodes : List NodeAnnouncement
  now : Time
  reset : UInt64

/-- The graph after a full refresh. -/
def refreshed (g : Graph) (r : Refresh) : Graph :=
  (g.applyOwn r.channels r.now).applyGossip r.gossip r.nodes r.now r.reset

/-- Listing halves that are known only changes these. -/
theorem announceAll_of_known {gossip : List Announcement} (now : Time) {g : Graph}
    (h : ∀ a ∈ gossip, a.id ∈ g.halves) :
    (g.announceAll gossip now).inbound = g.inbound ∧
      (g.announceAll gossip now).nodes = g.nodes := by
  induction gossip generalizing g with
  | nil => exact ⟨rfl, rfl⟩
  | cons a rest ih =>
      have hknown := TreeMap.mem_iff_isSome_getElem?.mp (h a List.mem_cons_self)
      obtain ⟨k, hk⟩ := Option.isSome_iff_exists.mp hknown
      have hstep : g.announce now a =
          { g with halves := g.halves.insert a.id (k.announced a) } := by
        rw [announce, hk]
      have hrest : ∀ a' ∈ rest, a'.id ∈ (g.announce now a).halves := by
        intro a' ha'
        have hgrows := (evolves_announce g now a).fits_of_fresh.preserves.grows
        exact hgrows.mem_halves (h a' (List.mem_cons_of_mem a ha'))
      obtain ⟨hinbound, hnodes⟩ := ih hrest
      rw [hstep] at hinbound hnodes
      show ((g.announce now a).announceAll rest now).inbound = _ ∧
        ((g.announce now a).announceAll rest now).nodes = _
      rw [hstep]
      exact ⟨hinbound, hnodes⟩

theorem Twins.of_syncNodes {g g' : Graph} (h : Twins g.syncNodes g'.syncNodes) : Twins g g' := by
  refine ⟨⟨h.selfId, h.halves, fun id => ?_⟩, h.own⟩
  rw [← named?_syncNodes g, ← named?_syncNodes g', h.names]

section Refresh

variable (g : Graph) {r : Refresh}

theorem own_refreshed (r : Refresh) : (g.refreshed r).own = .ofList (keyed r.channels) :=
  (own_applyGossip _ r.gossip r.nodes r.now r.reset).trans (own_applyOwn g r.channels r.now)

theorem selfId_refreshed (r : Refresh) : (g.refreshed r).selfId = g.selfId :=
  (selfId_applyGossip _ r.gossip r.nodes r.now r.reset).trans (selfId_applyOwn g r.channels r.now)

/-- The graph has the records that it is given again. -/
theorem withOwn_refreshed (r : Refresh) :
    (g.refreshed r).withOwn r.channels = g.refreshed r := by
  rw [withOwn, ← own_refreshed g r]

/-- The graph knows all halves of the records that it is given again. -/
theorem missingOwn_refreshed (r : Refresh) : (g.refreshed r).missingOwn r.now = [] := by
  refine List.eq_nil_iff_forall_not_mem.mpr fun h hh => ?_
  obtain ⟨hunknown, scid, c, hc, hmem⟩ := exists_own_of_mem_missingOwn hh
  rw [own_refreshed] at hc
  rw [ownHalves, selfId_refreshed] at hmem
  have hadded : h.id ∈ ((g.withOwn r.channels).addMissing r.now).halves := mem_addMissing hc hmem
  have happlied : Grows ((g.withOwn r.channels).addMissing r.now) (g.applyOwn r.channels r.now) :=
    ((evolves_syncOwn _ r.now).trans (.connect _)).preserves.grows
  have hgossiped : Grows (g.applyOwn r.channels r.now) (g.refreshed r) :=
    (evolves_applyGossip _ r.gossip r.nodes r.now r.reset).fits_of_fresh.preserves.grows
  exact hunknown (hgossiped.mem_halves (happlied.mem_halves hadded))

/-- Taking over the same records again only derives what follows from them. -/
theorem applyOwn_refreshed (r : Refresh) :
    (g.refreshed r).applyOwn r.channels r.now = ((g.refreshed r).syncOwn r.now).syncNodes := by
  rw [applyOwn_eq, withOwn_refreshed, addMissing, missingOwn_refreshed]
  rfl

theorem mem_halves_refreshed {a : Announcement} (ha : a ∈ r.gossip) :
    a.id ∈ (g.refreshed r).halves := by
  have hheard : (firstHeard r.gossip a.id r.now).isSome = true := by
    rw [firstHeard, Option.isSome_map, List.isSome_head?, ne_eq, listingsOf_eq_nil_iff, not_not]
    exact List.mem_map_of_mem ha
  rw [TreeMap.mem_iff_isSome_getElem?, refreshed, getElem?_applyGossip_eq, Option.isSome_map,
    Option.isSome_or, hheard, Bool.or_true]

/-- A second refresh finds every half as the first has left it. -/
theorem getElem?_refreshed_twice (once : (r.gossip.map Announcement.id).Nodup) (id : HalfId) :
    ((g.refreshed r).refreshed r).halves[id]? = (g.refreshed r).halves[id]? := by
  set g₁ := g.applyOwn r.channels r.now
  set g₂ := g.refreshed r with hg₂
  have hown : g₂.own = g₁.own := own_applyGossip g₁ r.gossip r.nodes r.now r.reset
  have hself : g₂.selfId = g₁.selfId := selfId_applyGossip g₁ r.gossip r.nodes r.now r.reset
  have hgossiped : (g₂.applyOwn r.channels r.now).gossiped = g₁.gossiped :=
    gossiped_congr ((own_applyOwn g₂ r.channels r.now).trans (own_applyOwn g r.channels r.now).symm)
      ((selfId_applyOwn g₂ r.channels r.now).trans hself)
  have hfirst : g₂.halves[id]? =
      (g₁.halves[id]?.or (firstHeard r.gossip id r.now)).map
        (g₁.gossiped r.gossip r.now r.reset id) :=
    getElem?_applyGossip_eq g₁ r.gossip r.nodes r.now r.reset id
  have hsecond : (g₂.applyOwn r.channels r.now).halves[id]? =
      g₂.halves[id]?.map (g₂.ownState r.now id) := by
    rw [hg₂, applyOwn_refreshed]
    exact TreeMap.getElem?_map
  rw [refreshed, getElem?_applyGossip_eq, hsecond, hgossiped, hfirst, ownState_congr hown hself]
  cases hbrought : g₁.halves[id]?.or (firstHeard r.gossip id r.now) with
  | none =>
      rw [Option.map_none, Option.map_none, Option.none_or, (Option.or_eq_none_iff.mp hbrought).2,
        Option.map_none]
  | some k =>
      rw [Option.map_some, Option.map_some, ownState_gossiped, Option.some_or, Option.map_some,
        gossiped_gossiped once]

/-- The gossip of the second refresh brings neither a half nor a node. -/
theorem announceAll_refreshed (r : Refresh) :
    let again := ((g.refreshed r).applyOwn r.channels r.now).announceAll r.gossip r.now
    again.inbound = (g.refreshed r).inbound ∧
      ∀ id, again.named? id = (g.refreshed r).named? id := by
  have hknown : ∀ a ∈ r.gossip, a.id ∈ ((g.refreshed r).applyOwn r.channels r.now).halves := by
    intro a ha
    exact (evolves_applyOwn _ r.channels r.now).preserves.grows.mem_halves
      (mem_halves_refreshed g ha)
  obtain ⟨hinbound, hnodes⟩ := announceAll_of_known r.now hknown
  refine ⟨hinbound.trans ?_, fun id => ?_⟩
  · rw [applyOwn_refreshed]
    rfl
  · rw [named?, hnodes, ← named?, applyOwn_refreshed, named?_syncNodes]
    rfl

/-- A second refresh leaves every node its name. -/
theorem named?_refreshed_twice (r : Refresh) (id : String) :
    ((g.refreshed r).refreshed r).named? id = (g.refreshed r).named? id := by
  have hnames : ∀ g : Graph, (g.refreshed r).named? id =
      (((g.applyOwn r.channels r.now).announceAll r.gossip r.now).hearNodes r.nodes).named? id := by
    intro g
    rw [refreshed, applyGossip_eq, named?_syncNodes]
    rfl
  have hannounced := (announceAll_refreshed g r).2 id
  -- The names that the list meets the second time are those that it has given the first time.
  have hheard := hannounced.trans (hnames g)
  rw [hnames, named?_hearNodes_twice hheard, hannounced]

/-- A second refresh lists no half anew. -/
theorem inbound_refreshed_twice (r : Refresh) :
    ((g.refreshed r).refreshed r).inbound = (g.refreshed r).inbound := by
  have hheard : ∀ g : Graph, (g.hearNodes r.nodes).inbound = g.inbound :=
    foldl_keeps inbound
      (fun g (n : NodeAnnouncement) => (reshapes_nameNode g n.id n.nickname).inbound) r.nodes
  exact (hheard _).trans (announceAll_refreshed g r).1

/-- Whatever a graph was, a refresh makes of it what the same refresh leaves as it is: all halves
and their order, the names and the connectivity of the nodes, the records and the counts. -/
theorem sameView_refreshed (once : (r.gossip.map Announcement.id).Nodup) :
    SameView (g.refreshed r) ((g.refreshed r).refreshed r) ∧
      ((g.refreshed r).refreshed r).inbound = (g.refreshed r).inbound := by
  have htwins : Twins (g.refreshed r) ((g.refreshed r).refreshed r) :=
    ⟨⟨selfId_refreshed _ r, getElem?_refreshed_twice g once, named?_refreshed_twice g r⟩,
      (own_refreshed _ r).trans (own_refreshed g r).symm⟩
  refine ⟨?_, inbound_refreshed_twice g r⟩
  -- Both refreshes end with the connectivity, which follows from all that is the same by then.
  set g₂ := g.refreshed r with hg₂
  rw [refreshed, applyGossip_eq] at htwins ⊢
  rw [hg₂, refreshed, applyGossip_eq] at htwins ⊢
  exact htwins.of_syncNodes.sameView

end Refresh

/-- The gossip lists the half from `b` to the local node, which is one of its own channel, and one
beyond `b`, and gives `b` two names. -/
def refreshOfB : Refresh where
  channels := [channelWith "b" "1x1" 400000 600000]
  gossip := [⟨"b", "a", "1x1", 900000, false, 7, 100, 6, 1, none⟩,
    ⟨"b", "c", "3x1", 4000000, true, 1, 0, 6, 0, some 2000000⟩]
  nodes := [⟨"b", some "first"⟩, ⟨"d", none⟩, ⟨"b", some "second"⟩]
  now := 50
  reset := 3600

/-- The first refresh brings a half and a name, the second one nothing. -/
theorem sameView_refreshed_twoChannels :
    (refreshOfB.gossip.map Announcement.id).Nodup ∧
      ⟨"3x1", 0⟩ ∈ (twoChannels.refreshed refreshOfB).halves ∧
      (twoChannels.refreshed refreshOfB).named? "b" = some ("b", "second") ∧
      SameView (twoChannels.refreshed refreshOfB)
        ((twoChannels.refreshed refreshOfB).refreshed refreshOfB) ∧
      ((twoChannels.refreshed refreshOfB).refreshed refreshOfB).inbound =
        (twoChannels.refreshed refreshOfB).inbound := by
  have once : (refreshOfB.gossip.map Announcement.id).Nodup := by decide
  exact ⟨once, by decide +kernel, by decide +kernel, sameView_refreshed twoChannels once⟩

end Rebalancer.Graph
