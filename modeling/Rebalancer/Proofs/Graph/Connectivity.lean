import Rebalancer.Proofs.Graph.Estimates
import Rebalancer.Proofs.Graph.Listing
import Rebalancer.Proofs.Graph.Transfers

set_option autoImplicit false

/-! # Connectivity

Whether a node is connected is kept with the node, although it follows from the own channels and
the active halves (`isConnected_iff`). Snapshots, the gossip and peer refreshes derive it anew.
Payments and failures do not, and need not: a payment keeps the peer and the connection of every
record, so that deriving the own halves again changes none of their activities
(`ActiveAsRecorded`), and a failure changes estimates only. So the flag of every node is right
after any changes (`shows_of_changes`), if no record names the local node as its peer.
-/

namespace Rebalancer.Graph

open Std

variable {g g' : Graph}

/-! ## What the flag follows from -/

/-- The node is the peer of an own channel. -/
def HasPeer (g : Graph) (id : String) : Prop :=
  ∃ (scid : String) (c : OwnChannel), g.own[scid]? = some c ∧ c.peer = id

/-- The node is the peer of an own channel that is connected. -/
def HasLink (g : Graph) (id : String) : Prop :=
  ∃ (scid : String) (c : OwnChannel), g.own[scid]? = some c ∧ c.peer = id ∧ c.connected = true

/-- An active half comes from the node or leads to it. -/
def OnActiveHalf (g : Graph) (id : String) : Prop :=
  ∃ (k : HalfId) (h : Half), g.halves[k]? = some h ∧ h.active = true ∧
    (h.source = id ∨ h.destination = id)

theorem HasLink.hasPeer {id : String} (h : g.HasLink id) : g.HasPeer id := by
  obtain ⟨scid, c, hc, hpeer, -⟩ := h
  exact ⟨scid, c, hc, hpeer⟩

section Ends

variable (l : List (HalfId × Half)) (ends : TreeSet String) (id : String)

/-- The ends of the active halves in `l`, with those that are there. -/
def addEnds : TreeSet String :=
  l.foldl (fun ends e =>
    if e.2.active then (ends.insert e.2.source).insert e.2.destination else ends) ends

theorem mem_addEnds_iff : id ∈ addEnds l ends ↔
    id ∈ ends ∨ ∃ e ∈ l, e.2.active = true ∧ (e.2.source = id ∨ e.2.destination = id) := by
  induction l generalizing ends with
  | nil => simp [addEnds]
  | cons e rest ih =>
      show id ∈ addEnds rest (if e.2.active then _ else ends) ↔ _
      rw [ih, List.exists_mem_cons_iff, ← or_assoc]
      refine or_congr_left ?_
      cases e.2.active with
      | false => simp
      | true =>
          simp only [if_true, TreeSet.mem_insert, LawfulEqCmp.compare_eq_iff_eq, true_and]
          rw [← or_assoc, or_comm, or_comm (a := e.2.destination = id)]

end Ends

theorem mem_activeEnds_iff {id : String} : id ∈ g.activeEnds ↔ g.OnActiveHalf id := by
  have hends : g.activeEnds = addEnds g.halves.toList ∅ := TreeMap.foldl_eq_foldl_toList
  rw [hends, mem_addEnds_iff, or_iff_right TreeSet.not_mem_emptyc]
  simp only [Prod.exists, TreeMap.mem_toList_iff_getElem?_eq_some, OnActiveHalf]

section Links

variable (l : List (String × OwnChannel)) (links : TreeMap String Bool) (id : String)

/-- Whether the peers in `l` are connected, with those that are there. -/
def addLinks : TreeMap String Bool :=
  l.foldl (fun links e => links.insert e.2.peer (links.getD e.2.peer false || e.2.connected)) links

theorem mem_addLinks_iff : id ∈ addLinks l links ↔ id ∈ links ∨ ∃ e ∈ l, e.2.peer = id := by
  induction l generalizing links with
  | nil => simp [addLinks]
  | cons e rest ih =>
      show id ∈ addLinks rest _ ↔ _
      rw [ih, TreeMap.mem_insert, LawfulEqCmp.compare_eq_iff_eq, List.exists_mem_cons_iff,
        or_comm (a := e.2.peer = id), or_assoc]

theorem getD_addLinks : (addLinks l links).getD id false = true ↔
    links.getD id false = true ∨ ∃ e ∈ l, e.2.peer = id ∧ e.2.connected = true := by
  induction l generalizing links with
  | nil => simp [addLinks]
  | cons e rest ih =>
      show (addLinks rest _).getD id false = true ↔ _
      rw [ih, TreeMap.getD_insert, List.exists_mem_cons_iff, ← or_assoc]
      refine or_congr_left ?_
      by_cases hid : e.2.peer = id
      · subst hid
        rw [if_pos ReflCmp.compare_self, Bool.or_eq_true, and_iff_right rfl]
      · rw [if_neg fun h => hid (LawfulEqCmp.eq_of_compare h)]
        exact (or_iff_left fun h => hid h.1).symm

end Links

theorem getD_peerLinks (g : Graph) (id : String) (fallback : Bool) :
    g.peerLinks.getD id fallback = true ↔
      g.HasLink id ∨ (¬ g.HasPeer id ∧ fallback = true) := by
  have hlinks : g.peerLinks = addLinks g.own.toList ∅ := TreeMap.foldl_eq_foldl_toList
  have hpeer : id ∈ g.peerLinks ↔ g.HasPeer id := by
    rw [hlinks, mem_addLinks_iff, or_iff_right TreeMap.not_mem_emptyc]
    simp only [Prod.exists, TreeMap.mem_toList_iff_getElem?_eq_some, HasPeer]
  have hlink : g.peerLinks.getD id false = true ↔ g.HasLink id := by
    rw [hlinks, getD_addLinks, TreeMap.getD_emptyc, or_iff_right Bool.false_ne_true]
    simp only [Prod.exists, TreeMap.mem_toList_iff_getElem?_eq_some, HasLink]
  by_cases hmem : id ∈ g.peerLinks
  · have hsame : g.peerLinks.getD id fallback = g.peerLinks.getD id false :=
      (TreeMap.getElem_eq_getD (h := hmem)).symm.trans TreeMap.getElem_eq_getD
    rw [hsame, hlink]
    exact (or_iff_left fun h => h.1 (hpeer.mp hmem)).symm
  · rw [TreeMap.getD_eq_fallback hmem, and_iff_right fun h => hmem (hpeer.mpr h)]
    exact (or_iff_right fun h => hmem (hpeer.mpr h.hasPeer)).symm

/-- The derived flag: the local node is connected, a peer if one of its channels is, any other node
if an active half has it as an end. -/
theorem isConnected_iff (g : Graph) (id : String) :
    g.isConnected id = true ↔
      id = g.selfId ∨ g.HasLink id ∨ (¬ g.HasPeer id ∧ g.OnActiveHalf id) := by
  rw [isConnected, Bool.or_eq_true, beq_iff_eq, getD_peerLinks, ← TreeSet.mem_iff_contains,
    mem_activeEnds_iff]

/-! ## What leaves the flag alone -/

/-- `g'` has the nodes of `g`, and all that their flags follow from. -/
structure SameLinks (g g' : Graph) : Prop where
  selfId : g'.selfId = g.selfId
  nodes : g'.nodes = g.nodes
  own : ∀ scid : String, g'.own[scid]?.map (fun c => (c.peer, c.connected)) =
    g.own[scid]?.map fun c => (c.peer, c.connected)
  halves : ∀ id : HalfId, g'.halves[id]?.map (fun h => (h.source, h.destination, h.active)) =
    g.halves[id]?.map fun h => (h.source, h.destination, h.active)

theorem SameLinks.refl (g : Graph) : SameLinks g g := ⟨rfl, rfl, fun _ => rfl, fun _ => rfl⟩

theorem SameLinks.symm (h : SameLinks g g') : SameLinks g' g :=
  ⟨h.selfId.symm, h.nodes.symm, fun scid => (h.own scid).symm, fun id => (h.halves id).symm⟩

theorem SameLinks.trans {g'' : Graph} (h : SameLinks g g') (h' : SameLinks g' g'') :
    SameLinks g g'' :=
  ⟨h'.selfId.trans h.selfId, h'.nodes.trans h.nodes, fun scid => (h'.own scid).trans (h.own scid),
    fun id => (h'.halves id).trans (h.halves id)⟩

theorem SameLinks.exists_own (h : SameLinks g g') {scid : String} {c : OwnChannel}
    (hc : g.own[scid]? = some c) :
    ∃ c' : OwnChannel, g'.own[scid]? = some c' ∧ c'.peer = c.peer ∧ c'.connected = c.connected := by
  have hown := h.own scid
  rw [hc, Option.map_some] at hown
  obtain ⟨c', hc', heq⟩ := Option.map_eq_some_iff.mp hown
  exact ⟨c', hc', congrArg (·.1) heq, congrArg (·.2) heq⟩

theorem SameLinks.hasPeer (h : SameLinks g g') {id : String} (hid : g.HasPeer id) :
    g'.HasPeer id := by
  obtain ⟨scid, c, hc, rfl⟩ := hid
  obtain ⟨c', hc', hpeer, -⟩ := h.exists_own hc
  exact ⟨scid, c', hc', hpeer⟩

theorem SameLinks.hasLink (h : SameLinks g g') {id : String} (hid : g.HasLink id) :
    g'.HasLink id := by
  obtain ⟨scid, c, hc, rfl, hconnected⟩ := hid
  obtain ⟨c', hc', hpeer, hsame⟩ := h.exists_own hc
  exact ⟨scid, c', hc', hpeer, hsame.trans hconnected⟩

theorem SameLinks.onActiveHalf (h : SameLinks g g') {id : String} (hid : g.OnActiveHalf id) :
    g'.OnActiveHalf id := by
  obtain ⟨k, half, hk, hactive, hends⟩ := hid
  have hhalves := h.halves k
  rw [hk, Option.map_some] at hhalves
  obtain ⟨half', hk', heq⟩ := Option.map_eq_some_iff.mp hhalves
  obtain ⟨hsource, hdestination, hsame⟩ :
      half'.source = half.source ∧ half'.destination = half.destination ∧
        half'.active = half.active := by simpa using heq
  refine ⟨k, half', hk', hsame.trans hactive, ?_⟩
  rwa [hsource, hdestination]

theorem SameLinks.isConnected_eq (h : SameLinks g g') (id : String) :
    g'.isConnected id = g.isConnected id := by
  have hpeer : g'.HasPeer id ↔ g.HasPeer id := ⟨h.symm.hasPeer, h.hasPeer⟩
  have hlink : g'.HasLink id ↔ g.HasLink id := ⟨h.symm.hasLink, h.hasLink⟩
  have hends : g'.OnActiveHalf id ↔ g.OnActiveHalf id := ⟨h.symm.onActiveHalf, h.onActiveHalf⟩
  rw [Bool.eq_iff_iff, isConnected_iff, isConnected_iff, h.selfId, hpeer, hlink, hends]

/-- The halves of the own channels are as active as the records make them. -/
def ActiveAsRecorded (g : Graph) : Prop :=
  ∀ (scid : String) (c : OwnChannel), g.own[scid]? = some c → ∀ (id : HalfId) (h : Half),
    id = g.outId scid c ∨ id = (g.outId scid c).opposite → g.halves[id]? = some h →
      h.active = c.usable

theorem Synced.activeAsRecorded (hs : g.Synced) (hp : g.NoSelfPeer) : g.ActiveAsRecorded := by
  intro scid c hc id h hid hh
  obtain ⟨⟨out, hout, hactive, -⟩, back, hback, hactive', -⟩ := hs scid c hc (hp scid c hc)
  rcases hid with rfl | rfl
  · rw [hout] at hh
    cases hh
    exact hactive
  · rw [opposite_outId (hp scid c hc), hback] at hh
    cases hh
    exact hactive'

theorem ActiveAsRecorded.modifyOwn (hg : g.ActiveAsRecorded) (scid : Option String)
    {f : OwnChannel → OwnChannel} (hf : ∀ c, ((f c).peer, (f c).usable) = (c.peer, c.usable)) :
    (g.modifyOwn scid f).ActiveAsRecorded := by
  intro s c' hc' id h hid hh
  have hown := map_own_modifyOwn g scid (p := fun c => (c.peer, c.usable)) hf s
  rw [hc', Option.map_some] at hown
  obtain ⟨c, hc, heq⟩ := Option.map_eq_some_iff.mp hown.symm
  obtain ⟨hpeer, husable⟩ : c.peer = c'.peer ∧ c.usable = c'.usable := by simpa using heq
  rw [outId_congr (selfId_modifyOwn g scid f), outId, ← hpeer] at hid
  rw [halves_modifyOwn] at hh
  exact (hg s c hc id h hid hh).trans husable

theorem sameLinks_modifyOwn (g : Graph) (scid : Option String) {f : OwnChannel → OwnChannel}
    (hf : ∀ c, ((f c).peer, (f c).connected) = (c.peer, c.connected)) :
    SameLinks g (g.modifyOwn scid f) := by
  refine ⟨selfId_modifyOwn g scid f, ?_, map_own_modifyOwn g scid hf, fun id => ?_⟩
  · cases scid <;> rfl
  · rw [halves_modifyOwn]

/-- Deriving own halves that are as active as recorded changes no activity. -/
theorem ActiveAsRecorded.sameLinks_syncOwn (hg : g.ActiveAsRecorded) (now : Time) :
    SameLinks g (g.syncOwn now) := by
  refine ⟨rfl, rfl, fun _ => rfl, fun id => ?_⟩
  show (g.halves.map (g.ownState now))[id]?.map _ = _
  rw [TreeMap.getElem?_map]
  cases hh : g.halves[id]? with
  | none => rfl
  | some h =>
      have hactive : (g.ownState now id h).active = h.active := by
        unfold ownState
        split
        · rfl
        · rename_i c hc
          split
          · rename_i hout
            show c.usable = h.active
            exact (hg id.scid c hc id h (Or.inl hout) hh).symm
          · split
            · rename_i hin
              show c.usable = h.active
              exact (hg id.scid c hc id h (Or.inr hin) hh).symm
            · rfl
      obtain ⟨-, hsource, hdestination⟩ := g.sameWay_ownState now id h
      rw [Option.map_some, Option.map_some, Option.map_some, hactive, hsource, hdestination]

theorem sameLinks_applyPayment (hs : g.Synced) (hp : g.NoSelfPeer) (route : Route) (amount : Msat)
    (now : Time) : SameLinks g (g.applyPayment route amount now) := by
  have hdebited := sameLinks_modifyOwn g route.exit? (f := (debited · amount)) fun _ => rfl
  have hcredited := sameLinks_modifyOwn (g.modifyOwn route.exit? (debited · amount)) route.entry?
    (f := (credited · amount)) fun _ => rfl
  -- The records are as usable as they were before the payment, so the halves agree with them.
  have hrecorded := ((hs.activeAsRecorded hp).modifyOwn route.exit? (f := (debited · amount))
    fun _ => rfl).modifyOwn route.entry? (f := (credited · amount)) fun _ => rfl
  exact (hdebited.trans hcredited).trans (hrecorded.sameLinks_syncOwn now)

theorem nodes_applyFailure {id : HalfId} {amount : Msat} {now : Time}
    (h : g.applyFailure id amount now = some g') : g'.nodes = g.nodes := by
  unfold applyFailure at h
  split at h
  · cases h
  · obtain ⟨k, -, rfl⟩ := Option.map_eq_some_iff.mp h
    rfl

theorem sameLinks_applyFailure {id : HalfId} {amount : Msat} {now : Time}
    (h : g.applyFailure id amount now = some g') : SameLinks g g' := by
  obtain ⟨hown, hself⟩ := own_applyFailure h
  exact ⟨hself, nodes_applyFailure h, fun scid => by rw [hown],
    map_halves_applyFailure (fun _ _ => rfl) h⟩

/-! ## The flag of every node -/

/-- The flag of every node is the derived one. -/
def Linked (g : Graph) : Prop :=
  ∀ (id : String) (n : Node), g.nodes[id]? = some n → n.connected = g.isConnected id

theorem linked_syncNodes (g : Graph) : g.syncNodes.Linked := by
  intro id n hn
  rw [getElem?_syncNodes] at hn
  obtain ⟨p, -, rfl⟩ := Option.map_eq_some_iff.mp hn
  rfl

theorem SameLinks.linked (h : SameLinks g g') (hg : g.Linked) : g'.Linked := by
  intro id n hn
  rw [h.nodes] at hn
  rw [h.isConnected_eq, hg id n hn]

theorem noSelfPeer_iff : g.NoSelfPeer ↔ ¬ g.HasPeer g.selfId := by
  constructor
  · rintro h ⟨scid, c, hc, hpeer⟩
    exact h scid c hc hpeer
  · intro h scid c hc hpeer
    exact h ⟨scid, c, hc, hpeer⟩

theorem SameLinks.noSelfPeer (h : SameLinks g g') (hg : g.NoSelfPeer) : g'.NoSelfPeer := by
  rw [noSelfPeer_iff, h.selfId]
  exact fun hpeer => noSelfPeer_iff.mp hg (h.symm.hasPeer hpeer)

/-- No record of the change names the local node as its peer. -/
def Change.Away (selfId : String) : Change → Prop
  | .own channels _ => ∀ c ∈ channels, c.peer ≠ selfId
  | .restore .. | .gossip .. | .payment .. | .failure .. => True

/-- Every flag is the derived one, and payments will leave it so. -/
structure UpToDate (g : Graph) : Prop where
  synced : g.Synced
  away : g.NoSelfPeer
  linked : g.Linked

theorem upToDate_empty (selfId : String) : (empty selfId).UpToDate := by
  constructor
  · intro scid c hc
    simp [empty] at hc
  · intro scid c hc
    simp [empty] at hc
  · intro id n hn
    simp [empty] at hn

theorem UpToDate.after (hg : g.UpToDate) {c : Change} (hc : c.Away g.selfId) :
    (g.after c).UpToDate := by
  have hself : (g.after c).selfId = g.selfId := (preserves_after g c).grows.selfId
  refine ⟨hg.synced.after c, ?_, ?_⟩
  · cases c with
    | restore halves nodes =>
        intro scid c hc
        have hown : (g.after (.restore halves nodes)).own = g.own := own_restore g halves nodes
        rw [hown] at hc
        rw [hself]
        exact hg.away scid c hc
    | gossip gossip nodes now reset =>
        intro scid c hc
        have hown : (g.after (.gossip gossip nodes now reset)).own = g.own :=
          own_applyGossip g gossip nodes now reset
        rw [hown] at hc
        rw [hself]
        exact hg.away scid c hc
    | own channels now =>
        intro scid c hc'
        have hown : (g.after (.own channels now)).own = (g.withOwn channels).own :=
          own_applyOwn g channels now
        rw [hown] at hc'
        rw [hself]
        exact peer_ne_of_withOwn hc hc'
    | payment route amount now =>
        exact (sameLinks_applyPayment hg.synced hg.away route amount now).noSelfPeer hg.away
    | failure id amount now =>
        show ((g.applyFailure id amount now).getD g).NoSelfPeer
        cases hf : g.applyFailure id amount now with
        | none => exact hg.away
        | some g' => exact (sameLinks_applyFailure hf).noSelfPeer hg.away
  · cases c with
    | restore halves nodes => exact linked_syncNodes _
    | gossip gossip nodes now reset => exact linked_syncNodes _
    | own channels now => exact linked_syncNodes _
    | payment route amount now =>
        exact (sameLinks_applyPayment hg.synced hg.away route amount now).linked hg.linked
    | failure id amount now =>
        show ((g.applyFailure id amount now).getD g).Linked
        cases hf : g.applyFailure id amount now with
        | none => exact hg.linked
        | some g' => exact (sameLinks_applyFailure hf).linked hg.linked

theorem UpToDate.afterAll {changes : List Change} (hg : g.UpToDate)
    (away : ∀ c ∈ changes, c.Away g.selfId) : (changes.foldl Graph.after g).UpToDate := by
  induction changes generalizing g with
  | nil => exact hg
  | cons c rest ih =>
      obtain ⟨hc, hrest⟩ := List.forall_mem_cons.mp away
      refine ih (hg.after hc) ?_
      rw [(preserves_after g c).grows.selfId]
      exact hrest

/-- The flag of the node tells the truth: the local node is connected, a peer is if one of its
channels is, and any other node if it is an end of an active half. -/
structure Shows (g : Graph) (n : Node) : Prop where
  self : n.id = g.selfId → n.connected = true
  peer : g.HasPeer n.id → (n.connected = true ↔ g.HasLink n.id)
  other : n.id ≠ g.selfId → ¬ g.HasPeer n.id → (n.connected = true ↔ g.OnActiveHalf n.id)

theorem UpToDate.shows (hg : g.UpToDate) (hk : g.Known) {n : Node} (hn : n ∈ g.nodes.values) :
    g.Shows n := by
  obtain ⟨id, hid⟩ := mem_values_iff.mp hn
  obtain rfl : n.id = id := hk.id_eq hid
  have hflag : n.connected = true ↔
      n.id = g.selfId ∨ g.HasLink n.id ∨ (¬ g.HasPeer n.id ∧ g.OnActiveHalf n.id) := by
    rw [hg.linked n.id n hid, isConnected_iff]
  constructor
  · exact fun hself => hflag.mpr (Or.inl hself)
  · intro hpeer
    have hother : n.id ≠ g.selfId := fun hself => noSelfPeer_iff.mp hg.away (hself ▸ hpeer)
    rw [hflag, or_iff_right hother]
    exact or_iff_left fun h => h.1 hpeer
  · intro hother hpeer
    rw [hflag, or_iff_right hother, or_iff_right fun h => hpeer h.hasPeer, and_iff_right hpeer]

/-- Whatever changes led to a graph, the flags of its nodes are right. -/
theorem shows_of_changes {selfId : String} {changes : List Change}
    (away : ∀ c ∈ changes, c.Away selfId) {n : Node}
    (hn : n ∈ (changes.foldl after (.empty selfId)).nodes.values) :
    (changes.foldl after (.empty selfId)).Shows n := by
  have hg : (changes.foldl after (.empty selfId)).UpToDate := (upToDate_empty selfId).afterAll away
  have hreachable : (changes.foldl after (.empty selfId)).Reachable := ⟨selfId, changes, rfl⟩
  exact hg.shows hreachable.known hn

/-- A snapshot, a refresh and a payment and a failure after it. Of the own channels only the one
with `b` is connected. -/
def eventfulChanges : List Change :=
  [.restore [.ofPolicy "9x1" "e" "f" 5000 none 0] [("e", "eve")],
    .own [channelWith "b" "1x1" 1000000 0,
      { channelWith "d" "2x1" 0 1000000 with connected := false }] 1,
    .gossip [⟨"b", "c", "3x1", 4000000, true, 1, 0, 6, 0, none⟩,
      ⟨"c", "d", "4x1", 4000000, true, 1, 0, 6, 0, none⟩] [] 2 3600,
    .payment (.build [.ofPolicy "1x1" "a" "b" 1000000 none 0,
      .ofPolicy "2x1" "d" "a" 1000000 none 0] 500000) 500000 3,
    .failure ⟨"3x1", 0⟩ 2000000 4]

/-- The peer `d` is shown as not connected, although an active half leads to it. -/
theorem shows_of_changes_eventful :
    (∀ c ∈ eventfulChanges, c.Away "a") ∧
      ∃ n ∈ (eventfulChanges.foldl after (.empty "a")).nodes.values,
        n.id = "d" ∧ n.connected = false ∧ (eventfulChanges.foldl after (.empty "a")).Shows n := by
  have away : ∀ c ∈ eventfulChanges, c.Away "a" := by
    simp [eventfulChanges, Change.Away, channelWith]
  have hnode : ∃ n ∈ (eventfulChanges.foldl after (.empty "a")).nodes.values,
      n.id = "d" ∧ n.connected = false := by
    decide +kernel
  obtain ⟨n, hn, hid, hconnected⟩ := hnode
  exact ⟨away, n, hn, hid, hconnected, shows_of_changes away hn⟩

end Rebalancer.Graph
