import Rebalancer.Proofs.Graph.Reachable

set_option autoImplicit false

/-! # Own halves and their records

The halves of an own channel carry nothing of their own: activity and liquidity are those of the
channel's record. The gossip overwrites both and payments change the record, but every change ends
in agreement (`Reachable.synced`). A channel of the local node with itself is left out, because its
two halves would have one name.
-/

namespace Rebalancer.Graph

open Std

variable {g g' : Graph}

/-- Both halves of the own channel `c` are known and have activity and liquidity of its record. -/
structure Agrees (g : Graph) (scid : String) (c : OwnChannel) : Prop where
  out : ∃ h : Half, g.halves[g.outId scid c]? = some h ∧ h.active = c.usable ∧
    h.liquidity = c.spendable
  back : ∃ h : Half, g.halves[g.inId scid c]? = some h ∧ h.active = c.usable ∧
    h.liquidity = c.receivable

/-- All own halves agree with the records of their channels. -/
def Synced (g : Graph) : Prop :=
  ∀ scid c, g.own[scid]? = some c → c.peer ≠ g.selfId → g.Agrees scid c

/-- Both halves of every own channel are known. -/
def KnowsOwn (g : Graph) : Prop :=
  ∀ scid c, g.own[scid]? = some c → c.peer ≠ g.selfId →
    g.outId scid c ∈ g.halves ∧ g.inId scid c ∈ g.halves

theorem Synced.knowsOwn (h : g.Synced) : g.KnowsOwn := by
  intro scid c hc hp
  obtain ⟨⟨out, ho, -⟩, back, hb, -⟩ := h scid c hc hp
  rw [TreeMap.mem_iff_isSome_getElem?, TreeMap.mem_iff_isSome_getElem?, ho, hb]
  exact ⟨rfl, rfl⟩

/-- The names of the own halves depend on the local node only. -/
theorem outId_congr (h : g'.selfId = g.selfId) : g'.outId = g.outId := by
  unfold outId
  rw [h]

theorem inId_congr (h : g'.selfId = g.selfId) : g'.inId = g.inId := by
  unfold inId
  rw [h]

/-- A graph that grows and keeps the peers of its channels goes on to know its own halves. -/
theorem KnowsOwn.grows (h : g.KnowsOwn) (hg : Grows g g')
    (hown : ∀ (scid : String) (c' : OwnChannel), g'.own[scid]? = some c' →
      ∃ c : OwnChannel, g.own[scid]? = some c ∧ c'.peer = c.peer) :
    g'.KnowsOwn := by
  intro scid c' hc' hp
  obtain ⟨c, hc, hpeer⟩ := hown scid c' hc'
  rw [hpeer, hg.selfId] at hp
  obtain ⟨ho, hb⟩ := h scid c hc hp
  have hout : g.outId scid c' = g.outId scid c := by rw [outId, outId, hpeer]
  have hin : g.inId scid c' = g.inId scid c := by rw [inId, inId, hpeer]
  rw [outId_congr hg.selfId, inId_congr hg.selfId, hout, hin]
  exact ⟨hg.mem_halves ho, hg.mem_halves hb⟩

theorem opposite_outId {scid : String} {c : OwnChannel} (hp : c.peer ≠ g.selfId) :
    (g.outId scid c).opposite = g.inId scid c := by
  rw [outId, inId, HalfId.opposite, directionOf_swap hp.symm]

theorem inId_ne_outId {scid : String} {c : OwnChannel} (hp : c.peer ≠ g.selfId) :
    g.inId scid c ≠ g.outId scid c :=
  fun h => directionOf_ne_swap hp.symm (congrArg HalfId.direction h)

theorem ownState_outId {scid : String} {c : OwnChannel} (hc : g.own[scid]? = some c) (now : Time)
    (h : Half) :
    g.ownState now (g.outId scid c) h =
      { h with active := c.usable }.withLiquidity c.spendable now := by
  have hc' : g.own[(g.outId scid c).scid]? = some c := hc
  unfold ownState
  rw [hc']
  exact if_pos rfl

theorem ownState_inId {scid : String} {c : OwnChannel} (hc : g.own[scid]? = some c)
    (hp : c.peer ≠ g.selfId) (now : Time) (h : Half) :
    g.ownState now (g.inId scid c) h =
      { h with active := c.usable }.withLiquidity c.receivable now := by
  have hc' : g.own[(g.inId scid c).scid]? = some c := hc
  unfold ownState
  rw [hc']
  exact (if_neg (inId_ne_outId hp)).trans (if_pos (opposite_outId hp).symm)

/-- A record says nothing about a half, or it settles activity and estimate. -/
theorem ownState_cases (g : Graph) (now : Time) (id : HalfId) :
    (∀ k, g.ownState now id k = k) ∨ ∃ (active : Bool) (liquidity : Msat), ∀ k,
      g.ownState now id k = { k with active := active }.withLiquidity liquidity now := by
  unfold ownState
  split
  · exact Or.inl fun _ => rfl
  · rename_i c _
    by_cases hout : id = g.outId id.scid c
    · exact Or.inr ⟨c.usable, c.spendable, fun _ => if_pos hout⟩
    · by_cases hin : id = (g.outId id.scid c).opposite
      · exact Or.inr ⟨c.usable, c.receivable, fun _ => (if_neg hout).trans (if_pos hin)⟩
      · exact Or.inl fun _ => (if_neg hout).trans (if_neg hin)

/-- What the records make of a half depends on the records and the local node only. -/
theorem ownState_congr (hown : g'.own = g.own) (hself : g'.selfId = g.selfId) :
    g'.ownState = g.ownState := by
  unfold ownState
  rw [hown, outId_congr hself]

/-- Deriving the own halves makes them agree with the records, if they are known. -/
theorem KnowsOwn.synced (h : g.KnowsOwn) (now : Time) : (g.syncOwn now).Synced := by
  intro scid c hc hp
  have hc' : g.own[scid]? = some c := hc
  obtain ⟨ho, hb⟩ := h scid c hc' hp
  rw [TreeMap.mem_iff_isSome_getElem?] at ho hb
  obtain ⟨out, ho⟩ := Option.isSome_iff_exists.mp ho
  obtain ⟨back, hb⟩ := Option.isSome_iff_exists.mp hb
  -- Deriving the own halves touches each half by itself.
  have hlookup : ∀ id : HalfId,
      (g.syncOwn now).halves[id]? = g.halves[id]?.map (g.ownState now id) :=
    fun id => TreeMap.getElem?_map
  constructor
  · refine ⟨g.ownState now (g.outId scid c) out, ?_, ?_⟩
    · exact (hlookup (g.outId scid c)).trans (by rw [ho]; rfl)
    · rw [ownState_outId hc']
      exact ⟨rfl, rfl⟩
  · refine ⟨g.ownState now (g.inId scid c) back, ?_, ?_⟩
    · exact (hlookup (g.inId scid c)).trans (by rw [hb]; rfl)
    · rw [ownState_inId hc' hp]
      exact ⟨rfl, rfl⟩

/-- Agreement only depends on the records and on the halves of own channels. -/
theorem Synced.congr (h : g.Synced) (hs : g'.selfId = g.selfId) (hown : g'.own = g.own)
    (hh : ∀ (id : HalfId) (k : Half), g.isOwn id.scid = true → g.halves[id]? = some k →
      g'.halves[id]? = some k) : g'.Synced := by
  intro scid c hc hp
  rw [hown] at hc
  rw [hs] at hp
  have own : g.isOwn scid = true := by
    rw [isOwn, TreeMap.contains_eq_isSome_getElem?, hc]
    rfl
  obtain ⟨⟨out, ho, ho'⟩, back, hb, hb'⟩ := h scid c hc hp
  rw [← outId_congr hs] at ho
  rw [← inId_congr hs] at hb
  exact ⟨⟨out, hh _ out own ho, ho'⟩, back, hh _ back own hb, hb'⟩

theorem Synced.syncNodes (h : g.Synced) : g.syncNodes.Synced :=
  h.congr rfl rfl fun _ _ _ hk => hk

/-! ## Each change -/

theorem own_nameNode (g : Graph) (id : String) (nickname : Option String) :
    (g.nameNode id nickname).own = g.own := by
  cases nickname <;> rfl

theorem own_announce (g : Graph) (now : Time) (a : Announcement) :
    (g.announce now a).own = g.own := by
  unfold announce
  split <;> rfl

theorem own_restore (g : Graph) (halves : List Half) (nodes : List (String × String)) :
    (g.restore halves nodes).own = g.own := by
  have hnamed : (g.nameAll nodes).own = g.own :=
    foldl_keeps own (fun g (n : String × String) => own_nameNode g n.1 (some n.2)) nodes g
  refine Eq.trans ?_ hnamed
  refine foldl_keeps own (fun g h => ?_) halves (g.nameAll nodes)
  split <;> rfl

theorem getElem?_restore (g : Graph) (halves : List Half) (nodes : List (String × String))
    (id : HalfId) :
    (g.restore halves nodes).halves[id]? = g.halves[id]?.or (halves.find? fun h => h.id == id) := by
  show ((g.nameAll nodes).insertNew halves).halves[id]? = _
  rw [getElem?_insertNew, halves_nameAll]

theorem Synced.restore (h : g.Synced) (halves : List Half) (nodes : List (String × String)) :
    (g.restore halves nodes).Synced := by
  refine h.congr ?_ (own_restore g halves nodes) fun id k _ hk => ?_
  · exact (evolves_restore (fun g h _ hu => fits_of_unknown hu) g nodes).preserves.grows.selfId
  · rw [getElem?_restore, hk, Option.some_or]

theorem Synced.applyGossip (h : g.Synced) (gossip : List Announcement)
    (nodes : List NodeAnnouncement) (now : Time) (reset : UInt64) :
    (g.applyGossip gossip nodes now reset).Synced := by
  rw [applyGossip_eq]
  have hannounced : (g.announceAll gossip now).own = g.own :=
    foldl_keeps own (fun g a => own_announce g now a) gossip g
  have hheard : ((g.announceAll gossip now).hearNodes nodes).own = (g.announceAll gossip now).own :=
    foldl_keeps own (fun g (n : NodeAnnouncement) => own_nameNode g n.id n.nickname) nodes _
  have hsteps := ((evolves_announceAll g gossip now).trans (evolves_hearNodes _ nodes)).trans
    (evolves_ageAll _ gossip now reset)
  -- The gossip may overwrite the own halves, but it drops none, and they are derived at the end.
  refine (KnowsOwn.synced (h.knowsOwn.grows hsteps.fits_of_fresh.preserves.grows ?_) now).syncNodes
  intro scid c hc
  exact ⟨c, (hheard.trans hannounced) ▸ hc, rfl⟩

theorem mem_insertAll {id : HalfId} (l : List Half) (g : Graph)
    (h : id ∈ g.halves ∨ ∃ k ∈ l, k.id = id) : id ∈ (l.foldl insertHalf g).halves := by
  rw [TreeMap.mem_iff_isSome_getElem?, getElem?_insertAll, Option.isSome_or, Bool.or_eq_true]
  rcases h with hold | ⟨k, hk, hid⟩
  · exact Or.inr (TreeMap.mem_iff_isSome_getElem?.mp hold)
  · exact Or.inl (List.find?_isSome.mpr ⟨k, List.mem_reverse.mpr hk, beq_iff_eq.mpr hid⟩)

theorem own_addMissing (g : Graph) (now : Time) : (g.addMissing now).own = g.own :=
  foldl_keeps own (fun g h => (rfl : (g.insertHalf h).own = g.own)) (g.missingOwn now) g

theorem own_applyOwn (g : Graph) (channels : List OwnChannel) (now : Time) :
    (g.applyOwn channels now).own = .ofList (keyed channels) :=
  own_addMissing (g.withOwn channels) now

theorem selfId_applyOwn (g : Graph) (channels : List OwnChannel) (now : Time) :
    (g.applyOwn channels now).selfId = g.selfId :=
  (evolves_applyOwn g channels now).preserves.grows.selfId

/-- The halves that are added are those that are not known. -/
theorem getElem?_addMissing {id : HalfId} {k : Half} (hk : g.halves[id]? = some k) (now : Time) :
    (g.addMissing now).halves[id]? = some k := by
  have hnone : ((g.missingOwn now).reverse.find? fun h => h.id == id) = none := by
    rw [List.find?_eq_none]
    intro h hh heq
    have hunknown := (exists_own_of_mem_missingOwn (List.mem_reverse.mp hh)).1
    rw [beq_iff_eq.mp heq, TreeMap.mem_iff_isSome_getElem?, hk] at hunknown
    exact hunknown rfl
  rw [addMissing, getElem?_insertAll, hnone, Option.none_or, hk]

/-- Both halves of every own channel are known after the missing ones were added. -/
theorem mem_addMissing {scid : String} {c : OwnChannel} (hc : g.own[scid]? = some c) {now : Time}
    {h : Half} (hh : h ∈ g.ownHalves now scid c) : h.id ∈ (g.addMissing now).halves := by
  refine mem_insertAll (g.missingOwn now) g ?_
  -- A half of a channel is known already, or it is among those that are added.
  by_cases hm : g.halves.contains h.id = true
  · exact Or.inl (TreeMap.mem_iff_contains.mpr hm)
  · refine Or.inr ⟨h, List.mem_filter.mpr ⟨List.mem_flatMap.mpr ⟨(scid, c), ?_, hh⟩, ?_⟩, rfl⟩
    · exact TreeMap.mem_toList_iff_getElem?_eq_some.mpr hc
    · rw [Bool.not_eq_true] at hm
      rw [hm]
      rfl

theorem knowsOwn_addMissing (g : Graph) (now : Time) : (g.addMissing now).KnowsOwn := by
  intro scid c hc _
  rw [own_addMissing] at hc
  have hself : (g.addMissing now).selfId = g.selfId :=
    (evolves_addMissing g now).preserves.grows.selfId
  rw [outId_congr hself, inId_congr hself]
  have hhalves : g.ownHalves now scid c =
      [.ofPolicy scid g.selfId c.peer c.total c.ownPolicy now,
        .ofPolicy scid c.peer g.selfId c.total c.remotePolicy now] := rfl
  exact ⟨mem_addMissing hc (hhalves ▸ List.mem_cons_self),
    mem_addMissing hc (hhalves ▸ List.mem_cons_of_mem _ List.mem_cons_self)⟩

theorem synced_applyOwn (g : Graph) (channels : List OwnChannel) (now : Time) :
    (g.applyOwn channels now).Synced := by
  rw [applyOwn_eq]
  exact ((knowsOwn_addMissing (g.withOwn channels) now).synced now).syncNodes

theorem halves_modifyOwn (g : Graph) (scid : Option String) (f : OwnChannel → OwnChannel) :
    (g.modifyOwn scid f).halves = g.halves := by
  cases scid <;> rfl

theorem selfId_modifyOwn (g : Graph) (scid : Option String) (f : OwnChannel → OwnChannel) :
    (g.modifyOwn scid f).selfId = g.selfId := by
  cases scid <;> rfl

theorem getElem?_modifyOwn (g : Graph) (channel : Option String) (f : OwnChannel → OwnChannel)
    (scid : String) :
    (g.modifyOwn channel f).own[scid]? =
      if channel = some scid then g.own[scid]?.map f else g.own[scid]? := by
  cases channel with
  | none => rfl
  | some modified =>
      show (g.own.modify modified f)[scid]? = _
      by_cases heq : modified = scid
      · subst heq
        rw [TreeMap.getElem?_modify_self, if_pos rfl]
      · rw [TreeMap.getElem?_modify, if_neg fun h => heq (LawfulEqCmp.eq_of_compare h),
          if_neg fun h => heq (Option.some.inj h)]

/-- What a change of a record keeps, it keeps of all records. -/
theorem map_own_modifyOwn {α : Type} (g : Graph) (scid : Option String)
    {f : OwnChannel → OwnChannel} {p : OwnChannel → α} (hf : ∀ c, p (f c) = p c) (s : String) :
    (g.modifyOwn scid f).own[s]?.map p = g.own[s]?.map p := by
  rw [getElem?_modifyOwn]
  split
  · rw [Option.map_map]
    congr 1
    funext c
    exact hf c
  · rfl

/-- Changing a record in a way that keeps its peer. -/
theorem KnowsOwn.modifyOwn (h : g.KnowsOwn) (scid : Option String) {f : OwnChannel → OwnChannel}
    (hf : ∀ c, (f c).peer = c.peer) : (g.modifyOwn scid f).KnowsOwn := by
  refine h.grows (evolves_modifyOwn g scid f).preserves.grows fun s c hc => ?_
  have hpeer := map_own_modifyOwn g scid hf s
  rw [hc, Option.map_some] at hpeer
  obtain ⟨d, hd, hd'⟩ := Option.map_eq_some_iff.mp hpeer.symm
  exact ⟨d, hd, hd'.symm⟩

theorem Synced.applyPayment (h : g.Synced) (route : Route) (amount : Msat) (now : Time) :
    (g.applyPayment route amount now).Synced :=
  ((h.knowsOwn.modifyOwn route.exit? (f := (debited · amount)) fun _ => rfl).modifyOwn route.entry?
    (f := (credited · amount)) fun _ => rfl).synced now

theorem Synced.applyFailure (h : g.Synced) {id : HalfId} {amount : Msat} {now : Time}
    (hf : g.applyFailure id amount now = some g') : g'.Synced := by
  unfold Graph.applyFailure at hf
  split at hf
  · cases hf
  · rename_i hid
    obtain ⟨k, hk, rfl⟩ := Option.map_eq_some_iff.mp hf
    refine h.congr rfl rfl fun id' k' hid' hk' => ?_
    -- A failure is learned for channels of others only, so no own half is one of the two.
    have other : ∀ i : HalfId, i.scid = id.scid → ¬ compare i id' = .eq := by
      intro i hi hc
      rw [← LawfulEqCmp.eq_of_compare hc, hi] at hid'
      exact hid hid'
    show ((g.halves.modify id _).modify id.opposite _)[id']? = some k'
    rw [TreeMap.getElem?_modify, if_neg (other id.opposite rfl), TreeMap.getElem?_modify,
      if_neg (other id rfl), hk']

theorem Synced.after (h : g.Synced) (c : Change) : (g.after c).Synced := by
  cases c with
  | restore halves nodes => exact h.restore halves nodes
  | gossip gossip nodes now reset => exact h.applyGossip gossip nodes now reset
  | own channels now => exact synced_applyOwn g channels now
  | payment route amount now => exact h.applyPayment route amount now
  | failure id amount now =>
      show ((g.applyFailure id amount now).getD g).Synced
      cases hf : g.applyFailure id amount now with
      | none => exact h
      | some g' => exact h.applyFailure hf

theorem Reachable.synced (h : g.Reachable) : g.Synced := by
  refine h.induct (fun selfId scid c hc => ?_) fun g c ih => ih.after c
  simp [empty] at hc

/-! ## The halves as they are asked for -/

/-- The halves from and to the local node have activity and liquidity of the record `c`. -/
structure Mirrors (c : OwnChannel) (out back : Half) : Prop where
  out_active : out.active = true ↔ c.connected = true ∧ c.state = normalState
  back_active : back.active = true ↔ c.connected = true ∧ c.state = normalState
  out_liquidity : out.liquidity = c.spendable
  back_liquidity : back.liquidity = c.receivable

theorem usable_iff (c : OwnChannel) :
    c.usable = true ↔ c.connected = true ∧ c.state = normalState := by
  rw [OwnChannel.usable, Bool.and_eq_true, OwnChannel.isNormal, beq_iff_eq]

/-- Whatever changes led to a graph, both halves of an own channel are there and mirror its record.
-/
theorem Reachable.exists_mirrors (h : g.Reachable) {scid : String} {c : OwnChannel}
    (hc : g.own[scid]? = some c) (hp : c.peer ≠ g.selfId) :
    ∃ out back : Half, g.outHalf? scid = some out ∧ g.inHalf? scid = some back ∧
      Mirrors c out back := by
  obtain ⟨⟨out, hout, hactive, hliquidity⟩, back, hback, hactive', hliquidity'⟩ :=
    h.synced scid c hc hp
  -- The halves are looked up by the peer of the record that `c` is.
  have hout' : g.outHalf? scid = some out := by rw [outHalf?, hc, Option.bind_some, hout]
  have hback' : g.inHalf? scid = some back := by rw [inHalf?, hc, Option.bind_some, hback]
  refine ⟨out, back, hout', hback', ?_, ?_, hliquidity, hliquidity'⟩
  · rw [hactive]
    exact usable_iff c
  · rw [hactive']
    exact usable_iff c

theorem exists_mirrors_twoChannels :
    twoChannels.Reachable ∧
      twoChannels.own["1x1"]? = some (channelWith "b" "1x1" 1000000 0) ∧
      (channelWith "b" "1x1" 1000000 0).peer ≠ twoChannels.selfId ∧
      ∃ out back : Half, twoChannels.outHalf? "1x1" = some out ∧
        twoChannels.inHalf? "1x1" = some back ∧
        Mirrors (channelWith "b" "1x1" 1000000 0) out back := by
  have hown : twoChannels.own["1x1"]? = some (channelWith "b" "1x1" 1000000 0) := by
    decide +kernel
  have hpeer : (channelWith "b" "1x1" 1000000 0).peer ≠ twoChannels.selfId := by decide +kernel
  exact ⟨reachable_twoChannels, hown, hpeer, reachable_twoChannels.exists_mirrors hown hpeer⟩

end Rebalancer.Graph
