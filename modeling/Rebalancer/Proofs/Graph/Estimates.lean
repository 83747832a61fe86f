import Rebalancer.Proofs.Graph.Restart
import Rebalancer.Proofs.Graph.Rings

set_option autoImplicit false

/-! # Learned estimates

A failure sets the estimate of a half of no own channel, and of the opposite half, to what it tells
(`getElem?_applyFailure`). A gossip refresh clamps the estimate to the capacities that it lists for
the half, keeps its time (`liquidity_foldl_announced`) and resets it if it is old
(`getElem?_applyGossip`). Peer refreshes, payments and snapshots leave the halves of channels that
are not own ones as they are.
-/

namespace Rebalancer

open Std

theorem HalfId.opposite_ne (id : HalfId) : id.opposite ≠ id := by
  intro h
  have hdirection : id.direction ^^^ 1 = id.direction := congrArg HalfId.direction h
  have hone : id.direction ^^^ (id.direction ^^^ 1) = 0 := by rw [hdirection, UInt8.xor_self]
  rw [← UInt8.xor_assoc, UInt8.xor_self, UInt8.zero_xor] at hone
  cases hone

namespace Graph

variable {g g' : Graph} {id : HalfId} {amount : Msat} {now : Time}

/-! ## Learning -/

/-- The estimate of a half with this capacity that has refused `amount`. -/
def refusedEstimate (amount capacity : Msat) : Msat :=
  min (subClamped amount failureMargin) capacity

theorem getElem?_modify_half (t : TreeMap HalfId Half) (id k : HalfId) (f : Half → Half) :
    (t.modify id f)[k]? = if k = id then t[k]?.map f else t[k]? := by
  rw [TreeMap.getElem?_modify]
  by_cases hk : k = id
  · subst hk
    rw [if_pos ReflCmp.compare_self, if_pos rfl]
  · rw [if_neg fun h => hk (LawfulEqCmp.eq_of_compare h).symm, if_neg hk]

theorem own_applyFailure (h : g.applyFailure id amount now = some g') :
    g'.own = g.own ∧ g'.selfId = g.selfId := by
  unfold applyFailure at h
  split at h
  · cases h
  · obtain ⟨k, -, rfl⟩ := Option.map_eq_some_iff.mp h
    exact ⟨rfl, rfl⟩

/-- What a failure teaches: the estimates of the half that it blames and of the opposite one. -/
theorem getElem?_applyFailure (h : g.applyFailure id amount now = some g') :
    g.isOwn id.scid = false ∧ ∃ k : Half, g.halves[id]? = some k ∧ ∀ id' : HalfId,
      g'.halves[id']? =
        if id' = id then some (k.withLiquidity (refusedEstimate amount k.capacity) now)
        else if id' = id.opposite then
          g.halves[id']?.map
            (·.withLiquidity (subClamped k.capacity (refusedEstimate amount k.capacity)) now)
        else g.halves[id']? := by
  unfold applyFailure at h
  split at h
  · cases h
  · rename_i hother
    obtain ⟨k, hk, rfl⟩ := Option.map_eq_some_iff.mp h
    refine ⟨Bool.not_eq_true _ ▸ hother, k, hk, fun id' => ?_⟩
    show ((g.halves.modify id _).modify id.opposite _)[id']? = _
    rw [getElem?_modify_half, getElem?_modify_half]
    by_cases hid : id' = id
    · subst hid
      rw [if_neg (HalfId.opposite_ne id').symm, if_pos rfl, if_pos rfl, hk]
      rfl
    · rw [if_neg hid, if_neg hid]
      rfl

/-- What does not depend on the estimate of a half is not touched by a failure. -/
theorem map_halves_applyFailure {α : Type} {f : Half → α}
    (hf : ∀ (k : Half) (liquidity : Msat), f (k.withLiquidity liquidity now) = f k)
    (h : g.applyFailure id amount now = some g') (id' : HalfId) :
    g'.halves[id']?.map f = g.halves[id']?.map f := by
  obtain ⟨-, k, hk, hhalves⟩ := getElem?_applyFailure h
  rw [hhalves]
  split
  · rename_i hid
    rw [hid, hk, Option.map_some, Option.map_some, hf]
  · split
    · cases g.halves[id']? with
      | none => rfl
      | some k' => exact congrArg some (hf k' _)
    · rfl

/-- A failure is learned if the half is known and of no own channel. -/
theorem exists_applyFailure (hother : g.isOwn id.scid = false) {k : Half}
    (hk : g.halves[id]? = some k) (amount : Msat) (now : Time) :
    ∃ g', g.applyFailure id amount now = some g' := by
  unfold applyFailure
  rw [hother, hk]
  exact ⟨_, rfl⟩

/-- Both estimates that a failure sets bear its time. -/
theorem liquidityAt_of_applyFailure (h : g.applyFailure id amount now = some g') {id' : HalfId}
    (hid : id' = id ∨ id' = id.opposite) {k : Half} (hk : g'.halves[id']? = some k) :
    k.liquidityAt = now := by
  obtain ⟨-, k', -, hhalves⟩ := getElem?_applyFailure h
  rw [hhalves] at hk
  split at hk
  · cases hk
    rfl
  · rename_i hne
    rw [if_pos (hid.resolve_left hne)] at hk
    obtain ⟨k'', -, rfl⟩ := Option.map_eq_some_iff.mp hk
    rfl

/-! ## The gossip -/

/-- What the gossip lists for a half, in order. -/
def listingsOf (gossip : List Announcement) (id : HalfId) : List Announcement :=
  gossip.filter fun a => a.id == id

theorem listingsOf_eq_nil_iff {gossip : List Announcement} :
    listingsOf gossip id = [] ↔ id ∉ gossip.map Announcement.id := by
  simp [listingsOf, List.filter_eq_nil_iff]

/-- The half `k` with all that the gossip lists for it. -/
def heard (gossip : List Announcement) (id : HalfId) (k : Half) : Half :=
  (listingsOf gossip id).foldl Half.announced k

/-- A half that is not known, as the first listing describes it. -/
def firstHeard (gossip : List Announcement) (id : HalfId) (now : Time) : Option Half :=
  (listingsOf gossip id).head?.map (.ofAnnouncement · now)

theorem listingsOf_cons (a : Announcement) (rest : List Announcement) (id : HalfId) :
    listingsOf (a :: rest) id =
      if a.id = id then a :: listingsOf rest id else listingsOf rest id := by
  rw [listingsOf, List.filter_cons]
  simp only [beq_iff_eq]
  rfl

theorem min_half_self (capacity : Msat) : min (capacity / 2) capacity = capacity / 2 := by
  refine UInt64.toNat_inj.mp ?_
  rw [toNat_min_word, UInt64.toNat_div]
  exact Nat.min_eq_left (Nat.div_le_self _ _)

/-- The half that a listing brings is as the listing would leave it. -/
theorem announced_ofAnnouncement (a : Announcement) (now : Time) :
    (Half.ofAnnouncement a now).announced a = .ofAnnouncement a now := by
  show { Half.ofAnnouncement a now with liquidity := min (a.capacity / 2) a.capacity } = _
  rw [min_half_self]
  rfl

theorem getElem?_announce (g : Graph) (now : Time) (a : Announcement) (id : HalfId) :
    (g.announce now a).halves[id]? =
      if a.id = id then some ((g.halves[id]?.getD (.ofAnnouncement a now)).announced a)
      else g.halves[id]? := by
  -- In either case one half is put under the name of the listing.
  have hput : ∀ k : Half, (g.halves.insert a.id k)[id]? =
      if a.id = id then some k else g.halves[id]? := by
    intro k
    by_cases hid : a.id = id
    · subst hid
      rw [if_pos rfl, TreeMap.getElem?_insert_self]
    · rw [if_neg hid, TreeMap.getElem?_insert, if_neg fun h => hid (LawfulEqCmp.eq_of_compare h)]
  unfold announce
  split
  · rename_i k hk
    refine (hput _).trans ?_
    by_cases hid : a.id = id
    · rw [if_pos hid, if_pos hid, ← hid, hk, Option.getD_some]
    · rw [if_neg hid, if_neg hid]
  · rename_i hnew
    refine (hput _).trans ?_
    by_cases hid : a.id = id
    · rw [if_pos hid, if_pos hid, ← hid, hnew, Option.getD_none, announced_ofAnnouncement]
    · rw [if_neg hid, if_neg hid]

/-- Listing halves brings those that are not known and puts all listings into those that are. -/
theorem getElem?_announceAll (g : Graph) (gossip : List Announcement) (now : Time) (id : HalfId) :
    (g.announceAll gossip now).halves[id]? =
      (g.halves[id]?.or (firstHeard gossip id now)).map (heard gossip id) := by
  induction gossip generalizing g with
  | nil =>
      show g.halves[id]? = (g.halves[id]?.or none).map fun k => k
      rw [Option.or_none, Option.map_id']
  | cons a rest ih =>
      show ((g.announce now a).announceAll rest now).halves[id]? = _
      rw [ih, getElem?_announce, firstHeard, firstHeard]
      by_cases hid : a.id = id
      · have hheard : heard (a :: rest) id = fun k => heard rest id (k.announced a) := by
          funext k
          rw [heard, listingsOf_cons, if_pos hid, List.foldl_cons, heard]
        rw [if_pos hid, Option.some_or, Option.map_some, hheard, listingsOf_cons, if_pos hid]
        cases g.halves[id]? with
        | none => rfl
        | some k => rfl
      · have hheard : heard (a :: rest) id = heard rest id := by
          funext k
          rw [heard, listingsOf_cons, if_neg hid, heard]
        rw [if_neg hid, hheard, listingsOf_cons, if_neg hid]

/-- Listing a half changes its policy, and clamps its estimate. -/
theorem liquidity_foldl_announced (l : List Announcement) (k : Half) :
    (l.foldl Half.announced k).liquidity = (l.map (·.capacity)).foldl min k.liquidity ∧
      (l.foldl Half.announced k).liquidityAt = k.liquidityAt := by
  induction l generalizing k with
  | nil => exact ⟨rfl, rfl⟩
  | cons a rest ih => exact ih (k.announced a)

/-- The capacity is the one that is listed last. -/
theorem capacity_foldl_announced {l : List Announcement} {a : Announcement}
    (h : l.getLast? = some a) (k : Half) : (l.foldl Half.announced k).capacity = a.capacity := by
  obtain ⟨before, rfl⟩ := List.getLast?_eq_some_iff.mp h
  rw [List.foldl_append]
  rfl

/-! ## Halves of no own channel -/

theorem ownState_of_other (hother : g.isOwn id.scid = false) (now : Time) (k : Half) :
    g.ownState now id k = k := by
  unfold ownState
  rw [own_eq_none_of_not_isOwn hother]

theorem getElem?_syncOwn (hother : g.isOwn id.scid = false) (now : Time) :
    (g.syncOwn now).halves[id]? = g.halves[id]? := by
  show (g.halves.map (g.ownState now))[id]? = _
  rw [TreeMap.getElem?_map]
  cases g.halves[id]? with
  | none => rfl
  | some k => rw [Option.map_some, ownState_of_other hother]

theorem own_applyGossip (g : Graph) (gossip : List Announcement) (nodes : List NodeAnnouncement)
    (now : Time) (reset : UInt64) : (g.applyGossip gossip nodes now reset).own = g.own := by
  have hannounced : (g.announceAll gossip now).own = g.own :=
    foldl_keeps own (fun g a => own_announce g now a) gossip g
  have hheard : ((g.announceAll gossip now).hearNodes nodes).own = (g.announceAll gossip now).own :=
    foldl_keeps own (fun g (n : NodeAnnouncement) => own_nameNode g n.id n.nickname) nodes _
  exact hheard.trans hannounced

/-- The half `k` after a gossip refresh. -/
def gossiped (g : Graph) (gossip : List Announcement) (now : Time) (reset : UInt64) (id : HalfId)
    (k : Half) : Half :=
  g.ownState now id
    (if g.isOwn id.scid then heard gossip id k
    else aged now reset ((gossip.map Announcement.id).contains id) (heard gossip id k))

theorem selfId_applyGossip (g : Graph) (gossip : List Announcement)
    (nodes : List NodeAnnouncement) (now : Time) (reset : UInt64) :
    (g.applyGossip gossip nodes now reset).selfId = g.selfId :=
  (evolves_applyGossip g gossip nodes now reset).fits_of_fresh.preserves.grows.selfId

/-- A gossip refresh brings the halves that it is the first to list, and changes each half by
itself. -/
theorem getElem?_applyGossip_eq (g : Graph) (gossip : List Announcement)
    (nodes : List NodeAnnouncement) (now : Time) (reset : UInt64) (id : HalfId) :
    (g.applyGossip gossip nodes now reset).halves[id]? =
      (g.halves[id]?.or (firstHeard gossip id now)).map (g.gossiped gossip now reset id) := by
  set named := (g.announceAll gossip now).hearNodes nodes with hnamed
  have hown : named.own = g.own := own_applyGossip g gossip nodes now reset
  have hself : named.selfId = g.selfId := selfId_applyGossip g gossip nodes now reset
  have hhalf : named.halves[id]? =
      (g.halves[id]?.or (firstHeard gossip id now)).map (heard gossip id) := by
    have hsame : named.halves = (g.announceAll gossip now).halves :=
      foldl_keeps halves (fun g (n : NodeAnnouncement) => halves_nameNode g n.id n.nickname) nodes _
    rw [hsame, getElem?_announceAll]
  have hstate : (named.ageAll gossip now reset).ownState = g.ownState := ownState_congr hown hself
  rw [applyGossip_eq, ← hnamed]
  show ((named.halves.map _).map ((named.ageAll gossip now reset).ownState now))[id]? = _
  rw [TreeMap.getElem?_map, TreeMap.getElem?_map, hhalf, Option.map_map, Option.map_map]
  congr 1
  funext k
  show (named.ageAll gossip now reset).ownState now id (if named.isOwn id.scid then _ else _) = _
  rw [hstate, isOwn, hown, TreeSet.contains_ofList]
  rfl

theorem getElem?_applyGossip (hother : g.isOwn id.scid = false) {k : Half}
    (hk : g.halves[id]? = some k) (gossip : List Announcement) (nodes : List NodeAnnouncement)
    (now : Time) (reset : UInt64) :
    (g.applyGossip gossip nodes now reset).halves[id]? =
      some (aged now reset ((gossip.map Announcement.id).contains id) (heard gossip id k)) := by
  rw [getElem?_applyGossip_eq, hk, Option.some_or, Option.map_some, gossiped,
    ownState_of_other hother, hother, if_neg Bool.false_ne_true]

theorem getElem?_applyOwn {channels : List OwnChannel}
    (hother : (g.withOwn channels).isOwn id.scid = false) {k : Half}
    (hk : g.halves[id]? = some k) (now : Time) :
    (g.applyOwn channels now).halves[id]? = some k := by
  have hadded : ((g.withOwn channels).addMissing now).halves[id]? = some k :=
    getElem?_addMissing (g := g.withOwn channels) hk now
  have hother' : ((g.withOwn channels).addMissing now).isOwn id.scid = false := by
    rw [isOwn, own_addMissing]
    exact hother
  rw [applyOwn_eq]
  show (((g.withOwn channels).addMissing now).syncOwn now).halves[id]? = _
  rw [getElem?_syncOwn hother', hadded]

/-- A list that leaves a channel out does not make it an own one. -/
theorem isOwn_withOwn {channels : List OwnChannel} {scid : String}
    (h : ∀ c ∈ channels, c.scid ≠ some scid) : (g.withOwn channels).isOwn scid = false := by
  rw [← Bool.not_eq_true]
  intro hown
  have hown' : (TreeMap.ofList (keyed channels)).contains scid = true := hown
  rw [TreeMap.contains_ofList, List.contains_iff_mem, List.mem_map] at hown'
  obtain ⟨e, he, rfl⟩ := hown'
  obtain ⟨c, hc, hkey⟩ := List.mem_filterMap.mp he
  obtain ⟨scid, hscid, rfl⟩ := Option.map_eq_some_iff.mp hkey
  exact h c hc hscid

/-- A peer refresh neither changes nor brings a half of no own channel. -/
theorem getElem?_applyOwn_of_other {channels : List OwnChannel}
    (hother : (g.withOwn channels).isOwn id.scid = false) (now : Time) :
    (g.applyOwn channels now).halves[id]? = g.halves[id]? := by
  cases hk : (g.applyOwn channels now).halves[id]? with
  | none =>
      cases hold : g.halves[id]? with
      | none => rfl
      | some k =>
          rw [getElem?_applyOwn hother hold] at hk
          cases hk
  | some k =>
      have hother' : ((g.withOwn channels).addMissing now).isOwn id.scid = false := by
        rw [isOwn, own_addMissing]
        exact hother
      rw [applyOwn_eq] at hk
      have hadded : ((g.withOwn channels).addMissing now).halves[id]? = some k := by
        rw [← getElem?_syncOwn hother' now]
        exact hk
      rcases mem_or_known_of_insertAll hadded with ⟨hmissing, hid⟩ | hold
      · -- A half that is added is one of an own channel.
        obtain ⟨-, scid, c, hc, hmem⟩ := exists_own_of_mem_missingOwn hmissing
        rw [← hid, scid_of_mem_ownHalves hmem] at hother
        rw [own_eq_none_of_not_isOwn hother] at hc
        cases hc
      · exact hold.symm

theorem isOwn_modifyOwn (g : Graph) (scid : Option String) (f : OwnChannel → OwnChannel)
    (scid' : String) : (g.modifyOwn scid f).isOwn scid' = g.isOwn scid' := by
  cases scid with
  | none => rfl
  | some scid => exact TreeMap.contains_modify

theorem isOwn_applyPayment (g : Graph) (route : Route) (amount : Msat) (now : Time)
    (scid : String) : (g.applyPayment route amount now).isOwn scid = g.isOwn scid := by
  show ((g.modifyOwn route.exit? _).modifyOwn route.entry? _).isOwn scid = _
  rw [isOwn_modifyOwn, isOwn_modifyOwn]

theorem getElem?_applyPayment (hother : g.isOwn id.scid = false) (route : Route) (amount : Msat)
    (now : Time) : (g.applyPayment route amount now).halves[id]? = g.halves[id]? := by
  have hother' : ((g.modifyOwn route.exit? (debited · amount)).modifyOwn route.entry?
      (credited · amount)).isOwn id.scid = false := by
    rw [isOwn_modifyOwn, isOwn_modifyOwn, hother]
  unfold applyPayment
  rw [getElem?_syncOwn hother', halves_modifyOwn, halves_modifyOwn]

theorem own_load (read : Snapshot) (g : Graph) : (read.load g).own = g.own :=
  own_restore g (read.halves.map HalfRow.half) read.nodes

theorem getElem?_load {k : Half} (hk : g.halves[id]? = some k) (read : Snapshot) :
    (read.load g).halves[id]? = some k := by
  show (g.restore (read.halves.map HalfRow.half) read.nodes).halves[id]? = _
  rw [getElem?_restore, hk, Option.some_or]

end Graph

end Rebalancer
