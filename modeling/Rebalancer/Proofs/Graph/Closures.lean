import Rebalancer.Graph.Stats
import Rebalancer.Proofs.Graph.Connectivity

set_option autoImplicit false

/-! # Channels that are left out

A peer refresh puts the new records in place of all old ones, but it drops no half. A channel that
the new list leaves out is closed, or has lost its short channel id. No record speaks for its halves
any more, and the refresh leaves them just as they are (`getElem?_applyOwn_of_drops`), as active as
the last record made them (`active_eq_usable_of_drops`). So the refresh is done with the channel
only if that record was of a channel that could not be used any more (`retires_iff`); if it could,
its halves go on to be counted, and to make the former peer look reachable.
-/

namespace Rebalancer.Graph

open Std

variable {g : Graph} {channels : List OwnChannel} {scid : String} {c : OwnChannel}

/-- The channel `scid` is an own one that the list leaves out. -/
def drops (g : Graph) (channels : List OwnChannel) (scid : String) : Bool :=
  g.isOwn scid && channels.all (·.scid != some scid)

theorem drops_iff :
    g.drops channels scid = true ↔ g.isOwn scid = true ∧ ∀ c ∈ channels, c.scid ≠ some scid := by
  simp [drops]

/-- How many active halves the channels have that the list leaves out. -/
def droppedActive (g : Graph) (channels : List OwnChannel) : Nat :=
  (g.halves.values.filter fun h => g.drops channels h.id.scid).countP (·.active)

/-- The refresh is done with the channels that its list leaves out: their halves are inactive, none
of them is counted as active, and a node that no listed channel leads to is shown as connected
through halves of other channels only. -/
structure Retires (g : Graph) (channels : List OwnChannel) (now : Time) : Prop where
  inactive : ∀ (id : HalfId) (h : Half), g.drops channels id.scid = true →
    (g.applyOwn channels now).halves[id]? = some h → h.active = false
  uncounted : (g.applyOwn channels now).stats.activeChannels =
    ((g.applyOwn channels now).halves.values.filter
      fun h => !g.drops channels h.id.scid).countP (·.active)
  unreached : ∀ (id : String) (n : Node), (g.applyOwn channels now).nodes[id]? = some n →
    id ≠ g.selfId → ¬ (g.applyOwn channels now).HasPeer id → n.connected = true →
      ∃ (k : HalfId) (h : Half), (g.applyOwn channels now).halves[k]? = some h ∧
        g.drops channels k.scid = false ∧ h.active = true ∧ (h.source = id ∨ h.destination = id)

/-! ## What the refresh leaves of them -/

theorem getElem?_applyOwn_of_drops {id : HalfId} (h : g.drops channels id.scid = true)
    (now : Time) : (g.applyOwn channels now).halves[id]? = g.halves[id]? :=
  getElem?_applyOwn_of_other (isOwn_withOwn (drops_iff.mp h).2) now

theorem exists_own_of_drops (h : g.drops channels scid = true) :
    ∃ c : OwnChannel, g.own[scid]? = some c := by
  have hown : g.own.contains scid = true := (drops_iff.mp h).1
  rw [TreeMap.contains_eq_isSome_getElem?] at hown
  exact Option.isSome_iff_exists.mp hown

/-- The channels that the list leaves out have the halves that they had, whole. -/
theorem perm_dropped (hg : g.Keyed) (now : Time) :
    ((g.applyOwn channels now).halves.values.filter fun h => g.drops channels h.id.scid).Perm
      (g.halves.values.filter fun h => g.drops channels h.id.scid) := by
  have hg' : (g.applyOwn channels now).Keyed := (evolves_applyOwn g channels now).preserves.keyed hg
  refine (List.perm_ext_iff_of_nodup ((nodup_ids_values hg').of_map.filter _)
    ((nodup_ids_values hg).of_map.filter _)).mpr fun h => ?_
  rw [List.mem_filter, List.mem_filter, mem_values_iff, mem_values_iff]
  refine and_congr_left fun hdrops => ⟨?_, ?_⟩
  · rintro ⟨id, hid⟩
    rw [hg'.id_eq hid] at hdrops
    exact ⟨id, (getElem?_applyOwn_of_drops hdrops now).symm.trans hid⟩
  · rintro ⟨id, hid⟩
    rw [hg.id_eq hid] at hdrops
    exact ⟨id, (getElem?_applyOwn_of_drops hdrops now).trans hid⟩

/-- The count of active halves is too high by those of the channels that the list leaves out. -/
theorem activeChannels_applyOwn (hg : g.Keyed) (now : Time) :
    (g.applyOwn channels now).stats.activeChannels =
      ((g.applyOwn channels now).halves.values.filter
        fun h => !g.drops channels h.id.scid).countP (·.active) + g.droppedActive channels := by
  show (g.applyOwn channels now).halves.values.countP (·.active) = _
  rw [List.countP_eq_countP_filter_add _ _ fun h => g.drops channels h.id.scid, Nat.add_comm,
    (perm_dropped hg now).countP_eq]
  rfl

theorem droppedActive_eq_zero_iff (hg : g.Keyed) :
    g.droppedActive channels = 0 ↔ ∀ (id : HalfId) (h : Half),
      g.drops channels id.scid = true → g.halves[id]? = some h → h.active = false := by
  rw [droppedActive, List.countP_eq_zero]
  constructor
  · intro hnone id h hdrops hh
    rw [← hg.id_eq hh] at hdrops
    exact Bool.not_eq_true _ ▸
      hnone h (List.mem_filter.mpr ⟨mem_values_iff.mpr ⟨id, hh⟩, hdrops⟩)
  · intro hall h hh
    obtain ⟨hmem, hdrops⟩ := List.mem_filter.mp hh
    obtain ⟨id, hid⟩ := mem_values_iff.mp hmem
    rw [hg.id_eq hid] at hdrops
    exact Bool.not_eq_true _ ▸ hall id h hdrops hid

/-- A node that no listed channel leads to is shown as connected if an active half has it as an end,
be it of a channel that the list leaves out or of another. -/
theorem connected_applyOwn_iff {id : String} {n : Node} (now : Time)
    (hn : (g.applyOwn channels now).nodes[id]? = some n) (hself : id ≠ g.selfId)
    (hpeer : ¬ (g.applyOwn channels now).HasPeer id) :
    n.connected = true ↔ (g.applyOwn channels now).OnActiveHalf id := by
  have hlinked : (g.applyOwn channels now).Linked := linked_syncNodes _
  rw [hlinked id n hn, isConnected_iff, selfId_applyOwn, or_iff_right hself,
    or_iff_right fun hlink => hpeer hlink.hasPeer, and_iff_right hpeer]

/-! ## The last record -/

/-- The two halves of a channel with another node are the one from the local node and the one to it.
-/
theorem eq_outId_or_opposite {id : HalfId} (hdir : id.direction ≤ 1) (c : OwnChannel) :
    id = g.outId id.scid c ∨ id = (g.outId id.scid c).opposite := by
  have hone : id.direction = 0 ∨ id.direction = 1 := by grind
  have hcases : id.direction = directionOf g.selfId c.peer ∨
      id.direction = directionOf g.selfId c.peer ^^^ 1 := by
    unfold directionOf
    split
    · exact hone
    · exact hone.symm
  rcases hcases with hd | hd
  · exact Or.inl (congrArg (HalfId.mk id.scid) hd)
  · exact Or.inr (congrArg (HalfId.mk id.scid) hd)

theorem active_eq_usable_of_drops (hactive : g.ActiveAsRecorded) (hdir : g.Storable)
    (hc : g.own[scid]? = some c) {id : HalfId} (hid : id.scid = scid) {h : Half}
    (hh : g.halves[id]? = some h) : h.active = c.usable := by
  subst hid
  exact hactive id.scid c hc id h (eq_outId_or_opposite (hdir id h hh) c) hh

/-- A peer refresh leaves the halves of the channels that are left out as they are, and counts those
that are active. So it is done with these channels just if none of their halves was active before,
that is, if none of the channels was usable by its last record. -/
theorem retires_iff (hg : g.Reachable) (channels : List OwnChannel) (now : Time) :
    (∀ id : HalfId, g.drops channels id.scid = true →
        (g.applyOwn channels now).halves[id]? = g.halves[id]?) ∧
      (g.applyOwn channels now).stats.activeChannels =
        ((g.applyOwn channels now).halves.values.filter
          fun h => !g.drops channels h.id.scid).countP (·.active) + g.droppedActive channels ∧
      (g.Retires channels now ↔ ∀ (id : HalfId) (h : Half), g.drops channels id.scid = true →
        g.halves[id]? = some h → h.active = false) ∧
      (g.NoSelfPeer → g.Storable → (g.Retires channels now ↔
        ∀ (scid : String) (c : OwnChannel), g.drops channels scid = true →
          g.own[scid]? = some c → c.usable = false)) := by
  have hcount := @activeChannels_applyOwn g channels hg.keyed now
  have hretires : g.Retires channels now ↔ ∀ (id : HalfId) (h : Half),
      g.drops channels id.scid = true → g.halves[id]? = some h → h.active = false := by
    constructor
    · intro hr id h hdrops hh
      exact hr.inactive id h hdrops ((getElem?_applyOwn_of_drops hdrops now).trans hh)
    · intro hbefore
      have hafter : ∀ (id : HalfId) (h : Half), g.drops channels id.scid = true →
          (g.applyOwn channels now).halves[id]? = some h → h.active = false :=
        fun id h hdrops hh =>
          hbefore id h hdrops ((getElem?_applyOwn_of_drops hdrops now).symm.trans hh)
      refine ⟨hafter, ?_, fun id n hn hself hpeer hconnected => ?_⟩
      · rw [hcount, (droppedActive_eq_zero_iff hg.keyed).mpr hbefore, Nat.add_zero]
      · obtain ⟨k, h, hk, hactive, hends⟩ :=
          (connected_applyOwn_iff now hn hself hpeer).mp hconnected
        refine ⟨k, h, hk, Bool.eq_false_iff.mpr fun hdrops => ?_, hactive, hends⟩
        exact Bool.false_ne_true ((hafter k h hdrops hk).symm.trans hactive)
  refine ⟨fun id hdrops => getElem?_applyOwn_of_drops hdrops now, hcount, hretires,
    fun haway hdir => ?_⟩
  have hactive : g.ActiveAsRecorded := hg.synced.activeAsRecorded haway
  rw [hretires]
  constructor
  · intro hbefore scid c hdrops hc
    -- The half from the local node is known, and as active as the record makes it.
    obtain ⟨out, hout, husable, -⟩ := (hg.synced scid c hc (haway scid c hc)).out
    exact husable.symm.trans (hbefore (g.outId scid c) out hdrops hout)
  · intro hrecords id h hdrops hh
    obtain ⟨c, hc⟩ := exists_own_of_drops hdrops
    exact (active_eq_usable_of_drops hactive hdir hc rfl hh).trans
      (hrecords id.scid c hdrops hc)

/-! ## Two peers -/

/-- A local node with a channel to `b` and one to `d`. -/
def twoPeers (connected : Bool) : Graph :=
  (empty "a").applyOwn [channelWith "b" "1x1" 600000 400000,
    { channelWith "d" "2x1" 600000 400000 with connected := connected }] 0

theorem reachable_twoPeers (connected : Bool) : (twoPeers connected).Reachable :=
  ⟨"a", [.own [channelWith "b" "1x1" 600000 400000,
    { channelWith "d" "2x1" 600000 400000 with connected := connected }] 0], rfl⟩

/-- The channel with `d` is left out when `d` is not connected any more. -/
theorem retires_iff_twoPeers :
    (twoPeers false).Reachable ∧ (twoPeers false).NoSelfPeer ∧ (twoPeers false).Storable ∧
      (twoPeers false).drops [channelWith "b" "1x1" 600000 400000] "2x1" = true ∧
      (twoPeers false).Retires [channelWith "b" "1x1" 600000 400000] 5 := by
  have haway : (twoPeers false).NoSelfPeer := by decide +kernel
  have hdir : (twoPeers false).Storable := by decide +kernel
  refine ⟨reachable_twoPeers false, haway, hdir, by decide +kernel, ?_⟩
  refine ((retires_iff (reachable_twoPeers false) _ 5).2.2.2 haway hdir).mpr ?_
  have hrecords : ∀ e ∈ (twoPeers false).own.toList,
      (twoPeers false).drops [channelWith "b" "1x1" 600000 400000] e.1 = true →
        e.2.usable = false := by
    decide +kernel
  exact fun scid c hdrops hc =>
    hrecords (scid, c) (TreeMap.mem_toList_iff_getElem?_eq_some.mpr hc) hdrops

/-- It is left out while it can be used: its two halves stay active and are counted, and `d`, with
which no channel is left, is still shown as connected. -/
theorem active_after_left_out :
    (twoPeers true).Reachable ∧
      (twoPeers true).drops [channelWith "b" "1x1" 600000 400000] "2x1" = true ∧
      (∃ h ∈ ((twoPeers true).applyOwn [channelWith "b" "1x1" 600000 400000] 5).halves[
        (⟨"2x1", 0⟩ : HalfId)]?, h.active = true) ∧
      ((twoPeers true).applyOwn [channelWith "b" "1x1" 600000 400000] 5).stats.activeChannels = 4 ∧
      (∃ n ∈ ((twoPeers true).applyOwn [channelWith "b" "1x1" 600000 400000] 5).nodes["d"]?,
        n.connected = true) ∧
      ¬ (twoPeers true).Retires [channelWith "b" "1x1" 600000 400000] 5 := by
  have hdrops : (twoPeers true).drops [channelWith "b" "1x1" 600000 400000] "2x1" = true := by
    decide +kernel
  have hactive : ∃ h ∈ ((twoPeers true).applyOwn [channelWith "b" "1x1" 600000 400000] 5).halves[
      (⟨"2x1", 0⟩ : HalfId)]?, h.active = true := by
    decide +kernel
  refine ⟨reachable_twoPeers true, hdrops, hactive, by decide +kernel, by decide +kernel, ?_⟩
  intro hr
  obtain ⟨h, hh, hon⟩ := hactive
  exact Bool.false_ne_true ((hr.inactive ⟨"2x1", 0⟩ h hdrops hh).symm.trans hon)

end Rebalancer.Graph
