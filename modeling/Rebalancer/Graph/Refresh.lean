import Rebalancer.Graph.Basic

set_option autoImplicit false

/-! # Taking over what the node reports

Three sources feed the graph: a saved snapshot (`restore`), the gossip (`applyGossip`) and the
records of the own channels (`applyOwn`). After each of them the own halves agree with their
records and the connectivity of the nodes is up to date.
-/

namespace Rebalancer.Graph

open Std

/-- Fills the graph from a snapshot; halves that are already known stay as they are. -/
def restore (g : Graph) (halves : List Half) (nodes : List (String × String)) : Graph :=
  let g := nodes.foldl (fun g n => g.nameNode n.1 (some n.2)) g
  (g.insertNew halves).syncNodes

/-- Takes over one announced half. -/
def announce (g : Graph) (now : Time) (a : Announcement) : Graph :=
  match g.halves[a.id]? with
  | some h => { g with halves := g.halves.insert a.id (h.announced a) }
  | none => g.insertHalf (.ofAnnouncement a now)

/-- The seconds since the estimate of `h` was set; none if that lies ahead. -/
def estimateAge (h : Half) (now : Time) : Nat := (clampSigned (now - h.liquidityAt)).toNat

/-- A half of no own channel after a gossip snapshot: one that is not listed is inactive, and an
estimate of age `reset` or more falls back to half of the capacity. -/
def aged (now : Time) (reset : UInt64) (listed : Bool) (h : Half) : Half :=
  if !listed then { h with active := false }
  else if reset.toNat ≤ estimateAge h now then h.withLiquidity (h.capacity / 2) now
  else h

/-- Takes over a full gossip snapshot. -/
def applyGossip (g : Graph) (gossip : List Announcement) (nodes : List NodeAnnouncement)
    (now : Time) (reset : UInt64) : Graph :=
  let listed : TreeSet HalfId := TreeSet.ofList (gossip.map Announcement.id)
  let g := gossip.foldl (fun g a => g.announce now a) g
  let g := nodes.foldl (fun g n => g.nameNode n.id n.nickname) g
  let g := { g with
    halves := g.halves.map fun id h =>
      if g.isOwn id.scid then h else aged now reset (listed.contains id) h }
  (g.syncOwn now).syncNodes

/-- Both halves of an own channel as its record alone describes them. -/
def ownHalves (g : Graph) (now : Time) (scid : String) (c : OwnChannel) : List Half :=
  [.ofPolicy scid g.selfId c.peer c.total c.ownPolicy now,
   .ofPolicy scid c.peer g.selfId c.total c.remotePolicy now]

/-- The records that carry a short channel id, each under its id. -/
def keyed (channels : List OwnChannel) : List (String × OwnChannel) :=
  channels.filterMap fun c => c.scid.map fun scid => (scid, c)

/-- Replaces the records of the own channels by those that have a short channel id, the last of
several for one id, and adds the halves that the gossip has not brought. -/
def applyOwn (g : Graph) (channels : List OwnChannel) (now : Time) : Graph :=
  let g := { g with own := TreeMap.ofList (keyed channels) }
  let missing := (g.own.toList.flatMap fun e => g.ownHalves now e.1 e.2).filter
    fun h => !g.halves.contains h.id
  let g := missing.foldl insertHalf g
  (g.syncOwn now).syncNodes

end Rebalancer.Graph
