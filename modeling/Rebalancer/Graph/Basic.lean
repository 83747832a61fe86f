import Rebalancer.Half
import Std.Data.TreeMap
import Std.Data.TreeSet

set_option autoImplicit false

/-! # The channel graph

What the local node knows of the network: nodes, channel halves with their estimates, and the
records of its own channels. For every node the halves that lead to it are kept in the order in
which they were first seen, because a search runs against the payment's direction and takes the
first of two equal ways.
-/

namespace Rebalancer

open Std

/-- A node of the network. -/
structure Node where
  id : String
  nickname : String := ""
  connected : Bool := false
deriving DecidableEq, Repr

/-- The network as the local node knows it. -/
structure Graph where
  selfId : String
  nodes : TreeMap String Node
  halves : TreeMap HalfId Half
  /-- For every node the halves that lead to it. -/
  inbound : TreeMap String (List HalfId)
  /-- The own channels by short channel id. -/
  own : TreeMap String OwnChannel

namespace Graph

/-- A graph that knows nothing but the id of the local node. -/
def empty (selfId : String) : Graph := ⟨selfId, ∅, ∅, ∅, ∅⟩

/-! ## Questions -/

/-- The halves that lead to `node`. -/
def incoming (g : Graph) (node : String) : List Half :=
  (g.inbound.getD node []).filterMap (g.halves[·]?)

/-- Whether `scid` names one of our channels. -/
def isOwn (g : Graph) (scid : String) : Bool := g.own.contains scid

/-- The name of the half from the local node to the other end of its channel `c`. -/
def outId (g : Graph) (scid : String) (c : OwnChannel) : HalfId :=
  ⟨scid, directionOf g.selfId c.peer⟩

/-- The name of the half to the local node from the other end of its channel `c`. -/
def inId (g : Graph) (scid : String) (c : OwnChannel) : HalfId :=
  ⟨scid, directionOf c.peer g.selfId⟩

/-- The half of an own channel that leads away from the local node. -/
def outHalf? (g : Graph) (scid : String) : Option Half :=
  g.own[scid]?.bind fun c => g.halves[g.outId scid c]?

/-- The half of an own channel that leads to the local node. -/
def inHalf? (g : Graph) (scid : String) : Option Half :=
  g.own[scid]?.bind fun c => g.halves[g.inId scid c]?

/-! ## Growth -/

/-- Makes `id` known. -/
def ensureNode (g : Graph) (id : String) : Graph :=
  { g with nodes := g.nodes.insertIfNew id { id := id } }

/-- Makes a node known and takes over its alias, if there is one. -/
def nameNode (g : Graph) (id : String) (nickname : Option String) : Graph :=
  let g := g.ensureNode id
  match nickname with
  | none => g
  | some nickname => { g with nodes := g.nodes.modify id fun n => { n with nickname := nickname } }

/-- Adds a half, after all others that lead to its destination. -/
def insertHalf (g : Graph) (h : Half) : Graph :=
  let g := (g.ensureNode h.source).ensureNode h.destination
  { g with
    inbound := g.inbound.insert h.destination (g.inbound.getD h.destination [] ++ [h.id])
    halves := g.halves.insert h.id h }

/-- Adds the halves that are not known yet. -/
def insertNew (g : Graph) (halves : List Half) : Graph :=
  halves.foldl (fun g h => if h.id ∈ g.halves then g else g.insertHalf h) g

/-! ## Derived state -/

/-- A half as the record of its own channel has it; a half of no own channel stays as it is. -/
def ownState (g : Graph) (now : Time) (id : HalfId) (h : Half) : Half :=
  match g.own[id.scid]? with
  | none => h
  | some c =>
    if id = g.outId id.scid c then
      { h with active := c.usable }.withLiquidity c.spendable now
    else if id = (g.outId id.scid c).opposite then
      { h with active := c.usable }.withLiquidity c.receivable now
    else h

/-- Derives activity and liquidity of the own halves from the records of the own channels. -/
def syncOwn (g : Graph) (now : Time) : Graph :=
  { g with halves := g.halves.map (g.ownState now) }

/-- The ends of the active halves. -/
def activeEnds (g : Graph) : TreeSet String :=
  g.halves.foldl (fun ends _ h =>
    if h.active then (ends.insert h.source).insert h.destination else ends) ∅

/-- For each peer of the local node, whether any channel with it is connected. -/
def peerLinks (g : Graph) : TreeMap String Bool :=
  g.own.foldl (fun links _ c => links.insert c.peer (links.getD c.peer false || c.connected)) ∅

/-- Derives which nodes are connected: the local node always, a peer by its channel records, any
other node by being an end of an active half. -/
def syncNodes (g : Graph) : Graph :=
  let ends := g.activeEnds
  let links := g.peerLinks
  { g with
    nodes := g.nodes.map fun id n =>
      { n with connected := id == g.selfId || links.getD id (ends.contains id) } }

end Graph

end Rebalancer
