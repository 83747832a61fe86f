import Rebalancer.Failure
import Rebalancer.Graph.Basic

set_option autoImplicit false

/-! # Channels with a named peer

A peer is named by its node id, or else by an alias that no other node bears. Of the channels with
it the fullest is taken: as exit the one that can send most, as entry the one that can receive
most, and of several the one with the least id. The nodes and the channels are gone through in some
order, which the result does not depend on.
-/

namespace Rebalancer

/-- Whether `name` is the alias of the node. The empty alias names no node. -/
def Node.goesBy (n : Node) (name : String) : Bool := n.nickname != "" && n.nickname == name

namespace Graph

/-- The node that `name` stands for, where `nodes` are those of the graph. -/
def resolvePeer (g : Graph) (nodes : List Node) (name : String) : Except Failure String :=
  match g.nodes[name]? with
  | some n => .ok n.id
  | none =>
    match nodes.filter (·.goesBy name) with
    | [n] => .ok n.id
    | [] => .error (.invalid (.unknownNode name))
    | _ => .error (.invalid (.ambiguousAlias name))

/-- Those of the channels with `peer` that can carry payments now, by their ids. -/
def usableWith (channels : List OwnChannel) (peer : String) : List (String × OwnChannel) :=
  (channels.filter fun c => c.peer == peer && c.usable).filterMap fun c => c.scid.map (·, c)

/-- Whether `e` has more of `measure` than `f`, or as much of it and the lesser id. -/
def fuller (measure : OwnChannel → Msat) (e f : String × OwnChannel) : Bool :=
  measure f.2 < measure e.2 || (measure e.2 == measure f.2 && e.1 < f.1)

/-- The channel of greatest `measure`, of several the one with the least id. -/
def fullest (measure : OwnChannel → Msat) :
    List (String × OwnChannel) → Option (String × OwnChannel)
  | [] => none
  | e :: rest =>
    match fullest measure rest with
    | none => some e
    | some best => if fuller measure e best then some e else some best

/-- The exit towards one peer and the entry from another, which the failures call `outNode` and
`inNode`. -/
def chooseEnds (channels : List OwnChannel) (outPeer inPeer outNode inNode : String) :
    Except Failure (String × String) :=
  match fullest (·.spendable) (usableWith channels outPeer) with
  | none => .error (.invalid (.noUsableChannel outNode))
  | some exit =>
    match fullest (·.receivable) ((usableWith channels inPeer).filter (·.1 != exit.1)) with
    | none => .error (.invalid (.noUsableChannel inNode))
    | some entry => .ok (exit.1, entry.1)

/-- The ends for the names of two peers, where `nodes` and `channels` are those of the graph. -/
def resolveEndsAmong (g : Graph) (nodes : List Node) (channels : List OwnChannel)
    (outNode inNode : String) : Except Failure (String × String) := do
  let outPeer ← g.resolvePeer nodes outNode
  let inPeer ← g.resolvePeer nodes inNode
  chooseEnds channels outPeer inPeer outNode inNode

/-- The ends for the names of two peers. -/
def resolveEnds (g : Graph) (outNode inNode : String) : Except Failure (String × String) :=
  g.resolveEndsAmong g.nodes.values g.own.values outNode inNode

end Graph

end Rebalancer
