import Rebalancer.Graph.Basic

set_option autoImplicit false

/-! # Cheapest paths

The amount that a half carries depends on the fees of all halves after it, so the search starts at
the end of the path and goes against the direction of payment. It settles nodes in the order of
(fee, number of halves, node id), each with the path that leads from it to the end.
-/

namespace Rebalancer

open Std

/-- A way from some node to the end of the search, with the fees its halves take together and
the amount that has to arrive at its start. -/
structure Way where
  path : List Half
  fee : Msat
  amount : Msat
deriving DecidableEq, Repr

namespace Way

/-- The way extended at its start by `h`. -/
def extend (w : Way) (h : Half) : Way where
  path := h :: w.path
  fee := addClamped w.fee (h.fee w.amount)
  amount := addClamped w.amount (h.fee w.amount)

/-- Whether `w` has a lesser fee than `v`, or an equal fee and fewer halves. -/
def better (w v : Way) : Bool :=
  w.fee < v.fee || (w.fee == v.fee && w.path.length < v.path.length)

end Way

/-- A node that waits to be settled, with the fee and length of its way. -/
abbrev Waiting := UInt64 × Nat × String

/-- Waiting nodes are settled by fee, then by length, then by node id. -/
def Waiting.compare : Waiting → Waiting → Ordering :=
  compareLex (compareOn fun w => w.1)
    (compareLex (compareOn fun w => w.2.1) (compareOn fun w => w.2.2))

instance : TransCmp Waiting.compare :=
  inferInstanceAs (TransCmp (compareLex (compareOn fun w : Waiting => w.1)
    (compareLex (compareOn fun w : Waiting => w.2.1) (compareOn fun w : Waiting => w.2.2))))

/-- The state of a search: the best way found from each node reached, the nodes that wait, and
those whose way is final. -/
structure Search where
  ways : TreeMap String Way
  waiting : TreeSet Waiting Waiting.compare
  settled : TreeSet String

namespace Search

/-- The key under which `node` waits with way `w`. -/
def key (node : String) (w : Way) : Waiting := (w.fee, w.path.length, node)

/-- The search for ways to `target` that deliver `amount` there. -/
def start (target : String) (amount : Msat) : Search :=
  let w : Way := ⟨[], 0, amount⟩
  { ways := (∅ : TreeMap String Way).insert target w
    waiting := (∅ : TreeSet Waiting Waiting.compare).insert (key target w)
    settled := ∅ }

/-- Offers way `w` from `node`, which counts if it is the first or better than the one known. -/
def offer (s : Search) (node : String) (w : Way) : Search :=
  match s.ways[node]? with
  | none => { s with ways := s.ways.insert node w, waiting := s.waiting.insert (key node w) }
  | some v =>
    if w.better v then
      { s with
        ways := s.ways.insert node w
        waiting := (s.waiting.erase (key node v)).insert (key node w) }
    else s

/-- Extends way `w` by `h` if the source of `h` is still open and `h` can carry the amount. -/
def relax (selfId : String) (w : Way) (s : Search) (h : Half) : Search :=
  if h.source == selfId || s.settled.contains h.source || !h.canCarry w.amount then s
  else s.offer h.source (w.extend h)

/-- Settles waiting nodes until `source` is among them. At most `fuel` nodes are settled. -/
def run (g : Graph) (source : String) (maxEdges : Nat) : Nat → Search → Option (List Half)
  | 0, _ => none
  | fuel + 1, s =>
    match s.waiting.min? with
    | none => none
    | some next =>
      let node := next.2.2
      match s.ways[node]? with
      | none => none
      | some w =>
        if node == source then some w.path
        else
          let s := { s with waiting := s.waiting.erase next, settled := s.settled.insert node }
          let s := if maxEdges ≤ w.path.length then s
            else (g.incoming node).foldl (relax g.selfId w) s
          run g source maxEdges fuel s

end Search

/-- A path from `source` to `target` of at most `maxEdges` halves that delivers `amount`, away from
the local node. For each node the search keeps the cheapest way alone, of equally cheap ones the
shortest, even where a dearer one would be shorter. Each node other than `target` is reached over
some half, so there is a node to settle at most once for each half and once more. -/
def Graph.findPath (g : Graph) (source target : String) (amount : Msat) (maxEdges : Nat) :
    Option (List Half) :=
  if source == g.selfId || target == g.selfId then none
  else Search.run g source maxEdges (g.halves.size + 1) (.start target amount)

end Rebalancer
