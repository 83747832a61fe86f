import Rebalancer.Graph.Refresh

set_option autoImplicit false

/-! # The graph snapshot

Halves and nodes as they are kept on disk. Amounts are kept as signed words. The table admits no
direction but 0 and 1, so a graph with any other is not saved.
-/

namespace Rebalancer

/-- A half as it is kept on disk. -/
structure HalfRow where
  scid : String
  direction : UInt8
  source : String
  destination : String
  capacity : Int
  baseFee : Int
  rate : Int
  delay : UInt32
  htlcMin : Int
  htlcMax : Int
  active : Bool
  liquidity : Int
  liquidityAt : Time
deriving DecidableEq, Repr

/-- The row of a half. -/
def HalfRow.ofHalf (h : Half) : HalfRow where
  scid := h.id.scid
  direction := h.id.direction
  source := h.source
  destination := h.destination
  capacity := signedOfWord h.capacity
  baseFee := signedOfWord h.baseFee
  rate := signedOfWord h.rate
  delay := h.delay
  htlcMin := signedOfWord h.htlcMin
  htlcMax := signedOfWord h.htlcMax
  active := h.active
  liquidity := signedOfWord h.liquidity
  liquidityAt := h.liquidityAt

/-- The half of a row. -/
def HalfRow.half (r : HalfRow) : Half where
  id := ⟨r.scid, r.direction⟩
  source := r.source
  destination := r.destination
  capacity := wordOfSigned r.capacity
  baseFee := wordOfSigned r.baseFee
  rate := wordOfSigned r.rate
  delay := r.delay
  htlcMin := wordOfSigned r.htlcMin
  htlcMax := wordOfSigned r.htlcMax
  active := r.active
  liquidity := wordOfSigned r.liquidity
  liquidityAt := r.liquidityAt

/-- Whether the table admits the row. -/
def HalfRow.valid (r : HalfRow) : Bool := r.direction ≤ 1

theorem HalfRow.half_ofHalf (h : Half) : (HalfRow.ofHalf h).half = h := by
  simp [HalfRow.ofHalf, HalfRow.half]

/-- The halves and nodes of a graph on disk; a node is its id and its alias. -/
structure Snapshot where
  halves : List HalfRow := []
  nodes : List (String × String) := []
deriving DecidableEq, Repr

namespace Snapshot

/-- The snapshot of a graph, if the table admits all its halves. -/
def ofGraph? (g : Graph) : Option Snapshot :=
  let halves := g.halves.values.map HalfRow.ofHalf
  if halves.all HalfRow.valid then
    some ⟨halves, g.nodes.values.map fun n => (n.id, n.nickname)⟩
  else none

/-- Fills a graph from the snapshot. -/
def load (s : Snapshot) (g : Graph) : Graph := g.restore (s.halves.map HalfRow.half) s.nodes

end Snapshot

end Rebalancer
