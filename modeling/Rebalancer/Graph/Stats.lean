import Rebalancer.Graph.Basic

set_option autoImplicit false

/-! # Counts over the graph -/

namespace Rebalancer

/-- From this amount on a half counts as liquid, and its maximum as large. -/
def liquidThreshold : Msat := 200000000

/-- How much of the network is known, and how much of it is of use. -/
structure GraphStats where
  nodes : Nat := 0
  channels : Nat := 0
  activeChannels : Nat := 0
  liquidChannels : Nat := 0
  maxHtlcChannels : Nat := 0
deriving DecidableEq, Repr

/-- Counts the halves of each kind. -/
def GraphStats.collect (nodes : Nat) (halves : List Half) : GraphStats where
  nodes := nodes
  channels := halves.length
  activeChannels := halves.countP (·.active)
  liquidChannels := halves.countP (liquidThreshold ≤ ·.liquidity)
  maxHtlcChannels := halves.countP (liquidThreshold ≤ ·.htlcMax)

/-- The counts of a graph. -/
def Graph.stats (g : Graph) : GraphStats := .collect g.nodes.size g.halves.values

end Rebalancer
