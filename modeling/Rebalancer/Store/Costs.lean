import Rebalancer.Route
import Rebalancer.Store.Cell
import Std.Data.TreeMap

set_option autoImplicit false

/-! # The cost table

One row per own channel, day and direction. A payment adds its amount to the row of the channel it
left by and to that of the channel it came back by; the latter is charged the fee.
-/

namespace Rebalancer

open Std

/-- The seconds of a day. -/
def daySeconds : Int := 86400

/-- The start of the day in which `t` lies. -/
def dayStart (t : Time) : Time := t - t % daySeconds

/-- The start of the day in which `t` lies, if it is a time. -/
def dayStart? (t : Time) : Option Time := fitSigned? (dayStart t)

/-- Whether an amount came in over the channel or went out. -/
inductive CostSide
  | incoming
  | outgoing
deriving DecidableEq, Repr

namespace CostSide

/-- The name of a side. -/
def name : CostSide → String
  | incoming => "in"
  | outgoing => "out"

/-- The rank of a side. -/
def rank : CostSide → Nat
  | incoming => 0
  | outgoing => 1

end CostSide

/-- What a row of costs is found by. -/
structure CostKey where
  channel : String
  day : Time
  side : CostSide
deriving DecidableEq, Repr

/-- Rows are ordered by channel, then by day, then by side. -/
def CostKey.compare : CostKey → CostKey → Ordering :=
  compareLex (compareOn CostKey.channel)
    (compareLex (compareOn CostKey.day) (compareOn fun k => k.side.rank))

instance : TransCmp CostKey.compare :=
  inferInstanceAs (TransCmp (compareLex (compareOn CostKey.channel)
    (compareLex (compareOn CostKey.day) (compareOn fun k : CostKey => k.side.rank))))

/-- The totals of a row, with the peer of the payment that opened it. -/
structure CostRow where
  peer : String
  fee : Cell
  amount : Cell
deriving DecidableEq, Repr

/-- The totals of a channel. -/
structure ChannelCosts where
  fee : Int := 0
  amountIn : Int := 0
  amountOut : Int := 0
deriving DecidableEq, Repr

/-- The cost table. -/
abbrev Costs := TreeMap CostKey CostRow CostKey.compare

namespace Costs

/-- Adds to a row, which keeps the peer it was opened with. -/
def book (costs : Costs) (key : CostKey) (peer : String) (fee amount : Int) : Costs :=
  match costs[key]? with
  | none => costs.insert key ⟨peer, .exact fee, .exact amount⟩
  | some row =>
    costs.insert key { row with fee := row.fee.add fee, amount := row.amount.add amount }

/-- Books a settled payment, unless its day begins before all times. A route without hops counts for
nothing. -/
def record (c : Costs) (route : Route) (fee : Msat) (now : Time) : Option Costs :=
  match route.hops.head?, route.hops.getLast? with
  | some first, some last => do
    let day ← dayStart? now
    let amount := signedOfWord route.amount
    return (c.book ⟨first.half.scid, day, .outgoing⟩ first.destination 0 amount).book
      ⟨last.half.scid, day, .incoming⟩ last.source (signedOfWord fee) amount
  | _, _ => some c

/-- The rows of a channel on one side, from the day that begins at `day` on. -/
def rowsSince (c : Costs) (channel : String) (day : Time) (side : CostSide) : List CostRow :=
  (c.toList.filter fun e => e.1.channel == channel && day ≤ e.1.day && e.1.side == side).map (·.2)

/-- The totals of a channel from the day that begins at `day` on; `none` if one does not fit. -/
def since? (c : Costs) (channel : String) (day : Time) : Option ChannelCosts := do
  let ins := c.rowsSince channel day .incoming
  let outs := c.rowsSince channel day .outgoing
  let feeIn ← Cell.sum? (ins.map (·.fee))
  let feeOut ← Cell.sum? (outs.map (·.fee))
  let amountIn ← Cell.sum? (ins.map (·.amount))
  let amountOut ← Cell.sum? (outs.map (·.amount))
  return ⟨feeIn + feeOut, amountIn, amountOut⟩

end Costs

end Rebalancer
