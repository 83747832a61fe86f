import Rebalancer.Half

set_option autoImplicit false

/-! # Routes

A route is a list of hops that leaves the local node and comes back to it. Amounts and delays are
fixed from the end: the last hop delivers the amount that is to arrive, and each hop before it
delivers what the rest of the route takes to forward it.
-/

namespace Rebalancer

/-- The delay of the last hop, which ends at the local node. -/
def finalDelay : UInt32 := 18

/-- The amount that has to enter `halves` for `amount` to leave them at the end. -/
def amountInto (amount : Msat) : List Half → Msat
  | [] => amount
  | half :: rest =>
    let carried := amountInto amount rest
    addClamped carried (half.fee carried)

/-- The delay that has to be left on entering `halves`. -/
def delayInto : List Half → UInt32
  | [] => finalDelay
  | half :: rest => addDelay (delayInto rest) half.delay

/-- One step of a route. -/
structure Hop where
  half : HalfId
  source : String
  destination : String
  /-- The amount this hop delivers to `destination`. -/
  amount : Msat
  delay : UInt32
deriving DecidableEq, Repr

/-- A route and the amount that arrives at its end. -/
structure Route where
  hops : List Hop
  amount : Msat
deriving DecidableEq, Repr

/-- One step of a route in the form in which the node takes it: the node that the step delivers
to, and the channel and direction that lead there. -/
structure PaymentHop where
  id : String
  channel : String
  direction : UInt8
  amount : Msat
  delay : UInt32
deriving DecidableEq, Repr

namespace Route

/-- The hops over `halves` that deliver `amount` at the end. The sender pays no fee for the first
half, so a hop's amount covers the fees of the halves after it. -/
def hopsOver (amount : Msat) : List Half → List Hop
  | [] => []
  | half :: rest =>
    { half := half.id
      source := half.source
      destination := half.destination
      amount := amountInto amount rest
      delay := delayInto rest } :: hopsOver amount rest

/-- The route over `halves` that delivers `amount`. -/
def build (halves : List Half) (amount : Msat) : Route := ⟨hopsOver amount halves, amount⟩

/-- What the first hop carries beyond the delivered amount. -/
def fee (r : Route) : Msat :=
  match r.hops with
  | [] => 0
  | first :: _ => subClamped first.amount r.amount

/-- The fee rate, rounded down. -/
def rate (r : Route) : Ppm := rateOf r.fee r.amount

/-- Whether the fee keeps to `ceiling`, compared without rounding. -/
def within (r : Route) (ceiling : Ppm) : Bool :=
  r.fee.toNat * 1000000 ≤ ceiling.toNat * r.amount.toNat

/-- The channel by which the route leaves the local node. -/
def exit? (r : Route) : Option String := r.hops.head?.map (·.half.scid)

/-- The channel by which the route comes back. -/
def entry? (r : Route) : Option String := r.hops.getLast?.map (·.half.scid)

/-- The halves passed, in order. -/
def halfIds (r : Route) : List HalfId := r.hops.map (·.half)

/-- The route in the form in which the node takes it. -/
def paymentHops (r : Route) : List PaymentHop :=
  r.hops.map fun h => ⟨h.destination, h.half.scid, h.half.direction, h.amount, h.delay⟩

end Route

end Rebalancer
