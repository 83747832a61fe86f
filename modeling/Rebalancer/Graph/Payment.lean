import Rebalancer.Graph.Basic
import Rebalancer.Route

set_option autoImplicit false

/-! # What a payment changes

A settled payment moves its amount from the channel it left by to the channel it came back by. A
failed one tells that a half could not carry the amount it was asked to forward.
-/

namespace Rebalancer.Graph

/-- A half that refused an amount is taken to carry this much less. -/
def failureMargin : Msat := 1000000

/-- The record after `amount` has left over the channel. -/
def debited (c : OwnChannel) (amount : Msat) : OwnChannel :=
  { c with
    toUs := subClamped c.toUs amount
    spendable := subClamped c.spendable amount
    receivable := addClamped c.receivable amount }

/-- The record after `amount` has come in over the channel. -/
def credited (c : OwnChannel) (amount : Msat) : OwnChannel :=
  { c with
    toUs := addClamped c.toUs amount
    spendable := addClamped c.spendable amount
    receivable := subClamped c.receivable amount }

/-- Changes the record of the channel `scid` if it is one of ours. -/
def modifyOwn (g : Graph) (scid : Option String) (f : OwnChannel → OwnChannel) : Graph :=
  match scid with
  | none => g
  | some scid => { g with own := g.own.modify scid f }

/-- Moves `amount` from the channel of the first hop to that of the last. -/
def applyPayment (g : Graph) (route : Route) (amount : Msat) (now : Time) : Graph :=
  let g := g.modifyOwn route.exit? (debited · amount)
  let g := g.modifyOwn route.entry? (credited · amount)
  g.syncOwn now

/-- Lowers the estimate of a half of no own channel that refused `amount` and gives the rest of
the capacity to the opposite half. `none` if there is nothing to learn. -/
def applyFailure (g : Graph) (id : HalfId) (amount : Msat) (now : Time) : Option Graph :=
  if g.isOwn id.scid then none
  else
    g.halves[id]?.map fun h =>
      let learned := min (subClamped amount failureMargin) h.capacity
      { g with
        halves := (g.halves.modify id (·.withLiquidity learned now)).modify id.opposite
          (·.withLiquidity (subClamped h.capacity learned) now) }

end Rebalancer.Graph
