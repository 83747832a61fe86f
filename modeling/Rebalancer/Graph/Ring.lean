import Rebalancer.Failure
import Rebalancer.Graph.Search
import Rebalancer.Route

set_option autoImplicit false

/-! # Rings

A ring leaves the local node by one own channel, the exit, and comes back by another, the entry.
Between them runs the cheapest path of other halves.
-/

namespace Rebalancer.Graph

/-- The half by which `scid` serves as exit. -/
def exitHalf (g : Graph) (scid : String) : Except Failure Half :=
  if !g.isOwn scid then .error (.invalid (.notOwn scid))
  else match g.outHalf? scid with
    | some h => .ok h
    | none => .error (.invalid (.noOutgoingHalf scid))

/-- The half by which `scid` serves as entry. -/
def entryHalf (g : Graph) (scid : String) : Except Failure Half :=
  if !g.isOwn scid then .error (.invalid (.notOwn scid))
  else match g.inHalf? scid with
    | some h => .ok h
    | none => .error (.invalid (.noIncomingHalf scid))

/-- Checks that the two ends can carry the chunk itself, before any fee. -/
def checkEnds (exit entry : String) (out back : Half) (amount : Msat) : Except Failure Unit :=
  if !out.active then .error (.inactive exit)
  else if !back.active then .error (.inactive entry)
  else if !out.canCarry amount then
    .error (.noRoute (.cannotSend exit amount out.liquidity out.htlcMax))
  else if !back.canCarry amount then
    .error (.noRoute (.cannotReceive entry amount back.liquidity back.htlcMax))
  else .ok ()

/-- The cheapest route of at most `maxHops` hops that leaves by `exit` and delivers `amount` by
`entry`. The two ends count as hops. -/
def ring (g : Graph) (exit entry : String) (amount : Msat) (maxHops : Nat) :
    Except Failure Route := do
  if exit == entry then throw (.invalid .sameChannel)
  let out ← g.exitHalf exit
  let back ← g.entryHalf entry
  checkEnds exit entry out back amount
  match g.findPath out.destination back.source (amountInto amount [back]) (maxHops - 2) with
  | none => throw (.noRoute (.noPath maxHops exit entry))
  | some path =>
    let first := amountInto amount (path ++ [back])
    if out.canCarry first then return .build (out :: (path ++ [back])) amount
    else throw (.noRoute (.cannotCover exit first))

end Rebalancer.Graph
