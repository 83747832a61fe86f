import Rebalancer.Route
import Rebalancer.Text.Numeral
import Rebalancer.Text.Split

set_option autoImplicit false

/-! # The written form of routes

A list of halves is written `scid/direction,scid/direction`. Reading drops every part that is not
a half, so it accepts any text.
-/

namespace Rebalancer

/-- Reads one half: the direction stands after the last slash. -/
def HalfId.ofChars? (s : List Char) : Option HalfId :=
  match Text.splitLast '/' s with
  | none => none
  | some (scid, direction) =>
    (Text.readNat? 255 direction).map fun n => ⟨String.ofList scid, UInt8.ofNat n⟩

/-- The written form of a list of halves. -/
def describeHalves (ids : List HalfId) : String := String.intercalate "," (ids.map HalfId.text)

/-- Reads a list of halves. -/
def parseHalves (s : String) : List HalfId :=
  (Text.splitChars ',' s.toList).filterMap HalfId.ofChars?

/-- The written form of a route's halves. -/
def Route.describe (r : Route) : String :=
  String.intercalate "," (r.hops.map fun hop => hop.half.text)

end Rebalancer
