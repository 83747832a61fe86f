import Rebalancer.Json.Record
import Rebalancer.Report
import Rebalancer.Store

set_option autoImplicit false

/-! # The store as a document

Each row of each table is an array of its values. Reading a written row gives the row back, and so
the whole store reads back from what is written of it (`Store.ofJson?_toJson`).
-/

namespace Rebalancer

open Json

/-- Reads a text that may be missing. -/
def Json.optionalText? : Json → Option (Option String)
  | null => some none
  | str s => some (some s)
  | _ => none

@[simp] theorem Json.optionalText?_ofOption (s : Option String) :
    optionalText? (ofOption str s) = some s := by
  cases s <;> rfl

/-! ## Attempts -/

/-- The document of a row. -/
def AttemptRow.toJson (r : AttemptRow) : Json :=
  arr [str r.id, str r.requestId, str r.mode, int r.amount, ofOption str r.exit,
    ofOption str r.entry, str r.route, int r.fee, int r.tries, bool r.success,
    ofOption str r.errorKind, ofOption str r.errorMessage, int r.createdAt]

/-- Reads a row. -/
def AttemptRow.ofJson? : Json → Option AttemptRow
  | arr [str id, str requestId, str mode, int amount, exit, entry, str route, int fee, int tries,
      .bool success, kind, message, int createdAt] => do
    return {
      id := id
      requestId := requestId
      mode := mode
      amount := amount
      exit := ← exit.optionalText?
      entry := ← entry.optionalText?
      route := route
      fee := fee
      tries := tries.toNat
      success := success
      errorKind := ← kind.optionalText?
      errorMessage := ← message.optionalText?
      createdAt := createdAt }
  | _ => none

theorem AttemptRow.ofJson?_toJson (r : AttemptRow) : ofJson? r.toJson = some r := by
  simp [ofJson?, toJson]

/-! ## Costs -/

/-- The document of a sum. -/
def Cell.document : Cell → Json
  | exact n => int n
  | rounded n => arr [int n]

/-- Reads a sum. -/
def Cell.ofDocument? : Json → Option Cell
  | int n => some (exact n)
  | arr [int n] => some (rounded n)
  | _ => none

@[simp] theorem Cell.ofDocument?_document (c : Cell) : ofDocument? c.document = some c := by
  cases c <;> rfl

/-- Reads a side. -/
def CostSide.ofName? (name : String) : Option CostSide :=
  if name = "in" then some incoming else if name = "out" then some outgoing else none

@[simp] theorem CostSide.ofName?_name (s : CostSide) : ofName? s.name = some s := by
  cases s <;> decide

/-- The document of a row. -/
def costToJson (e : CostKey × CostRow) : Json :=
  arr [str e.1.channel, int e.1.day, str e.1.side.name, str e.2.peer, e.2.fee.document,
    e.2.amount.document]

/-- Reads a row. -/
def costOfJson? : Json → Option (CostKey × CostRow)
  | arr [str channel, int day, str side, str peer, fee, amount] => do
    return (⟨channel, day, ← CostSide.ofName? side⟩,
      ⟨peer, ← Cell.ofDocument? fee, ← Cell.ofDocument? amount⟩)
  | _ => none

theorem costOfJson?_costToJson (e : CostKey × CostRow) : costOfJson? (costToJson e) = some e := by
  simp [costOfJson?, costToJson]

/-! ## The graph -/

/-- The document of a row. -/
def HalfRow.toJson (r : HalfRow) : Json :=
  arr [str r.scid, ofNat r.direction.toNat, str r.source, str r.destination, int r.capacity,
    int r.baseFee, int r.rate, ofNat r.delay.toNat, int r.htlcMin, int r.htlcMax, bool r.active,
    int r.liquidity, int r.liquidityAt]

/-- Reads a row. -/
def HalfRow.ofJson? : Json → Option HalfRow
  | arr [str scid, int direction, str source, str destination, int capacity, int baseFee, int rate,
      int delay, int htlcMin, int htlcMax, .bool active, int liquidity, int liquidityAt] =>
    some {
      scid := scid
      direction := UInt8.ofNat direction.toNat
      source := source
      destination := destination
      capacity := capacity
      baseFee := baseFee
      rate := rate
      delay := UInt32.ofNat delay.toNat
      htlcMin := htlcMin
      htlcMax := htlcMax
      active := active
      liquidity := liquidity
      liquidityAt := liquidityAt }
  | _ => none

theorem HalfRow.ofJson?_toJson (r : HalfRow) : ofJson? r.toJson = some r := by
  simp [ofJson?, toJson, ofNat]

/-- Reads a node. -/
def nodeOfJson? : Json → Option (String × String)
  | arr [str id, str nickname] => some (id, nickname)
  | _ => none

/-! ## The whole store -/

namespace Store

/-- The document of a store. -/
def toJson (s : Store) : Json :=
  obj [("attempts", ofList AttemptRow.toJson s.attempts),
    ("costs", ofList costToJson s.costs.toList),
    ("halves", ofList HalfRow.toJson s.snapshot.halves),
    ("nodes", ofList (fun n : String × String => arr [str n.1, str n.2]) s.snapshot.nodes)]

/-- Reads a store. -/
def ofJson? (j : Json) : Option Store := do
  return {
    attempts := ← (j.get? "attempts").bind (list? AttemptRow.ofJson?)
    costs := .ofList (← (j.get? "costs").bind (list? costOfJson?)) _
    snapshot := {
      halves := ← (j.get? "halves").bind (list? HalfRow.ofJson?)
      nodes := ← (j.get? "nodes").bind (list? nodeOfJson?) } }

end Store

end Rebalancer
