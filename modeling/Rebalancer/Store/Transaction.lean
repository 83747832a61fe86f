import Rebalancer.Store

set_option autoImplicit false

/-! # A snapshot written row by row

Saving a graph empties both tables of the snapshot and then writes one row after the other. A table
refuses a row that breaks one of its constraints, and then nothing more is written. All of it is one
transaction: a refusal brings back the tables as they were before the first statement.
-/

namespace Rebalancer

/-- Which constraint a row breaks. -/
inductive RowFault
  /-- A half has a direction other than 0 and 1. -/
  | direction
  /-- The table has a row with the same key. -/
  | key
deriving DecidableEq, Repr

/-- A statement gives a result or breaks a constraint, and leaves the tables as they are then. -/
abbrev Statement (α : Type) := Snapshot → Except RowFault α × Snapshot

namespace Snapshot

/-- Writes the row of a half. -/
def insertHalf (h : Half) : Statement Unit := fun s =>
  let row := HalfRow.ofHalf h
  if row.valid then
    if s.halves.any fun r => r.half.id == h.id then (.error .key, s)
    else (.ok (), { s with halves := s.halves ++ [row] })
  else (.error .direction, s)

/-- Writes the row of a node. -/
def insertNode (n : Node) : Statement Unit := fun s =>
  if s.nodes.any (·.1 == n.id) then (.error .key, s)
  else (.ok (), { s with nodes := s.nodes ++ [(n.id, n.nickname)] })

/-- Writes halves one after the other and counts them. `written` are those before. -/
def insertHalves : List Half → Nat → Statement Nat
  | [], written, s => (.ok written, s)
  | h :: rest, written, s =>
    match insertHalf h s with
    | (.error fault, s) => (.error fault, s)
    | (.ok (), s) => insertHalves rest (written + 1) s

/-- Writes nodes one after the other. -/
def insertNodes : List Node → Statement Unit
  | [], s => (.ok (), s)
  | n :: rest, s =>
    match insertNode n s with
    | (.error fault, s) => (.error fault, s)
    | (.ok (), s) => insertNodes rest s

/-- Empties both tables and writes halves and nodes, in this order. Gives the number of halves. -/
def replace (halves : List Half) (nodes : List Node) : Statement Nat := fun s =>
  let s := { s with halves := [] }
  let s := { s with nodes := [] }
  match insertHalves halves 0 s with
  | (.error fault, s) => (.error fault, s)
  | (.ok written, s) =>
    match insertNodes nodes s with
    | (.error fault, s) => (.error fault, s)
    | (.ok (), s) => (.ok written, s)

end Snapshot

namespace Store

/-- Carries out a statement as a transaction. It is rolled back if a constraint is broken. -/
def transact {α : Type} (s : Store) (statement : Statement α) : Except RowFault α × Store :=
  match statement s.snapshot with
  | (.error fault, _) => (.error fault, s)
  | (.ok a, snapshot) => (.ok a, { s with snapshot := snapshot })

/-- Writes halves and nodes in the place of the last snapshot. -/
def write (s : Store) (halves : List Half) (nodes : List Node) : Except RowFault Nat × Store :=
  s.transact (Snapshot.replace halves nodes)

end Store

end Rebalancer
