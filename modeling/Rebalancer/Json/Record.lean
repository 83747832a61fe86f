import Rebalancer.Json.Value

set_option autoImplicit false

/-! # Records in JSON

A record is written as an object or, with its values in the order of its fields, as an array.
Unknown fields of an object are passed over, but a known one may stand there only once.
-/

namespace Rebalancer.Json

/-- The fields found in the written form of a record. -/
abbrev Found := String → Option Json

/-- Whether a name occurs in a list of fields more than once. -/
def repeated (fields : List (String × Json)) (name : String) : Bool :=
  1 < fields.countP (·.1 == name)

/-- The fields of a record with the field names `names`, of which an array must give at least the
first `least`. -/
def record? (names : List String) (least : Nat) : Json → Option Found
  | obj fields => if names.any (repeated fields) then none else some (lookup? fields)
  | arr items =>
    if least ≤ items.length && items.length ≤ names.length then
      some (lookup? (names.zip items))
    else none
  | _ => none

/-- The value of a field that must be there. -/
def Found.required {α : Type} (f : Found) (name : String) (decode : Json → Option α) : Option α :=
  (f name).bind decode

/-- The value of a field that may be missing. -/
def Found.defaulted {α : Type} (f : Found) (name : String) (default : α)
    (decode : Json → Option α) : Option α :=
  match f name with
  | none => some default
  | some j => decode j

/-- The value of a field that may be missing or null. -/
def Found.optional {α : Type} (f : Found) (name : String) (decode : Json → Option α) :
    Option (Option α) :=
  match f name with
  | none | some null => some none
  | some j => (decode j).map some

/-- The values of an array. -/
def list? {α : Type} (decode : Json → Option α) (j : Json) : Option (List α) :=
  j.items?.bind fun items => items.mapM decode

/-- The value of an integer that an unsigned 32-bit word holds. -/
def word32? (j : Json) : Option UInt32 :=
  (j.integer? 0 maxHalfWord).map fun n => UInt32.ofNat n.toNat

/-- The value of an integer that a byte holds. -/
def byte? (j : Json) : Option UInt8 :=
  (j.integer? 0 255).map fun n => UInt8.ofNat n.toNat

end Rebalancer.Json
