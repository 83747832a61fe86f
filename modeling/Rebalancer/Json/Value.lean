import Rebalancer.Word

set_option autoImplicit false

/-! # JSON values

Integers are exact. Every other number keeps the text it was written with. An object keeps its
fields in order, also several of one name.

What is written by the rules may still name no value. Those who pass over it need not mind; a
value is sound if it has no such part and is not nested too deep.
-/

namespace Rebalancer

/-- A JSON value. -/
inductive Json
  | null
  | bool (b : Bool)
  | int (n : Int)
  /-- The shortest text of a number that is no integer of at most 64 bits. -/
  | real (text : String)
  | str (s : String)
  | arr (items : List Json)
  | obj (fields : List (String × Json))
  /-- A text with half a surrogate pair or with bytes that are no UTF-8, a number beyond double
  precision, or an object with such a text for a name. -/
  | vague
deriving Repr

namespace Json

instance : Inhabited Json := ⟨null⟩

/-- The last field of a name. -/
def lookup? (fields : List (String × Json)) (name : String) : Option Json :=
  fields.foldl (fun found f => if f.1 == name then some f.2 else found) none

/-- The field of an object. -/
def get? : Json → String → Option Json
  | obj fields, name => lookup? fields name
  | _, _ => none

/-- The text of a string. -/
def text? : Json → Option String
  | str s => some s
  | _ => none

/-- The truth value. -/
def bool? : Json → Option Bool
  | bool b => some b
  | _ => none

/-- The value of an integer from `least` to `greatest`. -/
def integer? (least greatest : Int) : Json → Option Int
  | int n => if least ≤ n && n ≤ greatest then some n else none
  | _ => none

/-- The value of an integer that an unsigned 64-bit word holds. -/
def word? (j : Json) : Option UInt64 :=
  (j.integer? 0 maxWord).map fun n => UInt64.ofNat n.toNat

/-- The value of an integer that a signed 64-bit word holds. -/
def signed? (j : Json) : Option Int := j.integer? minSigned maxSigned

/-- The items of an array. -/
def items? : Json → Option (List Json)
  | arr items => some items
  | _ => none

mutual

/-- Whether a value has no vague part and is nested at most `depth` deep. -/
def soundTo : Nat → Json → Bool
  | depth + 1, arr items => itemsSoundTo depth items
  | depth + 1, obj fields => fieldsSoundTo depth fields
  | 0, arr _ => false
  | 0, obj _ => false
  | _, vague => false
  | _, null => true
  | _, bool _ => true
  | _, int _ => true
  | _, real _ => true
  | _, str _ => true

/-- Whether all items are sound. -/
def itemsSoundTo : Nat → List Json → Bool
  | _, [] => true
  | depth, j :: rest => soundTo depth j && itemsSoundTo depth rest

/-- Whether all values of fields are sound. -/
def fieldsSoundTo : Nat → List (String × Json) → Bool
  | _, [] => true
  | depth, (_, j) :: rest => soundTo depth j && fieldsSoundTo depth rest

end

/-- How deep a document may be nested. -/
def maxDepth : Nat := 127

/-- The value itself, if it is sound where it stands `above` levels deep in a document. -/
def sound? (above : Nat) (j : Json) : Option Json :=
  if j.soundTo (maxDepth - above) then some j else none

end Json

end Rebalancer
