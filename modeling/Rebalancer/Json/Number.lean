import Rebalancer.Double.Shortest
import Rebalancer.Text.Numeral
import Rebalancer.Word

set_option autoImplicit false

/-! # The value of JSON numbers

The value of a number that is no integer is found in steps of double precision: first the digits as
far as a word holds them, then their product with a power of ten, or their quotient by one. The
number is out of range if a product has no finite result, even where the number itself could be
rounded to a finite one.
-/

namespace Rebalancer.Json.Reading

open Text

/-- Appends digits to `n` as long as the result fits a word, and counts those that are left out. -/
def appendDigits (n : Nat) : List Char → Nat × Nat
  | [] => (n, 0)
  | c :: rest =>
    let m := 10 * n + digitValue c
    if m ≤ maxWord then appendDigits m rest else (n, rest.length + 1)

/-- The greatest power of ten that is used in one step. -/
def maxPower : Nat := 308

/-- Divides by ten to a power, in as many steps as it takes but for `fuel`. -/
def divide (fuel : Nat) (d : Double) (power : Nat) : Double :=
  match fuel with
  | 0 => d
  | fuel + 1 =>
    if power ≤ maxPower then d.div (.powerOfTen power)
    else divide fuel (d.div (.powerOfTen maxPower)) (power - maxPower)

/-- Multiplies by ten to a power, if the product is in range. A number that is a word vanishes in
three divisions by the greatest power. -/
def scale? (d : Double) (power : Int) : Option Double :=
  if d.mantissa = 0 then some d
  else if power < 0 then some (divide 4 d (-power).toNat)
  else if maxPower < power then none
  else
    let product := d.mul (.powerOfTen power.toNat)
    if product.isFinite then some product else none

/-- The value of the number with these digits before and after its point, times ten to the power
`exponent`, if it is in range. A digit left out before the point counts as a zero. -/
def double? (whole fraction : List Char) (exponent : Int) : Option Double :=
  let (n, zeros) := appendDigits 0 whole
  let (n, dropped) := appendDigits n fraction
  scale? (.ofQuotient n 1) (exponent + zeros - (fraction.length - dropped : Nat))

end Rebalancer.Json.Reading
