import Rebalancer.Double

set_option autoImplicit false

/-! # The shortest text of a double-precision number

A number is written with the fewest digits that are nearer to it than to any other, and of those
with the digits that are nearest to it.
-/

namespace Rebalancer.Double

/-- The numbers that round to `d` lie between these two, which are given in quarters of the last
binary place of `d`. -/
def neighbourhood (d : Double) : Nat × Nat :=
  let below := if d.mantissa = fullMantissa && d.exponent != minExponent then 1 else 2
  (4 * d.mantissa - below, 4 * d.mantissa + 2)

/-- Whether `n` times ten to the power `place` rounds to `d`. A bound counts if the mantissa is
even. -/
def reads (d : Double) (n : Nat) (place : Int) : Bool :=
  let (low, high) := d.neighbourhood
  let (up, down) := powerOfTwo (d.exponent - 2)
  let left := n * Nat.pow 10 place.toNat * down
  let unit := up * Nat.pow 10 (-place).toNat
  if d.mantissa % 2 = 0 then low * unit ≤ left && left ≤ high * unit
  else low * unit < left && left < high * unit

/-- The integer next to `d` in units of ten to the power `place` that rounds to `d`: the nearer one
if both do, and of two equally near the even one. -/
def digitsAt? (d : Double) (place : Int) : Option (Nat × Int) :=
  let (num, den) := d.quotient
  let num := num * Nat.pow 10 (-place).toNat
  let den := den * Nat.pow 10 place.toNat
  let low := num / den
  let candidates := if roundQuotient num den = low then [low, low + 1] else [low + 1, low]
  (candidates.find? (d.reads · place)).map (·, place)

/-- The number of digits before the point of a positive number; it is zero or negative if the first
digit that counts stands after the point. -/
def decimalLength (d : Double) : Int :=
  let (num, den) := d.quotient
  let length (n : Nat) : Int := (Nat.toDigits 10 n).length
  let guess := length num - length den
  let reaches := den * Nat.pow 10 guess.toNat ≤ num * Nat.pow 10 (-guess).toNat
  if reaches then guess + 1 else guess

/-- Takes zeros from the end of the digits. -/
def trimZeros : Nat → Nat → Int → Nat × Int
  | 0, n, place => (n, place)
  | fuel + 1, n, place => if n % 10 = 0 then trimZeros fuel (n / 10) (place + 1) else (n, place)

/-- The shortest digits of a positive number, and the place of the last of them. Seventeen digits
are always enough. -/
def shortest (d : Double) : Nat × Int :=
  let length := d.decimalLength
  let places := (List.range 17).map fun (i : Nat) => length - 1 - i
  let (n, place) := (places.findSome? d.digitsAt?).getD (0, 0)
  trimZeros 20 n place

/-- So many zeros. -/
def zeros (n : Int) : String := String.ofList (List.replicate n.toNat '0')

/-- The text of an exponent, which always bears its sign. -/
def exponentText (e : Int) : String := if e < 0 then s!"e{e}" else s!"e+{e}"

/-- The text of digits of which the last stands at `place`. It has no exponent if the first digit
stands at most sixteen places before the point or five after it. -/
def textOf (n : Nat) (place : Int) : String :=
  let digits := Nat.toDigits 10 n
  let point := digits.length + place
  let before := String.ofList (digits.take point.toNat)
  let after := String.ofList (digits.drop point.toNat)
  if 0 < point ∧ point ≤ 16 then
    before ++ zeros place ++ "." ++ (if after = "" then "0" else after)
  else if -5 < point ∧ point ≤ 0 then "0." ++ zeros (-point) ++ after
  else
    let rest := String.ofList (digits.drop 1)
    let mark := if rest = "" then "" else "."
    String.ofList (digits.take 1) ++ mark ++ rest ++ exponentText (point - 1)

/-- The shortest text of a number. -/
def text (d : Double) : String :=
  if d.mantissa = 0 then "0.0" else
    let (n, place) := d.shortest
    textOf n place

end Rebalancer.Double
