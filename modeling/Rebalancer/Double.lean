set_option autoImplicit false

/-! # Double precision

Nonnegative numbers of double precision as an integer times a power of two, the rounding of
quotients to them, and their range.
-/

namespace Rebalancer

/-- The integer nearest to a quotient, of two the even one. -/
def roundQuotient (num den : Nat) : Nat :=
  let low := num / den
  let rest := num % den
  if den < 2 * rest || (2 * rest = den && low % 2 = 1) then low + 1 else low

/-- The number of binary digits of `n`. -/
def binaryLength (n : Nat) : Nat := if n = 0 then 0 else n.log2 + 1

/-- `n` rounded to 53 binary digits, a tie to the even neighbour. -/
def roundNat (n : Nat) : Nat :=
  let unit := Nat.pow 2 (binaryLength n - 53)
  roundQuotient n unit * unit

/-- `n` rounded to a double-precision number. -/
def roundDouble (n : Int) : Int := if n < 0 then -(roundNat n.natAbs) else roundNat n.natAbs

/-- The least number that is too large to be rounded to a finite double-precision number. -/
def doubleBound : Nat := Nat.pow 2 1024 - Nat.pow 2 970

/-- Whether `mantissa` times ten to the power `exponent` is too large to be rounded to a finite
double-precision number. -/
def exceedsDouble (mantissa : Nat) (exponent : Int) : Bool :=
  let magnitude := (Nat.toDigits 10 mantissa).length + exponent
  if mantissa = 0 || magnitude < 300 then false
  else if 320 < magnitude then true
  else if 0 ≤ exponent then doubleBound ≤ mantissa * Nat.pow 10 exponent.toNat
  else doubleBound * Nat.pow 10 (-exponent).toNat ≤ mantissa

/-- The number `mantissa` times two to the power `exponent`. -/
structure Double where
  mantissa : Nat
  exponent : Int
deriving DecidableEq, Repr

namespace Double

/-- The least exponent. -/
def minExponent : Int := -1074

/-- The greatest exponent. -/
def maxExponent : Int := 971

/-- The least mantissa of a number whose exponent is not the least. -/
def fullMantissa : Nat := Nat.pow 2 52

/-- Two to the power `n`, as a quotient. -/
def powerOfTwo (n : Int) : Nat × Nat := (Nat.pow 2 n.toNat, Nat.pow 2 (-n).toNat)

/-- The greatest power of two that is not above a positive quotient. -/
def exponentOf (num den : Nat) : Int :=
  let e : Int := num.log2 - den.log2
  let (up, down) := powerOfTwo e
  if den * up ≤ num * down then e else e - 1

/-- The number nearest to a quotient, with no bound on the exponent from above. -/
def ofQuotient (num den : Nat) : Double :=
  if num = 0 then ⟨0, minExponent⟩
  else
    let e := max (exponentOf num den - 52) minExponent
    let (up, down) := powerOfTwo e
    let m := roundQuotient (num * down) (den * up)
    if m = 2 * fullMantissa then ⟨fullMantissa, e + 1⟩ else ⟨m, e⟩

/-- Whether the number lies within the range of double precision. -/
def isFinite (d : Double) : Bool := d.exponent ≤ maxExponent

/-- The number as a quotient. -/
def quotient (d : Double) : Nat × Nat :=
  let (up, down) := powerOfTwo d.exponent
  (d.mantissa * up, down)

/-- The product, rounded. -/
def mul (a b : Double) : Double :=
  let (m, n) := a.quotient
  let (k, l) := b.quotient
  ofQuotient (m * k) (n * l)

/-- The quotient, rounded. -/
def div (a b : Double) : Double :=
  let (m, n) := a.quotient
  let (k, l) := b.quotient
  ofQuotient (m * l) (n * k)

/-- Ten to the power `n`, rounded. -/
def powerOfTen (n : Nat) : Double := ofQuotient (Nat.pow 10 n) 1

end Double

end Rebalancer
