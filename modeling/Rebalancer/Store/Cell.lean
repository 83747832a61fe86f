import Rebalancer.Double
import Rebalancer.Word

set_option autoImplicit false

/-! # Sums in a table

A column of sums holds signed 64-bit integers. A sum that does not fit is kept as the nearest
double-precision number instead, and further sums are rounded in the same way until one fits again.
-/

namespace Rebalancer

/-- A sum as the table holds it. -/
inductive Cell
  | exact (n : Int)
  | rounded (n : Int)
deriving DecidableEq, Repr

namespace Cell

/-- The cell for a sum that was rounded: it is an integer again once it lies strictly between the
bounds of a signed word. -/
def settle (n : Int) : Cell :=
  if minSigned < n && n < maxSigned then exact n else rounded n

/-- Adds an integer. -/
def add (c : Cell) (n : Int) : Cell :=
  match c with
  | exact m =>
    if fitsSigned (m + n) then exact (m + n)
    else settle (roundDouble (roundDouble m + roundDouble n))
  | rounded m => settle (roundDouble (m + roundDouble n))

/-- The value, if it is an integer. -/
def integer? : Cell → Option Int
  | exact n => some n
  | rounded _ => none

/-- The sum of a column, if all its cells are integers and every partial sum fits. -/
def sum? (cells : List Cell) : Option Int :=
  cells.foldlM (fun total c => c.integer?.bind fun n =>
    fitSigned? (total + n)) 0

end Cell

end Rebalancer
