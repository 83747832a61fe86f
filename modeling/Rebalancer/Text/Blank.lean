set_option autoImplicit false

/-! # White space

The characters with the property `White_Space`, and the trimming of texts by it.
-/

namespace Rebalancer.Text

/-- The ranges of the property `White_Space`, in ascending order. -/
def blankRanges : List (Nat × Nat) :=
  [(0x09, 0x0D), (0x20, 0x20), (0x85, 0x85), (0xA0, 0xA0), (0x1680, 0x1680), (0x2000, 0x200A),
   (0x2028, 0x2029), (0x202F, 0x202F), (0x205F, 0x205F), (0x3000, 0x3000)]

/-- Whether `c` is white space. -/
def isBlank (c : Char) : Bool := blankRanges.any fun r => r.1 ≤ c.toNat && c.toNat ≤ r.2

/-- `s` without the blanks at both its ends. -/
def trimChars (s : List Char) : List Char :=
  ((s.dropWhile isBlank).reverse.dropWhile isBlank).reverse

/-- `s` without the blanks at both its ends. -/
def trim (s : String) : String := String.ofList (trimChars s.toList)

end Rebalancer.Text
