import Rebalancer.Text.Numeral
import Rebalancer.Text.Utf8

set_option autoImplicit false

/-! # Percent escapes

In an address, a percent sign with two hexadecimal digits stands for a byte.
-/

namespace Rebalancer.Text

/-- The bytes that characters with escapes write. They end before an escaped zero, and a percent
sign that begins no escape stands for itself. -/
def unescape : List Char → List UInt8
  | [] => []
  | '%' :: a :: b :: rest =>
    match hexValue? a, hexValue? b with
    | some high, some low =>
      if high = 0 ∧ low = 0 then [] else UInt8.ofNat (16 * high + low) :: unescape rest
    | _, _ => String.utf8EncodeChar '%' ++ unescape (a :: b :: rest)
  | c :: rest => String.utf8EncodeChar c ++ unescape rest

/-- The text that characters with escapes write. -/
def unescaped (s : List Char) : String := utf8Lossy (unescape s)

end Rebalancer.Text
