set_option autoImplicit false

/-! # Reading UTF-8

Bytes are read from left to right, each time as many as form a character. Where none is formed, the
longest start of one that is there counts as a single fault, and a byte that starts none as a fault
of its own.
-/

namespace Rebalancer.Text

/-- What the first byte of a character of several bytes tells: its share of the value, how many
bytes follow, and the range of the next of them. -/
structure Lead where
  bits : Nat
  more : Nat
  low : Nat := 0x80
  high : Nat := 0xBF
deriving DecidableEq, Repr

/-- Reads the first byte of a character of several bytes. The range of the next byte leaves out
values that have a shorter form, surrogates, and what is beyond the last code point. -/
def lead? (b : Nat) : Option Lead :=
  if b < 0xC2 then none
  else if b < 0xE0 then some { bits := b - 0xC0, more := 1 }
  else if b = 0xE0 then some { bits := 0, more := 2, low := 0xA0 }
  else if b = 0xED then some { bits := 0xD, more := 2, high := 0x9F }
  else if b < 0xF0 then some { bits := b - 0xE0, more := 2 }
  else if b = 0xF0 then some { bits := 0, more := 3, low := 0x90 }
  else if b < 0xF4 then some { bits := b - 0xF0, more := 3 }
  else if b = 0xF4 then some { bits := 4, more := 3, high := 0x8F }
  else none

/-- Reads `more` bytes that follow the first, the next of them from `low` to `high`. Gives the value
of the character, unless a byte is missing, and the bytes after what was read. -/
def following (value : Nat) : Nat → Nat → Nat → List UInt8 → Option Nat × List UInt8
  | 0, _, _, rest => (some value, rest)
  | _ + 1, _, _, [] => (none, [])
  | more + 1, low, high, b :: rest =>
    if low ≤ b.toNat ∧ b.toNat ≤ high then
      following (value * 64 + (b.toNat - 0x80)) more 0x80 0xBF rest
    else (none, b :: rest)

/-- Reads the character that `b` begins, or a fault. -/
def character (b : UInt8) (rest : List UInt8) : Option Char × List UInt8 :=
  if b < 0x80 then (some (Char.ofNat b.toNat), rest)
  else
    match lead? b.toNat with
    | none => (none, rest)
    | some lead =>
      let (value, rest) := following lead.bits lead.more lead.low lead.high rest
      (value.map Char.ofNat, rest)

theorem length_following_le (value more low high : Nat) (bytes : List UInt8) :
    (following value more low high bytes).2.length ≤ bytes.length := by
  induction more generalizing value low high bytes with
  | zero => simp [following]
  | succ more ih =>
    cases bytes with
    | nil => simp [following]
    | cons b rest =>
      simp only [following]
      split
      · exact Nat.le_trans (ih ..) (Nat.le_succ _)
      · exact Nat.le_refl _

theorem length_character_le (b : UInt8) (rest : List UInt8) :
    (character b rest).2.length ≤ rest.length := by
  unfold character
  split
  · exact Nat.le_refl _
  · split
    · exact Nat.le_refl _
    · exact length_following_le ..

/-- The characters that bytes write, with `none` for each fault. -/
def characters : List UInt8 → List (Option Char)
  | [] => []
  | b :: rest => (character b rest).1 :: characters (character b rest).2
termination_by bytes => bytes.length
decreasing_by exact Nat.lt_succ_of_le (length_character_le b rest)

/-- The text that bytes write, if they are without fault. -/
def utf8? (bytes : List UInt8) : Option String :=
  ((characters bytes).mapM id).map String.ofList

/-- The text that bytes write, with the replacement character for each fault. -/
def utf8Lossy (bytes : List UInt8) : String :=
  String.ofList ((characters bytes).map (·.getD '\uFFFD'))

end Rebalancer.Text
