import Rebalancer.Json.Value
import Rebalancer.Text.Numeral

set_option autoImplicit false

/-! # Writing JSON

Values are written without blanks, or with one item a line, two blanks for each level.
-/

namespace Rebalancer.Json

open Text

/-- A character as it stands in a string. -/
def escapeChar (c : Char) : List Char :=
  if c == '"' then ['\\', '"']
  else if c == '\\' then ['\\', '\\']
  else if c == '\x08' then ['\\', 'b']
  else if c == '\x0c' then ['\\', 'f']
  else if c == '\n' then ['\\', 'n']
  else if c == '\r' then ['\\', 'r']
  else if c == '\t' then ['\\', 't']
  else if c.toNat < 0x20 then '\\' :: 'u' :: hexDigits c.toNat 4
  else [c]

/-- A string between quotes. -/
def quote (s : String) : String := String.ofList ('"' :: s.toList.flatMap escapeChar ++ ['"'])

mutual

/-- A value without blanks. -/
def compact : Json → String
  | null => "null"
  | bool b => if b then "true" else "false"
  | int n => toString n
  | real text => text
  | vague => "null"
  | str s => quote s
  | arr items => "[" ++ String.intercalate "," (compactItems items) ++ "]"
  | obj fields => "\x7b" ++ String.intercalate "," (compactFields fields) ++ "\x7d"

/-- The items of an array. -/
def compactItems : List Json → List String
  | [] => []
  | j :: rest => compact j :: compactItems rest

/-- The fields of an object. -/
def compactFields : List (String × Json) → List String
  | [] => []
  | (name, j) :: rest => (quote name ++ ":" ++ compact j) :: compactFields rest

end

/-- The start of a line at a level. -/
def indent (level : Nat) : String := "\n" ++ String.ofList (List.replicate (2 * level) ' ')

/-- Items on lines of their own, between brackets. -/
def block (level : Nat) (opening closing : String) (items : List String) : String :=
  if items.isEmpty then opening ++ closing
  else
    opening ++ indent (level + 1) ++ String.intercalate ("," ++ indent (level + 1)) items ++
      indent level ++ closing

mutual

/-- A value with one item a line, at a level. -/
def prettyAt (level : Nat) : Json → String
  | arr items => block level "[" "]" (prettyItems (level + 1) items)
  | obj fields => block level "\x7b" "\x7d" (prettyFields (level + 1) fields)
  | j => compact j

/-- The items of an array. -/
def prettyItems (level : Nat) : List Json → List String
  | [] => []
  | j :: rest => prettyAt level j :: prettyItems level rest

/-- The fields of an object. -/
def prettyFields (level : Nat) : List (String × Json) → List String
  | [] => []
  | (name, j) :: rest => (quote name ++ ": " ++ prettyAt level j) :: prettyFields level rest

end

/-- A value with one item a line. -/
def pretty (j : Json) : String := prettyAt 0 j

/-- The escape of a number of 16 bits. -/
def unitEscape (n : Nat) : List Char := '\\' :: 'u' :: hexDigits n 4

/-- A character of a text in ASCII: any other is escaped, by a surrogate pair if need be. -/
def asciiChar (c : Char) : List Char :=
  let n := c.toNat
  if n < 0x80 then [c]
  else if n < 0x10000 then unitEscape n
  else
    unitEscape (0xD800 + (n - 0x10000) / 0x400) ++ unitEscape (0xDC00 + (n - 0x10000) % 0x400)

/-- A value without blanks, in ASCII. -/
def ascii (j : Json) : String := String.ofList (j.compact.toList.flatMap asciiChar)

end Rebalancer.Json
