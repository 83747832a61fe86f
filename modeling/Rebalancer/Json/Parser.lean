import Rebalancer.Json.Number
import Rebalancer.Json.Value
import Rebalancer.Text.Numeral
import Rebalancer.Text.Utf8

set_option autoImplicit false

/-! # Reading JSON

A text is read in full or not at all. Every reader gives what it has read and the characters after
it. What follows the grammar without naming a value is read as vague.

Bytes that are no UTF-8 may stand within strings. They are handed over as the NUL character. A NUL
that stands in the text itself is handed over as another control character, because no control
character is admitted anywhere.
-/

namespace Rebalancer.Json

namespace Reading

open Text

/-- Drops the white space that may stand between tokens. -/
def skipSpace (s : List Char) : List Char :=
  s.dropWhile fun c => c == ' ' || c == '\t' || c == '\n' || c == '\r'

/-! ## Strings -/

/-- The value of the first four characters as hexadecimal digits. -/
def hexFour? : List Char → Option (Nat × List Char)
  | a :: b :: c :: d :: rest => do
    let high := (← hexValue? a) * 16 + (← hexValue? b)
    let low := (← hexValue? c) * 16 + (← hexValue? d)
    return (high * 256 + low, rest)
  | _ => none

/-- Whether `n` is the first half of a surrogate pair. -/
def isLead (n : Nat) : Bool := 0xD800 ≤ n && n ≤ 0xDBFF

/-- Whether `n` is the second half of a surrogate pair. -/
def isTrail (n : Nat) : Bool := 0xDC00 ≤ n && n ≤ 0xDFFF

/-- The character that a surrogate pair stands for. -/
def ofPair (lead trail : Nat) : Char :=
  Char.ofNat (0x10000 + (lead - 0xD800) * 0x400 + (trail - 0xDC00))

/-- Reads what follows the `u` of an escape: a character, or half a surrogate pair alone. -/
def unicodeEscape? (s : List Char) : Option (Option Char × List Char) := do
  let (n, rest) ← hexFour? s
  if isTrail n then return (none, rest)
  else if isLead n then
    match rest with
    | '\\' :: 'u' :: after =>
      match hexFour? after with
      | some (m, after) => if isTrail m then return (ofPair n m, after) else return (none, rest)
      | none => return (none, rest)
    | _ => return (none, rest)
  else return (Char.ofNat n, rest)

/-- Reads what follows a backslash. -/
def escape? : List Char → Option (Option Char × List Char)
  | '"' :: rest => some ('"', rest)
  | '\\' :: rest => some ('\\', rest)
  | '/' :: rest => some ('/', rest)
  | 'b' :: rest => some ('\x08', rest)
  | 'f' :: rest => some ('\x0c', rest)
  | 'n' :: rest => some ('\n', rest)
  | 'r' :: rest => some ('\r', rest)
  | 't' :: rest => some ('\t', rest)
  | 'u' :: rest => unicodeEscape? rest
  | _ => none

/-- The character that stands for bytes that are no UTF-8. -/
def faultMark : Char := '\x00'

/-- Reads a string up to its closing quote. What is no character is read as `none`. -/
def stringRest? : Nat → List Char → Option (List (Option Char) × List Char)
  | fuel + 1, c :: rest =>
    if c == '"' then some ([], rest)
    else if c == '\\' then do
      let (c, rest) ← escape? rest
      let (cs, rest) ← stringRest? fuel rest
      return (c :: cs, rest)
    else if c == faultMark then do
      let (cs, rest) ← stringRest? fuel rest
      return (none :: cs, rest)
    else if c.toNat < 0x20 then none
    else do
      let (cs, rest) ← stringRest? fuel rest
      return (some c :: cs, rest)
  | _, _ => none

/-- Reads a string after its opening quote. There is no text if it is vague. -/
def string? (s : List Char) : Option (Option String × List Char) :=
  (stringRest? s.length s).map fun r => ((r.1.mapM id).map String.ofList, r.2)

/-! ## Numbers -/

/-- Reads the digits of a whole number, which has no needless leading zero. -/
def whole? (s : List Char) : Option (List Char × List Char) :=
  match s with
  | '0' :: rest => some (['0'], rest)
  | _ => match s.span isDigit with
    | ([], _) => none
    | r => some r

/-- Reads a fraction, if there is one. -/
def fraction? (s : List Char) : Option (List Char × List Char) :=
  match s with
  | '.' :: rest => match rest.span isDigit with
    | ([], _) => none
    | r => some r
  | _ => some ([], s)

/-- Reads an exponent, if there is one. -/
def exponent? (s : List Char) : Option (Option Int × List Char) :=
  match s with
  | e :: rest =>
    if e == 'e' || e == 'E' then
      let (negative, rest) := match rest with
        | '+' :: rest => (false, rest)
        | '-' :: rest => (true, rest)
        | _ => (false, rest)
      match rest.span isDigit with
      | ([], _) => none
      | (ds, rest) =>
        let n : Int := decimalValue ds
        some (some (if negative then -n else n), rest)
    else some (none, s)
  | [] => some (none, s)

/-- Reads a number. One without fraction and exponent that 64 bits hold is an integer, except that
`-0` is none. -/
def number? (s : List Char) : Option (Json × List Char) := do
  let (negative, body) := match s with
    | '-' :: rest => (true, rest)
    | _ => (false, s)
  let (ws, rest) ← whole? body
  let (fs, rest) ← fraction? rest
  let (e, rest) ← exponent? rest
  let n := decimalValue ws
  if fs.isEmpty && e.isNone && !negative && n ≤ maxWord then return (int n, rest)
  else if fs.isEmpty && e.isNone && negative && 0 < n && minSigned ≤ -(n : Int) then
    return (int (-n), rest)
  else
    match double? ws fs (e.getD 0) with
    | none => return (vague, rest)
    | some d => return (real ((if negative then "-" else "") ++ d.text), rest)

/-! ## Values -/

/-- Reads the items of an array after the opening bracket and one item, with `item` reading a
further one. -/
def itemsRest? (item : List Char → Option (Json × List Char)) :
    Nat → List Char → Option (List Json × List Char)
  | 0, _ => none
  | fuel + 1, s =>
    match skipSpace s with
    | ']' :: rest => some ([], rest)
    | ',' :: rest => do
      let (j, rest) ← item (skipSpace rest)
      let (js, rest) ← itemsRest? item fuel rest
      return (j :: js, rest)
    | _ => none

/-- Reads the items of an array after the opening bracket. -/
def items? (item : List Char → Option (Json × List Char)) (s : List Char) :
    Option (List Json × List Char) :=
  match skipSpace s with
  | ']' :: rest => some ([], rest)
  | s => do
    let (j, rest) ← item s
    let (js, rest) ← itemsRest? item s.length rest
    return (j :: js, rest)

/-- A field, of which the name may be vague. -/
abbrev Field := Option String × Json

/-- Reads one field of an object, with `item` reading its value. -/
def field? (item : List Char → Option (Json × List Char)) (s : List Char) :
    Option (Field × List Char) :=
  match s with
  | '"' :: rest => do
    let (name, rest) ← string? rest
    match skipSpace rest with
    | ':' :: rest =>
      let (j, rest) ← item (skipSpace rest)
      return ((name, j), rest)
    | _ => none
  | _ => none

/-- Reads the fields of an object after the opening brace and one field. -/
def fieldsRest? (item : List Char → Option (Json × List Char)) :
    Nat → List Char → Option (List Field × List Char)
  | 0, _ => none
  | fuel + 1, s =>
    match skipSpace s with
    | '}' :: rest => some ([], rest)
    | ',' :: rest => do
      let (f, rest) ← field? item (skipSpace rest)
      let (fs, rest) ← fieldsRest? item fuel rest
      return (f :: fs, rest)
    | _ => none

/-- Reads the fields of an object after the opening brace. -/
def fields? (item : List Char → Option (Json × List Char)) (s : List Char) :
    Option (List Field × List Char) :=
  match skipSpace s with
  | '}' :: rest => some ([], rest)
  | s => do
    let (f, rest) ← field? item s
    let (fs, rest) ← fieldsRest? item s.length rest
    return (f :: fs, rest)

/-- The object of fields. -/
def ofFields (fields : List Field) : Json :=
  match fields.mapM fun f => f.1.map fun name => (name, f.2) with
  | some fields => obj fields
  | none => vague

/-- Reads what is neither array nor object. -/
def scalar? (s : List Char) : Option (Json × List Char) :=
  match s with
  | '"' :: rest => (string? rest).map fun r => ((r.1.map str).getD vague, r.2)
  | 'n' :: 'u' :: 'l' :: 'l' :: rest => some (null, rest)
  | 't' :: 'r' :: 'u' :: 'e' :: rest => some (bool true, rest)
  | 'f' :: 'a' :: 'l' :: 's' :: 'e' :: rest => some (bool false, rest)
  | _ => number? s

/-- Reads a value with arrays and objects nested up to `depth`. -/
def value? : Nat → List Char → Option (Json × List Char)
  | depth + 1, '[' :: rest => (items? (value? depth) rest).map fun r => (arr r.1, r.2)
  | depth + 1, '{' :: rest => (fields? (value? depth) rest).map fun r => (ofFields r.1, r.2)
  | _, s => scalar? s

/-- Reads a whole document. -/
def document? (s : List Char) : Option Json :=
  match value? s.length (skipSpace s) with
  | some (j, rest) => if (skipSpace rest).isEmpty then some j else none
  | none => none

/-- Characters as they are handed over. -/
def handOver : Option Char → Char
  | none => faultMark
  | some c => if c == faultMark then '\x01' else c

end Reading

/-- The value that a text writes, if it is sound. -/
def parse? (s : String) : Option Json :=
  (Reading.document? (s.toList.map fun c => Reading.handOver (some c))).bind (sound? 0)

/-- What bytes of UTF-8 write, where what is passed over need not be sound. -/
def readBytes? (bytes : List UInt8) : Option Json :=
  Reading.document? ((Text.characters bytes).map Reading.handOver)

end Rebalancer.Json
