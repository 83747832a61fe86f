import Rebalancer.Double
import Rebalancer.Text.Numeral
import Rebalancer.Word

set_option autoImplicit false

/-! # Reading TOML: strings, keys and scalars

Every reader gives what it has read and the characters after it. Strings stand between double
quotes, with escapes, or between single quotes, without; three quotes enclose several lines.
-/

namespace Rebalancer.Toml

open Text

/-! ## Blanks -/

/-- Whether `c` is a blank within a line. -/
def isSpace (c : Char) : Bool := c == ' ' || c == '\t'

/-- Drops the blanks of a line. -/
def skipSpace (s : List Char) : List Char := s.dropWhile isSpace

/-- Whether `c` may stand in a line: no control character but the tab. -/
def isPlain (c : Char) : Bool := c == '\t' || (0x20 ≤ c.toNat && c.toNat != 0x7F)

/-- Drops the end of a line. -/
def newline? : List Char → Option (List Char)
  | '\n' :: rest => some rest
  | '\r' :: '\n' :: rest => some rest
  | _ => none

/-- Drops a comment, if there is one, up to the end of its line. -/
def skipComment (s : List Char) : List Char :=
  match s with
  | '#' :: rest => rest.dropWhile isPlain
  | _ => s

/-- Drops what may stand at the end of a line, and the end of the line. -/
def lineEnd? (s : List Char) : Option (List Char) :=
  match skipComment (skipSpace s) with
  | [] => some []
  | rest => newline? rest

/-- Drops blanks, ends of lines, and comments that end with their line. -/
def skipLines : Nat → List Char → List Char
  | 0, s => s
  | fuel + 1, s =>
    let s := skipSpace s
    match newline? s with
    | some rest => skipLines fuel rest
    | none =>
      match s with
      | '#' :: _ =>
        match newline? (skipComment s) with
        | some rest => skipLines fuel rest
        | none => s
      | _ => s

/-! ## Strings -/

/-- Reads `count` hexadecimal digits. -/
def hex? : Nat → Nat → List Char → Option (Nat × List Char)
  | 0, n, s => some (n, s)
  | count + 1, n, c :: rest => do hex? count (16 * n + (← hexValue? c)) rest
  | _ + 1, _, [] => none

/-- The character of a number, unless that is a surrogate or out of range. -/
def scalar? (n : Nat) : Option Char := if n.isValidChar then some (Char.ofNat n) else none

/-- Reads what follows a backslash. -/
def escape? : List Char → Option (Char × List Char)
  | 'b' :: rest => some ('\x08', rest)
  | 't' :: rest => some ('\t', rest)
  | 'n' :: rest => some ('\n', rest)
  | 'f' :: rest => some ('\x0c', rest)
  | 'r' :: rest => some ('\r', rest)
  | '"' :: rest => some ('"', rest)
  | '\\' :: rest => some ('\\', rest)
  | 'u' :: rest => do
    let (n, rest) ← hex? 4 0 rest
    return (← scalar? n, rest)
  | 'U' :: rest => do
    let (n, rest) ← hex? 8 0 rest
    return (← scalar? n, rest)
  | _ => none

/-- Puts a character before what is read after it. -/
def prepend (c : Char) (r : Option (List Char × List Char)) : Option (List Char × List Char) :=
  r.map fun p => (c :: p.1, p.2)

/-- Reads a string up to its double quote. -/
def basic? : Nat → List Char → Option (List Char × List Char)
  | fuel + 1, c :: rest =>
    if c == '"' then some ([], rest)
    else if c == '\\' then do
      let (c, rest) ← escape? rest
      prepend c (basic? fuel rest)
    else if isPlain c then prepend c (basic? fuel rest)
    else none
  | _, _ => none

/-- Reads a string up to its single quote. -/
def literal? : List Char → Option (List Char × List Char)
  | [] => none
  | c :: rest =>
    if c == '\'' then some ([], rest)
    else if isPlain c then prepend c (literal? rest)
    else none

/-- Reads up to three quotes that close a string of several lines. One or two quotes before them
belong to the string. -/
def closing? (quote : Char) (s : List Char) : Option (List Char × List Char) :=
  let n := (s.takeWhile (· == quote)).length
  if n < 3 then none
  else
    let extra := min (n - 3) 2
    some (List.replicate extra quote, s.drop (extra + 3))

/-- Drops blanks and ends of lines. -/
def skipBlank : List Char → List Char
  | '\r' :: '\n' :: rest => skipBlank rest
  | c :: rest => if isSpace c || c == '\n' then skipBlank rest else c :: rest
  | [] => []

/-- Reads a string of several lines, in double quotes if `quote` is the double quote. A backslash
at the end of a line drops the blanks and ends of lines that follow. -/
def lines? (quote : Char) : Nat → List Char → Option (List Char × List Char)
  | 0, _ => none
  | fuel + 1, s =>
    match closing? quote s, newline? s, s with
    | some r, _, _ => some r
    | none, some rest, _ => prepend '\n' (lines? quote fuel rest)
    | none, none, c :: rest =>
      if c == '\\' && quote == '"' then
        match newline? (skipSpace rest) with
        | some rest =>
          lines? quote fuel (skipBlank rest)
        | none => do
          let (c, rest) ← escape? rest
          prepend c (lines? quote fuel rest)
      else if isPlain c then prepend c (lines? quote fuel rest)
      else none
    | none, none, [] => none

/-- Drops one end of a line, if there is one. -/
def skipNewline (s : List Char) : List Char := (newline? s).getD s

/-- Reads a string of one line. -/
def line? : List Char → Option (List Char × List Char)
  | '"' :: rest => basic? rest.length rest
  | '\'' :: rest => literal? rest
  | _ => none

/-- Reads a string. -/
def string? (s : List Char) : Option (List Char × List Char) :=
  match s with
  | '"' :: '"' :: '"' :: rest => lines? '"' (rest.length + 1) (skipNewline rest)
  | '\'' :: '\'' :: '\'' :: rest => lines? '\'' (rest.length + 1) (skipNewline rest)
  | _ => line? s

/-! ## Keys -/

/-- Whether `c` may stand in a key without quotes. -/
def isBare (c : Char) : Bool := c.isAlphanum || c == '-' || c == '_'

/-- Reads a key without dots, with the blanks on both sides. -/
def simpleKey? (s : List Char) : Option (String × List Char) :=
  let s := skipSpace s
  match s.span isBare, s with
  | ([], _), '"' :: _ | ([], _), '\'' :: _ =>
    (line? s).map fun r => (String.ofList r.1, skipSpace r.2)
  | ([], _), _ => none
  | (name, rest), _ => some (String.ofList name, skipSpace rest)

/-- How many parts a key may have, and how deep values may be nested. -/
def maxDepth : Nat := 79

/-- Reads a key with dots: the parts before the last one, and that. -/
def key? : Nat → List Char → Option ((List String × String) × List Char)
  | 0, _ => none
  | fuel + 1, s => do
    let (name, rest) ← simpleKey? s
    match rest with
    | '.' :: rest =>
      let ((path, last), rest) ← key? fuel rest
      return ((name :: path, last), rest)
    | _ => return (([], name), rest)

/-! ## Numbers -/

/-- Reads digits of a class, between which single underscores may stand. -/
def grouped? (isDigitOf : Char → Bool) : Nat → List Char → Option (List Char × List Char)
  | fuel + 1, c :: rest =>
    if !isDigitOf c then none
    else match rest with
      | '_' :: more => prepend c (grouped? isDigitOf fuel more)
      | d :: _ => if isDigitOf d then prepend c (grouped? isDigitOf fuel rest) else some ([c], rest)
      | [] => some ([c], [])
  | _, _ => none

/-- Reads a number to a base after its mark. It has no sign and fits a signed word. -/
def based? (base : Nat) (s : List Char) : Option (Int × List Char) := do
  let isDigitOf (c : Char) : Bool := (hexValue? c).any (· < base)
  let (ds, rest) ← grouped? isDigitOf (s.length + 1) s
  let n := valueOf base ds
  if (n : Int) ≤ maxSigned then return (n, rest) else none

/-- Drops a sign, if there is one, and tells whether it was a minus. -/
def sign (s : List Char) : Bool × List Char :=
  match s with
  | '-' :: rest => (true, rest)
  | '+' :: rest => (false, rest)
  | _ => (false, s)

/-- Reads the digits of a whole number, which has no needless leading zero. -/
def whole? (s : List Char) : Option (List Char × List Char) :=
  match s with
  | '0' :: '_' :: _ => none
  | '0' :: rest => some (['0'], rest)
  | _ => grouped? isDigit (s.length + 1) s

/-- Reads a fraction, if there is one. -/
def fraction? (s : List Char) : Option (List Char × List Char) :=
  match s with
  | '.' :: rest => grouped? isDigit (rest.length + 1) rest
  | _ => some ([], s)

/-- Reads an exponent, if there is one. -/
def exponent? (s : List Char) : Option (Option Int × List Char) :=
  match s with
  | e :: rest =>
    if e == 'e' || e == 'E' then do
      let (negative, rest) := sign rest
      let (ds, rest) ← grouped? isDigit (rest.length + 1) rest
      let n : Int := decimalValue ds
      return (some (if negative then -n else n), rest)
    else some (none, s)
  | [] => some (none, s)

/-- Reads a decimal number: an integer that fits a signed word, or `none` for one with fraction or
exponent. A positive number must be in the range of double precision. -/
def decimal? (s : List Char) : Option (Option Int × List Char) := do
  let (negative, rest) := sign s
  match rest with
  | 'i' :: 'n' :: 'f' :: rest => return (none, rest)
  | 'n' :: 'a' :: 'n' :: rest => return (none, rest)
  | _ =>
    let (ws, rest) ← whole? rest
    let (fs, rest) ← fraction? rest
    let (e, rest) ← exponent? rest
    if fs.isEmpty && e.isNone then
      let n : Int := if negative then -(decimalValue ws : Int) else decimalValue ws
      if minSigned ≤ n && n ≤ maxSigned then return (some n, rest) else none
    else if !negative && exceedsDouble (decimalValue (ws ++ fs)) (e.getD 0 - fs.length) then none
    else return (none, rest)

/-! ## Dates and times -/

/-- Reads `count` digits whose value lies between two bounds. -/
def digits? (count least greatest : Nat) (s : List Char) : Option (Nat × List Char) :=
  let ds := s.take count
  let n := decimalValue ds
  if ds.length = count && ds.all isDigit && least ≤ n && n ≤ greatest then some (n, s.drop count)
  else none

/-- Drops a character that must come next. -/
def drop? (c : Char) : List Char → Option (List Char)
  | [] => none
  | d :: rest => if c == d then some rest else none

/-- The number of days of a month. -/
def monthDays (year month : Nat) : Nat :=
  if month = 2 then
    if year % 4 = 0 && (year % 100 != 0 || year % 400 = 0) then 29 else 28
  else if month = 4 || month = 6 || month = 9 || month = 11 then 30
  else 31

/-- Drops a date. -/
def date? (s : List Char) : Option (List Char) := do
  let (year, s) ← digits? 4 0 9999 s
  let (month, s) ← digits? 2 1 12 (← drop? '-' s)
  let (_, s) ← digits? 2 1 (monthDays year month) (← drop? '-' s)
  return s

/-- Drops a time of day. -/
def time? (s : List Char) : Option (List Char) := do
  let (_, s) ← digits? 2 0 23 s
  let (_, s) ← digits? 2 0 59 (← drop? ':' s)
  let (_, s) ← digits? 2 0 60 (← drop? ':' s)
  match s with
  | '.' :: rest => match rest.span isDigit with
    | ([], _) => none
    | (_, rest) => return rest
  | _ => return s

/-- Drops the offset of a time zone, if there is one. -/
def offset? (s : List Char) : Option (List Char) :=
  match s with
  | 'Z' :: rest | 'z' :: rest => some rest
  | '+' :: rest | '-' :: rest => do
    let (_, rest) ← digits? 2 0 23 rest
    let (_, rest) ← digits? 2 0 59 (← drop? ':' rest)
    return rest
  | _ => some s

/-- Drops the time after a date, if there is one. -/
def timeOfDate? (s : List Char) : Option (List Char) :=
  match s with
  | c :: rest =>
    if c == 'T' || c == 't' || c == ' ' then
      match time? rest with
      | some rest => offset? rest
      | none => some s
    else some s
  | [] => some s

/-- Drops a date, a time, or both. -/
def moment? (s : List Char) : Option (List Char) :=
  match date? s with
  | some rest => timeOfDate? rest
  | none => time? s

end Rebalancer.Toml
