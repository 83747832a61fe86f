import Rebalancer.Toml.Text
import Rebalancer.Toml.Value

set_option autoImplicit false

/-! # Reading TOML: values and documents

A document is read line by line. A header opens a table, and a key adds a field to the table that
was opened last.
-/

namespace Rebalancer.Toml

/-! ## Values -/

/-- Reads a value that holds no others. -/
def simple? (s : List Char) : Option (Toml × List Char) :=
  match s with
  | '"' :: _ | '\'' :: _ => (string? s).map fun r => (.text (String.ofList r.1), r.2)
  | 't' :: 'r' :: 'u' :: 'e' :: rest => some (.scalar, rest)
  | 'f' :: 'a' :: 'l' :: 's' :: 'e' :: rest => some (.scalar, rest)
  | '0' :: 'x' :: rest => (based? 16 rest).map fun r => (.integer r.1, r.2)
  | '0' :: 'o' :: rest => (based? 8 rest).map fun r => (.integer r.1, r.2)
  | '0' :: 'b' :: rest => (based? 2 rest).map fun r => (.integer r.1, r.2)
  | _ =>
    match moment? s with
    | some rest => some (.moment, rest)
    | none => (decimal? s).map fun r => ((r.1.map Toml.integer).getD .scalar, r.2)

/-- Drops blanks, lines and comments. -/
def skipAll (s : List Char) : List Char := skipLines (s.length + 1) s

/-- Reads the items of an array after the opening bracket. A comma may follow the last. -/
def items? (value : List Char → Option (Toml × List Char)) :
    Nat → List Char → Option (List Toml × List Char)
  | 0, _ => none
  | fuel + 1, s =>
    match skipAll s with
    | ']' :: rest => some ([], rest)
    | s => do
      let (v, rest) ← value s
      match skipAll rest with
      | ']' :: rest => return ([v], rest)
      | ',' :: rest =>
        let (vs, rest) ← items? value fuel rest
        return (v :: vs, rest)
      | _ => none

/-- Reads a key and its value. -/
def pair? (value : List Char → Option (Toml × List Char)) (s : List Char) :
    Option (((List String × String) × Toml) × List Char) := do
  let (key, rest) ← key? maxDepth s
  let (v, rest) ← value (skipSpace (← drop? '=' rest))
  return ((key, v), rest)

/-- Reads the fields of a table after the opening brace and at least one field, into the fields
before them. No comma follows the last. -/
def fields? (value : List Char → Option (Toml × List Char)) :
    Nat → Fields → List Char → Option (Fields × List Char)
  | 0, _, _ => none
  | fuel + 1, fields, s => do
    let (((path, name), v), rest) ← pair? value s
    let fields ← fields.addDotted? name v path
    match skipSpace rest with
    | '}' :: rest => return (fields, rest)
    | ',' :: rest => fields? value fuel fields rest
    | _ => none

/-- Reads a value, with arrays and tables nested up to a depth. -/
def value? : Nat → List Char → Option (Toml × List Char)
  | depth + 1, '[' :: rest =>
    (items? (value? depth) (rest.length + 1) rest).map fun r => (.array r.1, r.2)
  | depth + 1, '{' :: rest =>
    match skipSpace rest with
    | '}' :: rest => some (.table .inline [], rest)
    | s => (fields? (value? depth) (s.length + 1) [] s).map fun r => (.table .inline r.1, r.2)
  | _, s => simple? s

/-! ## Documents -/

/-- What has been read of a document, and the path of the table that was opened last. -/
structure Document where
  fields : Fields := []
  path : List String := []

namespace Document

/-- Reads a header after the opening bracket. -/
def header? (d : Document) (s : List Char) : Option (Document × List Char) := do
  let ((path, name), rest) ← key? maxDepth s
  let fields ← d.fields.underHeader (Fields.open? name) path
  return (⟨fields, path ++ [name]⟩, ← lineEnd? (← drop? ']' rest))

/-- Reads a header after the opening double bracket. -/
def nextHeader? (d : Document) (s : List Char) : Option (Document × List Char) := do
  let ((path, name), rest) ← key? maxDepth s
  let fields ← d.fields.underHeader (Fields.openNext? name) path
  return (⟨fields, path ++ [name]⟩, ← lineEnd? (← drop? ']' (← drop? ']' rest)))

/-- Reads a key and its value. -/
def field? (d : Document) (s : List Char) : Option (Document × List Char) := do
  let (((path, name), v), rest) ← pair? (value? maxDepth) s
  let fields ← d.fields.underHeader (Fields.addDotted? name v path) d.path
  return ({ d with fields := fields }, ← lineEnd? rest)

/-- Reads all lines. -/
def lines? : Nat → Document → List Char → Option Document
  | 0, _, _ => none
  | fuel + 1, d, s =>
    match skipSpace s with
    | [] => some d
    | '#' :: rest => do lines? fuel d (← lineEnd? ('#' :: rest))
    | '\n' :: rest => lines? fuel d rest
    | '\r' :: rest => do lines? fuel d (← newline? ('\r' :: rest))
    | '[' :: '[' :: rest => do
      let (d, rest) ← d.nextHeader? rest
      lines? fuel d rest
    | '[' :: rest => do
      let (d, rest) ← d.header? rest
      lines? fuel d rest
    | s => do
      let (d, rest) ← d.field? s
      lines? fuel d rest

end Document

/-- The fields of a document, which may start with a byte order mark. -/
def parse? (text : String) : Option Fields :=
  let s := match text.toList with
    | '\ufeff' :: rest => rest
    | s => s
  (Document.lines? (s.length + 1) {} s).map (·.fields)

end Rebalancer.Toml
