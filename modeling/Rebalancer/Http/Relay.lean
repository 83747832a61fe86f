import Rebalancer.Http
import Rebalancer.Json.Printer
import Rebalancer.Json.Record
import Rebalancer.Report

set_option autoImplicit false

/-! # Documents and replies as lines

The program opens no connection of its own. A relay posts its documents, each handed over as a line
of JSON, and hands back each reply in the same form.
-/

namespace Rebalancer.Http

open Json

/-- A document that is to be posted. -/
def Post.toJson (p : Post) : Json :=
  obj [("url", str p.url), ("headers", arr [arr [str "Rune", str p.rune]]), ("body", p.body),
    ("timeout_ms", ofWord p.timeout)]

/-- The bytes of a text. -/
def bytesOf (s : String) : List UInt8 := s.toUTF8.toList

/-- Reads a body: a text stands for its bytes, and any other value for its written form. -/
def bodyOfJson : Json → List UInt8
  | str s => bytesOf s
  | j => bytesOf j.compact

/-- Reads a reply. What was lost has a reason but no status; what broke off has both; a body is
given as bytes or as a text. -/
def Reply.ofJson? (j : Json) : Option Reply := do
  match j.get? "transport" with
  | some reason => return lost (← reason.text?)
  | none =>
    let status := (← (← j.get? "status").integer? 0 65535).toNat
    match j.get? "broken", j.get? "bytes" with
    | some reason, _ => return broken status (← reason.text?)
    | none, some bytes => return full status (← list? byte? bytes)
    | none, none => return full status (bodyOfJson (← j.get? "body"))

end Rebalancer.Http
