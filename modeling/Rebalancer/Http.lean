import Rebalancer.Dialogue
import Rebalancer.Json.Value
import Rebalancer.Word

set_option autoImplicit false

/-! # HTTP

What is asked of the network: to post a document, and to wait. Besides, the time, a random word and
a stopwatch are asked for.
-/

namespace Rebalancer.Http

/-- A document to be posted, with the token that admits the sender. -/
structure Post where
  url : String
  rune : String
  body : Json
  /-- How many milliseconds the answer may take. -/
  timeout : UInt64
deriving Repr

/-- What became of a posted document. -/
inductive Reply
  /-- No answer came. -/
  | lost (reason : String)
  /-- The answer broke off after its status. -/
  | broken (status : Nat) (reason : String)
  | full (status : Nat) (body : List UInt8)
deriving DecidableEq, Repr

/-- What is asked of the world. -/
inductive Question
  | post (p : Post)
  /-- To let so many milliseconds pass. -/
  | pause (ms : Nat)
  | clock
  | random
  | stopwatch

/-- The answer to each question. -/
abbrev Question.Answer : Question → Type
  | post _ => Reply
  | pause _ => Unit
  | clock => Time
  | random => UInt64
  | stopwatch => UInt64

/-- The world as a client of HTTP sees it. -/
abbrev interface : Interface := ⟨Question, Question.Answer⟩

/-- A computation that talks over HTTP. -/
abbrev Exchange := Dialogue interface

/-- Asks one question. -/
def Question.ask (q : Question) : Exchange q.Answer := @Dialogue.question interface q

/-! ## Status codes -/

/-- Whether a status tells of success. -/
def isSuccess (status : Nat) : Bool := 200 ≤ status && status < 300

/-- The status codes that have a phrase. -/
def phrases : List (Nat × String) :=
  [(100, "Continue"), (101, "Switching Protocols"), (102, "Processing"),
   (200, "OK"), (201, "Created"), (202, "Accepted"), (203, "Non Authoritative Information"),
   (204, "No Content"), (205, "Reset Content"), (206, "Partial Content"), (207, "Multi-Status"),
   (208, "Already Reported"), (226, "IM Used"),
   (300, "Multiple Choices"), (301, "Moved Permanently"), (302, "Found"), (303, "See Other"),
   (304, "Not Modified"), (305, "Use Proxy"), (307, "Temporary Redirect"),
   (308, "Permanent Redirect"),
   (400, "Bad Request"), (401, "Unauthorized"), (402, "Payment Required"), (403, "Forbidden"),
   (404, "Not Found"), (405, "Method Not Allowed"), (406, "Not Acceptable"),
   (407, "Proxy Authentication Required"), (408, "Request Timeout"), (409, "Conflict"),
   (410, "Gone"), (411, "Length Required"), (412, "Precondition Failed"),
   (413, "Payload Too Large"), (414, "URI Too Long"), (415, "Unsupported Media Type"),
   (416, "Range Not Satisfiable"), (417, "Expectation Failed"), (418, "I'm a teapot"),
   (421, "Misdirected Request"), (422, "Unprocessable Entity"), (423, "Locked"),
   (424, "Failed Dependency"), (426, "Upgrade Required"),
   (428, "Precondition Required"), (429, "Too Many Requests"),
   (431, "Request Header Fields Too Large"), (451, "Unavailable For Legal Reasons"),
   (500, "Internal Server Error"), (501, "Not Implemented"), (502, "Bad Gateway"),
   (503, "Service Unavailable"), (504, "Gateway Timeout"), (505, "HTTP Version Not Supported"),
   (506, "Variant Also Negotiates"), (507, "Insufficient Storage"), (508, "Loop Detected"),
   (510, "Not Extended"), (511, "Network Authentication Required")]

/-- A status in words. -/
def statusText (status : Nat) : String :=
  let phrase := (phrases.lookup status).getD "<unknown status code>"
  s!"{status} {phrase}"

end Rebalancer.Http
