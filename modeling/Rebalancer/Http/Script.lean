import Rebalancer.Http

set_option autoImplicit false

/-! # A network that follows a script

For rehearsing an exchange without a network. Replies are taken from queues, and time passes in
pauses only.
-/

namespace Rebalancer.Http

/-- What a network answers. -/
structure Script where
  /-- The replies to each method. A method is the last part of an address. -/
  replies : List (String × List Reply)
  /-- Whether the last reply of a queue stays there. -/
  repeating : Bool
  /-- The time at the start. -/
  start : Time
  next : UInt64
  /-- The milliseconds that have passed. -/
  elapsed : Nat := 0
  /-- The documents that were posted, in order. -/
  posts : List Post := []

namespace Script

/-- The method that an address names. -/
def methodOf (url : String) : String :=
  String.ofList (url.toList.reverse.takeWhile (· != '/')).reverse

/-- What is left of a queue when a reply was taken from it. -/
def rest (s : Script) : List Reply → List Reply
  | [] => []
  | [last] => if s.repeating then [last] else []
  | _ :: replies => replies

/-- Takes the next reply to a document. -/
def reply (s : Script) (p : Post) : Reply × Script :=
  let method := methodOf p.url
  let queue := (s.replies.lookup method).getD []
  (queue.headD (.lost "no scripted reply"),
    { s with
      posts := s.posts ++ [p]
      replies := s.replies.map fun e => if e.1 == method then (method, s.rest queue) else e })

/-- The answer to a question, and the script after it. -/
def answered (s : Script) : (q : Question) → q.Answer × Script
  | .post p => s.reply p
  | .pause ms => ((), { s with elapsed := s.elapsed + ms })
  | .clock => (s.start + (s.elapsed / 1000 : Nat), s)
  | .random => (s.next, { s with next := s.next + 1 })
  | .stopwatch => (UInt64.ofNat s.elapsed, s)

/-- Answers a question. -/
def answer (q : Question) : StateM Script q.Answer := fun s => s.answered q

/-- Holds an exchange with the scripted network, with no result if it breaks off. -/
def run {α : Type} (d : Exchange α) (s : Script) : Option α × Script :=
  (Dialogue.run answer d).run s

end Script

end Rebalancer.Http
