import Rebalancer.Dialogue
import Rebalancer.Half
import Rebalancer.Json.Value
import Rebalancer.Route

set_option autoImplicit false

/-! # The node

What is asked of the Lightning node, and what it answers. A payment is made in four steps: an
invoice of our own, the sending of the payment, the wait for its end, and, if the wait was in
vain, the removal of the invoice.
-/

namespace Rebalancer

/-- An error that the node answers with. -/
structure RpcError where
  code : Int
  message : String
  data : Option Json
deriving Repr

/-- The written form of an error. -/
def RpcError.text (e : RpcError) : String := s!"{e.code}:{e.message}"

/-! ## Payment failures -/

/-- The code of a wait that ended before the payment did. -/
def waitTimeoutCode : Int := 200

/-- The codes of failures that another route may avoid: the first half that refused is known, or
its reply could not be read. -/
def temporaryCodes : List Int := [204, 202]

/-- The failure of a payment, with the half that refused it as far as that is known. -/
structure PaymentFailure where
  code : Int
  message : String
  codeName : Option String := none
  erringNode : Option String := none
  erringChannel : Option String := none
  erringDirection : Option UInt8 := none
deriving DecidableEq, Repr

namespace PaymentFailure

/-- The failure that an error tells of. -/
def ofRpcError (e : RpcError) : PaymentFailure :=
  let text (name : String) := (e.data.bind (·.get? name)).bind Json.text?
  { code := e.code
    message := e.message
    codeName := text "failcodename"
    erringNode := text "erring_node"
    erringChannel := text "erring_channel"
    erringDirection :=
      ((e.data.bind (·.get? "erring_direction")).bind Json.word?).map (·.toUInt8) }

/-- Whether another route may succeed. -/
def isTemporary (f : PaymentFailure) : Bool := temporaryCodes.contains f.code

/-- The failure in words. -/
def reason (f : PaymentFailure) : String :=
  match f.codeName, f.erringChannel with
  | some name, some scid => s!"{name} at {scid}"
  | some name, none => name
  | none, _ => f.message

end PaymentFailure

/-! ## Questions and answers -/

/-- Who the local node is. -/
structure NodeInfo where
  id : String
  nickname : String := ""
deriving DecidableEq, Repr

/-- An invoice of our own. -/
structure Invoice where
  hash : String
  secret : String
deriving DecidableEq, Repr

/-- How a payment ended that was waited for. -/
inductive PaymentOutcome
  /-- It settled: what was delivered and what was sent. -/
  | complete (amount sent : Msat)
  | failed (failure : PaymentFailure)
  /-- The wait ended first. -/
  | timedOut
deriving DecidableEq, Repr

/-- How the removal of an unpaid invoice ended. -/
inductive InvoiceRemoval
  /-- It is gone; a late payment is refused. -/
  | deleted
  /-- It was paid before. -/
  | alreadyPaid
deriving DecidableEq, Repr

/-- Why a call gave no answer. -/
inductive CallError
  /-- The node refused the call. -/
  | refused (call : String) (error : RpcError)
  /-- No answer could be read, so the node may or may not have carried out the call. -/
  | lost (reason : String)
deriving Repr

/-- The error in words. -/
def CallError.message : CallError → String
  | refused call error => s!"{call}: {error.text}"
  | lost reason => reason

/-- The answer to a call. -/
abbrev Reply := Except CallError

/-- What the rebalancer asks of the world: calls to the node, the time, a random word, and a
stopwatch in milliseconds. -/
inductive Query
  | info
  | gossip
  | nodes
  | channels
  | createInvoice (amount : Msat) (label description : String)
  | sendPay (route : List PaymentHop) (hash secret : String)
  | waitPay (hash : String) (seconds : UInt64)
  | deleteInvoice (label : String)
  | clock
  | random
  | stopwatch
deriving DecidableEq, Repr

/-- The answer to each question. -/
abbrev Query.Answer : Query → Type
  | info => Reply NodeInfo
  | gossip => Reply (List Announcement)
  | nodes => Reply (List NodeAnnouncement)
  | channels => Reply (List OwnChannel)
  | createInvoice .. => Reply Invoice
  | sendPay .. => Reply Unit
  | waitPay .. => Reply PaymentOutcome
  | deleteInvoice .. => Reply InvoiceRemoval
  | clock => Time
  | random => UInt64
  | stopwatch => UInt64

/-- The world as the rebalancer sees it. -/
abbrev Query.interface : Interface := ⟨Query, Query.Answer⟩

/-- A computation that talks to the node. -/
abbrev NodeDialogue := Dialogue Query.interface

/-- Asks one question of the node. -/
def Query.ask (q : Query) : NodeDialogue q.Answer := @Dialogue.question Query.interface q

end Rebalancer
