import Rebalancer.Http
import Rebalancer.Json.Parser
import Rebalancer.Node.Decode
import Rebalancer.Report.Node
import Rebalancer.Settings
import Rebalancer.Text.Split
import Rebalancer.Text.Utf8

set_option autoImplicit false

/-! # The node over HTTP

Each call to the node is a document posted to the address of its method. What only reads is tried
again if the reply is lost, after a growing pause; what moves money is not, because a lost reply
does not tell whether the call was carried out.
-/

namespace Rebalancer

open Json

/-- How the node is reached. -/
structure Rest where
  /-- The start of every address, without a slash at its end. -/
  baseUrl : String
  rune : String
deriving DecidableEq, Repr

namespace Rest

/-- The node of the settings. -/
def ofSettings (s : ServerSettings) : Rest where
  baseUrl := String.ofList (s.baseUrl.toList.reverse.dropWhile (· == '/')).reverse
  rune := s.rune

/-- How often a read is tried. -/
def maxTries : Nat := 3

/-- The pause in milliseconds after the first lost reply. It doubles from one to the next. -/
def firstDelay : Nat := 1000

/-- The pause in milliseconds before each try of a read. -/
def spacing : Nat := 50

/-- How many milliseconds the answer to a call may take. -/
def callTimeout : UInt64 := 60000

/-- How many seconds the reply to a wait may take longer than the wait. -/
def waitMargin : Nat := 10

/-- How many seconds an invoice can be paid. -/
def invoiceExpiry : Nat := 600

/-- The code under which the node refuses to delete an invoice for its status. -/
def unexpectedStatusCode : Int := 905

/-! ## One call -/

/-- Why a call gave no value. -/
inductive Fault
  | refused (error : RpcError)
  | lost (reason : String)

/-- Reads the reply to a call of `method`. -/
def ofReply {α : Type} (method : String) (decode : Json → Option α) :
    Http.Reply → Except Fault α
  | .lost reason => .error (.lost reason)
  | .broken _ reason => .error (.lost reason)
  | .full status body =>
    if Http.isSuccess status then
      match (readBytes? body).bind decode with
      | some a => .ok a
      | none => .error (.lost s!"{method}: malformed response")
    else
      match (readBytes? body).bind RpcError.ofJson? with
      | some e => .error (.refused e)
      | none =>
        .error (.lost s!"{method}: HTTP {Http.statusText status}: {Text.utf8Lossy body}")

/-- Posts a call and reads the reply. -/
def call {α : Type} (c : Rest) (method : String) (params : Json) (timeout : UInt64)
    (decode : Json → Option α) : Http.Exchange (Except Fault α) := do
  let reply ← (Http.Question.post ⟨s!"{c.baseUrl}/v1/{method}", c.rune, params, timeout⟩).ask
  return ofReply method decode reply

/-- Tries a call up to `more` times after this one, as long as replies are lost. -/
def retry {α : Type} (name : String) (attempt : Http.Exchange (Except Fault α)) :
    Nat → Nat → Http.Exchange (Reply α)
  | delay, more => do
    (Http.Question.pause spacing).ask
    match ← attempt with
    | .ok a => return .ok a
    | .error (.refused e) => return .error (.refused name e)
    | .error (.lost reason) =>
      match more with
      | 0 => return .error (.lost s!"{name}: all {maxTries} attempts failed: {reason}")
      | more + 1 =>
        (Http.Question.pause delay).ask
        retry name attempt (2 * delay) more

/-- Tries a call as often as a read is tried. -/
def retried {α : Type} (name : String) (attempt : Http.Exchange (Except Fault α)) :
    Http.Exchange (Reply α) := retry name attempt firstDelay (maxTries - 1)

/-- A call without parameters that reads. -/
def get {α : Type} (c : Rest) (name method : String) (decode : Json → Option α) :
    Http.Exchange (Reply α) :=
  retried name (c.call method (obj []) callTimeout decode)

/-- The answer to a call that is made once. -/
def once {α : Type} (name : String) : Except Fault α → Reply α
  | .ok a => .ok a
  | .error (.refused e) => .error (.refused name e)
  | .error (.lost reason) => .error (.lost s!"{name}: {reason}")

/-! ## The calls -/

/-- Creates an invoice. -/
def createInvoice (c : Rest) (amount : Msat) (label description : String) :
    Http.Exchange (Reply Invoice) := do
  (Http.Question.pause spacing).ask
  let params := obj [("amount_msat", ofWord amount), ("label", str label),
    ("description", str description), ("expiry", ofNat invoiceExpiry)]
  return once "Invoice" (← c.call "invoice" params callTimeout Invoice.ofJson?)

/-- Sends a payment. Any sound document counts as consent. -/
def sendPay (c : Rest) (route : List PaymentHop) (hash secret : String) :
    Http.Exchange (Reply Unit) := do
  let amount : Msat := (route.getLast?.map (·.amount)).getD 0
  let params := obj [("route", ofList PaymentHop.toJson route), ("payment_hash", str hash),
    ("payment_secret", str secret), ("amount_msat", ofWord amount)]
  return once "SendPay" (← c.call "sendpay" params callTimeout fun j =>
    (j.sound? 0).map fun _ => ())

/-- How a payment ended, from the reply to a wait for it. -/
def outcome : Except Fault (Msat × Msat) → Reply PaymentOutcome
  | .ok (amount, sent) => .ok (.complete amount sent)
  | .error (.refused e) =>
    .ok (if e.code = waitTimeoutCode then .timedOut else .failed (.ofRpcError e))
  | .error (.lost reason) => .error (.lost s!"WaitSendPay: {reason}")

/-- How many milliseconds the reply to a wait may take, if a word can hold the seconds. -/
def waitTimeout? (seconds : UInt64) : Option UInt64 :=
  let total := seconds.toNat + waitMargin
  if total ≤ maxWord then some (lowWord (total * 1000)) else none

/-- Waits for the end of a payment. The node should answer first that the time is over. -/
def waitPay (c : Rest) (hash : String) (seconds : UInt64) :
    Http.Exchange (Reply PaymentOutcome) := do
  let params := obj [("payment_hash", str hash), ("timeout", ofWord seconds)]
  let timeout ← .ofOption (waitTimeout? seconds)
  return outcome (← c.call "waitsendpay" params timeout PaymentOutcome.completeOfJson?)

/-- Whether a refusal to delete an invoice means that it was paid. -/
def tellsPaid (e : RpcError) : Bool :=
  e.code == unexpectedStatusCode &&
    (((e.data.bind (·.get? "status")).bind text?) == some "paid" ||
      Text.occurs "status is paid".toList e.message.toList)

/-- How the removal of an invoice ended, from the reply to it. -/
def removal : Except Fault InvoiceRemoval → Except Fault InvoiceRemoval
  | .error (.refused e) => if tellsPaid e then .ok .alreadyPaid else .error (.refused e)
  | r => r

/-- Deletes an invoice if it is unpaid. -/
def deleteInvoice (c : Rest) (label : String) : Http.Exchange (Reply InvoiceRemoval) :=
  let params := obj [("label", str label), ("status", str "unpaid")]
  retried "DelInvoice" do
    return removal (← c.call "delinvoice" params callTimeout fun j =>
      (j.sound? 0).map fun _ => .deleted)

/-- Answers a question over HTTP. -/
def answer (c : Rest) : (q : Query) → Http.Exchange q.Answer
  | .info => c.get "GetInfo" "getinfo" NodeInfo.ofJson?
  | .gossip => c.get "ListChannels" "listchannels" (listField? "channels" Announcement.ofJson?)
  | .nodes => c.get "ListNodes" "listnodes" (listField? "nodes" NodeAnnouncement.ofJson?)
  | .channels =>
    c.get "ListPeerChannels" "listpeerchannels" (listField? "channels" OwnChannel.ofJson?)
  | .createInvoice amount label description => c.createInvoice amount label description
  | .sendPay route hash secret => c.sendPay route hash secret
  | .waitPay hash seconds => c.waitPay hash seconds
  | .deleteInvoice label => c.deleteInvoice label
  | .clock => Http.Question.clock.ask
  | .random => Http.Question.random.ask
  | .stopwatch => Http.Question.stopwatch.ask

/-- Holds a dialogue with the node over HTTP. -/
def run {α : Type} (c : Rest) (d : NodeDialogue α) : Http.Exchange α := do
  .ofOption (← Dialogue.run c.answer d)

end Rest

end Rebalancer
