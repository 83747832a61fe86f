import Rebalancer.Attempt
import Rebalancer.Graph.Candidates
import Rebalancer.Graph.Payment
import Rebalancer.History
import Rebalancer.Ledger
import Rebalancer.Node

set_option autoImplicit false

/-! # Carrying out a request

Each chunk of a request is a payment to ourselves over a route found on the graph as it stands. A
payment that settles moves the chunk in the books. One that fails for a reason that another route
may avoid is tried again, after the graph has learned what the failure tells. One whose end is
unknown is not tried again: its invoice is deleted, so that it fails if it still comes in, and if
the invoice turns out to be paid the chunk counts as moved. A time or a total that does not fit its
word breaks off everything.
-/

namespace Rebalancer

/-- Everything that payments change, and the order in which the search for a route goes through the
own channels, which they do not change. -/
structure Books where
  graph : Graph
  ledger : Ledger
  history : History
  store : Store
  order : OwnOrder := .byId

/-- How a try ended that did not settle. -/
inductive TryFailure
  /-- The node reported a failure. -/
  | failed (failure : PaymentFailure)
  /-- We no longer wait; the payment may still settle. -/
  | timedOut (reason : String)
  /-- The payment was not sent. -/
  | notSent (reason : String)
deriving DecidableEq, Repr

/-- The failure in words. -/
def TryFailure.reason : TryFailure → String
  | failed failure => failure.reason
  | timedOut reason => reason
  | notSent reason => reason

/-- Whether another try may help. -/
def TryFailure.isTemporary : TryFailure → Bool
  | failed failure => failure.isTemporary
  | timedOut _ => false
  | notSent _ => true

/-- How a try ended: with the fee that was paid, or not at all. -/
abbrev TryResult := Except TryFailure Msat

/-- The description of every invoice. -/
def invoiceDescription : String := "circular rebalance"

/-- The label of the invoice for a try. -/
def invoiceLabel (r : Request) (index tries : Nat) : String :=
  s!"circular-{r.id}-{index}-{tries}"

namespace Books

/-- Notes in the ledger how a payment ended. -/
def resolve (b : Books) (hash : String) (state : PaymentState) : Books :=
  { b with ledger := b.ledger.resolve hash state }

/-- Books a settled payment on the graph and in the costs, unless its day begins before all times.
-/
def settle (b : Books) (route : Route) (fee : Msat) (now : Time) : Option Books :=
  (b.store.recordCost route fee now).map fun store =>
    { b with graph := b.graph.applyPayment route route.amount now, store := store }

/-- Appends an attempt to the history, unless retention reaches back before all times. -/
def recordAttempt (b : Books) (a : Attempt) : Option Books :=
  (b.history.record b.store a).map fun (history, store) =>
    { b with history := history, store := store }

/-- The hop that a failure blames: the first over the erring channel, in the erring direction if
that is known. A refusal by the last node tells nothing of channels. -/
def erringHop? (route : Route) (f : PaymentFailure) : Option Hop :=
  match f.erringChannel with
  | none => none
  | some scid =>
    if f.erringNode.isSome && f.erringNode == route.hops.getLast?.map (·.destination) then none
    else route.hops.find? fun h =>
      h.half.scid == scid && (f.erringDirection.getD h.half.direction == h.half.direction)

/-- Takes over into the graph what a failure tells. -/
def learn (b : Books) (route : Route) (f : PaymentFailure) (now : Time) : Books :=
  match erringHop? route f with
  | none => b
  | some hop =>
    match b.graph.applyFailure hop.half hop.amount now with
    | none => b
    | some graph => { b with graph := graph }

/-- Takes over into the graph what a try that did not settle tells. -/
def learnFrom (b : Books) (route : Route) (failure : TryFailure) (now : Time) : Books :=
  match failure with
  | .failed f => b.learn route f now
  | .timedOut _ | .notSent _ => b

end Books

namespace Execution

/-- The cheapest route for a chunk of `amount` on the graph as it stands. -/
def lookup (order : OwnOrder) (g : Graph) (r : Request) (amount : Msat) :
    Except Failure Route :=
  let first (candidates : List Candidate) : Except Failure Route :=
    match candidates with
    | [] => .error (.noRoute (.noCandidate amount))
    | c :: _ => .ok c.route
  match r.target with
  | .circular exit entry => g.ring exit entry amount r.maxHops
  | .pull entry rate list percent floor => do
    first (← g.exitsAmong (order.records g) entry amount r.maxHops ⟨rate, list, percent, floor⟩)
  | .push exit rate list percent ceiling => do
    first (← g.entriesAmong (order.records g) exit amount r.maxHops ⟨rate, list, percent, ceiling⟩)

/-- Books a payment that settled with this fee. -/
def settle (b : Books) (route : Route) (hash : String) (fee : Msat) :
    NodeDialogue (TryResult × Books) := do
  let now ← Query.clock.ask
  let b ← .ofOption ((b.resolve hash .succeeded).settle route fee now)
  return (.ok fee, b)

/-- Ends the wait for a payment. -/
def giveUp (b : Books) (route : Route) (label hash reason : String) :
    NodeDialogue (TryResult × Books) := do
  match ← (Query.deleteInvoice label).ask with
  | .ok .alreadyPaid => settle b route hash route.fee
  | .ok .deleted | .error _ => return (.error (.timedOut reason), b.resolve hash .timedOut)

/-- Waits for the end of a payment that was sent. -/
def await (timeout : UInt64) (b : Books) (route : Route) (label hash : String) :
    NodeDialogue (TryResult × Books) := do
  match ← (Query.waitPay hash timeout).ask with
  | .ok (.complete amount sent) => settle b route hash (subClamped sent amount)
  | .ok (.failed failure) => return (.error (.failed failure), b.resolve hash .failed)
  | .ok .timedOut => giveUp b route label hash s!"timed out after {timeout}s waiting for {hash}"
  | .error e => giveUp b route label hash s!"timed out waiting for {hash}: {e.message}"

/-- One try: an invoice, the payment, and the wait for its end. -/
def pay (timeout : UInt64) (b : Books) (route : Route) (label : String) :
    NodeDialogue (TryResult × Books) := do
  match ← (Query.createInvoice route.amount label invoiceDescription).ask with
  | .error e => return (.error (.notSent e.message), b)
  | .ok invoice =>
    let b := { b with ledger := b.ledger.issue invoice.hash route }
    match ← (Query.sendPay route.paymentHops invoice.hash invoice.secret).ask with
    | .error e => return (.error (.notSent e.message), b.resolve invoice.hash .failed)
    | .ok () => await timeout b route label invoice.hash

/-- One try at a chunk, with the route of the try before. Gives the attempt that results if this try
is the last, and the route that was taken if another try may help. -/
def tryChunk (timeout : UInt64) (r : Request) (index : Nat) (amount : Msat) (tries : Nat)
    (last : Option Route) (b : Books) : NodeDialogue (Attempt × Option Route × Books) :=
  match lookup b.order b.graph r amount with
  | .error failure => do
    return (.failed r index amount last tries failure (← Query.clock.ask), none, b)
  | .ok route =>
    if !route.within r.maxRate then do
      let failure := Failure.feeExceeded (rateCeil route.fee route.amount) r.maxRate
      return (.failed r index amount (some route) tries failure (← Query.clock.ask), none, b)
    else do
      let (result, b) ← pay timeout b route (invoiceLabel r index tries)
      let now ← Query.clock.ask
      match result with
      | .ok fee => return (.succeeded r index route fee tries now, none, b)
      | .error failure =>
        return (.failed r index amount (some route) tries (.payment failure.reason) now,
          if failure.isTemporary then some route else none, b.learnFrom route failure now)

/-- The tries at a chunk, of which at most `more` follow this one. `last` is the route of the try
before. -/
def runTries (timeout : UInt64) (r : Request) (index : Nat) (amount : Msat) :
    Nat → Nat → Option Route → Books → NodeDialogue (Attempt × Books)
  | 0, tries, last, b => do
    let (attempt, _, b) ← tryChunk timeout r index amount tries last b
    return (attempt, b)
  | more + 1, tries, last, b => do
    let (attempt, again, b) ← tryChunk timeout r index amount tries last b
    match again with
    | none => return (attempt, b)
    | some route => runTries timeout r index amount more (tries + 1) (some route) b

/-- Moves one chunk, or tries as often as the request allows. -/
def runChunk (timeout : UInt64) (r : Request) (index : Nat) (amount : Msat) (b : Books) :
    NodeDialogue (Attempt × Books) :=
  runTries timeout r index amount (r.attempts - 1) 1 none b

/-- Moves chunks in order, the first of them with number `index`, and records each attempt. -/
def runChunks (timeout : UInt64) (r : Request) :
    Nat → List Msat → Books → NodeDialogue (List Attempt × Books)
  | _, [], b => return ([], b)
  | index, amount :: rest, b => do
    let (attempt, b) ← runChunk timeout r index amount b
    let (attempts, b) ← runChunks timeout r (index + 1) rest (← .ofOption (b.recordAttempt attempt))
    return (attempt :: attempts, b)

/-- Carries out a request. -/
def execute (timeout : UInt64) (r : Request) (b : Books) : NodeDialogue (Summary × Books) := do
  let start ← Query.stopwatch.ask
  let (attempts, b) ← runChunks timeout r 0 r.chunks b
  let stop ← Query.stopwatch.ask
  let summary ← .ofOption (Summary.ofAttempts? r attempts (subClamped stop start))
  return (summary, b)

end Execution

end Rebalancer
