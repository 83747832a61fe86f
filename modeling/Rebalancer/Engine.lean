import Rebalancer.Execution
import Rebalancer.Graph.Counterparty

set_option autoImplicit false

/-! # The engine

The books of the rebalancer together with what the operator has set. Every operation of an
operator or of a timer is a dialogue that gives its result and the engine after it.
-/

namespace Rebalancer

/-- The running rebalancer. -/
structure Engine where
  books : Books
  /-- The age in seconds at which a learned estimate is forgotten. -/
  liquidityReset : UInt64
  /-- How many seconds a payment is waited for. -/
  paymentTimeout : UInt64
  defaults : Defaults

namespace Engine

/-- How many seconds a payment is waited for that was given up before. -/
def lateWait : UInt64 := 1

/-- Asks the node who it is, and takes up graph and history from the store. -/
def start (engine : EngineSettings) (defaults : Defaults) (store : Store) :
    NodeDialogue (Except CallError Engine) := do
  match ← Query.info.ask with
  | .error e => return .error e
  | .ok info =>
    let now ← Query.clock.ask
    let capacity := engine.maxStoredAttempts.toNat
    let (history, store) ← .ofOption (History.start store capacity engine.statsRetentionDays now)
    return .ok
      { books :=
          { graph := store.snapshot.load (.empty info.id)
            ledger := .new capacity
            history := history
            store := store }
        liquidityReset := engine.liquidityReset
        paymentTimeout := engine.paymentTimeout
        defaults := defaults }

/-- The engine with another graph. -/
def withGraph (e : Engine) (g : Graph) : Engine := { e with books := { e.books with graph := g } }

/-- Saves the graph in the store. -/
def save (e : Engine) : Engine :=
  { e with books := { e.books with store := e.books.store.save e.books.graph } }

/-! ## Refreshing -/

/-- Takes over the own channels and the gossip, and saves the graph. -/
def refresh (e : Engine) : NodeDialogue (Except Failure GraphStats × Engine) := do
  match ← Query.gossip.ask with
  | .error err => return (.error (.refresh err.message), e)
  | .ok gossip =>
    match ← Query.nodes.ask with
    | .error err => return (.error (.refresh err.message), e)
    | .ok nodes =>
      match ← Query.channels.ask with
      | .error err => return (.error (.refresh err.message), e)
      | .ok channels =>
        let now ← Query.clock.ask
        let g := (e.books.graph.applyOwn channels now).applyGossip gossip nodes now e.liquidityReset
        return (.ok g.stats, (e.withGraph g).save)

/-- Takes over the own channels. -/
def refreshOwn (e : Engine) : NodeDialogue (Except Failure Unit × Engine) := do
  match ← Query.channels.ask with
  | .error err => return (.error (.refresh err.message), e)
  | .ok channels =>
    let now ← Query.clock.ask
    return (.ok (), e.withGraph (e.books.graph.applyOwn channels now))

/-! ## Rebalancing -/

/-- Carries out a request and saves the graph. -/
def run (e : Engine) (r : Request) : NodeDialogue (Summary × Engine) := do
  let (summary, books) ← Execution.execute e.paymentTimeout r e.books
  return (summary, { e with books := books }.save)

/-- Draws the request's identifier and carries the request out, unless it is refused. -/
def runRequest (e : Engine) (request : Defaults → UInt64 → Except Failure Request) :
    NodeDialogue (Except Failure Summary × Engine) := do
  match request e.defaults (← Query.random.ask) with
  | .error failure => return (.error failure, e)
  | .ok r =>
    let (summary, e) ← e.run r
    return (.ok summary, e)

/-- Rebalances from one own channel into another. -/
def circular (e : Engine) (p : CircularParams) :
    NodeDialogue (Except Failure Summary × Engine) := e.runRequest p.request

/-- Pulls liquidity into a channel. -/
def pull (e : Engine) (p : PullParams) : NodeDialogue (Except Failure Summary × Engine) :=
  e.runRequest p.request

/-- Pushes liquidity out of a channel. -/
def push (e : Engine) (p : PushParams) : NodeDialogue (Except Failure Summary × Engine) :=
  e.runRequest p.request

/-- Rebalances between two peers. -/
def betweenNodes (e : Engine) (p : NodeParams) :
    NodeDialogue (Except Failure Summary × Engine) :=
  match e.books.graph.resolveEnds p.outNode p.inNode with
  | .error failure => return (.error failure, e)
  | .ok (exit, entry) => e.circular (p.circular exit entry)

/-! ## History -/

/-- What the operator is shown. -/
def stats (e : Engine) : NodeDialogue StatsReport := do
  let now ← Query.clock.ask
  .ofOption (e.books.history.report e.books.store e.books.graph.stats e.books.graph.own.keys now)

/-- Drops all attempts and costs. -/
def deleteStats (e : Engine) : Deleted × Engine :=
  let (deleted, history, store) := e.books.history.delete e.books.store
  (deleted, { e with books := { e.books with history := history, store := store } })

/-! ## Late news -/

/-- Takes over the news that a payment failed, and tells whether it was news: the payment was ours
and still open. -/
def notifyFailure (e : Engine) (hash : String) (failure : PaymentFailure) :
    NodeDialogue (Bool × Engine) :=
  match e.books.ledger.acceptFailure hash with
  | none => return (false, e)
  | some (route, ledger) => do
    let now ← Query.clock.ask
    let books := { e.books with ledger := ledger }
    return (true, { e with books := books.learn route failure now }.save)

/-- Asks how one payment ended that was given up, and tells whether that is known now. -/
def reconcileOne (e : Engine) (hash : String) : NodeDialogue (Bool × Engine) := do
  match ← (Query.waitPay hash lateWait).ask with
  | .ok (.failed failure) => e.notifyFailure hash failure
  | .ok (.complete ..) => return (true, { e with books := e.books.resolve hash .succeeded })
  | .ok .timedOut | .error _ => return (false, e)

/-- Asks in turn how payments ended that were given up, and counts those whose end is known now. -/
def reconcileAll : List String → Engine → NodeDialogue (Nat × Engine)
  | [], e => return (0, e)
  | hash :: rest, e => do
    let (known, e) ← e.reconcileOne hash
    let (count, e) ← reconcileAll rest e
    return ((if known then 1 else 0) + count, e)

/-- Asks how all payments ended that were given up. -/
def reconcile (e : Engine) : NodeDialogue (Nat × Engine) := reconcileAll e.books.ledger.timedOut e

end Engine

end Rebalancer
