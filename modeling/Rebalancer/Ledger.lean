import Rebalancer.Route

set_option autoImplicit false

/-! # The payment ledger

Every payment hash that was issued, with its route and what is known of its end, in the order of
issue. A ledger of full capacity forgets the oldest payment for a new one. A payment is *open*
while its end can still become known; once it is not, its entry never changes.
-/

namespace Rebalancer

/-- What is known of a payment's end. -/
inductive PaymentState
  | pending
  | succeeded
  | failed
  | timedOut
deriving DecidableEq, Repr

namespace PaymentState

/-- Whether the end of the payment can still become known. -/
def isOpen : PaymentState → Bool
  | pending | timedOut => true
  | succeeded | failed => false

/-- The name of a state. -/
def name : PaymentState → String
  | pending => "Pending"
  | succeeded => "Succeeded"
  | failed => "Failed"
  | timedOut => "TimedOut"

/-- The state of a name. -/
def ofName? (s : String) : Option PaymentState :=
  [pending, succeeded, failed, timedOut].find? (·.name == s)

end PaymentState

/-- A payment that was issued. -/
structure LedgerEntry where
  hash : String
  state : PaymentState
  route : Route
deriving DecidableEq, Repr

/-- The payments that are remembered, oldest first. -/
structure Ledger where
  capacity : Nat
  entries : List LedgerEntry
deriving DecidableEq, Repr

namespace Ledger

/-- An empty ledger. It remembers at least one payment. -/
def new (capacity : Nat) : Ledger := ⟨max capacity 1, []⟩

/-- The entry of a payment. -/
def entry? (l : Ledger) (hash : String) : Option LedgerEntry := l.entries.find? (·.hash == hash)

/-- What is known of a payment. -/
def state? (l : Ledger) (hash : String) : Option PaymentState := (l.entry? hash).map (·.state)

/-- Adds a pending payment unless it is remembered already, and forgets the oldest payments beyond
the capacity. -/
def issue (l : Ledger) (hash : String) (route : Route) : Ledger :=
  if (l.entry? hash).isSome then l
  else
    let entries := l.entries ++ [⟨hash, .pending, route⟩]
    { l with entries := entries.drop (entries.length - l.capacity) }

/-- Sets the state of a payment that is still open. -/
def resolve (l : Ledger) (hash : String) (state : PaymentState) : Ledger :=
  { l with
    entries := l.entries.map fun e =>
      if e.hash == hash && e.state.isOpen then { e with state := state } else e }

/-- Takes over the news that a payment failed. Gives its route if it was still open. -/
def acceptFailure (l : Ledger) (hash : String) : Option (Route × Ledger) :=
  match l.entry? hash with
  | some e => if e.state.isOpen then some (e.route, l.resolve hash .failed) else none
  | none => none

/-- The payments we no longer wait for although their end is unknown, oldest first. -/
def timedOut (l : Ledger) : List String :=
  (l.entries.filter (·.state == .timedOut)).map (·.hash)

end Ledger

end Rebalancer
