import Rebalancer.Node

set_option autoImplicit false

/-! # A node that follows a script

For rehearsing a dialogue without a node. The lists that the node gives are fixed; its other answers
are taken from queues, one for each call. Where a queue is empty the call succeeds: an invoice gets
the next number, and a payment settles with the amounts of the route it was sent over. Time stands
still, and random words count up.
-/

namespace Rebalancer

/-- The name of a call. -/
def Query.name : Query → String
  | info => "get_info"
  | gossip => "list_channels"
  | nodes => "list_nodes"
  | channels => "list_peer_channels"
  | createInvoice .. => "create_invoice"
  | sendPay .. => "send_pay"
  | waitPay .. => "wait_send_pay"
  | deleteInvoice .. => "delete_invoice"
  | clock => "clock"
  | random => "random"
  | stopwatch => "stopwatch"

/-- A scripted answer, or the reason why there is none. -/
abbrev Turn := Except String

/-- What a node answers. -/
structure Script where
  info : NodeInfo
  gossip : List Announcement := []
  nodes : List NodeAnnouncement := []
  channels : List OwnChannel := []
  /-- The calls that fail, with the reason. They take nothing from a queue. -/
  failing : List (String × String) := []
  /-- Invoices, of which hash and secret may be left open. -/
  invoices : List (Turn (Option String × Option String)) := []
  sends : List (Turn Unit) := []
  /-- Ends of payments, `none` for one that settles. -/
  waits : List (Turn (Option PaymentOutcome)) := []
  removals : List (Turn InvoiceRemoval) := []
  /-- How many invoices there were. -/
  issued : Nat := 0
  /-- The payments that were sent, by hash, the newest first. -/
  sent : List (String × List PaymentHop) := []
  now : Time
  next : UInt64
  /-- The calls so far, the newest first. -/
  calls : List Query := []

namespace Script

/-- The answer of a turn. -/
def reply {α : Type} : Turn α → Reply α
  | .ok a => .ok a
  | .error reason => .error (.lost reason)

/-- The settlement of a payment that was sent. -/
def settlement (s : Script) (hash : String) : Reply PaymentOutcome :=
  match s.sent.lookup hash with
  | none => .error (.lost s!"unknown payment {hash}")
  | some hops =>
    let amount (h : Option PaymentHop) : Msat := (h.map (·.amount)).getD 0
    .ok (.complete (amount hops.getLast?) (amount hops.head?))

/-- Creates an invoice. -/
def invoice (s : Script) : Reply Invoice × Script :=
  let rest := { s with invoices := s.invoices.drop 1 }
  match s.invoices.headD (.ok (none, none)) with
  | .error reason => (.error (.lost reason), rest)
  | .ok (hash, secret) =>
    let n := s.issued + 1
    (.ok ⟨hash.getD s!"hash{n}", secret.getD s!"secret{n}"⟩, { rest with issued := n })

/-- Takes a payment. -/
def send (s : Script) (route : List PaymentHop) (hash : String) : Reply Unit × Script :=
  let rest := { s with sends := s.sends.drop 1 }
  match s.sends.headD (.ok ()) with
  | .error reason => (.error (.lost reason), rest)
  | .ok () => (.ok (), { rest with sent := (hash, route) :: s.sent })

/-- Tells the end of a payment. -/
def wait (s : Script) (hash : String) : Reply PaymentOutcome × Script :=
  let rest := { s with waits := s.waits.drop 1 }
  match s.waits.headD (.ok none) with
  | .ok none => (s.settlement hash, rest)
  | .ok (some outcome) => (.ok outcome, rest)
  | .error reason => (.error (.lost reason), rest)

/-- Removes an invoice. -/
def remove (s : Script) : Reply InvoiceRemoval × Script :=
  (reply (s.removals.headD (.ok .deleted)), { s with removals := s.removals.drop 1 })

/-- Notes a call, and gives the answer of `act` unless the call is to fail. -/
def called {α : Type} (s : Script) (q : Query) (act : Script → Reply α × Script) :
    Reply α × Script :=
  let s := { s with calls := q :: s.calls }
  match s.failing.lookup q.name with
  | some reason => (.error (.lost reason), s)
  | none => act s

/-- The answer to a question, and the script after it. -/
def answered (s : Script) : (q : Query) → q.Answer × Script
  | .info => s.called .info fun s => (.ok s.info, s)
  | .gossip => s.called .gossip fun s => (.ok s.gossip, s)
  | .nodes => s.called .nodes fun s => (.ok s.nodes, s)
  | .channels => s.called .channels fun s => (.ok s.channels, s)
  | .createInvoice amount label description =>
    s.called (.createInvoice amount label description) invoice
  | .sendPay route hash secret => s.called (.sendPay route hash secret) (·.send route hash)
  | .waitPay hash seconds => s.called (.waitPay hash seconds) (·.wait hash)
  | .deleteInvoice label => s.called (.deleteInvoice label) remove
  | .clock => (s.now, s)
  | .random => (s.next, { s with next := s.next + 1 })
  | .stopwatch => (0, s)

/-- Answers a question. -/
def answer (q : Query) : StateM Script q.Answer := fun s => s.answered q

/-- Holds a dialogue with the scripted node, with no result if it breaks off. -/
def run {α : Type} (d : NodeDialogue α) (s : Script) : Option α × Script :=
  (Dialogue.run answer d).run s

end Script

end Rebalancer
