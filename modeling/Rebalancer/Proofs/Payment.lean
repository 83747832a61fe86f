import Mathlib.Algebra.Order.BigOperators.Group.List
import Rebalancer.Proofs.Execution.Effects
import Rebalancer.Proofs.Store.Costs

set_option autoImplicit false

/-! # How payments end

Every payment for which an invoice is created has one of five ends (`Ending`). From its end follow
the calls for it, the state in which the ledger remembers it, and whether it is booked. What they
add to the books is the sum of what they moved and what they cost (`Books.Booked.totals`).
-/

namespace Rebalancer

/-! ## Payments -/

/-- How a payment ended for which there is an invoice. The wait for it may tell nothing: it is too
long, or there is an error in the place of an answer. -/
inductive Ending
  /-- It was not sent. -/
  | refused (e : CallError)
  | completed (delivered sent : Msat)
  | failed (failure : PaymentFailure)
  /-- The wait told nothing, and the invoice was found paid. -/
  | foundPaid (silence : Option CallError)
  /-- The wait told nothing, and the invoice was deleted, unless there was an error. -/
  | givenUp (silence kept : Option CallError)

namespace Ending

/-- The state in which the ledger notes a payment that ended so. -/
def state : Ending → PaymentState
  | refused _ | failed _ => .failed
  | completed .. | foundPaid _ => .succeeded
  | givenUp .. => .timedOut

/-- The answer to a wait that told nothing. -/
def silent : Option CallError → Reply PaymentOutcome
  | none => .ok .timedOut
  | some e => .error e

/-- The answer to the deletion of an invoice that was not found paid. -/
def unpaid : Option CallError → Reply InvoiceRemoval
  | none => .ok .deleted
  | some e => .error e

/-- What is exchanged when a payment is sent that ends so. -/
def exchanges (timeout : UInt64) (hops : List PaymentHop) (label : String) (invoice : Invoice) :
    Ending → Exchanges
  | refused e => [(Query.sendPay hops invoice.hash invoice.secret).answered (.error e)]
  | completed delivered sent =>
    [(Query.sendPay hops invoice.hash invoice.secret).answered (.ok ()),
      (Query.waitPay invoice.hash timeout).answered (.ok (.complete delivered sent))]
  | failed failure =>
    [(Query.sendPay hops invoice.hash invoice.secret).answered (.ok ()),
      (Query.waitPay invoice.hash timeout).answered (.ok (.failed failure))]
  | foundPaid silence =>
    [(Query.sendPay hops invoice.hash invoice.secret).answered (.ok ()),
      (Query.waitPay invoice.hash timeout).answered (silent silence),
      (Query.deleteInvoice label).answered (.ok .alreadyPaid)]
  | givenUp silence kept =>
    [(Query.sendPay hops invoice.hash invoice.secret).answered (.ok ()),
      (Query.waitPay invoice.hash timeout).answered (silent silence),
      (Query.deleteInvoice label).answered (unpaid kept)]

end Ending

/-- A payment for which an invoice was created. -/
structure Payment where
  label : String
  route : Route
  invoice : Invoice
  ending : Ending

namespace Payment

def hash (p : Payment) : String := p.invoice.hash

def state (p : Payment) : PaymentState := p.ending.state

/-- What the ledger remembers of a payment. -/
def entry (p : Payment) : LedgerEntry := ⟨p.hash, p.state, p.route⟩

/-- The fee of a payment that settled. -/
def fee? (p : Payment) : Option Msat :=
  match p.ending with
  | .completed delivered sent => some (subClamped sent delivered)
  | .foundPaid _ => some p.route.fee
  | .refused _ | .failed _ | .givenUp .. => none

/-- What is exchanged for a payment. -/
def exchanges (timeout : UInt64) (p : Payment) : Exchanges :=
  (Query.createInvoice p.route.amount p.label invoiceDescription).answered (.ok p.invoice) ::
    p.ending.exchanges timeout p.route.paymentHops p.label p.invoice

theorem state_eq_succeeded_iff {p : Payment} : p.state = .succeeded ↔ p.fee?.isSome = true := by
  unfold state fee?
  cases p.ending with
  | refused e => simp [Ending.state]
  | completed delivered sent => simp [Ending.state]
  | failed failure => simp [Ending.state]
  | foundPaid silence => simp [Ending.state]
  | givenUp silence kept => simp [Ending.state]

theorem state_ne_pending (p : Payment) : p.state ≠ .pending := by
  unfold state
  cases p.ending <;> exact nofun

/-- A payment was given up just if its invoice was to be deleted and was not found paid. -/
theorem state_eq_timedOut_iff {p : Payment} (timeout : UInt64) :
    p.state = .timedOut ↔ ∃ removal, (Query.deleteInvoice p.label).answered removal ∈
      p.exchanges timeout ∧ removal ≠ .ok .alreadyPaid := by
  unfold state exchanges
  cases p.ending with
  | refused e => simp [Ending.state, Ending.exchanges]
  | completed delivered sent => simp [Ending.state, Ending.exchanges]
  | failed failure => simp [Ending.state, Ending.exchanges]
  | foundPaid silence => simp [Ending.state, Ending.exchanges]
  | givenUp silence kept =>
      refine iff_of_true rfl ⟨Ending.unpaid kept, by simp [Ending.exchanges], ?_⟩
      cases kept <;> exact nofun

end Payment

/-- The payments that settled. -/
def settledOf (payments : List Payment) : List Payment :=
  payments.filter fun p => p.state == .succeeded

theorem mem_settledOf {payments : List Payment} {p : Payment} :
    p ∈ settledOf payments ↔ p ∈ payments ∧ p.state = .succeeded := by
  simp [settledOf]

theorem settledOf_singleton {p : Payment} {fee : Msat} (h : p.fee? = some fee) :
    settledOf [p] = [p] := by
  have hstate : p.state = .succeeded := Payment.state_eq_succeeded_iff.mpr (by rw [h]; rfl)
  simp [settledOf, hstate]

theorem settledOf_toList {payment : Option Payment} (h : payment.bind (·.fee?) = none) :
    settledOf payment.toList = [] := by
  cases payment with
  | none => rfl
  | some p =>
      have hstate : p.state ≠ .succeeded := by
        rw [Ne, Payment.state_eq_succeeded_iff]
        simpa using h
      simp [settledOf, hstate]

theorem exists_succeeded_iff {payment : Option Payment} :
    (∃ p ∈ payment, p.state = .succeeded) ↔ (payment.bind (·.fee?)).isSome = true := by
  cases payment with
  | none => simp
  | some p => simp [Payment.state_eq_succeeded_iff]

/-! ## Calls -/

/-- Whether an exchange is a call for a payment that has an invoice. -/
def Query.isForPayment : (q : Query.interface.Question) × Query.interface.Answer q → Bool
  | ⟨.createInvoice .., .ok _⟩ => true
  | ⟨.createInvoice .., .error _⟩ => false
  | ⟨.sendPay .., _⟩ | ⟨.waitPay .., _⟩ | ⟨.deleteInvoice _, _⟩ => true
  | ⟨.info, _⟩ | ⟨.gossip, _⟩ | ⟨.nodes, _⟩ | ⟨.channels, _⟩ | ⟨.clock, _⟩ | ⟨.random, _⟩
  | ⟨.stopwatch, _⟩ => false

/-- The calls for payments that have an invoice. -/
def paymentCalls (record : Exchanges) : Exchanges := record.filter Query.isForPayment

/-- The hash that an exchange issues. -/
def Query.issuedHash? : (q : Query.interface.Question) × Query.interface.Answer q → Option String
  | ⟨.createInvoice .., .ok invoice⟩ => some invoice.hash
  | ⟨.createInvoice .., .error _⟩ | ⟨.sendPay .., _⟩ | ⟨.waitPay .., _⟩ | ⟨.deleteInvoice _, _⟩
  | ⟨.info, _⟩ | ⟨.gossip, _⟩ | ⟨.nodes, _⟩ | ⟨.channels, _⟩ | ⟨.clock, _⟩ | ⟨.random, _⟩
  | ⟨.stopwatch, _⟩ => none

/-- The hashes that the node issued, in order. -/
def hashesIn (record : Exchanges) : List String := record.filterMap Query.issuedHash?

/-- All hashes are issued in calls for payments. -/
theorem hashesIn_paymentCalls (record : Exchanges) :
    hashesIn (paymentCalls record) = hashesIn record := by
  rw [hashesIn, paymentCalls, List.filterMap_filter]
  refine List.filterMap_congr fun e _ => ?_
  match e with
  | ⟨.createInvoice .., .ok invoice⟩ => rfl
  | ⟨.createInvoice .., .error _⟩ | ⟨.sendPay .., _⟩ | ⟨.waitPay .., _⟩ | ⟨.deleteInvoice _, _⟩
  | ⟨.info, _⟩ | ⟨.gossip, _⟩ | ⟨.nodes, _⟩ | ⟨.channels, _⟩ | ⟨.clock, _⟩ | ⟨.random, _⟩
  | ⟨.stopwatch, _⟩ => rfl

theorem Payment.hashesIn_exchanges (timeout : UInt64) (p : Payment) :
    hashesIn (p.exchanges timeout) = [p.hash] := by
  unfold exchanges
  cases p.ending <;> rfl

/-! ## The books -/

/-- No payment was booked: the costs are the same, and the graph has only learned. -/
structure Books.Aside (b b' : Books) : Prop where
  graph : b.graph.Learned b'.graph
  costs : b'.store.costs = b.store.costs

/-- Just these payments were booked, each one once on the graph and in the costs. So the records of
the own channels are debited and credited once for each (`Booked.getElem?_own`), and with room in
the cost table its totals grow by their amounts and fees (`Booked.totals`). -/
inductive Books.Booked : Books → List Payment → Books → Prop
  | nil {b b' : Books} (aside : b.Aside b') : Booked b [] b'
  | cons {b b₁ b₂ b' : Books} {p : Payment} {fee : Msat} {now : Time} {rest : List Payment}
      (aside : b.Aside b₁) (fee_eq : p.fee? = some fee) (settles : b₁.Settles b₂ p.route fee now)
      (next : Booked b₂ rest b') : Booked b (p :: rest) b'

namespace Books

variable {b b' b'' : Books} {first second : List Payment}

theorem Aside.refl (b : Books) : b.Aside b := ⟨.refl _, rfl⟩

theorem Aside.trans (h : b.Aside b') (h' : b'.Aside b'') : b.Aside b'' :=
  ⟨h.graph.trans h'.graph, h'.costs.trans h.costs⟩

theorem Unmoved.aside (h : b.Unmoved b') : b.Aside b' := ⟨h.graph, congrArg Store.costs h.store⟩

theorem Booked.after (h : b.Aside b') (h' : b'.Booked first b'') : b.Booked first b'' := by
  cases h' with
  | nil aside => exact .nil (h.trans aside)
  | cons aside fee_eq settles next => exact .cons (h.trans aside) fee_eq settles next

theorem Booked.append (h : b.Booked first b') (h' : b'.Booked second b'') :
    b.Booked (first ++ second) b'' := by
  induction h with
  | nil aside => exact h'.after aside
  | cons aside fee_eq settles next ih => exact .cons aside fee_eq settles (ih h')

/-- Each payment debits the record of its exit and credits that of its entry, one after the other,
and no other record changes. -/
theorem Booked.getElem?_own {payments : List Payment} (h : b.Booked payments b') (scid : String) :
    b'.graph.own[scid]? = b.graph.own[scid]?.map fun c =>
      payments.foldl (fun c p => Graph.recordAfter p.route p.route.amount scid c) c := by
  induction h with
  | nil aside =>
      rw [aside.graph.own]
      exact Option.map_id'.symm
  | cons aside fee_eq settles next ih =>
      rw [ih, settles.getElem?_own, aside.graph.own, Option.map_map]
      rfl

end Books

/-! ## Totals -/

/-- What some payments add to the amounts of a channel on one side. -/
def plannedAmounts (payments : List Payment) (channel : String) (side : CostSide) : Nat :=
  (payments.map fun p => Costs.amountOver (p.route.exit?.getD "") (p.route.entry?.getD "")
    p.route.amount.toNat channel side).sum

/-- What some payments add to the fees of a channel on one side. -/
def plannedFees (payments : List Payment) (channel : String) (side : CostSide) : Nat :=
  (payments.map fun p => Costs.feeOver (p.route.entry?.getD "") (p.fee?.getD 0).toNat channel
    side).sum

/-- There is room in the cost table for these payments. -/
structure Costs.HasRoomFor (table : Costs) (payments : List Payment) : Prop where
  rows : table.HasRoom (plannedFees payments) (plannedAmounts payments)
  fee_fits : ∀ p ∈ payments, ((p.fee?.getD 0).toNat : Int) ≤ maxSigned
  amount_fits : ∀ p ∈ payments, (p.route.amount.toNat : Int) ≤ maxSigned

theorem plannedAmounts_le (payments : List Payment) (channel : String) (side : CostSide) :
    plannedAmounts payments channel side ≤ (payments.map (·.route.amount.toNat)).sum :=
  List.sum_le_sum fun _ _ => Costs.amountOver_le ..

theorem plannedFees_le (payments : List Payment) (channel : String) (side : CostSide) :
    plannedFees payments channel side ≤ (payments.map fun p => (p.fee?.getD 0).toNat).sum :=
  List.sum_le_sum fun _ _ => Costs.feeOver_le ..

/-- An empty cost table has room for payments that come to no more than a signed word can hold. -/
theorem Costs.hasRoomFor_empty {payments : List Payment}
    (fees_fit : (payments.map fun p => (p.fee?.getD 0).toNat).sum ≤ maxSigned)
    (amounts_fit : (payments.map (·.route.amount.toNat)).sum ≤ maxSigned) :
    Costs.HasRoomFor ∅ payments := by
  refine ⟨Costs.hasRoom_empty (fun channel side => ?_) (fun channel side => ?_), fun p hp => ?_,
    fun p hp => ?_⟩
  · have := plannedFees_le payments channel side
    omega
  · have := plannedAmounts_le payments channel side
    omega
  · have := List.le_sum_of_mem (List.mem_map_of_mem (f := fun p => (p.fee?.getD 0).toNat) hp)
    omega
  · have := List.le_sum_of_mem (List.mem_map_of_mem (f := fun p => p.route.amount.toNat) hp)
    omega

theorem Route.exists_exit {route : Route} (h : route.hops ≠ []) :
    ∃ exit entry, route.exit? = some exit ∧ route.entry? = some entry := by
  have hhead := List.head?_eq_some_head h
  have hlast := List.getLast?_eq_some_getLast h
  unfold Route.exit? Route.entry?
  rw [hhead, hlast]
  exact ⟨_, _, rfl, rfl⟩

/-- As long as there is room for them, the costs grow by the fees and the amounts of the payments
that were booked. -/
theorem Books.Booked.totals {b b' : Books} {payments : List Payment} (h : b.Booked payments b')
    (routed : ∀ p ∈ payments, p.route.hops ≠ []) (room : b.store.costs.HasRoomFor payments)
    (side : CostSide) :
    b'.store.costs.feesPaid =
        b.store.costs.feesPaid + (payments.map fun p => (p.fee?.getD 0).toNat).sum ∧
      b'.store.costs.amountOn side =
        b.store.costs.amountOn side + (payments.map (·.route.amount.toNat)).sum := by
  induction h with
  | nil aside => simp [aside.costs]
  | @cons b b₁ b₂ b' p fee now rest aside fee_eq settles next ih =>
      obtain ⟨table, hrecord, hstore⟩ := Option.map_eq_some_iff.mp settles.store
      rw [aside.costs] at hrecord
      obtain ⟨exit, entry, hexit, hentry⟩ := Route.exists_exit (routed p List.mem_cons_self)
      have hfee := room.fee_fits p List.mem_cons_self
      rw [fee_eq, Option.getD_some] at hfee
      -- The payment uses the room that was planned for it, and leaves that for the rest.
      have hfeePlan : ∀ channel side, plannedFees rest channel side +
          Costs.feeOver entry fee.toNat channel side ≤ plannedFees (p :: rest) channel side := by
        simp [plannedFees, hentry, fee_eq, Nat.add_comm]
      have hamountPlan : ∀ channel side, plannedAmounts rest channel side +
          Costs.amountOver exit entry p.route.amount.toNat channel side ≤
            plannedAmounts (p :: rest) channel side := by
        simp [plannedAmounts, hexit, hentry, Nat.add_comm]
      obtain ⟨hroom, hfees, hamounts⟩ := room.rows.record hrecord hexit hentry hfeePlan hamountPlan
        hfee (room.amount_fits p List.mem_cons_self) side
      have htable : b₂.store.costs = table := by rw [← hstore]
      obtain ⟨hfees', hamounts'⟩ := ih (fun q hq => routed q (List.mem_cons_of_mem p hq))
        ⟨htable ▸ hroom, fun q hq => room.fee_fits q (List.mem_cons_of_mem p hq),
          fun q hq => room.amount_fits q (List.mem_cons_of_mem p hq)⟩
      rw [htable, hfees] at hfees'
      rw [htable, hamounts] at hamounts'
      rw [hfees', hamounts', List.map_cons, List.map_cons, List.sum_cons, List.sum_cons, fee_eq]
      constructor
      · rw [Option.getD_some]
        omega
      · omega

end Rebalancer
