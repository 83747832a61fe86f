import Rebalancer.Proofs.Execution.Endings

set_option autoImplicit false

/-! # Payments that succeed

The engine carries out requests, takes over the news that payments failed, and asks how payments
ended that were given up. However the node replies, what this does to the ledger and the books
follows from what the engine heard (`Hears`). So a payment that comes to be remembered as succeeded
was booked once, unless the node told of it only when the engine asked. Then it is not booked, and
the costs lack its amount and its fee.
-/

namespace Rebalancer

/-- What is done to payments. -/
inductive Errand
  | request (r : Request)
  | failure (hash : String) (failure : PaymentFailure)
  | reconcile

namespace Engine

/-- Runs an errand. -/
def carryOut (e : Engine) : Errand → NodeDialogue Engine
  | .request r => do return (← e.run r).2
  | .failure hash failure => do return (← e.notifyFailure hash failure).2
  | .reconcile => do return (← e.reconcile).2

/-- Runs errands one after the other. -/
def carryOutAll : List Errand → Engine → NodeDialogue Engine
  | [], e => return e
  | errand :: rest, e => do carryOutAll rest (← e.carryOut errand)

variable {e e' : Engine} {record : Exchanges}

theorem runs_carryOutAll_cons {errand : Errand} {rest : List Errand} {first second : Exchanges}
    {e₁ : Engine} (h : (e.carryOut errand).Runs first (some e₁))
    (h' : (carryOutAll rest e₁).Runs second (some e')) :
    (carryOutAll (errand :: rest) e).Runs (first ++ second) (some e') :=
  Dialogue.runs_bind.mpr (Or.inl ⟨first, e₁, second, rfl, h, h'⟩)

/-- A request is carried out on the books, and then the graph is saved. -/
theorem runs_run_iff {r : Request} {result : Option (Summary × Engine)} :
    (e.run r).Runs record result ↔
      ∃ run, (Execution.execute e.paymentTimeout r e.books).Runs record run ∧
        run.map (fun (summary, b) => (summary, { e with books := b }.save)) = result :=
  Dialogue.runs_map (f := fun done : Summary × Books => (done.1, { e with books := done.2 }.save))

theorem runs_carryOut_request {r : Request} {summary : Summary} {b' : Books}
    (h : (Execution.execute e.paymentTimeout r e.books).Runs record (some (summary, b'))) :
    (e.carryOut (.request r)).Runs record (some { e with books := b' }.save) :=
  Dialogue.runs_map_some.mpr ⟨_, runs_run_iff.mpr ⟨_, h, rfl⟩, rfl⟩

/-- The only payment that was given up is found to have settled. -/
theorem runs_carryOut_reconcile {hash : String} {delivered sent : Msat}
    (only : e.books.ledger.timedOut = [hash]) :
    (e.carryOut .reconcile).Runs
      [(Query.waitPay hash lateWait).answered (.ok (.complete delivered sent))]
      (some { e with books := e.books.resolve hash .succeeded }) := by
  unfold carryOut reconcile
  rw [only]
  exact ⟨_, [], rfl, rfl, rfl⟩

/-- An engine that has nothing but a graph. -/
def ofGraph (g : Graph) : Engine where
  books := .ofGraph g
  liquidityReset := 18000
  paymentTimeout := 60
  defaults := {}

/-- Saving the graph replaces the snapshot. -/
theorem store_save (e : Engine) :
    e.save.books.store = { e.books.store with snapshot := e.save.books.store.snapshot } := by
  unfold save Store.save
  dsimp only
  split
  · rfl
  · rfl

theorem aside_save (e : Engine) : e.books.Aside e.save.books :=
  ⟨.refl _, by rw [store_save]⟩

theorem hears_of_run {r : Request} {summary : Summary}
    (h : (e.run r).Runs record (some (summary, e'))) :
    ∃ news, Hears e.paymentTimeout e.books record news e'.books ∧
      e'.paymentTimeout = e.paymentTimeout := by
  obtain ⟨run, hexec, heq⟩ := runs_run_iff.mp h
  obtain ⟨⟨summary', b'⟩, rfl, heq⟩ := Option.map_eq_some_iff.mp heq
  cases heq
  obtain ⟨payments, hears, -⟩ := Execution.exists_hears_of_runs hexec
  exact ⟨_, hears.aside rfl (aside_save { e with books := b' }), rfl⟩

theorem hears_of_notifyFailure {hash : String} {failure : PaymentFailure} {known : Bool}
    (timeout : UInt64) (h : (e.notifyFailure hash failure).Runs record (some (known, e'))) :
    Hears timeout e.books record [.told hash] e'.books ∧
      e'.paymentTimeout = e.paymentTimeout := by
  unfold notifyFailure at h
  cases haccept : e.books.ledger.acceptFailure hash with
  | none =>
      rw [haccept] at h
      obtain ⟨rfl, heq⟩ := h
      cases heq
      refine ⟨⟨rfl, ?_, .nil (.refl _), nofun⟩, rfl⟩
      show e.books.ledger = e.books.ledger.heed hash
      rw [Ledger.heed, haccept]
      rfl
  | some news =>
      obtain ⟨route, ledger⟩ := news
      rw [haccept] at h
      obtain ⟨now, rest, rfl, rfl, heq⟩ := Query.runs_ask_bind.mp h
      cases heq
      let heard : Books := { e.books with ledger := ledger }
      have hlearn : heard.Aside (heard.learn route failure now) :=
        (heard.unmoved_learn route failure now).aside
      refine ⟨⟨rfl, ?_, .nil ?_, nofun⟩, rfl⟩
      · show (heard.learn route failure now).ledger = e.books.ledger.heed hash
        rw [Execution.ledger_learn, Ledger.heed, haccept]
        rfl
      · exact ((e.books.unmoved_of_ledger ledger).aside.trans hlearn).trans
          (aside_save { e with books := heard.learn route failure now })

theorem hears_of_reconcileOne {hash : String} {known : Bool} (timeout : UInt64)
    (h : (e.reconcileOne hash).Runs record (some (known, e'))) :
    ∃ answer, Hears timeout e.books record [.asked hash answer] e'.books ∧
      e'.paymentTimeout = e.paymentTimeout := by
  obtain ⟨answer, rest, rfl, hnext⟩ := Query.runs_ask_bind.mp h
  refine ⟨answer, ?_⟩
  match answer, hnext with
  | .ok (.failed failure), hnext =>
      obtain ⟨hears, htimeout⟩ := hears_of_notifyFailure timeout hnext
      exact ⟨⟨congrArg (_ :: ·) hears.calls, hears.ledger, hears.booked, nofun⟩, htimeout⟩
  | .ok (.complete delivered sent), ⟨hrest, heq⟩ =>
      cases heq
      rw [hrest]
      exact ⟨⟨rfl, rfl, .nil (e.books.unmoved_of_ledger _).aside, nofun⟩, rfl⟩
  | .ok .timedOut, ⟨hrest, heq⟩ =>
      cases heq
      rw [hrest]
      exact ⟨⟨rfl, rfl, .nil (.refl _), nofun⟩, rfl⟩
  | .error err, ⟨hrest, heq⟩ =>
      cases heq
      rw [hrest]
      exact ⟨⟨rfl, rfl, .nil (.refl _), nofun⟩, rfl⟩

theorem hears_of_reconcileAll {hashes : List String} {count : Nat} (timeout : UInt64)
    (h : (reconcileAll hashes e).Runs record (some (count, e'))) :
    ∃ news, Hears timeout e.books record news e'.books ∧
      e'.paymentTimeout = e.paymentTimeout := by
  induction hashes generalizing e record count with
  | nil =>
      obtain ⟨rfl, heq⟩ := h
      cases heq
      exact ⟨[], .of_quiet rfl rfl (.refl _), rfl⟩
  | cons hash rest ih =>
      unfold reconcileAll at h
      rcases Dialogue.runs_bind.mp h with ⟨first, ⟨known, e₁⟩, _, rfl, hone, hrest⟩ | ⟨-, heq⟩
      · rcases Dialogue.runs_bind.mp hrest with ⟨second, ⟨n, e₂⟩, _, rfl, hall, rfl, heq⟩ | ⟨-, heq⟩
        · cases heq
          obtain ⟨answer, hfirst, htimeout⟩ := hears_of_reconcileOne timeout hone
          obtain ⟨news, hsecond, htimeout'⟩ := ih hall
          rw [List.append_nil]
          exact ⟨_, hfirst.append hsecond, htimeout'.trans htimeout⟩
        · cases heq
      · cases heq

theorem hears_of_carryOut {errand : Errand} (h : (e.carryOut errand).Runs record (some e')) :
    ∃ news, Hears e.paymentTimeout e.books record news e'.books ∧
      e'.paymentTimeout = e.paymentTimeout := by
  cases errand with
  | request r =>
      obtain ⟨⟨summary, e₁⟩, hrun, rfl⟩ := Dialogue.runs_map_some.mp h
      exact hears_of_run hrun
  | failure hash failure =>
      obtain ⟨⟨known, e₁⟩, hrun, rfl⟩ := Dialogue.runs_map_some.mp h
      exact ⟨_, hears_of_notifyFailure _ hrun⟩
  | reconcile =>
      obtain ⟨⟨count, e₁⟩, hrun, rfl⟩ := Dialogue.runs_map_some.mp h
      exact hears_of_reconcileAll _ hrun

/-- What the engine heard while it ran some errands. -/
theorem hears_of_carryOutAll {errands : List Errand}
    (h : (carryOutAll errands e).Runs record (some e')) :
    ∃ news, Hears e.paymentTimeout e.books record news e'.books := by
  induction errands generalizing e record with
  | nil =>
      obtain ⟨rfl, heq⟩ := h
      cases heq
      exact ⟨[], .of_quiet rfl rfl (.refl _)⟩
  | cons errand rest ih =>
      unfold carryOutAll at h
      rcases Dialogue.runs_bind.mp h with ⟨first, e₁, second, rfl, hfirst, hsecond⟩ | ⟨-, heq⟩
      · obtain ⟨news, hears, htimeout⟩ := hears_of_carryOut hfirst
        obtain ⟨more, hears'⟩ := ih hsecond
        rw [htimeout] at hears'
        exact ⟨news ++ more, hears.append hears'⟩
      · cases heq

/-- The only payment that these calls can be for is one that settled. -/
theorem fee?_of_paidAtOnce {timeout : UInt64} {r : Request} {route : Route} {invoice : Invoice}
    {sent : Msat} {now : Time} {stop : UInt64} {p : Payment}
    (h : p.exchanges timeout ⊆ Execution.paidAtOnce timeout r route invoice sent now stop) :
    p.route.amount = route.amount ∧ p.fee? = some (subClamped sent route.amount) := by
  obtain ⟨label, route', invoice', ending⟩ := p
  unfold Payment.exchanges Ending.exchanges Execution.paidAtOnce at h
  cases ending with
  | completed delivered sent' =>
      have hsame : route'.amount = route.amount ∧ delivered = route.amount ∧ sent' = sent := by
        simp at h
        exact ⟨h.1.1.1, h.2.2.2⟩
      obtain ⟨hamount, rfl, rfl⟩ := hsame
      exact ⟨hamount, rfl⟩
  | refused e => simp at h
  | failed failure => simp at h
  | foundPaid silence => simp at h
  | givenUp silence kept => simp at h

/-- However the node replies while the engine runs errands, the costs grow by just the payments that
were booked. If the hashes are fresh, a payment that comes to be remembered as succeeded is booked
once if a request made it just then, and not at all if the node told of it when the engine asked. -/
theorem booked_once_unless_late {errands : List Errand}
    (h : (carryOutAll errands e).Runs record (some e')) :
    ∃ news, Hears e.paymentTimeout e.books record news e'.books ∧
      (e.books.ledger.Fresh (hashesIn record) → e.books.ledger.BooksSuccesses news) ∧
      (e.books.store.costs.HasRoomFor (settledOf (paymentsIn news)) → ∀ side,
        e'.books.store.costs.feesPaid = e.books.store.costs.feesPaid +
            ((settledOf (paymentsIn news)).map fun p => (p.fee?.getD 0).toNat).sum ∧
          e'.books.store.costs.amountOn side = e.books.store.costs.amountOn side +
            ((settledOf (paymentsIn news)).map (·.route.amount.toNat)).sum) := by
  obtain ⟨news, hears⟩ := hears_of_carryOutAll h
  refine ⟨news, hears, fun fresh => ?_, hears.booked.totals fun p hp =>
    hears.routed p (mem_settledOf.mp hp).1⟩
  rw [hears.hashesIn_eq] at fresh
  exact fresh.booksSuccesses

/-- The payment of `moveOver 1` is made at once and booked. -/
theorem booked_once_unless_late_moveOver :
    (ofGraph Graph.twoChannels).books.ledger.Fresh ["h"] ∧
      ∃ e' news, (carryOutAll [.reconcile, .failure "h" ⟨204, "", none, none, none, none⟩,
          .request (moveOver 1)] (ofGraph Graph.twoChannels)).Runs
          (Execution.paidAtOnce 60 (moveOver 1) routeOver ⟨"h", "s"⟩ 1001 0 5) (some e') ∧
        Hears 60 (ofGraph Graph.twoChannels).books
          (Execution.paidAtOnce 60 (moveOver 1) routeOver ⟨"h", "s"⟩ 1001 0 5) news e'.books ∧
        (ofGraph Graph.twoChannels).books.ledger.BooksSuccesses news ∧
        e'.books.store.costs.feesPaid = 1 ∧
        ∀ side, e'.books.store.costs.amountOn side = 1000 := by
  obtain ⟨b', hrun, -⟩ := Execution.runs_moveOver
  let e' := { ofGraph Graph.twoChannels with books := b' }.save
  have hruns : (carryOutAll [.reconcile, .failure "h" ⟨204, "", none, none, none, none⟩,
      .request (moveOver 1)] (ofGraph Graph.twoChannels)).Runs _ (some e') :=
    runs_carryOutAll_cons ⟨rfl, rfl⟩ (runs_carryOutAll_cons ⟨rfl, rfl⟩
      (runs_carryOutAll_cons (runs_carryOut_request hrun) ⟨rfl, rfl⟩))
  rw [List.nil_append, List.nil_append, List.append_nil] at hruns
  obtain ⟨news, hears, hsuccesses, htotals⟩ := booked_once_unless_late hruns
  have hhashes := hears.hashesIn_eq
  obtain ⟨p, hp⟩ : ∃ p, paymentsIn news = [p] := by
    refine List.length_eq_one_iff.mp ?_
    rw [← List.length_map, ← hhashes]
    rfl
  obtain ⟨hamount, hfee⟩ :=
    fee?_of_paidAtOnce (hears.exchanges_subset (hp ▸ List.mem_singleton_self p))
  rw [hp, settledOf_singleton hfee] at htotals
  have room : Costs.HasRoomFor ∅ [p] := by
    refine Costs.hasRoomFor_empty ?_ ?_
    · rw [List.map_singleton, List.sum_singleton, hfee]
      decide
    · rw [List.map_singleton, List.sum_singleton, hamount]
      decide
  have fresh : (ofGraph Graph.twoChannels).books.ledger.Fresh ["h"] := ⟨by decide, by decide⟩
  refine ⟨fresh, e', news, hruns, hears, hsuccesses fresh, ?_, fun side => ?_⟩
  · rw [(htotals room .outgoing).1, List.map_singleton, List.sum_singleton, hfee]
    rfl
  · rw [(htotals room side).2, List.map_singleton, List.sum_singleton, hamount]
    rfl

end Engine

/-! ## A late success -/

/-- What is exchanged when the payment of `moveOver 1` is given up and its invoice stays. -/
def givenUpOver : Exchanges :=
  [Query.stopwatch.answered 0,
    (Query.createInvoice 1000 (invoiceLabel (moveOver 1) 0 1) invoiceDescription).answered
      (.ok ⟨"h", "s"⟩),
    (Query.sendPay routeOver.paymentHops "h" "s").answered (.ok ()),
    (Query.waitPay "h" 60).answered (.ok .timedOut),
    (Query.deleteInvoice (invoiceLabel (moveOver 1) 0 1)).answered (.error (.lost "DelInvoice: ")),
    Query.clock.answered 0, Query.stopwatch.answered 5]

theorem Execution.runs_givenUpOver :
    ∃ summary b', (execute 60 (moveOver 1) (.ofGraph Graph.twoChannels)).Runs givenUpOver
        (some (summary, b')) ∧
      b'.ledger = ⟨4, [⟨"h", .timedOut, routeOver⟩]⟩ ∧ b'.store.costs = ∅ := by
  let b₁ := (issued (.ofGraph Graph.twoChannels) "h" routeOver).resolve "h" .timedOut
  let lost : Reply InvoiceRemoval := .error (.lost "DelInvoice: ")
  have hwait : AwaitRun 60 (issued (.ofGraph Graph.twoChannels) "h" routeOver) routeOver
      (invoiceLabel (moveOver 1) 0 1) "h" _ _ := .givenUp (.ok .timedOut) _ lost rfl nofun
  have hchunk : TriesRun 60 (moveOver 1) 0 1000 0 1 none (.ofGraph Graph.twoChannels) _ _ :=
    .stopped (.failed routeOver (lookup_moveOver 1) (by decide) (.sent ⟨"h", "s"⟩ hwait) 0)
      (Or.inl rfl)
  obtain ⟨b₂, hrecord⟩ := @exists_recordAttempt b₁ (.failed (moveOver 1) 0 1000 (some routeOver) 1
    (.payment _) 0) 0 rfl
  have hrun := runs_execute_iff.mpr
    (ExecuteRun.finished 0 5 (ChunksRun.cons hchunk hrecord .nil))
  refine ⟨_, b₂, hrun, ?_, ?_⟩
  · rw [ledger_recordAttempt hrecord]
    rfl
  · rw [costs_recordAttempt hrecord]
    rfl

namespace Engine

/-- The payment of `moveOver 1` is given up. It settled all the same, as the node tells later. Then
it is remembered as succeeded, and the costs are still empty. -/
theorem late_success_not_booked :
    ∃ e', (carryOutAll [.request (moveOver 1), .reconcile] (.ofGraph Graph.twoChannels)).Runs
        (givenUpOver ++ [(Query.waitPay "h" lateWait).answered (.ok (.complete 1000 1001))])
        (some e') ∧
      e'.books.ledger.state? "h" = some .succeeded ∧ e'.books.store.costs = ∅ := by
  obtain ⟨summary, b', hrun, hledger, hcosts⟩ := Execution.runs_givenUpOver
  let e₁ := ({ ofGraph Graph.twoChannels with books := b' } : Engine).save
  have hreconcile := @runs_carryOut_reconcile e₁ "h" 1000 1001 (by
    show b'.ledger.timedOut = _
    rw [hledger]
    rfl)
  refine ⟨_, runs_carryOutAll_cons (runs_carryOut_request hrun)
    (runs_carryOutAll_cons hreconcile ⟨rfl, rfl⟩), ?_, ?_⟩
  · show (b'.ledger.resolve "h" .succeeded).state? "h" = _
    rw [hledger]
    rfl
  · exact (aside_save { ofGraph Graph.twoChannels with books := b' }).costs.trans hcosts

end Engine

end Rebalancer
