import Rebalancer.Proofs.Execution.Attempts
import Rebalancer.Proofs.News

set_option autoImplicit false

/-! # The payments of a request

What the engine hears when a request is carried out is that its payments were made, chunk by chunk
(`exists_hears_of_runs`). Of the payments for one chunk all failed but the last one, and the attempt
is a success just if that one settled (`PaysFor`).
-/

namespace Rebalancer

/-- The payments for the chunk with number `index` and its attempt. -/
structure PaysFor (r : Request) (index : Nat) (payments : List Payment) (a : Attempt) : Prop where
  labels : ∀ p ∈ payments, ∃ tries, p.label = invoiceLabel r index tries
  amounts : ∀ p ∈ payments, p.route.amount = a.amount
  failed_before : ∀ p ∈ payments.dropLast, p.state = .failed
  success_iff : a.success = true ↔ ∃ p ∈ payments.getLast?, p.state = .succeeded
  fee_eq : a.success = true → ∀ p ∈ payments.getLast?, p.fee? = some a.fee

/-- The payment of one try. -/
theorem PaysFor.of_try {r : Request} {index tries : Nat} {payment : Option Payment} {a : Attempt}
    (sameTry : ∀ p ∈ payment, p.label = invoiceLabel r index tries ∧ p.route.amount = a.amount)
    (fee_eq : payment.bind (·.fee?) = if a.success = true then some a.fee else none) :
    PaysFor r index payment.toList a := by
  have hlast : payment.toList.getLast? = payment := by cases payment <;> rfl
  refine ⟨fun p hp => ⟨tries, (sameTry p (by simpa using hp)).1⟩,
    fun p hp => (sameTry p (by simpa using hp)).2, ?_, ?_, ?_⟩
  · cases payment with
    | none => exact nofun
    | some p => exact nofun
  · rw [hlast, exists_succeeded_iff, fee_eq]
    cases a.success <;> simp
  · intro hsuccess p hp
    rw [hlast] at hp
    rw [hp, if_pos hsuccess] at fee_eq
    exact fee_eq

/-- Payments that failed may come before. -/
theorem PaysFor.after_failed {r : Request} {index : Nat} {first rest : List Payment}
    {a a' : Attempt} (h : PaysFor r index first a) (failed : ∀ p ∈ first, p.state = .failed)
    (same : a.amount = a'.amount) (h' : PaysFor r index rest a') :
    PaysFor r index (first ++ rest) a' := by
  have hlabels : ∀ p ∈ first ++ rest, ∃ tries, p.label = invoiceLabel r index tries :=
    fun p hp => (List.mem_append.mp hp).elim (h.labels p) (h'.labels p)
  have hamounts : ∀ p ∈ first ++ rest, p.route.amount = a'.amount :=
    fun p hp => (List.mem_append.mp hp).elim (fun hp => (h.amounts p hp).trans same) (h'.amounts p)
  cases rest with
  | nil =>
      have hfailure : ¬ a'.success = true := by
        rw [h'.success_iff]
        simp
      rw [List.append_nil] at hlabels hamounts ⊢
      refine ⟨hlabels, hamounts, fun p hp => failed p (List.mem_of_mem_dropLast hp), ?_,
        fun hsuccess => absurd hsuccess hfailure⟩
      refine iff_of_false hfailure ?_
      rintro ⟨p, hp, hstate⟩
      rw [failed p (List.mem_of_getLast? hp)] at hstate
      cases hstate
  | cons p rest =>
      have hlast : (first ++ p :: rest).getLast? = (p :: rest).getLast? := by
        rw [List.getLast?_append, List.getLast?_cons]
        rfl
      refine ⟨hlabels, hamounts, ?_, hlast ▸ h'.success_iff, hlast ▸ h'.fee_eq⟩
      intro q hq
      rw [List.dropLast_append_cons] at hq
      exact (List.mem_append.mp hq).elim (failed q) (h'.failed_before q)

namespace Execution

variable {timeout : UInt64} {r : Request} {index tries more : Nat} {amount : Msat} {b b' : Books}
  {route : Route} {last : Option Route} {label : String} {invoice : Invoice} {record : Exchanges}
  {res : TryResult} {attempt : Attempt}

/-! ## Runs -/

theorem ledger_of_settled {hash : String} {fee : Msat} {now : Time}
    (h : settled b route hash fee now = some (res, b')) :
    b'.ledger = b.ledger.resolve hash .succeeded := by
  obtain ⟨b'', hb, heq⟩ := Option.map_eq_some_iff.mp h
  obtain ⟨store, -, rfl⟩ := Option.map_eq_some_iff.mp hb
  cases heq
  rfl

theorem exists_silent {hash reason : String} {answer : Reply PaymentOutcome}
    (stop : stopReason? timeout hash answer = some reason) :
    ∃ silence, answer = Ending.silent silence := by
  match answer, stop with
  | .ok .timedOut, _ => exact ⟨none, rfl⟩
  | .error e, _ => exact ⟨some e, rfl⟩

theorem exists_unpaid {removal : Reply InvoiceRemoval} (unpaid : removal ≠ .ok .alreadyPaid) :
    ∃ kept, removal = Ending.unpaid kept := by
  match removal, unpaid with
  | .ok .deleted, _ => exact ⟨none, rfl⟩
  | .error e, _ => exact ⟨some e, rfl⟩

/-- The end of a payment that was sent. -/
theorem AwaitRun.exists_ending
    (h : AwaitRun timeout b route label invoice.hash record (some (res, b')))
    (hops : List PaymentHop) :
    ∃ ending : Ending, ending.exchanges timeout hops label invoice =
        (Query.sendPay hops invoice.hash invoice.secret).answered (.ok ()) ::
          paymentCalls record ∧
      b'.ledger = b.ledger.resolve invoice.hash ending.state ∧
      (Payment.mk label route invoice ending).fee? = res.toOption ∧
      ∀ failure, res = .error failure → failure.isTemporary = true → ending.state = .failed := by
  generalize hr : some (res, b') = result at h
  cases h with
  | completed delivered sent now =>
      obtain ⟨rfl, -⟩ := settles_of_settled hr.symm
      exact ⟨.completed delivered sent, rfl, ledger_of_settled hr.symm, rfl, nofun⟩
  | failed failure =>
      cases hr
      exact ⟨.failed failure, rfl, rfl, rfl, fun _ _ _ => rfl⟩
  | foundPaid answer reason now stop =>
      obtain ⟨silence, rfl⟩ := exists_silent stop
      obtain ⟨rfl, -⟩ := settles_of_settled hr.symm
      exact ⟨.foundPaid silence, rfl, ledger_of_settled hr.symm, rfl, nofun⟩
  | givenUp answer reason removal stop unpaid =>
      obtain ⟨silence, rfl⟩ := exists_silent stop
      obtain ⟨kept, rfl⟩ := exists_unpaid unpaid
      cases hr
      refine ⟨.givenUp silence kept, rfl, rfl, rfl, ?_⟩
      rintro _ ⟨⟩ ⟨⟩

theorem PayRun.booked (h : PayRun timeout b route label record (some (res, b')))
    {payment : Option Payment} (sameRoute : ∀ p ∈ payment, p.route = route)
    (fee_eq : payment.bind (·.fee?) = res.toOption) : b.Booked (settledOf payment.toList) b' := by
  match res, h, fee_eq with
  | .ok fee, h, fee_eq =>
      obtain ⟨p, rfl, hfee⟩ := Option.bind_eq_some_iff.mp fee_eq
      obtain ⟨now, hs⟩ := h.settles
      rw [Option.toList_some, settledOf_singleton hfee]
      rw [← sameRoute p rfl] at hs
      exact .cons (.refl b) hfee hs (.nil (.refl b'))
  | .error failure, h, fee_eq =>
      rw [settledOf_toList fee_eq]
      exact .nil h.unmoved.aside

/-- A try makes at most one payment. -/
theorem PayRun.exists_hears (h : PayRun timeout b route label record (some (res, b')))
    (routed : route.hops ≠ []) :
    ∃ payment : Option Payment, Hears timeout b record (payment.toList.map .paid) b' ∧
      (∀ p ∈ payment, p.label = label ∧ p.route = route) ∧
      payment.bind (·.fee?) = res.toOption ∧
      ∀ failure, res = .error failure → failure.isTemporary = true →
        ∀ p ∈ payment, p.state = .failed := by
  have hbooked := @h.booked
  generalize hr : some (res, b') = result at h
  cases h with
  | noInvoice e =>
      cases hr
      exact ⟨none, .of_quiet rfl rfl (.refl b), nofun, rfl, nofun⟩
  | notSent invoice e =>
      cases hr
      refine ⟨some ⟨label, route, invoice, .refused e⟩,
        .single rfl rfl (@hbooked (some _) ?_ rfl) routed, ?_, rfl, ?_⟩
      · rintro _ ⟨⟩
        rfl
      · rintro _ ⟨⟩
        exact ⟨rfl, rfl⟩
      · rintro _ _ _ _ ⟨⟩
        rfl
  | @sent invoice record _ wait =>
      subst hr
      obtain ⟨ending, hcalls, hledger, hfee, hfailed⟩ := wait.exists_ending route.paymentHops
      refine ⟨some ⟨label, route, invoice, ending⟩,
        .single ?_ hledger (@hbooked (some _) ?_ hfee) routed, ?_, hfee, ?_⟩
      · rw [Payment.exchanges, hcalls]
        rfl
      · rintro _ ⟨⟩
        rfl
      · rintro _ ⟨⟩
        exact ⟨rfl, rfl⟩
      · rintro failure hfailure htemporary _ ⟨⟩
        exact hfailed failure hfailure htemporary

theorem ledger_learn (b : Books) (route : Route) (f : PaymentFailure) (now : Time) :
    (b.learn route f now).ledger = b.ledger := by
  unfold Books.learn
  split
  · rfl
  · split
    · rfl
    · rfl

theorem ledger_learnFrom (b : Books) (route : Route) (failure : TryFailure) (now : Time) :
    (b.learnFrom route failure now).ledger = b.ledger := by
  cases failure with
  | failed f => exact ledger_learn b route f now
  | timedOut reason => rfl
  | notSent reason => rfl

theorem ledger_recordAttempt (h : b.recordAttempt attempt = some b') : b'.ledger = b.ledger := by
  obtain ⟨_, -, rfl⟩ := Option.map_eq_some_iff.mp h
  rfl

theorem aside_recordAttempt (h : b.recordAttempt attempt = some b') : b.Aside b' :=
  ⟨graph_recordAttempt h ▸ .refl b.graph, costs_recordAttempt h⟩

theorem TryRun.exists_hears {again : Option Route}
    (h : TryRun timeout r index amount tries last b record (some (attempt, again, b'))) :
    ∃ payments, Hears timeout b record (payments.map .paid) b' ∧ PaysFor r index payments attempt ∧
      ∀ route, again = some route → ∀ p ∈ payments, p.state = .failed := by
  cases h with
  | noRoute failure now found =>
      exact ⟨[], .of_quiet rfl rfl (.refl b), @PaysFor.of_try _ _ tries none _ nofun rfl, nofun⟩
  | tooDear route now found dear =>
      exact ⟨[], .of_quiet rfl rfl (.refl b), @PaysFor.of_try _ _ tries none _ nofun rfl, nofun⟩
  | moved route found cheap paid now =>
      obtain ⟨payment, hears, hover, hfee, -⟩ := paid.exists_hears (hops_of_lookup found)
      exact ⟨payment.toList, hears.append_quiet rfl,
        .of_try (fun p hp => ⟨(hover p hp).1, by rw [(hover p hp).2]; rfl⟩) hfee, nofun⟩
  | @failed route found cheap _ failure b'' paid now =>
      obtain ⟨payment, hears, hover, hfee, hfailed⟩ := paid.exists_hears (hops_of_lookup found)
      have htry : ∀ p ∈ payment,
          p.label = invoiceLabel r index tries ∧ p.route.amount = amount := by
        intro p hp
        obtain ⟨hlabel, rfl⟩ := hover p hp
        exact ⟨hlabel, (getLast?_of_lookup found).1⟩
      refine ⟨payment.toList, (hears.aside (ledger_learnFrom ..)
        (b''.unmoved_learnFrom route failure now).aside).append_quiet rfl, .of_try htry hfee, ?_⟩
      intro again hagain p hp
      cases htemporary : failure.isTemporary with
      | false =>
          rw [htemporary] at hagain
          cases hagain
      | true => exact hfailed failure rfl htemporary p (by simpa using hp)

theorem TriesRun.exists_hears
    (h : TriesRun timeout r index amount more tries last b record (some (attempt, b'))) :
    ∃ payments, Hears timeout b record (payments.map .paid) b' ∧
      PaysFor r index payments attempt := by
  induction h using TriesRun.ended_induction with
  | stopped step final =>
      obtain ⟨payments, hears, hfor, -⟩ := step.exists_hears
      exact ⟨payments, hears, hfor⟩
  | again step next ih =>
      obtain ⟨first, hfirst, hfor, hfailed⟩ := step.exists_hears
      obtain ⟨rest, hrest, hfor'⟩ := ih
      have hsame := step.attempt_eq.2.1.trans next.attempt_bounds.2.1.symm
      exact ⟨first ++ rest, List.map_append ▸ hfirst.append hrest,
        hfor.after_failed (hfailed _ rfl) hsame hfor'⟩

/-- The payments of some chunks, chunk by chunk. -/
theorem ChunksRun.exists_hears {chunks : List Msat} {attempts : List Attempt}
    (h : ChunksRun timeout r index chunks b record (some (attempts, b'))) :
    ∃ payments : List (List Payment), Hears timeout b record (payments.flatten.map .paid) b' ∧
      payments.length = attempts.length ∧
      ∀ i ps a, payments[i]? = some ps → attempts[i]? = some a → PaysFor r (index + i) ps a := by
  induction h using ChunksRun.ended_induction with
  | nil => exact ⟨[], .of_quiet rfl rfl (.refl _), rfl, nofun⟩
  | cons chunk kept next ih =>
      obtain ⟨first, hfirst, hfor⟩ := chunk.exists_hears
      obtain ⟨later, hlater, hlength, hfors⟩ := ih
      have hkept := hfirst.aside (ledger_recordAttempt kept) (aside_recordAttempt kept)
      refine ⟨first :: later, ?_, congrArg (· + 1) hlength, ?_⟩
      · rw [List.flatten_cons, List.map_append]
        exact hkept.append hlater
      intro i ps a hps ha
      cases i with
      | zero =>
          cases hps
          cases ha
          exact hfor
      | succ i =>
          rw [Nat.add_comm i, ← Nat.add_assoc]
          exact hfors i ps a hps ha

/-- The payments of a request, chunk by chunk. -/
theorem exists_hears_of_runs {summary : Summary}
    (h : (execute timeout r b).Runs record (some (summary, b'))) :
    ∃ payments : List (List Payment), Hears timeout b record (payments.flatten.map .paid) b' ∧
      payments.length = summary.attempts.length ∧
      ∀ i ps a, payments[i]? = some ps → summary.attempts[i]? = some a → PaysFor r i ps a := by
  obtain ⟨start, stop, middle, attempts, rfl, chunks, hs⟩ := exists_chunks_of_runs h
  obtain ⟨payments, hears, hlength, hfor⟩ := chunks.exists_hears
  simp only [Nat.zero_add] at hfor
  rw [(Summary.eq_of_ofAttempts? hs).1]
  have hall : Hears timeout b (middle ++ [Query.stopwatch.answered stop])
      (payments.flatten.map .paid) b' := hears.append_quiet rfl
  exact ⟨payments, ⟨hall.calls, hall.ledger, hall.booked, hall.routed⟩, hlength, hfor⟩

end Execution

end Rebalancer
