import Rebalancer.Execution
import Rebalancer.Proofs.Runs

set_option autoImplicit false

/-! # Runs of a request

How the carrying out of a request can go, as one relation for each part: the wait for a payment
(`AwaitRun`), a try (`PayRun`), the tries at a chunk (`TriesRun`) and the chunks (`ChunksRun`). Each
relation has one rule for each way to end and is shown to be that of the runs of the dialogue, so a
statement about all runs is proved by induction on the rules.
-/

namespace Rebalancer

/-- What was asked and answered while a request was carried out. -/
abbrev Exchanges := Dialogue.Record Query.interface

/-- The question with this answer. -/
abbrev Query.answered (q : Query) (answer : q.Answer) :
    (q : Query.interface.Question) × Query.interface.Answer q := ⟨q, answer⟩

theorem Query.runs_ask_bind {α : Type} {q : Query} {f : q.Answer → NodeDialogue α}
    {record : Exchanges} {result : Option α} :
    (q.ask >>= f).Runs record result ↔
      ∃ answer rest, record = q.answered answer :: rest ∧ (f answer).Runs rest result := Iff.rfl

theorem runs_ofOption_bind {α β : Type} {o : Option α} {f : α → NodeDialogue β}
    {record : Exchanges} {result : Option β} :
    ((.ofOption o : NodeDialogue α) >>= f).Runs record result ↔
      (∃ a, o = some a ∧ (f a).Runs record result) ∨ (o = none ∧ record = [] ∧ result = none) := by
  cases o with
  | none => simp
  | some a => simp

namespace Execution

variable {timeout : UInt64} {r : Request} {index : Nat} {amount : Msat} {b : Books} {route : Route}
  {label hash : String} {record : Exchanges}

/-! ## One try -/

/-- Why we stop waiting for a payment after this reply; nothing if the reply tells its end. -/
def stopReason? (timeout : UInt64) (hash : String) : Reply PaymentOutcome → Option String
  | .ok .timedOut => some s!"timed out after {timeout}s waiting for {hash}"
  | .error e => some s!"timed out waiting for {hash}: {e.message}"
  | .ok (.complete ..) | .ok (.failed _) => none

/-- The books of a payment that settled, if its day is a time. -/
def settled (b : Books) (route : Route) (hash : String) (fee : Msat) (now : Time) :
    Option (TryResult × Books) :=
  ((b.resolve hash .succeeded).settle route fee now).map fun b => (.ok fee, b)

/-- How the wait for a payment can go. -/
inductive AwaitRun (timeout : UInt64) (b : Books) (route : Route) (label hash : String) :
    Exchanges → Option (TryResult × Books) → Prop
  | completed (delivered sent : Msat) (now : Time) :
      AwaitRun timeout b route label hash
        [(Query.waitPay hash timeout).answered (.ok (.complete delivered sent)),
          Query.clock.answered now]
        (settled b route hash (subClamped sent delivered) now)
  | failed (failure : PaymentFailure) :
      AwaitRun timeout b route label hash
        [(Query.waitPay hash timeout).answered (.ok (.failed failure))]
        (some (.error (.failed failure), b.resolve hash .failed))
  | foundPaid (answer : Reply PaymentOutcome) (reason : String) (now : Time)
      (stop : stopReason? timeout hash answer = some reason) :
      AwaitRun timeout b route label hash
        [(Query.waitPay hash timeout).answered answer,
          (Query.deleteInvoice label).answered (.ok .alreadyPaid), Query.clock.answered now]
        (settled b route hash route.fee now)
  | givenUp (answer : Reply PaymentOutcome) (reason : String) (removal : Reply InvoiceRemoval)
      (stop : stopReason? timeout hash answer = some reason)
      (unpaid : removal ≠ .ok .alreadyPaid) :
      AwaitRun timeout b route label hash
        [(Query.waitPay hash timeout).answered answer,
          (Query.deleteInvoice label).answered removal]
        (some (.error (.timedOut reason), b.resolve hash .timedOut))

theorem runs_settle_iff {fee : Msat} {result : Option (TryResult × Books)} :
    (settle b route hash fee).Runs record result ↔
      ∃ now, record = [Query.clock.answered now] ∧ result = settled b route hash fee now := by
  unfold settle settled
  rw [Query.runs_ask_bind]
  constructor
  · rintro ⟨now, rest, rfl, h⟩
    refine ⟨now, ?_⟩
    rcases runs_ofOption_bind.mp h with ⟨b', hb, rfl, rfl⟩ | ⟨hb, rfl, rfl⟩
    · rw [hb]
      exact ⟨rfl, rfl⟩
    · rw [hb]
      exact ⟨rfl, rfl⟩
  · rintro ⟨now, rfl, rfl⟩
    refine ⟨now, [], rfl, runs_ofOption_bind.mpr ?_⟩
    cases (b.resolve hash .succeeded).settle route fee now with
    | none => exact Or.inr ⟨rfl, rfl, rfl⟩
    | some b' => exact Or.inl ⟨b', rfl, rfl, rfl⟩

theorem runs_giveUp_iff {reason : String} {result : Option (TryResult × Books)} :
    (giveUp b route label hash reason).Runs record result ↔
      (∃ now, record = [(Query.deleteInvoice label).answered (.ok .alreadyPaid),
          Query.clock.answered now] ∧ result = settled b route hash route.fee now) ∨
      (∃ removal, record = [(Query.deleteInvoice label).answered removal] ∧
        removal ≠ .ok .alreadyPaid ∧
        result = some (.error (.timedOut reason), b.resolve hash .timedOut)) := by
  unfold giveUp
  rw [Query.runs_ask_bind]
  constructor
  · rintro ⟨removal, rest, rfl, h⟩
    match removal, h with
    | .ok .alreadyPaid, h =>
        obtain ⟨now, rfl, rfl⟩ := runs_settle_iff.mp h
        exact Or.inl ⟨now, rfl, rfl⟩
    | .ok .deleted, ⟨hrest, hresult⟩ =>
        exact Or.inr ⟨.ok .deleted, by rw [hrest], nofun, hresult⟩
    | .error e, ⟨hrest, hresult⟩ => exact Or.inr ⟨.error e, by rw [hrest], nofun, hresult⟩
  · rintro (⟨now, rfl, rfl⟩ | ⟨removal, rfl, hd, rfl⟩)
    · exact ⟨.ok .alreadyPaid, _, rfl, runs_settle_iff.mpr ⟨now, rfl, rfl⟩⟩
    · refine ⟨removal, [], rfl, ?_⟩
      match removal, hd with
      | .ok .deleted, _ => exact ⟨rfl, rfl⟩
      | .ok .alreadyPaid, hd => exact absurd rfl hd
      | .error e, _ => exact ⟨rfl, rfl⟩

/-- After a reply that does not tell the end, the wait is over. -/
theorem runs_await_of_stop {answer : Reply PaymentOutcome} {reason : String}
    (stop : stopReason? timeout hash answer = some reason) {result : Option (TryResult × Books)}
    (h : (giveUp b route label hash reason).Runs record result) :
    (await timeout b route label hash).Runs ((Query.waitPay hash timeout).answered answer :: record)
      result := by
  unfold await
  rw [Query.runs_ask_bind]
  refine ⟨answer, record, rfl, ?_⟩
  match answer, stop with
  | .ok .timedOut, stop =>
      cases stop
      exact h
  | .error e, stop =>
      cases stop
      exact h

theorem runs_await_iff {result : Option (TryResult × Books)} :
    (await timeout b route label hash).Runs record result ↔
      AwaitRun timeout b route label hash record result := by
  constructor
  · unfold await
    rw [Query.runs_ask_bind]
    rintro ⟨answer, rest, rfl, h⟩
    have stopped : ∀ reason, stopReason? timeout hash answer = some reason →
        (giveUp b route label hash reason).Runs rest result →
        AwaitRun timeout b route label hash
          ((Query.waitPay hash timeout).answered answer :: rest) result := by
      intro reason hs hg
      rcases runs_giveUp_iff.mp hg with ⟨now, rfl, rfl⟩ | ⟨removal, rfl, hd, rfl⟩
      · exact .foundPaid answer reason now hs
      · exact .givenUp answer reason removal hs hd
    match answer, h, stopped with
    | .ok (.complete delivered sent), h, _ =>
        obtain ⟨now, rfl, rfl⟩ := runs_settle_iff.mp h
        exact .completed delivered sent now
    | .ok (.failed failure), h, _ =>
        obtain ⟨rfl, rfl⟩ := h
        exact .failed failure
    | .ok .timedOut, h, stopped => exact stopped _ rfl h
    | .error e, h, stopped => exact stopped _ rfl h
  · intro h
    cases h with
    | completed delivered sent now =>
        exact ⟨.ok (.complete delivered sent), _, rfl, runs_settle_iff.mpr ⟨now, rfl, rfl⟩⟩
    | failed failure => exact ⟨.ok (.failed failure), [], rfl, rfl, rfl⟩
    | foundPaid answer reason now stop =>
        exact runs_await_of_stop stop (runs_giveUp_iff.mpr (Or.inl ⟨now, rfl, rfl⟩))
    | givenUp answer reason removal stop unpaid =>
        exact runs_await_of_stop stop (runs_giveUp_iff.mpr (Or.inr ⟨removal, rfl, unpaid, rfl⟩))

/-- The books once the hash of an invoice is known. -/
def issued (b : Books) (hash : String) (route : Route) : Books :=
  { b with ledger := b.ledger.issue hash route }

/-- How a try can go. -/
inductive PayRun (timeout : UInt64) (b : Books) (route : Route) (label : String) :
    Exchanges → Option (TryResult × Books) → Prop
  | noInvoice (e : CallError) :
      PayRun timeout b route label
        [(Query.createInvoice route.amount label invoiceDescription).answered (.error e)]
        (some (.error (.notSent e.message), b))
  | notSent (invoice : Invoice) (e : CallError) :
      PayRun timeout b route label
        [(Query.createInvoice route.amount label invoiceDescription).answered (.ok invoice),
          (Query.sendPay route.paymentHops invoice.hash invoice.secret).answered (.error e)]
        (some (.error (.notSent e.message),
          (issued b invoice.hash route).resolve invoice.hash .failed))
  | sent (invoice : Invoice) {record : Exchanges} {result : Option (TryResult × Books)}
      (wait : AwaitRun timeout (issued b invoice.hash route) route label invoice.hash record
        result) :
      PayRun timeout b route label
        ((Query.createInvoice route.amount label invoiceDescription).answered (.ok invoice) ::
          (Query.sendPay route.paymentHops invoice.hash invoice.secret).answered (.ok ()) ::
          record)
        result

theorem runs_pay_iff {result : Option (TryResult × Books)} :
    (pay timeout b route label).Runs record result ↔
      PayRun timeout b route label record result := by
  constructor
  · unfold pay
    rw [Query.runs_ask_bind]
    rintro ⟨answer, rest, rfl, h⟩
    match answer, h with
    | .error e, ⟨hrest, hresult⟩ =>
        rw [hrest, hresult]
        exact .noInvoice e
    | .ok invoice, h =>
        obtain ⟨reply, rest', rfl, hsent⟩ := Query.runs_ask_bind.mp h
        match reply, hsent with
        | .error e, ⟨hrest, hresult⟩ =>
            rw [hrest, hresult]
            exact .notSent invoice e
        | .ok (), hsent => exact .sent invoice (runs_await_iff.mp hsent)
  · intro h
    cases h with
    | noInvoice e => exact ⟨.error e, [], rfl, rfl, rfl⟩
    | notSent invoice e => exact ⟨.ok invoice, _, rfl, .error e, [], rfl, rfl, rfl⟩
    | sent invoice wait =>
        exact ⟨.ok invoice, _, rfl, .ok (), _, rfl, runs_await_iff.mpr wait⟩

/-! ## The tries at a chunk -/

/-- How one try at a chunk can go, from the search for a route on. -/
inductive TryRun (timeout : UInt64) (r : Request) (index : Nat) (amount : Msat) (tries : Nat)
    (last : Option Route) (b : Books) : Exchanges → Option (Attempt × Option Route × Books) → Prop
  | noRoute (failure : Failure) (now : Time)
      (found : lookup b.order b.graph r amount = .error failure) :
      TryRun timeout r index amount tries last b [Query.clock.answered now]
        (some (.failed r index amount last tries failure now, none, b))
  | tooDear (route : Route) (now : Time) (found : lookup b.order b.graph r amount = .ok route)
      (dear : route.within r.maxRate = false) :
      TryRun timeout r index amount tries last b [Query.clock.answered now]
        (some (.failed r index amount (some route) tries
          (.feeExceeded (rateCeil route.fee route.amount) r.maxRate) now, none, b))
  | broken (route : Route) (found : lookup b.order b.graph r amount = .ok route)
      (cheap : route.within r.maxRate = true) {record : Exchanges}
      (paid : PayRun timeout b route (invoiceLabel r index tries) record none) :
      TryRun timeout r index amount tries last b record none
  | moved (route : Route) (found : lookup b.order b.graph r amount = .ok route)
      (cheap : route.within r.maxRate = true) {record : Exchanges} {fee : Msat} {b' : Books}
      (paid : PayRun timeout b route (invoiceLabel r index tries) record (some (.ok fee, b')))
      (now : Time) :
      TryRun timeout r index amount tries last b (record ++ [Query.clock.answered now])
        (some (.succeeded r index route fee tries now, none, b'))
  | failed (route : Route) (found : lookup b.order b.graph r amount = .ok route)
      (cheap : route.within r.maxRate = true) {record : Exchanges} {failure : TryFailure}
      {b' : Books}
      (paid : PayRun timeout b route (invoiceLabel r index tries) record
        (some (.error failure, b')))
      (now : Time) :
      TryRun timeout r index amount tries last b (record ++ [Query.clock.answered now])
        (some (.failed r index amount (some route) tries (.payment failure.reason) now,
          if failure.isTemporary then some route else none, b'.learnFrom route failure now))

variable {tries : Nat} {last : Option Route}

theorem runs_tryChunk_iff {result : Option (Attempt × Option Route × Books)} :
    (tryChunk timeout r index amount tries last b).Runs record result ↔
      TryRun timeout r index amount tries last b record result := by
  unfold tryChunk
  constructor
  · intro h
    cases hfound : lookup b.order b.graph r amount with
    | error failure =>
        rw [hfound] at h
        obtain ⟨now, _, rfl, rfl, rfl⟩ := h
        exact .noRoute failure now hfound
    | ok route =>
        rw [hfound] at h
        cases hcheap : route.within r.maxRate with
        | false =>
            simp only [hcheap, Bool.not_false, if_true] at h
            obtain ⟨now, _, rfl, rfl, rfl⟩ := h
            exact .tooDear route now hfound hcheap
        | true =>
            simp only [hcheap, Bool.not_true, Bool.false_eq_true, if_false] at h
            rcases Dialogue.runs_bind.mp h with
              ⟨first, paid, second, rfl, hpay, hrest⟩ | ⟨hpay, rfl⟩
            · obtain ⟨now, _, rfl, hend⟩ := Query.runs_ask_bind.mp hrest
              match paid, hpay, hend with
              | (.ok fee, b'), hpay, ⟨hsecond, hresult⟩ =>
                  rw [hsecond, hresult]
                  exact .moved route hfound hcheap (runs_pay_iff.mp hpay) now
              | (.error failure, b'), hpay, ⟨hsecond, hresult⟩ =>
                  rw [hsecond, hresult]
                  exact .failed route hfound hcheap (runs_pay_iff.mp hpay) now
            · exact .broken route hfound hcheap (runs_pay_iff.mp hpay)
  · intro h
    cases h with
    | noRoute failure now found =>
        rw [found]
        exact ⟨now, [], rfl, rfl, rfl⟩
    | tooDear route now found dear =>
        simp only [found, dear, Bool.not_false, if_true]
        exact ⟨now, [], rfl, rfl, rfl⟩
    | broken route found cheap paid =>
        simp only [found, cheap, Bool.not_true, Bool.false_eq_true, if_false]
        exact Dialogue.runs_bind.mpr (Or.inr ⟨runs_pay_iff.mpr paid, rfl⟩)
    | moved route found cheap paid now =>
        simp only [found, cheap, Bool.not_true, Bool.false_eq_true, if_false]
        exact Dialogue.runs_bind.mpr
          (Or.inl ⟨_, _, _, rfl, runs_pay_iff.mpr paid, now, [], rfl, rfl, rfl⟩)
    | failed route found cheap paid now =>
        simp only [found, cheap, Bool.not_true, Bool.false_eq_true, if_false]
        exact Dialogue.runs_bind.mpr
          (Or.inl ⟨_, _, _, rfl, runs_pay_iff.mpr paid, now, [], rfl, rfl, rfl⟩)

/-- How the tries at a chunk can go, of which at most `more` follow the first. -/
inductive TriesRun (timeout : UInt64) (r : Request) (index : Nat) (amount : Msat) :
    Nat → Nat → Option Route → Books → Exchanges → Option (Attempt × Books) → Prop
  | broken {more tries : Nat} {last : Option Route} {b : Books} {record : Exchanges}
      (step : TryRun timeout r index amount tries last b record none) :
      TriesRun timeout r index amount more tries last b record none
  | stopped {more tries : Nat} {last : Option Route} {b b' : Books} {record : Exchanges}
      {attempt : Attempt} {again : Option Route}
      (step : TryRun timeout r index amount tries last b record (some (attempt, again, b')))
      (final : more = 0 ∨ again = none) :
      TriesRun timeout r index amount more tries last b record (some (attempt, b'))
  | again {more tries : Nat} {last : Option Route} {b b' : Books} {first rest : Exchanges}
      {attempt : Attempt} {route : Route} {result : Option (Attempt × Books)}
      (step : TryRun timeout r index amount tries last b first (some (attempt, some route, b')))
      (next : TriesRun timeout r index amount more (tries + 1) (some route) b' rest result) :
      TriesRun timeout r index amount (more + 1) tries last b (first ++ rest) result

variable {more : Nat}

theorem runs_runTries_iff {result : Option (Attempt × Books)} :
    (runTries timeout r index amount more tries last b).Runs record result ↔
      TriesRun timeout r index amount more tries last b record result := by
  constructor
  · intro h
    induction more generalizing tries last b record with
    | zero =>
        unfold runTries at h
        rcases Dialogue.runs_bind.mp h with
          ⟨first, step, second, rfl, hstep, rfl, rfl⟩ | ⟨hstep, rfl⟩
        · rw [List.append_nil]
          exact .stopped (runs_tryChunk_iff.mp hstep) (Or.inl rfl)
        · exact .broken (runs_tryChunk_iff.mp hstep)
    | succ more ih =>
        unfold runTries at h
        rcases Dialogue.runs_bind.mp h with
          ⟨first, ⟨attempt, again, b'⟩, second, rfl, hstep, hnext⟩ | ⟨hstep, rfl⟩
        · cases again with
          | none =>
              obtain ⟨rfl, rfl⟩ := hnext
              rw [List.append_nil]
              exact .stopped (runs_tryChunk_iff.mp hstep) (Or.inr rfl)
          | some route => exact .again (runs_tryChunk_iff.mp hstep) (ih hnext)
        · exact .broken (runs_tryChunk_iff.mp hstep)
  · intro h
    induction h with
    | @broken more _ _ _ _ step =>
        cases more with
        | zero => exact Dialogue.runs_bind.mpr (Or.inr ⟨runs_tryChunk_iff.mpr step, rfl⟩)
        | succ more => exact Dialogue.runs_bind.mpr (Or.inr ⟨runs_tryChunk_iff.mpr step, rfl⟩)
    | @stopped more _ _ _ _ record _ again step final =>
        have hstep := runs_tryChunk_iff.mpr step
        cases more with
        | zero =>
            exact Dialogue.runs_bind.mpr
              (Or.inl ⟨record, _, [], (List.append_nil _).symm, hstep, rfl, rfl⟩)
        | succ more =>
            obtain rfl : again = none := final.resolve_left (Nat.succ_ne_zero more)
            exact Dialogue.runs_bind.mpr
              (Or.inl ⟨record, _, [], (List.append_nil _).symm, hstep, rfl, rfl⟩)
    | again step next ih =>
        exact Dialogue.runs_bind.mpr (Or.inl ⟨_, _, _, rfl, runs_tryChunk_iff.mpr step, ih⟩)

/-- Induction over the tries of a chunk that ends with an attempt. -/
@[elab_as_elim]
theorem TriesRun.ended_induction
    {motive : ∀ (more tries : Nat) (last : Option Route) (b : Books) (record : Exchanges)
      (attempt : Attempt) (b' : Books),
      TriesRun timeout r index amount more tries last b record (some (attempt, b')) → Prop}
    (stopped : ∀ {more tries last b b' record attempt again}
      (step : TryRun timeout r index amount tries last b record (some (attempt, again, b')))
      (final : more = 0 ∨ again = none),
      motive more tries last b record attempt b' (.stopped step final))
    (again : ∀ {more tries last b b₁ b' first rest failed attempt route}
      (step : TryRun timeout r index amount tries last b first (some (failed, some route, b₁)))
      (next : TriesRun timeout r index amount more (tries + 1) (some route) b₁ rest
        (some (attempt, b'))),
      motive more (tries + 1) (some route) b₁ rest attempt b' next →
        motive (more + 1) tries last b (first ++ rest) attempt b' (.again step next))
    {more tries : Nat} {last : Option Route} {b : Books} {record : Exchanges} {attempt : Attempt}
    {b' : Books}
    (h : TriesRun timeout r index amount more tries last b record (some (attempt, b'))) :
    motive more tries last b record attempt b' h := by
  suffices ∀ result (h : TriesRun timeout r index amount more tries last b record result)
      (hr : result = some (attempt, b')), motive more tries last b record attempt b' (hr ▸ h) from
    this _ h rfl
  clear h
  intro result h
  induction h with
  | broken step => exact nofun
  | stopped step final =>
      intro hr
      cases hr
      exact stopped step final
  | again step next ih =>
      intro hr
      subst hr
      exact again step next (ih rfl)

/-! ## The chunks -/

/-- How the chunks can go, the first of them with number `index`. -/
inductive ChunksRun (timeout : UInt64) (r : Request) :
    Nat → List Msat → Books → Exchanges → Option (List Attempt × Books) → Prop
  | nil {index : Nat} {b : Books} : ChunksRun timeout r index [] b [] (some ([], b))
  | broken {index : Nat} {amount : Msat} {rest : List Msat} {b : Books} {record : Exchanges}
      (chunk : TriesRun timeout r index amount (r.attempts - 1) 1 none b record none) :
      ChunksRun timeout r index (amount :: rest) b record none
  | unrecorded {index : Nat} {amount : Msat} {rest : List Msat} {b b' : Books} {record : Exchanges}
      {attempt : Attempt}
      (chunk : TriesRun timeout r index amount (r.attempts - 1) 1 none b record
        (some (attempt, b')))
      (lost : b'.recordAttempt attempt = none) :
      ChunksRun timeout r index (amount :: rest) b record none
  | cons {index : Nat} {amount : Msat} {rest : List Msat} {b b' b'' : Books}
      {first second : Exchanges} {attempt : Attempt} {result : Option (List Attempt × Books)}
      (chunk : TriesRun timeout r index amount (r.attempts - 1) 1 none b first
        (some (attempt, b')))
      (kept : b'.recordAttempt attempt = some b'')
      (next : ChunksRun timeout r (index + 1) rest b'' second result) :
      ChunksRun timeout r index (amount :: rest) b (first ++ second)
        (result.map fun (attempts, b) => (attempt :: attempts, b))

theorem runs_runChunks_iff {chunks : List Msat} {result : Option (List Attempt × Books)} :
    (runChunks timeout r index chunks b).Runs record result ↔
      ChunksRun timeout r index chunks b record result := by
  constructor
  · intro h
    induction chunks generalizing index b record result with
    | nil =>
        obtain ⟨rfl, rfl⟩ := h
        exact .nil
    | cons amount rest ih =>
        unfold runChunks at h
        rcases Dialogue.runs_bind.mp h with
          ⟨first, ⟨attempt, b'⟩, second, rfl, hchunk, hnext⟩ | ⟨hchunk, rfl⟩
        · have hchunk := runs_runTries_iff.mp hchunk
          rcases runs_ofOption_bind.mp hnext with ⟨b'', hkept, hrest⟩ | ⟨hlost, rfl, rfl⟩
          · rcases Dialogue.runs_bind.mp hrest with
              ⟨second, ⟨attempts, b₃⟩, _, rfl, hsecond, rfl, rfl⟩ | ⟨hsecond, rfl⟩
            · rw [List.append_nil]
              exact .cons hchunk hkept (ih hsecond)
            · exact .cons hchunk hkept (ih hsecond)
          · rw [List.append_nil]
            exact .unrecorded hchunk hlost
        · exact .broken (runs_runTries_iff.mp hchunk)
  · intro h
    induction h with
    | nil => exact ⟨rfl, rfl⟩
    | broken chunk => exact Dialogue.runs_bind.mpr (Or.inr ⟨runs_runTries_iff.mpr chunk, rfl⟩)
    | @unrecorded _ _ _ _ _ record _ chunk lost =>
        refine Dialogue.runs_bind.mpr (Or.inl ⟨record, _, [], (List.append_nil _).symm,
          runs_runTries_iff.mpr chunk, ?_⟩)
        exact runs_ofOption_bind.mpr (Or.inr ⟨lost, rfl, rfl⟩)
    | @cons _ _ _ _ _ _ _ second attempt result chunk kept next ih =>
        refine Dialogue.runs_bind.mpr (Or.inl ⟨_, _, second, rfl, runs_runTries_iff.mpr chunk, ?_⟩)
        refine runs_ofOption_bind.mpr (Or.inl ⟨_, kept, Dialogue.runs_bind.mpr ?_⟩)
        cases result with
        | none => exact Or.inr ⟨ih, rfl⟩
        | some done => exact Or.inl ⟨second, done, [], (List.append_nil _).symm, ih, rfl, rfl⟩

/-- Induction over chunks that all end: each with an attempt, which is recorded. -/
@[elab_as_elim]
theorem ChunksRun.ended_induction
    {motive : ∀ (index : Nat) (chunks : List Msat) (b : Books) (record : Exchanges)
      (attempts : List Attempt) (b' : Books),
      ChunksRun timeout r index chunks b record (some (attempts, b')) → Prop}
    (nil : ∀ {index b}, motive index [] b [] [] b .nil)
    (cons : ∀ {index amount rest b b₁ b₂ b' first second attempt attempts}
      (chunk : TriesRun timeout r index amount (r.attempts - 1) 1 none b first
        (some (attempt, b₁)))
      (kept : b₁.recordAttempt attempt = some b₂)
      (next : ChunksRun timeout r (index + 1) rest b₂ second (some (attempts, b'))),
      motive (index + 1) rest b₂ second attempts b' next →
        motive index (amount :: rest) b (first ++ second) (attempt :: attempts) b'
          (.cons chunk kept next))
    {index : Nat} {chunks : List Msat} {b : Books} {record : Exchanges} {attempts : List Attempt}
    {b' : Books} (h : ChunksRun timeout r index chunks b record (some (attempts, b'))) :
    motive index chunks b record attempts b' h := by
  suffices ∀ result (h : ChunksRun timeout r index chunks b record result)
      (hr : result = some (attempts, b')), motive index chunks b record attempts b' (hr ▸ h) from
    this _ h rfl
  clear h
  intro result h
  induction h generalizing attempts with
  | nil =>
      intro hr
      cases hr
      exact nil
  | broken chunk => exact nofun
  | unrecorded chunk lost => exact nofun
  | cons chunk kept next ih =>
      intro hr
      obtain ⟨⟨others, b₃⟩, rfl, heq⟩ := Option.map_eq_some_iff.mp hr
      cases heq
      exact cons chunk kept next (ih rfl)

/-- How the carrying out of a request can go, between two looks at the stopwatch. -/
inductive ExecuteRun (timeout : UInt64) (r : Request) (b : Books) :
    Exchanges → Option (Summary × Books) → Prop
  | broken (start : UInt64) {record : Exchanges}
      (chunks : ChunksRun timeout r 0 r.chunks b record none) :
      ExecuteRun timeout r b (Query.stopwatch.answered start :: record) none
  | finished (start stop : UInt64) {record : Exchanges} {attempts : List Attempt} {b' : Books}
      (chunks : ChunksRun timeout r 0 r.chunks b record (some (attempts, b'))) :
      ExecuteRun timeout r b
        (Query.stopwatch.answered start :: (record ++ [Query.stopwatch.answered stop]))
        ((Summary.ofAttempts? r attempts (subClamped stop start)).map (·, b'))

theorem runs_execute_iff {result : Option (Summary × Books)} :
    (execute timeout r b).Runs record result ↔ ExecuteRun timeout r b record result := by
  constructor
  · unfold execute
    rw [Query.runs_ask_bind]
    rintro ⟨start, rest, rfl, h⟩
    rcases Dialogue.runs_bind.mp h with
      ⟨first, ⟨attempts, b'⟩, second, rfl, hchunks, hlast⟩ | ⟨hchunks, rfl⟩
    · obtain ⟨stop, rest, rfl, hend⟩ := Query.runs_ask_bind.mp hlast
      have hrun := ExecuteRun.finished start stop (runs_runChunks_iff.mp hchunks)
      rcases runs_ofOption_bind.mp hend with ⟨summary, hs, rfl, rfl⟩ | ⟨hs, rfl, rfl⟩
      · rw [hs] at hrun
        exact hrun
      · rw [hs] at hrun
        exact hrun
    · exact .broken start (runs_runChunks_iff.mp hchunks)
  · intro h
    cases h with
    | broken start chunks =>
        refine Query.runs_ask_bind.mpr ⟨start, _, rfl, ?_⟩
        exact Dialogue.runs_bind.mpr (Or.inr ⟨runs_runChunks_iff.mpr chunks, rfl⟩)
    | @finished start stop _ attempts b' chunks =>
        refine Query.runs_ask_bind.mpr ⟨start, _, rfl, Dialogue.runs_bind.mpr ?_⟩
        refine Or.inl ⟨_, _, _, rfl, runs_runChunks_iff.mpr chunks, ?_⟩
        refine Query.runs_ask_bind.mpr ⟨stop, [], rfl, runs_ofOption_bind.mpr ?_⟩
        cases Summary.ofAttempts? r attempts (subClamped stop start) with
        | none => exact Or.inr ⟨rfl, rfl, rfl⟩
        | some summary => exact Or.inl ⟨summary, rfl, rfl, rfl⟩

/-- A request that returns a summary has come to the end of its chunks. -/
theorem exists_chunks_of_runs {summary : Summary} {b' : Books}
    (h : (execute timeout r b).Runs record (some (summary, b'))) :
    ∃ start stop middle attempts,
      record = Query.stopwatch.answered start :: (middle ++ [Query.stopwatch.answered stop]) ∧
        ChunksRun timeout r 0 r.chunks b middle (some (attempts, b')) ∧
        Summary.ofAttempts? r attempts (subClamped stop start) = some summary := by
  generalize hr : some (summary, b') = result at h
  cases runs_execute_iff.mp h with
  | broken start chunks => cases hr
  | @finished start stop middle attempts b'' chunks =>
      obtain ⟨summary', hs, heq⟩ := Option.map_eq_some_iff.mp hr.symm
      cases heq
      exact ⟨start, stop, middle, attempts, rfl, chunks, hs⟩

end Execution

end Rebalancer
