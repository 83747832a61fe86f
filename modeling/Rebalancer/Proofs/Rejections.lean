import Rebalancer.Proofs.Engine
import Rebalancer.Proofs.Execution.Refusals

set_option autoImplicit false

/-! # Rebalances that are rejected

A rebalance is rejected with no trace if its parameters make no sense or a named peer is not found.
If it passes, but the graph cannot serve its ends, it is carried out all the same: no payment is
asked for, but each chunk leaves an attempt at an invalid request (`rejects_iff`).
-/

namespace Rebalancer

/-- What the operator can have rebalanced. -/
inductive Rebalance
  | circular (p : CircularParams)
  | pull (p : PullParams)
  | push (p : PushParams)
  | betweenNodes (p : NodeParams)
deriving DecidableEq, Repr

/-! ## Requests -/

variable {d : Defaults} {g : Graph} {seed : UInt64} {r : Request}

/-- The identifier is no matter. -/
theorem Request.flaw?_withId (r : Request) (id : String) :
    ({ r with id := id } : Request).flaw? = r.flaw? := by
  cases r
  rfl

/-- The request that the parameters make, whatever is wrong with it. -/
def ChunkParams.made (p : ChunkParams) (target : Target) (d : Defaults) (seed : UInt64) :
    Request where
  id := Request.idOf seed
  target := target
  amount := satoshi (p.amount.getD d.amount)
  split := satoshi (p.splitAmount.getD d.splitAmount)
  maxRate := p.maxRate.getD d.maxRate
  attempts := p.attempts.getD d.attempts
  maxHops := p.maxHops.getD d.maxHops

theorem ChunkParams.request_eq_ok_iff {p : ChunkParams} {target : Target} :
    p.request target d seed = .ok r ↔
      (p.made target d seed).flaw? = none ∧ p.made target d seed = r := by
  unfold request
  dsimp only
  split
  · rename_i hflaw
    exact ⟨fun h => ⟨hflaw, Except.ok.inj h⟩, fun h => congrArg Except.ok h.2⟩
  · rename_i refusal hflaw
    refine ⟨nofun, fun h => ?_⟩
    cases hflaw.symm.trans h.1

/-- The random word is seen in the identifier only. -/
theorem ChunkParams.request_seed {p : ChunkParams} {target : Target}
    (h : p.request target d seed = .ok r) (seed' : UInt64) :
    p.request target d seed' = .ok { r with id := Request.idOf seed' } := by
  obtain ⟨hflaw, rfl⟩ := request_eq_ok_iff.mp h
  have hmade : p.made target d seed' = { p.made target d seed with id := Request.idOf seed' } := rfl
  rw [← hmade]
  refine request_eq_ok_iff.mpr ⟨?_, rfl⟩
  rw [hmade, Request.flaw?_withId, hflaw]

/-- The request that is made of the parameters, where `g` tells the channels with named peers. -/
def Rebalance.request (g : Graph) (d : Defaults) (seed : UInt64) :
    Rebalance → Except Failure Request
  | .circular p => p.request d seed
  | .pull p => p.request d seed
  | .push p => p.request d seed
  | .betweenNodes p => do
    let (exit, entry) ← g.resolveEnds p.outNode p.inNode
    (p.circular exit entry).request d seed

theorem Rebalance.request_seed {c : Rebalance} (h : c.request g d seed = .ok r) (seed' : UInt64) :
    c.request g d seed' = .ok { r with id := Request.idOf seed' } := by
  cases c with
  | circular p => exact ChunkParams.request_seed h seed'
  | pull p => exact ChunkParams.request_seed h seed'
  | push p => exact ChunkParams.request_seed h seed'
  | betweenNodes p =>
      obtain ⟨⟨exit, entry⟩, hends, hrequest⟩ := except_bind_eq_ok_iff.mp h
      exact except_bind_eq_ok_iff.mpr ⟨_, hends, ChunkParams.request_seed hrequest seed'⟩

namespace Engine

variable {e e' : Engine} {c : Rebalance} {record : Exchanges} {x : Refusal}

/-- Carries out a rebalance, unless it is rejected. -/
def rebalance (e : Engine) : Rebalance → NodeDialogue (Except Failure Summary × Engine)
  | .circular p => e.circular p
  | .pull p => e.pull p
  | .push p => e.push p
  | .betweenNodes p => e.betweenNodes p

/-! ## Runs -/

theorem runs_run_ok_iff {result : Option (Except Failure Summary × Engine)} :
    (do
      let (summary, e) ← e.run r
      return (.ok summary, e) : NodeDialogue (Except Failure Summary × Engine)).Runs record result ↔
      ∃ run, (Execution.execute e.paymentTimeout r e.books).Runs record run ∧
        run.map (fun (summary, b) => (.ok summary, { e with books := b }.save)) = result := by
  let answer (done : Summary × Engine) : Except Failure Summary × Engine := (.ok done.1, done.2)
  refine (Dialogue.runs_map (f := answer)).trans ?_
  constructor
  · rintro ⟨done, hdone, rfl⟩
    obtain ⟨run, hrun, rfl⟩ := runs_run_iff.mp hdone
    refine ⟨run, hrun, ?_⟩
    rw [Option.map_map]
    rfl
  · rintro ⟨run, hrun, rfl⟩
    refine ⟨_, runs_run_iff.mpr ⟨run, hrun, rfl⟩, ?_⟩
    rw [Option.map_map]
    rfl

/-- A request that is made is carried out. -/
theorem runs_runRequest {request : Defaults → UInt64 → Except Failure Request} {summary : Summary}
    {b : Books} (made : request e.defaults seed = .ok r)
    (run : (Execution.execute e.paymentTimeout r e.books).Runs record (some (summary, b))) :
    (e.runRequest request).Runs (Query.random.answered seed :: record)
      (some (.ok summary, { e with books := b }.save)) := by
  refine Query.runs_ask_bind.mpr ⟨seed, record, rfl, ?_⟩
  rw [made]
  exact runs_run_ok_iff.mpr ⟨_, run, rfl⟩

/-- How a rebalance can go on after a request was made of it, or not. -/
inductive RebalanceRun (e : Engine) (c : Rebalance) :
    Exchanges → Option (Except Failure Summary × Engine) → Prop
  | rejected {record : Exchanges} (failure : Failure)
      (none_made : ∀ seed r, c.request e.books.graph e.defaults seed ≠ .ok r) :
      RebalanceRun e c record (some (.error failure, e))
  | carriedOut (seed : UInt64) {r : Request} {record : Exchanges}
      {result : Option (Summary × Books)}
      (made : c.request e.books.graph e.defaults seed = .ok r)
      (run : (Execution.execute e.paymentTimeout r e.books).Runs record result) :
      RebalanceRun e c (Query.random.answered seed :: record)
        (result.map fun (summary, b) => (.ok summary, { e with books := b }.save))

theorem rebalanceRun_of_runRequest {request : Defaults → UInt64 → Except Failure Request}
    (hrequest : ∀ seed, c.request e.books.graph e.defaults seed = request e.defaults seed)
    {result : Option (Except Failure Summary × Engine)}
    (h : (e.runRequest request).Runs record result) : e.RebalanceRun c record result := by
  obtain ⟨seed, rest, rfl, hrest⟩ := Query.runs_ask_bind.mp h
  cases hmade : request e.defaults seed with
  | error failure =>
      rw [hmade] at hrest
      obtain ⟨-, rfl⟩ := hrest
      refine .rejected failure fun seed' r hr => ?_
      -- If another word makes a request, so does this one.
      cases (hmade.symm.trans (hrequest seed).symm).trans (Rebalance.request_seed hr seed)
  | ok r =>
      rw [hmade] at hrest
      obtain ⟨run, hexec, rfl⟩ := runs_run_ok_iff.mp hrest
      exact .carriedOut seed ((hrequest seed).trans hmade) hexec

theorem rebalanceRun_of_runs {result : Option (Except Failure Summary × Engine)}
    (h : (e.rebalance c).Runs record result) : e.RebalanceRun c record result := by
  cases c with
  | circular p => exact rebalanceRun_of_runRequest (fun _ => rfl) h
  | pull p => exact rebalanceRun_of_runRequest (fun _ => rfl) h
  | push p => exact rebalanceRun_of_runRequest (fun _ => rfl) h
  | betweenNodes p =>
      have hrun : (e.betweenNodes p).Runs record result := h
      unfold betweenNodes at hrun
      cases hends : e.books.graph.resolveEnds p.outNode p.inNode with
      | error failure =>
          rw [hends] at hrun
          obtain ⟨-, rfl⟩ := hrun
          refine .rejected failure fun seed r hr => ?_
          obtain ⟨ends, hends', -⟩ := except_bind_eq_ok_iff.mp hr
          cases hends.symm.trans hends'
      | ok ends =>
          rw [hends] at hrun
          refine rebalanceRun_of_runRequest (fun seed => ?_) hrun
          show (e.books.graph.resolveEnds p.outNode p.inNode >>= _) = _
          rw [hends]
          rfl

/-! ## Invalid requests -/

/-- A lookup for the request that is made answers that the request is invalid. -/
def Refuses (e : Engine) (c : Rebalance) (x : Refusal) : Prop :=
  ∃ seed r amount, c.request e.books.graph e.defaults seed = .ok r ∧
    Execution.lookup e.books.order e.books.graph r amount = .error (.invalid x)

/-- An invalid request is rejected before any chunk is tried: it comes back with just this error,
no payment is asked for, and nothing changes. No attempt at an invalid request is recorded. -/
structure Rejects (e : Engine) (c : Rebalance) (record : Exchanges)
    (result : Option (Except Failure Summary × Engine)) : Prop where
  returned : ∀ x, e.Refuses c x → result = some (.error (.invalid x), e)
  unpaid : ∀ x, e.Refuses c x → callsIn record = []
  in_summary : ∀ summary e', result = some (.ok summary, e') → ∀ a ∈ summary.attempts, ¬ a.IsInvalid
  in_memory : ∀ answer e', result = some (answer, e') →
    ∀ a ∈ e'.books.history.recent, a ∈ e.books.history.recent ∨ ¬ a.IsInvalid
  on_disk : ∀ answer e', result = some (answer, e') →
    ∀ row ∈ e'.books.store.attempts, row ∈ e.books.store.attempts ∨ ¬ row.IsInvalid

/-- It is the channels that refuse, whatever word is drawn and whatever the amount. -/
theorem Refuses.refusal? (h : e.Refuses c x)
    (made : c.request e.books.graph e.defaults seed = .ok r) :
    e.books.graph.refusal? r.target = some x := by
  obtain ⟨seed', r', amount, hmade, hlookup⟩ := h
  have hsame := Except.ok.inj ((Rebalance.request_seed made seed').symm.trans hmade)
  have htarget : r'.target = r.target := by rw [← hsame]
  rw [← htarget]
  exact Execution.lookup_eq_invalid_iff.mp hlookup

theorem refusal?_eq_none_of_forall_not_refuses (h : ∀ x, ¬ e.Refuses c x)
    (made : c.request e.books.graph e.defaults seed = .ok r) :
    e.books.graph.refusal? r.target = none := by
  cases hx : e.books.graph.refusal? r.target with
  | none => rfl
  | some x =>
      exact absurd ⟨seed, r, r.amount, made, Execution.lookup_eq_invalid_iff.mpr hx⟩ (h x)

theorem rows_save (e : Engine) : e.save.books.store.attempts = e.books.store.attempts := by
  rw [store_save]

theorem history_save (e : Engine) : e.save.books.history = e.books.history := rfl

theorem rejects_of_forall_not_refuses (valid : ∀ x, ¬ e.Refuses c x)
    {result : Option (Except Failure Summary × Engine)}
    (h : e.RebalanceRun c record result) : e.Rejects c record result := by
  have hreturned : ∀ x, e.Refuses c x → result = some (.error (.invalid x), e) :=
    fun x hx => absurd hx (valid x)
  have hunpaid : ∀ x, e.Refuses c x → callsIn record = [] := fun x hx => absurd hx (valid x)
  cases h with
  | rejected failure none_made =>
      refine ⟨hreturned, hunpaid, nofun, ?_, ?_⟩
      · rintro answer e' ⟨⟩ a ha
        exact Or.inl ha
      · rintro answer e' ⟨⟩ row hrow
        exact Or.inl hrow
  | @carriedOut seed r record result made run =>
      have hx := refusal?_eq_none_of_forall_not_refuses valid made
      cases result with
      | none =>
          rw [Option.map_none]
          exact ⟨hreturned, hunpaid, fun _ _ h => (nomatch h), fun _ _ h => (nomatch h),
            fun _ _ h => (nomatch h)⟩
      | some done =>
          obtain ⟨summary, b⟩ := done
          obtain ⟨hsummary, hmemory, hdisk⟩ := Execution.runs_execute_not_invalid hx run
          rw [Option.map_some]
          refine ⟨hreturned, hunpaid, ?_, ?_, ?_⟩
          · intro summary' e' heq
            obtain ⟨heq, -⟩ := Prod.mk.inj (Option.some.inj heq)
            rw [← Except.ok.inj heq]
            exact hsummary
          · intro answer e' heq
            obtain ⟨-, rfl⟩ := Prod.mk.inj (Option.some.inj heq)
            rw [history_save]
            exact hmemory
          · intro answer e' heq row hrow
            obtain ⟨-, rfl⟩ := Prod.mk.inj (Option.some.inj heq)
            rw [rows_save] at hrow
            exact hdisk row hrow

/-- However the node replies, a rebalance keeps to the rejection of invalid requests just if no
lookup for its request would answer that it is invalid. If one would, no payment is asked for, but
a summary comes back in which every chunk is an attempt at an invalid request. -/
theorem rejects_iff {result : Option (Except Failure Summary × Engine)}
    (h : (e.rebalance c).Runs record result) :
    (e.Rejects c record result ↔ ∀ x, ¬ e.Refuses c x) ∧
      ∀ x, e.Refuses c x → callsIn record = [] ∧ ∀ answer e', result = some (answer, e') →
        ∃ seed r summary, c.request e.books.graph e.defaults seed = .ok r ∧ answer = .ok summary ∧
          summary.attempts.length = r.chunks.length ∧
          ∀ a ∈ summary.attempts, a.error = some (Failure.invalid x).record := by
  have hrun := rebalanceRun_of_runs h
  constructor
  · refine ⟨fun hrejects x hx => ?_, fun valid => rejects_of_forall_not_refuses valid hrun⟩
    have hresult := hrejects.returned x hx
    cases hrun with
    | rejected failure none_made =>
        obtain ⟨seed, r, -, made, -⟩ := hx
        exact none_made seed r made
    | @carriedOut seed r record result made run =>
        -- A request that is carried out never comes back with an error.
        obtain ⟨done, -, heq⟩ := Option.map_eq_some_iff.mp hresult
        cases heq
  · intro x hx
    cases hrun with
    | rejected failure none_made =>
        obtain ⟨seed, r, -, made, -⟩ := hx
        exact absurd made (none_made seed r)
    | @carriedOut seed r record result made run =>
        obtain ⟨hcalls, hattempts⟩ := Execution.runs_execute_refused (hx.refusal? made) run
        refine ⟨hcalls, fun answer e' hresult => ?_⟩
        obtain ⟨⟨summary, b⟩, rfl, heq⟩ := Option.map_eq_some_iff.mp hresult
        cases heq
        exact ⟨seed, r, summary, made, rfl, hattempts summary b rfl⟩

end Engine

/-! ## Two rebalances of one chunk -/

/-- One satoshi in one chunk, with one attempt. -/
def oneChunk : ChunkParams := ⟨some 1, some 1, some 1000, some 1, some 2⟩

/-- Moves one satoshi from `exit` to `entry`. -/
def oneSatoshi (exit entry : String) : Rebalance := .circular ⟨exit, entry, oneChunk⟩

/-- The request of `oneSatoshi` with the random word zero. -/
def oneSatoshiRequest (exit entry : String) : Request :=
  oneChunk.made (.circular exit entry) {} 0

namespace Engine

/-- A run of `oneSatoshi` whose chunk is not moved. -/
theorem exists_runs_oneSatoshi {exit entry : String} {failure : Failure}
    {route again : Option Route} {calls : Exchanges}
    (accepted : (oneSatoshiRequest exit entry).flaw? = none)
    (tried : Execution.TryRun 60 (oneSatoshiRequest exit entry) 0 1000 1 none
      (.ofGraph Graph.twoChannels) calls
      (some (.failed (oneSatoshiRequest exit entry) 0 1000 route 1 failure 0, again,
        .ofGraph Graph.twoChannels))) :
    ∃ summary e', ((ofGraph Graph.twoChannels).rebalance (oneSatoshi exit entry)).Runs
        (Query.random.answered 0 :: Query.stopwatch.answered 0 ::
          (calls ++ [Query.stopwatch.answered 5]))
        (some (.ok summary, e')) ∧
      summary.attempts = [.failed (oneSatoshiRequest exit entry) 0 1000 route 1 failure 0] ∧
      e'.books.history.recent =
        [.failed (oneSatoshiRequest exit entry) 0 1000 route 1 failure 0] := by
  obtain ⟨b, hrecord⟩ := @Execution.exists_recordAttempt (.ofGraph Graph.twoChannels)
    (.failed (oneSatoshiRequest exit entry) 0 1000 route 1 failure 0) 0 rfl
  have hchunk : (oneSatoshiRequest exit entry).chunks = [1000] :=
    (by decide +kernel : (oneSatoshiRequest "" "").chunks = [1000])
  have hchunks := Execution.ChunksRun.cons (.stopped tried (Or.inl rfl)) hrecord .nil
  rw [List.append_nil, ← hchunk] at hchunks
  have hrun := Execution.runs_execute_iff.mpr (Execution.ExecuteRun.finished 0 5 hchunks)
  obtain ⟨summary, hsummary⟩ : ∃ summary, Summary.ofAttempts? (oneSatoshiRequest exit entry)
      [.failed (oneSatoshiRequest exit entry) 0 1000 route 1 failure 0] (subClamped 5 0) =
        some summary := ⟨_, rfl⟩
  rw [hsummary, Option.map_some] at hrun
  have made : (CircularParams.mk exit entry oneChunk).request (ofGraph Graph.twoChannels).defaults
      0 = .ok (oneSatoshiRequest exit entry) :=
    ChunkParams.request_eq_ok_iff.mpr ⟨accepted, rfl⟩
  have hresult := runs_runRequest (e := ofGraph Graph.twoChannels) made hrun
  refine ⟨summary, _, hresult, (Summary.eq_of_ofAttempts? hsummary).1, ?_⟩
  rw [history_save]
  show b.history.recent = _
  rw [Execution.history_recordAttempt hrecord]
  rfl

/-- What is exchanged when the node makes no invoice for `oneSatoshi "1x1" "2x1"`. -/
def lostInvoice : Exchanges :=
  [Query.random.answered 0, Query.stopwatch.answered 0,
    (Query.createInvoice 1000 (invoiceLabel (oneSatoshiRequest "1x1" "2x1") 0 1)
      invoiceDescription).answered (.error (.lost "Invoice: ")),
    Query.clock.answered 0, Query.stopwatch.answered 5]

/-- The request is valid, so the attempt that comes to nothing is not one at an invalid request. -/
theorem rejects_iff_oneSatoshi :
    ∃ answer e', ((ofGraph Graph.twoChannels).rebalance (oneSatoshi "1x1" "2x1")).Runs lostInvoice
        (some (answer, e')) ∧
      (ofGraph Graph.twoChannels).Rejects (oneSatoshi "1x1" "2x1") lostInvoice
        (some (answer, e')) := by
  have accepted : (oneSatoshiRequest "1x1" "2x1").flaw? = none := by decide +kernel
  have made : (oneSatoshi "1x1" "2x1").request Graph.twoChannels {} 0 =
      .ok (oneSatoshiRequest "1x1" "2x1") := ChunkParams.request_eq_ok_iff.mpr ⟨accepted, rfl⟩
  have valid : (ofGraph Graph.twoChannels).books.graph.refusal?
      (oneSatoshiRequest "1x1" "2x1").target = none := by decide +kernel
  have tried := @Execution.TryRun.failed 60 (oneSatoshiRequest "1x1" "2x1") 0 1000 1 none
    (.ofGraph Graph.twoChannels) routeOver Graph.ring_twoChannels (by decide) _ _ _
    (.noInvoice (.lost "Invoice: ")) 0
  obtain ⟨summary, e', hrun, -, -⟩ := exists_runs_oneSatoshi accepted tried
  refine ⟨_, _, hrun, (rejects_iff hrun).1.mpr fun x hx => ?_⟩
  cases valid.symm.trans (hx.refusal? made)

/-- What is exchanged when there is no route for `oneSatoshi`. -/
def noPayment : Exchanges :=
  [Query.random.answered 0, Query.stopwatch.answered 0, Query.clock.answered 0,
    Query.stopwatch.answered 5]

/-- The exit is no channel of ours, so every lookup would answer that the request is invalid. Yet a
summary comes back with an attempt, and the attempt is kept. -/
theorem unknown_exit_recorded :
    ∃ summary e' a, ((ofGraph Graph.twoChannels).rebalance (oneSatoshi "9x9" "2x1")).Runs noPayment
        (some (.ok summary, e')) ∧
      (ofGraph Graph.twoChannels).Refuses (oneSatoshi "9x9" "2x1") (.notOwn "9x9") ∧
      summary.attempts = [a] ∧ e'.books.history.recent = [a] ∧
      a.error = some ⟨"invalid_request", "invalid request: 9x9 is not one of our channels"⟩ ∧
      ¬ (ofGraph Graph.twoChannels).Rejects (oneSatoshi "9x9" "2x1") noPayment
        (some (.ok summary, e')) := by
  have accepted : (oneSatoshiRequest "9x9" "2x1").flaw? = none := by decide +kernel
  have made : (oneSatoshi "9x9" "2x1").request Graph.twoChannels {} 0 =
      .ok (oneSatoshiRequest "9x9" "2x1") := ChunkParams.request_eq_ok_iff.mpr ⟨accepted, rfl⟩
  have refused : Graph.twoChannels.refusal? (oneSatoshiRequest "9x9" "2x1").target =
      some (.notOwn "9x9") := by decide +kernel
  have hlookup := fun amount => (@Execution.lookup_eq_invalid_iff
    (oneSatoshiRequest "9x9" "2x1") amount _ .byId Graph.twoChannels).mpr refused
  obtain ⟨summary, e', hrun, hattempts, hrecent⟩ :=
    exists_runs_oneSatoshi accepted (.noRoute _ 0 (hlookup 1000))
  refine ⟨summary, e', _, hrun, ⟨0, _, 1000, made, hlookup 1000⟩, hattempts, hrecent, rfl, ?_⟩
  intro hrejects
  cases hrejects.returned _ ⟨0, _, 1000, made, hlookup 1000⟩

end Engine

end Rebalancer
