import Rebalancer.Proofs.Execution.Lookup
import Rebalancer.Proofs.Execution.Runs
import Rebalancer.Proofs.Graph.Estimates
import Rebalancer.Proofs.Graph.Transfers
import Rebalancer.Proofs.Store.Costs

set_option autoImplicit false

/-! # What a chunk changes

A payment that settles is booked once on the graph and once in the costs. Any other try leaves both
as they were, but for what the graph learns from a failure (`Learned`). So a chunk either settles
once, over a route found on a graph that has only learned, or changes nothing else (`ChunkOutcome`).
-/

namespace Rebalancer

/-! ## Learning -/

/-- `g'` is `g` with what failures have taught. -/
inductive Graph.Learned : Graph → Graph → Prop
  | refl (g : Graph) : Learned g g
  | step {g g' g'' : Graph} {id : HalfId} {amount : Msat} {now : Time} (before : Learned g g')
      (failure : g'.applyFailure id amount now = some g'') : Learned g g''

namespace Graph

theorem Learned.trans {g g' g'' : Graph} (h : Learned g g') (h' : Learned g' g'') :
    Learned g g'' := by
  induction h' with
  | refl => exact h
  | step _ failure ih => exact ih.step failure

theorem Learned.reachable {g g' : Graph} (h : Learned g g') (hg : g.Reachable) :
    g'.Reachable := by
  induction h with
  | refl => exact hg
  | @step g' g'' id amount now _ failure ih =>
      have hafter := ih.after (.failure id amount now)
      rwa [Graph.after, failure] at hafter

theorem Learned.own {g g' : Graph} (h : Learned g g') : g'.own = g.own := by
  induction h with
  | refl => rfl
  | step _ failure ih => exact (own_applyFailure failure).1.trans ih

theorem Learned.keyed {g g' : Graph} (h : Learned g g') (hg : g.Keyed) : g'.Keyed := by
  induction h with
  | refl => exact hg
  | step _ failure ih =>
      exact (@evolves_applyFailure Fits _ _ _ _ _ failure).preserves.keyed ih

theorem Learned.selfId {g g' : Graph} (h : Learned g g') : g'.selfId = g.selfId := by
  induction h with
  | refl => rfl
  | step _ failure ih => exact (own_applyFailure failure).2.trans ih

end Graph

/-- `b'` differs from `b` in the ledger, and in what the graph has learned. -/
structure Books.Unmoved (b b' : Books) : Prop where
  graph : b.graph.Learned b'.graph
  store : b'.store = b.store
  history : b'.history = b.history

theorem Books.Unmoved.trans {b b' b'' : Books} (h : b.Unmoved b') (h' : b'.Unmoved b'') :
    b.Unmoved b'' :=
  ⟨h.graph.trans h'.graph, h'.store.trans h.store, h'.history.trans h.history⟩

theorem Books.unmoved_of_ledger (b : Books) (ledger : Ledger) :
    b.Unmoved { b with ledger := ledger } := ⟨.refl _, rfl, rfl⟩

theorem Books.unmoved_learn (b : Books) (route : Route) (f : PaymentFailure) (now : Time) :
    b.Unmoved (b.learn route f now) := by
  unfold learn
  split
  · exact ⟨.refl _, rfl, rfl⟩
  · split
    · exact ⟨.refl _, rfl, rfl⟩
    · rename_i hop _ g hg
      exact ⟨(Graph.Learned.refl b.graph).step hg, rfl, rfl⟩

theorem Books.unmoved_learnFrom (b : Books) (route : Route) (failure : TryFailure) (now : Time) :
    b.Unmoved (b.learnFrom route failure now) := by
  cases failure with
  | failed f => exact b.unmoved_learn route f now
  | timedOut reason => exact ⟨.refl _, rfl, rfl⟩
  | notSent reason => exact ⟨.refl _, rfl, rfl⟩

/-! ## Settling -/

/-- A payment over `route` that settled with `fee` is booked in `b'`: its amount moves from the
record of the exit to that of the entry (`Settles.getElem?_own`), and the rows of the two channels
for the day of `now` gain the amount and the fee (`Settles.getElem?_costs`). -/
structure Books.Settles (b b' : Books) (route : Route) (fee : Msat) (now : Time) : Prop where
  graph : b'.graph = b.graph.applyPayment route route.amount now
  store : b.store.recordCost route fee now = some b'.store
  history : b'.history = b.history

/-- The exit is debited and the entry credited; the records of all other channels stay. -/
theorem Books.Settles.getElem?_own {b b' : Books} {route : Route} {fee : Msat} {now : Time}
    (h : b.Settles b' route fee now) (scid : String) :
    b'.graph.own[scid]? = b.graph.own[scid]?.map (Graph.recordAfter route route.amount scid) := by
  rw [h.graph]
  exact Graph.getElem?_own_applyPayment ..

/-- The amount is booked as outgoing over the exit, and as incoming over the entry, which is charged
the fee; all other rows stay. -/
theorem Books.Settles.getElem?_costs {b b' : Books} {route : Route} {fee : Msat} {now : Time}
    (h : b.Settles b' route fee now) {first last : Hop} (hfirst : route.hops.head? = some first)
    (hlast : route.hops.getLast? = some last) :
    ∃ day, dayStart? now = some day ∧ ∀ key : CostKey, b'.store.costs[key]? =
      if key = ⟨first.half.scid, day, .outgoing⟩ then
        some (Costs.rowAfter first.destination 0 (signedOfWord route.amount)
          b.store.costs[key]?)
      else if key = ⟨last.half.scid, day, .incoming⟩ then
        some (Costs.rowAfter last.source (signedOfWord fee) (signedOfWord route.amount)
          b.store.costs[key]?)
      else b.store.costs[key]? := by
  obtain ⟨table, hrecord, hstore⟩ := Option.map_eq_some_iff.mp h.store
  rw [← hstore]
  exact Costs.getElem?_record hrecord hfirst hlast

namespace Execution

variable {timeout : UInt64} {r : Request} {index : Nat} {amount : Msat} {b b' : Books}
  {route : Route} {label hash : String} {record : Exchanges} {fee : Msat}

theorem settles_of_settled {now : Time} {result : TryResult}
    (h : settled b route hash fee now = some (result, b')) :
    result = .ok fee ∧ b.Settles b' route fee now := by
  obtain ⟨b'', hb, heq⟩ := Option.map_eq_some_iff.mp h
  obtain ⟨store, hstore, rfl⟩ := Option.map_eq_some_iff.mp hb
  cases heq
  exact ⟨rfl, rfl, hstore, rfl⟩

/-- A booking fails only for a time whose day does not begin at a time. -/
theorem dayStart?_of_recordCost {store : Store} {now : Time}
    (h : store.recordCost route fee now = none) : dayStart? now = none := by
  have hrecord := Option.map_eq_none_iff.mp h
  unfold Costs.record at hrecord
  split at hrecord
  · cases hday : dayStart? now with
    | none => rfl
    | some day =>
        rw [hday] at hrecord
        cases hrecord
  · cases hrecord

theorem exists_settled {now : Time} {store : Store}
    (booked : b.store.recordCost route fee now = some store) :
    ∃ b', settled b route hash fee now = some (.ok fee, b') := by
  have hbooked : (b.resolve hash .succeeded).store.recordCost route fee now = some store := booked
  unfold settled Books.settle
  rw [hbooked]
  exact ⟨_, rfl⟩

theorem AwaitRun.settles (h : AwaitRun timeout b route label hash record (some (.ok fee, b'))) :
    ∃ now, b.Settles b' route fee now := by
  -- The result is named, so that the rules can be told apart by it.
  generalize hr : some (Except.ok fee, b') = result at h
  cases h with
  | completed delivered sent now =>
      obtain ⟨hfee, hs⟩ := settles_of_settled hr.symm
      cases hfee
      exact ⟨now, hs⟩
  | failed failure => cases hr
  | foundPaid answer reason now stop =>
      obtain ⟨hfee, hs⟩ := settles_of_settled hr.symm
      cases hfee
      exact ⟨now, hs⟩
  | givenUp => cases hr

theorem AwaitRun.unmoved {failure : TryFailure}
    (h : AwaitRun timeout b route label hash record (some (.error failure, b'))) :
    b.Unmoved b' := by
  generalize hr : some (Except.error failure, b') = result at h
  cases h with
  | completed delivered sent now => cases (settles_of_settled hr.symm).1
  | failed failure =>
      cases hr
      exact b.unmoved_of_ledger _
  | foundPaid answer reason now stop => cases (settles_of_settled hr.symm).1
  | givenUp =>
      cases hr
      exact b.unmoved_of_ledger _

theorem PayRun.settles (h : PayRun timeout b route label record (some (.ok fee, b'))) :
    ∃ now, b.Settles b' route fee now := by
  cases h with
  | sent invoice wait =>
      obtain ⟨now, hs⟩ := wait.settles
      exact ⟨now, hs.graph, hs.store, hs.history⟩

theorem PayRun.unmoved {failure : TryFailure}
    (h : PayRun timeout b route label record (some (.error failure, b'))) : b.Unmoved b' := by
  cases h with
  | noInvoice e => exact b.unmoved_of_ledger _
  | notSent invoice e => exact b.unmoved_of_ledger _
  | sent invoice wait => exact (b.unmoved_of_ledger _).trans wait.unmoved

/-! ## One chunk -/

/-- How a chunk can end, and what it has changed then. -/
inductive ChunkOutcome (r : Request) (index : Nat) (amount : Msat) (b : Books) :
    Attempt → Books → Prop
  | moved {b' b'' : Books} {route : Route} {fee : Msat} {tries : Nat} {day now : Time}
      (before : b.Unmoved b') (found : lookup b'.order b'.graph r amount = .ok route)
      (cheap : route.within r.maxRate = true) (settles : b'.Settles b'' route fee day) :
      ChunkOutcome r index amount b (.succeeded r index route fee tries now) b''
  | failed {b' : Books} {route : Option Route} {tries : Nat} {failure : Failure} {now : Time}
      (unmoved : b.Unmoved b') :
      ChunkOutcome r index amount b (.failed r index amount route tries failure now) b'

theorem ChunkOutcome.after {attempt : Attempt} {b₀ : Books} (hb : b₀.Unmoved b)
    (h : ChunkOutcome r index amount b attempt b') : ChunkOutcome r index amount b₀ attempt b' := by
  cases h with
  | moved before found cheap settles => exact .moved (hb.trans before) found cheap settles
  | failed unmoved => exact .failed (hb.trans unmoved)

variable {tries more : Nat} {last : Option Route} {attempt : Attempt}

theorem TryRun.outcome {again : Option Route}
    (h : TryRun timeout r index amount tries last b record (some (attempt, again, b'))) :
    ChunkOutcome r index amount b attempt b' := by
  have here : b.Unmoved b := b.unmoved_of_ledger b.ledger
  cases h with
  | noRoute failure now found => exact .failed here
  | tooDear route now found dear => exact .failed here
  | moved route found cheap paid now =>
      obtain ⟨day, hs⟩ := paid.settles
      exact .moved here found cheap hs
  | @failed route found cheap _ failure b'' paid now =>
      exact .failed (paid.unmoved.trans (b''.unmoved_learnFrom route failure now))

/-- A try after which another follows has moved nothing. -/
theorem TryRun.unmoved
    (h : TryRun timeout r index amount tries last b record (some (attempt, some route, b'))) :
    b.Unmoved b' := by
  generalize hr : some (attempt, some route, b') = result at h
  cases h with
  | noRoute => cases hr
  | tooDear => cases hr
  | broken => cases hr
  | moved => cases hr
  | @failed route found cheap _ failure b'' paid now =>
      simp only [Option.some.injEq, Prod.mk.injEq] at hr
      obtain ⟨-, -, rfl⟩ := hr
      exact paid.unmoved.trans (b''.unmoved_learnFrom _ failure now)

theorem TriesRun.outcome
    (h : TriesRun timeout r index amount more tries last b record (some (attempt, b'))) :
    ChunkOutcome r index amount b attempt b' := by
  -- Every try but the last leaves the books unmoved, so the outcome is that of the last one.
  induction h using TriesRun.ended_induction with
  | stopped step final => exact step.outcome
  | again step next ih => exact ih.after step.unmoved

theorem ChunkOutcome.reachable (h : ChunkOutcome r index amount b attempt b')
    (hb : b.graph.Reachable) : b'.graph.Reachable := by
  cases h with
  | @moved b'' b' route fee tries day now before found cheap settles =>
      rw [settles.graph]
      exact (before.graph.reachable hb).after (.payment route route.amount day)
  | failed unmoved => exact unmoved.graph.reachable hb

theorem ChunkOutcome.history (h : ChunkOutcome r index amount b attempt b') :
    b'.history = b.history := by
  cases h with
  | moved before found cheap settles => exact settles.history.trans before.history
  | failed unmoved => exact unmoved.history

theorem graph_recordAttempt (h : b.recordAttempt attempt = some b') : b'.graph = b.graph := by
  obtain ⟨⟨history, store⟩, -, rfl⟩ := Option.map_eq_some_iff.mp h
  rfl

theorem order_recordAttempt (h : b.recordAttempt attempt = some b') : b'.order = b.order := by
  obtain ⟨⟨history, store⟩, -, rfl⟩ := Option.map_eq_some_iff.mp h
  rfl

theorem costs_recordAttempt (h : b.recordAttempt attempt = some b') :
    b'.store.costs = b.store.costs := by
  obtain ⟨⟨history, store⟩, hrecord, rfl⟩ := Option.map_eq_some_iff.mp h
  obtain ⟨cutoff, -, heq⟩ := Option.bind_eq_some_iff.mp hrecord
  cases heq
  rfl

theorem history_recordAttempt (h : b.recordAttempt attempt = some b') :
    b'.history = { b.history with
      recent := (b.history.recent ++ [attempt]).drop
        ((b.history.recent ++ [attempt]).length - b.history.capacity) } := by
  obtain ⟨⟨history, store⟩, hrecord, rfl⟩ := Option.map_eq_some_iff.mp h
  obtain ⟨cutoff, -, heq⟩ := Option.bind_eq_some_iff.mp hrecord
  cases heq
  rfl

theorem retention_recordAttempt (h : b.recordAttempt attempt = some b') :
    b'.history.retention = b.history.retention := by
  rw [history_recordAttempt h]

theorem exists_recordAttempt {cutoff : Time}
    (h : b.history.cutoff? attempt.createdAt = some cutoff) :
    ∃ b', b.recordAttempt attempt = some b' := by
  unfold Books.recordAttempt History.record
  rw [h]
  exact ⟨_, rfl⟩

/-- Recording an attempt adds no other attempt. -/
theorem recent_recordAttempt (h : b.recordAttempt attempt = some b') {a : Attempt}
    (ha : a ∈ b'.history.recent) : a ∈ b.history.recent ∨ a = attempt := by
  rw [history_recordAttempt h] at ha
  rcases List.mem_append.mp (List.mem_of_mem_drop ha) with ha | ha
  · exact Or.inl ha
  · exact Or.inr (List.mem_singleton.mp ha)

/-! ## One chunk that is paid at once -/

/-- What is exchanged when a chunk is paid with its first try. -/
def paidChunk (timeout : UInt64) (r : Request) (index : Nat) (route : Route) (invoice : Invoice)
    (delivered sent : Msat) (now : Time) : Exchanges :=
  [(Query.createInvoice route.amount (invoiceLabel r index 1) invoiceDescription).answered
      (.ok invoice),
    (Query.sendPay route.paymentHops invoice.hash invoice.secret).answered (.ok ()),
    (Query.waitPay invoice.hash timeout).answered (.ok (.complete delivered sent)),
    Query.clock.answered now, Query.clock.answered now]

theorem exists_paidChunk {invoice : Invoice} {delivered sent : Msat} {now cutoff : Time}
    {store : Store} (found : lookup b.order b.graph r amount = .ok route)
    (cheap : route.within r.maxRate = true)
    (booked : b.store.recordCost route (subClamped sent delivered) now = some store)
    (kept : b.history.cutoff? now = some cutoff) :
    ∃ b₁ b₂, TriesRun timeout r index amount (r.attempts - 1) 1 none b
        (paidChunk timeout r index route invoice delivered sent now)
        (some (.succeeded r index route (subClamped sent delivered) 1 now, b₁)) ∧
      b₁.recordAttempt (.succeeded r index route (subClamped sent delivered) 1 now) = some b₂ ∧
      b₂.graph = b.graph.applyPayment route route.amount now ∧
      b₂.history.retention = b.history.retention := by
  obtain ⟨b₁, hsettled⟩ := @exists_settled (issued b invoice.hash route) route invoice.hash _ now
    store booked
  have hs := (settles_of_settled hsettled).2
  obtain ⟨b₂, hrecord⟩ := @exists_recordAttempt b₁
    (.succeeded r index route (subClamped sent delivered) 1 now) cutoff
    (by rw [hs.history]; exact kept)
  have hwait : AwaitRun timeout (issued b invoice.hash route) route (invoiceLabel r index 1)
      invoice.hash _ _ := .completed delivered sent now
  rw [hsettled] at hwait
  refine ⟨b₁, b₂, .stopped (.moved route found cheap (.sent invoice hwait) now) (Or.inr rfl),
    hrecord, ?_, ?_⟩
  · rw [graph_recordAttempt hrecord, hs.graph]
    rfl
  · rw [retention_recordAttempt hrecord, hs.history]
    rfl

/-- What is exchanged when the only chunk of a request is paid at once. -/
def paidAtOnce (timeout : UInt64) (r : Request) (route : Route) (invoice : Invoice) (sent : Msat)
    (now : Time) (stop : UInt64) : Exchanges :=
  [Query.stopwatch.answered 0,
    (Query.createInvoice route.amount (invoiceLabel r 0 1) invoiceDescription).answered
      (.ok invoice),
    (Query.sendPay route.paymentHops invoice.hash invoice.secret).answered (.ok ()),
    (Query.waitPay invoice.hash timeout).answered (.ok (.complete route.amount sent)),
    Query.clock.answered now, Query.clock.answered now, Query.stopwatch.answered stop]

theorem runs_paidAtOnce {invoice : Invoice} {sent : Msat} {now cutoff : Time} {stop : UInt64}
    {store : Store} {summary : Summary} (chunks : r.chunks = [amount])
    (found : lookup b.order b.graph r amount = .ok route) (cheap : route.within r.maxRate = true)
    (booked : b.store.recordCost route (subClamped sent route.amount) now = some store)
    (kept : b.history.cutoff? now = some cutoff)
    (summed : Summary.ofAttempts? r
      [.succeeded r 0 route (subClamped sent route.amount) 1 now] (subClamped stop 0) =
        some summary) :
    ∃ b', (execute timeout r b).Runs (paidAtOnce timeout r route invoice sent now stop)
        (some (summary, b')) ∧
      b'.graph = b.graph.applyPayment route route.amount now := by
  obtain ⟨b₁, b₂, hchunk, hrecord, hgraph, -⟩ := @exists_paidChunk timeout r 0 amount b route
    invoice _ _ _ _ _ found cheap booked kept
  have hchunks := ChunksRun.cons hchunk hrecord .nil
  rw [← chunks] at hchunks
  have hrun := ExecuteRun.finished 0 stop hchunks
  rw [summed] at hrun
  exact ⟨b₂, runs_execute_iff.mpr hrun, hgraph⟩

/-- The summary of `moveOver 1` when its chunk is paid at once. -/
def summaryOver : Summary where
  requestId := "r"
  mode := .circular
  status := .success
  target := 1000
  moved := 1000
  chunksAttempted := 1
  chunksSucceeded := 1
  fee := 1
  rate := 1000
  elapsedMs := 5
  attempts := [.succeeded (moveOver 1) 0 routeOver 1 1 0]

theorem runs_moveOver :
    ∃ b', (execute 60 (moveOver 1) (.ofGraph Graph.twoChannels)).Runs
        (paidAtOnce 60 (moveOver 1) routeOver ⟨"h", "s"⟩ 1001 0 5) (some (summaryOver, b')) ∧
      b'.graph = Graph.twoChannels.applyPayment routeOver 1000 0 :=
  @runs_paidAtOnce _ _ _ (.ofGraph Graph.twoChannels) _ _ _ _ 0 _ _ _ rfl (lookup_moveOver 1)
    (by decide) rfl rfl rfl

end Execution

end Rebalancer
