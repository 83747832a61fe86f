import Rebalancer.Proofs.Execution.Lookup
import Rebalancer.Proofs.Rest

set_option autoImplicit false

/-! # When a payment is submitted again

A payment that is submitted again for the same chunk moves the chunk twice, unless the one before is
dead: the node refused it, or reported its failure. This is so except for payments whose submission
got no readable answer, which the node may have taken and which are tried again all the same. A
request is safe from that, whatever the node replies, just if it has one attempt or no chunk with a
route to begin with (`resubmits_only_dead_iff`).
-/

namespace Rebalancer

/-! ## Dead and lost payments -/

/-- The node refused the payment or reported that it failed. -/
def IsDead (s : Submitted) : Prop :=
  (∃ call error, s.answer = .error (.refused call error)) ∨
    ∃ failure, s.wait = some (.ok (.failed failure))

/-- There is no answer to the submission that can be read. -/
def IsLost (s : Submitted) : Prop := ∃ reason, s.answer = .error (.lost reason)

/-- A payment that is tried again is dead or lost. -/
theorem Retried.isLost_iff {s : Submitted} (h : Retried s) : IsLost s ↔ ¬ IsDead s := by
  cases h with
  | refused call error => simp [IsLost, IsDead]
  | lost reason => simp [IsLost, IsDead]
  | failed failure => simp [IsLost, IsDead]

namespace Rest

variable {s : Submission Http.Reply Http.Reply}

/-- The node answered the submission with an error, or the wait with an error that is no timeout. -/
def KnownDead (s : Submission Http.Reply Http.Reply) : Prop :=
  (∃ e, error? s.answer = some e) ∨
    ∃ reply e, s.wait = some reply ∧ error? reply = some e ∧ e.code ≠ waitTimeoutCode

/-- The answer to the submission is neither consent nor an error of the node: it did not come, or
not as a whole, or it cannot be read. -/
def Unanswered (s : Submission Http.Reply Http.Reply) : Prop :=
  error? s.answer = none ∧ accepts s.answer = false

theorem isDead_map_iff : IsDead (s.map sendAnswer waitAnswer) ↔ KnownDead s := by
  have hsend : (∃ call error, sendAnswer s.answer = .error (.refused call error)) ↔
      ∃ e, error? s.answer = some e := by
    rw [exists_comm]
    exact exists_congr fun e => sendAnswer_eq_refused_iff
  have hwait : (∃ failure, s.wait.map waitAnswer = some (.ok (.failed failure))) ↔
      ∃ reply e, s.wait = some reply ∧ error? reply = some e ∧ e.code ≠ waitTimeoutCode := by
    cases s.wait with
    | none => simp
    | some reply => simpa using waitAnswer_eq_failed_iff
  exact or_congr hsend hwait

theorem isLost_map_iff : IsLost (s.map sendAnswer waitAnswer) ↔ Unanswered s := by
  have hrefused := @sendAnswer_eq_refused_iff s.answer
  have hok := @sendAnswer_eq_ok_iff s.answer
  show (∃ reason, sendAnswer s.answer = .error (.lost reason)) ↔ _
  unfold Unanswered
  rw [← Bool.not_eq_true, ← hok, Option.eq_none_iff_forall_ne_some]
  simp only [ne_eq, ← hrefused]
  cases sendAnswer s.answer with
  | ok a => simp
  | error e =>
      cases e with
      | refused call error => simp
      | lost reason => simp

end Rest

namespace Execution

variable {timeout : UInt64} {r : Request} {index tries more : Nat} {amount : Msat} {b : Books}
  {route : Route} {last : Option Route} {now : Time}

/-! ## A request that submits again -/

/-- A try whose submission gets no answer. -/
def lostTry (r : Request) (index tries : Nat) (route : Route) (now : Time) : Exchanges :=
  [(Query.createInvoice route.amount (invoiceLabel r index tries) invoiceDescription).answered
      (.ok ⟨"h", "s"⟩),
    (Query.sendPay route.paymentHops "h" "s").answered (.error (.lost "SendPay: ")),
    Query.clock.answered now]

/-- A lost submission leaves the graph and the order of the own channels as they are and calls for
another try. -/
theorem exists_tryRun_lost (found : lookup b.order b.graph r amount = .ok route)
    (cheap : route.within r.maxRate = true) (tries : Nat) (last : Option Route) (now : Time) :
    ∃ attempt b', b'.order = b.order ∧ b'.graph = b.graph ∧
      TryRun timeout r index amount tries last b (lostTry r index tries route now)
        (some (attempt, some route, b')) :=
  ⟨_, (issued b "h" route).resolve "h" .failed, rfl, rfl,
    .failed route found cheap (.notSent ⟨"h", "s"⟩ (.lost "SendPay: ")) now⟩

theorem exists_triesRun_lost (found : lookup b.order b.graph r amount = .ok route)
    (cheap : route.within r.maxRate = true) (tries : Nat) (last : Option Route) (now : Time) :
    ∃ rest result, TriesRun timeout r index amount more tries last b
      (lostTry r index tries route now ++ rest) result := by
  obtain ⟨attempt, b', -, -, step⟩ := @exists_tryRun_lost timeout r index amount b route found cheap
    tries last now
  cases more with
  | zero =>
      refine ⟨[], some (attempt, b'), ?_⟩
      rw [List.append_nil]
      exact .stopped step (Or.inl rfl)
  -- Whether and how it goes on after the second loss does not matter: silence is one way.
  | succ more =>
      exact ⟨_, _, .again step (runs_runTries_iff.mp (Dialogue.runs_transcript Rest.silence _))⟩

theorem TriesRun.exists_chunksRun {chunks : List Msat} {record : Exchanges}
    {result : Option (Attempt × Books)}
    (h : TriesRun timeout r index amount (r.attempts - 1) 1 none b record result) :
    ∃ rest result', ChunksRun timeout r index (amount :: chunks) b (record ++ rest) result' := by
  match result, h with
  | none, h => exact ⟨[], none, by rw [List.append_nil]; exact .broken h⟩
  | some (attempt, b'), h =>
      cases hkept : b'.recordAttempt attempt with
      | none => exact ⟨[], none, by rw [List.append_nil]; exact .unrecorded h hkept⟩
      | some b'' =>
          exact ⟨_, _, .cons h hkept
            (runs_runChunks_iff.mp (Dialogue.runs_transcript Rest.silence _))⟩

/-- Two lost tries at the chunk with number `index`, after `idle` chunks without a route. -/
def lostTwice (r : Request) (idle index : Nat) (route : Route) (now : Time) : Exchanges :=
  List.replicate idle (Query.clock.answered now) ++
    (lostTry r index 1 route now ++ lostTry r index 2 route now)

/-- If there is a route for some chunk, the first such chunk may be submitted twice. -/
theorem exists_chunksRun_lostTwice {chunks : List Msat} (attempts : 1 < r.attempts)
    (h : ∃ amount ∈ chunks, ∃ route, lookup b.order b.graph r amount = .ok route ∧
      route.within r.maxRate = true) :
    ∃ idle index' route rest result, ChunksRun timeout r index chunks b
      (lostTwice r idle index' route b.history.retention ++ rest) result := by
  induction chunks generalizing index b with
  | nil => simp at h
  | cons amount chunks ih =>
      -- A chunk without a route is recorded, and the clock lets retention begin at zero.
      have idle : ∀ {failure : Failure} {route : Option Route},
          TryRun timeout r index amount 1 none b [Query.clock.answered b.history.retention]
            (some (.failed r index amount route 1 failure b.history.retention, none, b)) →
          (∃ amount ∈ chunks, ∃ route, lookup b.order b.graph r amount = .ok route ∧
            route.within r.maxRate = true) →
          ∃ idle index' route rest result, ChunksRun timeout r index (amount :: chunks) b
            (lostTwice r idle index' route b.history.retention ++ rest) result := by
        intro failure route step hlater
        obtain ⟨b', hkept⟩ := @exists_recordAttempt b
          (.failed r index amount route 1 failure b.history.retention) 0 (by
            show fitSigned? (b.history.retention - b.history.retention) = some 0
            rw [Int.sub_self]
            rfl)
        rw [← graph_recordAttempt hkept, ← order_recordAttempt hkept] at hlater
        obtain ⟨idle, index', route', rest, result, hrun⟩ := @ih (index + 1) b' hlater
        rw [retention_recordAttempt hkept] at hrun
        have hchunks := ChunksRun.cons (.stopped step (Or.inr rfl)) hkept hrun
        exact ⟨idle + 1, index', route', rest, _, hchunks⟩
      cases hfound : lookup b.order b.graph r amount with
      | error failure =>
          refine idle (.noRoute failure _ hfound) ?_
          obtain ⟨amount', hmem, route, hroute, hcheap⟩ := h
          rcases List.mem_cons.mp hmem with rfl | hmem
          · rw [hfound] at hroute
            cases hroute
          · exact ⟨amount', hmem, route, hroute, hcheap⟩
      | ok route =>
          cases hcheap : route.within r.maxRate with
          | false =>
              refine idle (.tooDear route _ hfound hcheap) ?_
              obtain ⟨amount', hmem, route', hroute, hcheap'⟩ := h
              rcases List.mem_cons.mp hmem with rfl | hmem
              · rw [hfound] at hroute
                cases hroute
                rw [hcheap] at hcheap'
                cases hcheap'
              · exact ⟨amount', hmem, route', hroute, hcheap'⟩
          | true =>
              obtain ⟨attempt, b', horder, hgraph, step⟩ := @exists_tryRun_lost timeout r index
                amount b route hfound hcheap 1 none b.history.retention
              rw [← horder, ← hgraph] at hfound
              -- The first loss leaves the graph alone, so the second try finds the same route.
              obtain ⟨more, hmore⟩ : ∃ more, r.attempts - 1 = more + 1 :=
                ⟨r.attempts - 2, by omega⟩
              obtain ⟨rest, result, hagain⟩ := @exists_triesRun_lost timeout r index more amount b'
                route hfound hcheap 2 (some route) b.history.retention
              have htries := TriesRun.again step hagain
              rw [← hmore] at htries
              obtain ⟨rest', result', hrun⟩ :=
                @TriesRun.exists_chunksRun _ _ _ _ _ chunks _ _ htries
              refine ⟨0, index, route, rest ++ rest', result', ?_⟩
              have heq : lostTwice r 0 index route b.history.retention ++ (rest ++ rest') =
                  lostTry r index 1 route b.history.retention ++
                    (lostTry r index 2 route b.history.retention ++ rest) ++ rest' := by
                simp [lostTwice]
              rw [heq]
              exact hrun

theorem callsIn_lostTwice {idle : Nat} :
    callsIn (lostTwice r idle index route now) =
      [.invoice (some (invoiceLabel r index 1)), .send (.error (.lost "SendPay: ")),
        .invoice (some (invoiceLabel r index 2)), .send (.error (.lost "SendPay: "))] := by
  have hidle : callsIn (List.replicate idle (Query.clock.answered now)) = [] :=
    List.filterMap_replicate_of_none rfl
  unfold lostTwice
  rw [callsIn_append, hidle]
  rfl

theorem not_onlyAfter_lostTwice {idle : Nat} :
    ¬ OnlyAfter r IsDead (submissions (callsIn (lostTwice r idle index route now))) := by
  rw [callsIn_lostTwice]
  intro h
  -- The second payment follows the first for the same chunk, so that one would be dead.
  have hdead : IsDead ⟨some (invoiceLabel r index 1), .error (.lost "SendPay: "), none⟩ :=
    (List.pairwise_cons.mp h).1 _ (List.mem_singleton_self _) index ⟨2, rfl⟩ ⟨1, rfl⟩
  exact (Retried.lost "SendPay: ").isLost_iff.mp ⟨_, rfl⟩ hdead

theorem exists_runs_lostTwice (attempts : 1 < r.attempts)
    (h : ∃ amount ∈ r.chunks, ∃ route, lookup b.order b.graph r amount = .ok route ∧
      route.within r.maxRate = true) :
    ∃ idle index route rest result, (execute timeout r b).Runs
      (Query.stopwatch.answered 0 :: (lostTwice r idle index route b.history.retention ++ rest))
      result := by
  obtain ⟨idle, index, route, rest, result, hrun⟩ :=
    @exists_chunksRun_lostTwice timeout r 0 b r.chunks attempts h
  match result, hrun with
  | none, hrun =>
      exact ⟨idle, index, route, rest, none, runs_execute_iff.mpr (.broken 0 hrun)⟩
  | some (attempts, b'), hrun =>
      have hend := runs_execute_iff.mpr (ExecuteRun.finished 0 0 hrun)
      rw [List.append_assoc] at hend
      exact ⟨idle, index, route, _, _, hend⟩

/-! ## A request without a route -/

theorem TriesRun.idle {record : Exchanges} {result : Option (Attempt × Books)}
    (h : TriesRun timeout r index amount more tries last b record result)
    (dear : ∀ route, lookup b.order b.graph r amount = .ok route → route.within r.maxRate = false) :
    callsIn record = [] ∧ ∃ attempt, result = some (attempt, b) := by
  -- A try without a route that is cheap enough ends at once and is the last one.
  have step : ∀ {record : Exchanges} {result : Option (Attempt × Option Route × Books)},
      TryRun timeout r index amount tries last b record result →
      callsIn record = [] ∧ ∃ attempt, result = some (attempt, none, b) := by
    intro record result hstep
    have priced : ∀ {route : Route}, lookup b.order b.graph r amount = .ok route →
        route.within r.maxRate = true → False := by
      intro route found cheap
      rw [dear route found] at cheap
      cases cheap
    cases hstep with
    | noRoute failure now found => exact ⟨rfl, _, rfl⟩
    | tooDear route now found dear => exact ⟨rfl, _, rfl⟩
    | broken route found cheap paid => exact (priced found cheap).elim
    | moved route found cheap paid now => exact (priced found cheap).elim
    | failed route found cheap paid now => exact (priced found cheap).elim
  cases h with
  | broken hstep =>
      obtain ⟨-, _, heq⟩ := step hstep
      cases heq
  | stopped hstep final =>
      obtain ⟨hcalls, _, heq⟩ := step hstep
      cases heq
      exact ⟨hcalls, _, rfl⟩
  | again hstep next =>
      obtain ⟨-, _, heq⟩ := step hstep
      cases heq

theorem ChunksRun.idle {chunks : List Msat} {record : Exchanges}
    {result : Option (List Attempt × Books)} (h : ChunksRun timeout r index chunks b record result)
    (dear : ∀ amount ∈ chunks, ∀ route, lookup b.order b.graph r amount = .ok route →
      route.within r.maxRate = false) : callsIn record = [] := by
  induction h with
  | nil => rfl
  | broken chunk => exact (chunk.idle (dear _ (List.mem_cons_self ..))).1
  | unrecorded chunk lost => exact (chunk.idle (dear _ (List.mem_cons_self ..))).1
  | cons chunk kept next ih =>
      obtain ⟨hcalls, _, heq⟩ := chunk.idle (dear _ (List.mem_cons_self ..))
      cases heq
      rw [callsIn_append, hcalls, ih, List.append_nil]
      intro amount hmem
      rw [graph_recordAttempt kept, order_recordAttempt kept]
      exact dear amount (List.mem_cons_of_mem _ hmem)

theorem callsIn_eq_nil_of_dear {record : Exchanges} {result : Option (Summary × Books)}
    (h : (execute timeout r b).Runs record result)
    (dear : ∀ amount ∈ r.chunks, ∀ route, lookup b.order b.graph r amount = .ok route →
      route.within r.maxRate = false) : callsIn record = [] := by
  cases runs_execute_iff.mp h with
  | broken start chunks => exact chunks.idle dear
  | @finished start stop record attempts b' chunks =>
      show callsIn (record ++ [Query.stopwatch.answered stop]) = []
      rw [callsIn_append, chunks.idle dear]
      rfl

end Execution

/-! ## The wire -/

namespace Rest

open Execution

variable {c : Rest} {timeout : UInt64} {r : Request} {b : Books} {index tries idle : Nat}
  {route : Route} {now : Time} {traffic : Traffic}

/-- The reply to the creation of an invoice that is found in order. -/
def invoiceReply : Http.Reply :=
  .full 200 "\x7b\"payment_hash\":\"h\",\"payment_secret\":\"s\"\x7d".toUTF8.toList

theorem once_invoiceReply :
    once "Invoice" (ofReply "invoice" Invoice.ofJson? invoiceReply) = .ok ⟨"h", "s"⟩ := by
  have hread : ofReply "invoice" Invoice.ofJson? invoiceReply = .ok ⟨"h", "s"⟩ :=
    ofReply_eq_ok_iff.mpr ⟨200, _, rfl, rfl, by decide +kernel⟩
  rw [hread]
  rfl

theorem exists_carries_lostTry : ∃ traffic, c.Carries (lostTry r index tries route now) traffic :=
  ⟨_, .cons (runs_createInvoice_iff.mpr ⟨invoiceReply, rfl, congrArg some once_invoiceReply.symm⟩)
    (.cons (runs_sendPay_iff.mpr ⟨.lost "", rfl, rfl⟩)
      (.cons ⟨now, [], rfl, rfl, rfl⟩ .nil))⟩

theorem exists_carries_lostTwice :
    ∃ traffic, c.Carries (lostTwice r idle index route now) traffic := by
  obtain ⟨first, hfirst⟩ := @exists_carries_lostTry c r index 1 route now
  obtain ⟨second, hsecond⟩ := @exists_carries_lostTry c r index 2 route now
  have hidle : ∃ traffic, c.Carries (List.replicate idle (Query.clock.answered now)) traffic := by
    induction idle with
    | zero => exact ⟨[], .nil⟩
    | succ idle ih =>
        obtain ⟨traffic, htraffic⟩ := ih
        exact ⟨_, .cons ⟨now, [], rfl, rfl, rfl⟩ htraffic⟩
  obtain ⟨before, hbefore⟩ := hidle
  exact ⟨_, hbefore.append (hfirst.append hsecond)⟩

/-- What is submitted again over HTTP was retried. -/
theorem onlyAfter_retried_map {result : Option (Summary × Books)}
    (h : (c.run (execute timeout r b)).Runs traffic result) :
    OnlyAfter r (fun s => 1 < r.attempts ∧ Retried (s.map sendAnswer waitAnswer))
      (c.submissionsOn traffic) := by
  obtain ⟨record, rest, result', hrun, hcarries⟩ := exists_carried h
  have honly := onlyAfter_retried hrun
  rw [callsIn_append] at honly
  have hfirst := honly.of_append
  rw [hcarries.submissions] at hfirst
  exact onlyAfter_map.mp hfirst

/-- A request with a second attempt and a route for some chunk may submit a payment again after one
that is not known to be dead. -/
theorem exists_not_onlyAfter (attempts : 1 < r.attempts)
    (h : ∃ amount ∈ r.chunks, ∃ route, lookup b.order b.graph r amount = .ok route ∧
      route.within r.maxRate = true) :
    ∃ traffic result, (c.run (execute timeout r b)).Runs traffic result ∧
      ¬ OnlyAfter r KnownDead (c.submissionsOn traffic) := by
  obtain ⟨idle, index, route, rest, result, hrun⟩ :=
    @exists_runs_lostTwice timeout r b attempts h
  obtain ⟨traffic, htraffic⟩ :=
    @exists_carries_lostTwice c r index idle route b.history.retention
  have hcarries : c.Carries
      (Query.stopwatch.answered 0 :: lostTwice r idle index route b.history.retention) _ :=
    .cons ⟨0, [], rfl, rfl, rfl⟩ htraffic
  obtain ⟨more, result', hwire⟩ := exists_runs_of_carries hrun hcarries
  refine ⟨_, result', hwire, fun honly => ?_⟩
  unfold submissionsOn at honly
  rw [callsOn_append] at honly
  -- Whatever comes after the two lost payments, they stay in the list.
  have hfirst := honly.of_append
  have hdead : OnlyAfter r IsDead (submissions (callsIn
      (Query.stopwatch.answered 0 :: lostTwice r idle index route b.history.retention))) := by
    rw [hcarries.submissions, onlyAfter_map]
    exact hfirst.imp fun _ => isDead_map_iff.mpr
  exact not_onlyAfter_lostTwice hdead

/-- In every run, payments are submitted again only after dead ones just if they are not submitted
again after unanswered ones. Whatever is replied, they are submitted again only after dead ones just
if the request has one attempt or none of its chunks has a route to begin with. -/
theorem resubmits_only_dead_iff (c : Rest) (timeout : UInt64) (r : Request) (b : Books) :
    (∀ traffic result, (c.run (execute timeout r b)).Runs traffic result →
      (OnlyAfter r KnownDead (c.submissionsOn traffic) ↔
        OnlyAfter r (fun s => ¬ Unanswered s) (c.submissionsOn traffic))) ∧
    ((∀ traffic result, (c.run (execute timeout r b)).Runs traffic result →
        OnlyAfter r KnownDead (c.submissionsOn traffic)) ↔
      r.attempts ≤ 1 ∨ ∀ amount ∈ r.chunks, ∀ route, lookup b.order b.graph r amount = .ok route →
        route.within r.maxRate = false) := by
  constructor
  · intro traffic result h
    have hretried := onlyAfter_retried_map h
    -- A payment that is tried again is dead or unanswered, but not both.
    have hiff : ∀ s : Submission Http.Reply Http.Reply,
        Retried (s.map sendAnswer waitAnswer) → (Unanswered s ↔ ¬ KnownDead s) := by
      intro s hs
      rw [← isLost_map_iff, ← isDead_map_iff]
      exact hs.isLost_iff
    constructor
    · intro hdead
      exact (hretried.and hdead).imp fun s hs hlost => (hiff s hs.1.2).mp hlost hs.2
    · intro hanswered
      exact (hretried.and hanswered).imp fun s hs =>
        Classical.not_not.mp fun hdead => hs.2 ((hiff s hs.1.2).mpr hdead)
  · constructor
    · intro hsafe
      by_cases hattempts : r.attempts ≤ 1
      · exact Or.inl hattempts
      · refine Or.inr fun amount hmem route found => ?_
        cases hcheap : route.within r.maxRate with
        | false => rfl
        | true =>
            obtain ⟨traffic, result, hrun, hunsafe⟩ := @exists_not_onlyAfter c timeout r b
              (Nat.lt_of_not_le hattempts) ⟨amount, hmem, route, found, hcheap⟩
            exact absurd (hsafe traffic result hrun) hunsafe
    · rintro (hattempts | hdear) traffic result h
      · exact (onlyAfter_retried_map h).imp fun s hs => absurd hs.1 (Nat.not_lt.mpr hattempts)
      · obtain ⟨record, rest, result', hrun, hcarries⟩ := exists_carried h
        have hnone := callsIn_eq_nil_of_dear hrun hdear
        rw [callsIn_append] at hnone
        have hsent := hcarries.submissions
        rw [(List.append_eq_nil_iff.mp hnone).1] at hsent
        rw [List.map_eq_nil_iff.mp hsent.symm]
        exact .nil

/-- A node at an address. -/
def nodeAtHome : Rest := ⟨"https://127.0.0.1:3010", "rune"⟩

/-- The reply to a submission that the node takes. -/
def takenReply : Http.Reply := .full 200 "\x7b\x7d".toUTF8.toList

/-- The reply to the wait for a payment of 1000 millisatoshi that cost one more. -/
def settledReply : Http.Reply :=
  .full 200 "\x7b\"amount_msat\":1000,\"amount_sent_msat\":1001\x7d".toUTF8.toList

theorem sendAnswer_takenReply : sendAnswer takenReply = .ok () :=
  sendAnswer_eq_ok_iff.mpr (by decide +kernel)

theorem waitAnswer_settledReply : waitAnswer settledReply = .ok (.complete 1000 1001) := by
  have hread : ofReply "waitsendpay" PaymentOutcome.completeOfJson? settledReply =
      .ok (1000, 1001) := ofReply_eq_ok_iff.mpr ⟨200, _, rfl, rfl, by decide +kernel⟩
  unfold waitAnswer
  rw [hread]
  rfl

/-- What is exchanged when the first submission for the chunk of `moveOver 2` is lost and the second
one settles. -/
def lostThenPaid : Exchanges :=
  Query.stopwatch.answered 0 :: (lostTry (moveOver 2) 0 1 routeOver 0 ++
    [(Query.createInvoice 1000 (invoiceLabel (moveOver 2) 0 2) invoiceDescription).answered
        (.ok ⟨"h", "s"⟩),
      (Query.sendPay routeOver.paymentHops "h" "s").answered (.ok ()),
      (Query.waitPay "h" 60).answered (.ok (.complete 1000 1001)),
      Query.clock.answered 0, Query.clock.answered 0] ++ [Query.stopwatch.answered 5])

/-- The summary of `moveOver 2` when its chunk is paid with the second try. -/
def summaryAfterLoss : Summary :=
  { summaryOver with attempts := [.succeeded (moveOver 2) 0 routeOver 1 2 0] }

theorem runs_lostThenPaid :
    ∃ b', (execute 60 (moveOver 2) (.ofGraph Graph.twoChannels)).Runs lostThenPaid
      (some (summaryAfterLoss, b')) := by
  let b₁ := (issued (.ofGraph Graph.twoChannels) "h" routeOver).resolve "h" .failed
  obtain ⟨b₂, hsettled⟩ := @exists_settled (issued b₁ "h" routeOver) routeOver "h" 1 0 _ rfl
  have hs := (settles_of_settled hsettled).2
  obtain ⟨b₃, hrecord⟩ := @exists_recordAttempt b₂ (.succeeded (moveOver 2) 0 routeOver 1 2 0) 0
    (by rw [hs.history]; rfl)
  have hwait : AwaitRun 60 (issued b₁ "h" routeOver) routeOver (invoiceLabel (moveOver 2) 0 2) "h"
      _ _ := .completed 1000 1001 0
  rw [show subClamped (1001 : UInt64) 1000 = 1 from by decide, hsettled] at hwait
  have hlost : TryRun 60 (moveOver 2) 0 1000 1 none (.ofGraph Graph.twoChannels) _ _ :=
    .failed routeOver (lookup_moveOver 2) (by decide) (.notSent ⟨"h", "s"⟩ (.lost "SendPay: ")) 0
  have hpaid : TryRun 60 (moveOver 2) 0 1000 2 (some routeOver) b₁ _ _ :=
    .moved routeOver (lookup_moveOver 2) (by decide) (.sent ⟨"h", "s"⟩ hwait) 0
  have hchunk : TriesRun 60 (moveOver 2) 0 1000 1 1 none (.ofGraph Graph.twoChannels) _ _ :=
    .again hlost (.stopped hpaid (Or.inr rfl))
  have hchunks := ChunksRun.cons hchunk hrecord .nil
  exact ⟨b₃, runs_execute_iff.mpr (ExecuteRun.finished 0 5 hchunks)⟩

theorem exists_carries_lostThenPaid :
    ∃ traffic, nodeAtHome.Carries lostThenPaid traffic ∧
      nodeAtHome.submissionsOn traffic =
        [⟨some (invoiceLabel (moveOver 2) 0 2), takenReply, some settledReply⟩,
          ⟨some (invoiceLabel (moveOver 2) 0 1), .lost "", none⟩] := by
  have hcreate : ∀ tries, (nodeAtHome.answer (.createInvoice 1000
      (invoiceLabel (moveOver 2) 0 tries) invoiceDescription)).Runs _ (some (.ok ⟨"h", "s"⟩)) :=
    fun tries =>
    runs_createInvoice_iff.mpr ⟨invoiceReply, rfl, congrArg some once_invoiceReply.symm⟩
  have hclock : ∀ now, (nodeAtHome.answer .clock).Runs _ (some now) :=
    fun now => ⟨now, [], rfl, rfl, rfl⟩
  refine ⟨_, .cons ⟨0, [], rfl, rfl, rfl⟩ (.cons (hcreate 1)
    (.cons (runs_sendPay_iff.mpr ⟨.lost "", rfl, rfl⟩) (.cons (hclock 0) (.cons (hcreate 2)
      (.cons (runs_sendPay_iff.mpr ⟨takenReply, rfl, congrArg some sendAnswer_takenReply.symm⟩)
        (.cons (runs_waitPay_iff.mpr (Or.inl
            ⟨70000, settledReply, rfl, rfl, congrArg some waitAnswer_settledReply.symm⟩))
          (.cons (hclock 0) (.cons (hclock 0) (.cons ⟨5, [], rfl, rfl, rfl⟩ .nil))))))))), ?_⟩
  decide +kernel

/-- The first submission got no answer, so the node may have taken it, and the chunk is submitted
and moved once more. -/
theorem resubmitted_after_lost :
    (moveOver 2).flaw? = none ∧ Graph.twoChannels.Reachable ∧
      ∃ traffic b', (nodeAtHome.run (execute 60 (moveOver 2) (.ofGraph Graph.twoChannels))).Runs
          traffic (some (summaryAfterLoss, b')) ∧
        nodeAtHome.submissionsOn traffic =
          [⟨some (invoiceLabel (moveOver 2) 0 2), takenReply, some settledReply⟩,
            ⟨some (invoiceLabel (moveOver 2) 0 1), .lost "", none⟩] ∧
        ¬ OnlyAfter (moveOver 2) KnownDead (nodeAtHome.submissionsOn traffic) := by
  obtain ⟨b', hrun⟩ := runs_lostThenPaid
  obtain ⟨traffic, hcarries, hsent⟩ := exists_carries_lostThenPaid
  refine ⟨by decide +kernel, Graph.reachable_twoChannels, traffic, b',
    runs_of_carries hrun hcarries, hsent, fun honly => ?_⟩
  rw [hsent] at honly
  have hdead : KnownDead ⟨some (invoiceLabel (moveOver 2) 0 1), .lost "", none⟩ :=
    (List.pairwise_cons.mp honly).1 _ (List.mem_singleton_self _) 0 ⟨2, rfl⟩ ⟨1, rfl⟩
  obtain ⟨e, he⟩ | ⟨reply, e, hwait, -⟩ := hdead
  · cases he
  · cases hwait

end Rest

end Rebalancer
