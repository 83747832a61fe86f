import Mathlib.Data.List.Basic
import Rebalancer.Proofs.Execution.Effects
import Rebalancer.Proofs.Summary

set_option autoImplicit false

/-! # The payments of a request

Every payment that is sent for a chunk pays an invoice over just that chunk, over a route that
keeps to the request: to its ends, its number of hops and its fee rate (`KeepsTo`). If the node
reports what was sent, the fees that are recorded keep to the rate as well, chunk by chunk and in
sum.
-/

namespace Rebalancer

/-! ## Payments in a record -/

/-- Each payment in the record was sent right after its invoice was created, and `p` holds of the
invoice's label, its amount and the hops of the payment. -/
def SendsOnly (p : String → Msat → List PaymentHop → Prop) (record : Exchanges) : Prop :=
  ∀ (before after : Exchanges) (hops : List PaymentHop) (hash secret : String)
    (answer : Reply Unit),
    record = before ++ (Query.sendPay hops hash secret).answered answer :: after →
    ∃ label amount,
      before.getLast? = some ((Query.createInvoice amount label
        invoiceDescription).answered (.ok ⟨hash, secret⟩)) ∧
      p label amount hops

/-- Each payment in the record that was sent and waited for until it settled is reported with the
amounts of its first and last hop. -/
def ReportsSent (record : Exchanges) : Prop :=
  ∀ (before after : Exchanges) (hops : List PaymentHop) (hash secret hash' : String)
    (seconds : UInt64) (delivered sent : Msat),
    record = before ++ (Query.sendPay hops hash secret).answered (.ok ()) ::
      (Query.waitPay hash' seconds).answered (.ok (.complete delivered sent)) :: after →
    hops.getLast?.map (·.amount) = some delivered ∧ hops.head?.map (·.amount) = some sent

variable {p q : String → Msat → List PaymentHop → Prop} {first second record : Exchanges}

theorem SendsOnly.mono (h : SendsOnly p record) (hpq : ∀ label amount hops, p label amount hops →
    q label amount hops) : SendsOnly q record := by
  intro before after hops hash secret answer heq
  obtain ⟨label, amount, hlast, hp⟩ := h before after hops hash secret answer heq
  exact ⟨label, amount, hlast, hpq label amount hops hp⟩

theorem sendsOnly_of_forall_ne
    (h : ∀ e ∈ record, ∀ hops hash secret, e.1 ≠ Query.sendPay hops hash secret) :
    SendsOnly p record := by
  intro before after hops hash secret answer heq
  have hmem : (Query.sendPay hops hash secret).answered answer ∈ record := by
    rw [heq]
    simp
  exact absurd rfl (h _ hmem hops hash secret)

theorem SendsOnly.append (h : SendsOnly p first) (h' : SendsOnly p second) :
    SendsOnly p (first ++ second) := by
  intro before after hops hash secret answer heq
  -- A payment of `second` has its invoice there; one of `first` is untouched by what follows.
  rcases List.append_eq_append_iff.mp heq with ⟨rest, rfl, hsecond⟩ | ⟨rest, hfirst, hrest⟩
  · obtain ⟨label, amount, hlast, hp⟩ := h' rest after hops hash secret answer hsecond
    exact ⟨label, amount, by rw [List.getLast?_append, hlast]; rfl, hp⟩
  · cases rest with
    | nil =>
        -- The payment would be the first exchange of `second`, with no invoice before it.
        obtain ⟨_, _, hlast, -⟩ := h' [] after hops hash secret answer (by simpa using hrest.symm)
        cases hlast
    | cons e rest =>
        obtain ⟨rfl, rfl⟩ := List.cons.inj hrest
        exact h before rest hops hash secret answer hfirst

/-- An invoice, its payment, and what follows. -/
theorem SendsOnly.payment {amount : Msat} {label : String} {hops : List PaymentHop}
    {invoice : Invoice} {answer : Reply Unit} (hp : p label amount hops)
    (h : SendsOnly p record) :
    SendsOnly p ((Query.createInvoice amount label invoiceDescription).answered
        (.ok invoice) ::
      (Query.sendPay hops invoice.hash invoice.secret).answered answer :: record) := by
  refine @SendsOnly.append p [_, _] record ?_ h
  intro before after hops' hash secret answer' heq
  match before, heq with
  | [], heq => cases (List.cons.inj heq).1
  | [e], heq =>
      obtain ⟨rfl, htail⟩ := List.cons.inj heq
      cases (List.cons.inj htail).1
      exact ⟨label, amount, rfl, hp⟩
  | _ :: _ :: _, heq =>
      have hlen := congrArg List.length heq
      simp only [List.length_cons, List.length_append, List.length_nil] at hlen
      omega

theorem ReportsSent.left (h : ReportsSent (first ++ second)) : ReportsSent first := by
  intro before after hops hash secret hash' seconds delivered sent heq
  exact h before (after ++ second) hops hash secret hash' seconds delivered sent
    (by rw [heq]; simp)

theorem ReportsSent.right (h : ReportsSent (first ++ second)) : ReportsSent second := by
  intro before after hops hash secret hash' seconds delivered sent heq
  exact h (first ++ before) after hops hash secret hash' seconds delivered sent
    (by rw [heq]; simp)

/-! ## Payments that keep to a request -/

/-- What the hops of a payment for a chunk of `amount` have to keep to. -/
structure KeepsTo (r : Request) (amount : Msat) (hops : List PaymentHop) : Prop where
  delivers : hops.getLast?.map (·.amount) = some amount
  fee_le : ∀ first ∈ hops.head?, ∀ last ∈ hops.getLast?,
    ((first.amount.toNat : Int) - last.amount.toNat) * 1000000 ≤ r.maxRate.toNat * amount.toNat
  length_le : hops.length ≤ r.maxHops
  exit : ∀ scid ∈ r.target.exit?, hops.head?.map (·.channel) = some scid
  entry : ∀ scid ∈ r.target.entry?, hops.getLast?.map (·.channel) = some scid

theorem Route.within_iff {route : Route} {ceiling : Ppm} :
    route.within ceiling = true ↔
      route.fee.toNat * 1000000 ≤ ceiling.toNat * route.amount.toNat := decide_eq_true_iff

namespace Execution

variable {timeout : UInt64} {r : Request} {index : Nat} {amount : Msat} {b b' : Books}
  {route : Route} {label hash : String} {fee : Msat} {order : OwnOrder} {g : Graph}

theorem keepsTo_of_lookup (hg : g.Keyed) (hops : 2 ≤ r.maxHops)
    (found : lookup order g r amount = .ok route) (cheap : route.within r.maxRate = true) :
    KeepsTo r amount route.paymentHops := by
  obtain ⟨exit, entry, out, back, path, hround, rfl, hexit, hentry⟩ :=
    exists_isRound_of_lookup hg found
  have hlast := Route.getLast?_build amount out path back
  have hout := hround.exit? hg
  have hback := hround.entry? hg
  constructor
  · rw [Route.paymentHops, List.getLast?_map, hlast]
    rfl
  · intro first hfirst last hl
    rw [Route.paymentHops, List.getLast?_map, hlast] at hl
    cases hl
    cases hfirst
    have hfee : (Route.build (out :: (path ++ [back])) amount).fee.toNat =
        (amountInto amount (path ++ [back])).toNat - amount.toNat := toNat_subClamped _ _
    have hcheap : ((amountInto amount (path ++ [back])).toNat - amount.toNat) * 1000000 ≤
        r.maxRate.toNat * amount.toNat := hfee ▸ Route.within_iff.mp cheap
    -- The fee of a route is clamped at zero, so it bounds the exact difference from above.
    have whole : ∀ x a m : Nat, (x - a) * 1000000 ≤ m → ((x : Int) - a) * 1000000 ≤ m := by omega
    have hwhole := whole _ _ _ hcheap
    rw [Int.natCast_mul] at hwhole
    exact hwhole
  · rw [Route.paymentHops, List.length_map]
    exact hround.length_le hops
  · intro scid hs
    rw [hexit scid hs, Route.paymentHops, List.head?_map, Option.map_map]
    exact hout
  · intro scid hs
    rw [hentry scid hs, Route.paymentHops, List.getLast?_map, Option.map_map]
    exact hback

theorem AwaitRun.ne_sendPay {result : Option (TryResult × Books)}
    (h : AwaitRun timeout b route label hash record result) :
    ∀ e ∈ record, ∀ hops hash secret, e.1 ≠ Query.sendPay hops hash secret := by
  cases h with
  | completed delivered sent now => simp
  | failed failure => simp
  | foundPaid answer reason now stop => simp
  | givenUp answer reason removal stop unpaid => simp

theorem PayRun.sendsOnly (hp : p label route.amount route.paymentHops)
    {result : Option (TryResult × Books)} (h : PayRun timeout b route label record result) :
    SendsOnly p record := by
  cases h with
  | noInvoice e => exact sendsOnly_of_forall_ne (by simp)
  | notSent invoice e => exact SendsOnly.payment hp (sendsOnly_of_forall_ne (by simp))
  | sent invoice wait => exact SendsOnly.payment hp (sendsOnly_of_forall_ne wait.ne_sendPay)

theorem TryRun.sendsOnly {tries : Nat} {last : Option Route} (hb : b.graph.Reachable)
    (hops : 2 ≤ r.maxHops) {result : Option (Attempt × Option Route × Books)}
    (h : TryRun timeout r index amount tries last b record result) :
    SendsOnly (fun label sent hops => label = invoiceLabel r index tries ∧ sent = amount ∧
      KeepsTo r amount hops) record := by
  have pays : ∀ {route : Route}, lookup b.order b.graph r amount = .ok route →
      route.within r.maxRate = true →
      invoiceLabel r index tries = invoiceLabel r index tries ∧ route.amount = amount ∧
        KeepsTo r amount route.paymentHops :=
    fun found cheap => ⟨rfl, (getLast?_of_lookup found).1,
      keepsTo_of_lookup hb.keyed hops found cheap⟩
  cases h with
  | noRoute failure now found => exact sendsOnly_of_forall_ne (by simp)
  | tooDear route now found dear => exact sendsOnly_of_forall_ne (by simp)
  | broken route found cheap paid => exact paid.sendsOnly (pays found cheap)
  | moved route found cheap paid now =>
      exact (paid.sendsOnly (pays found cheap)).append (sendsOnly_of_forall_ne (by simp))
  | failed route found cheap paid now =>
      exact (paid.sendsOnly (pays found cheap)).append (sendsOnly_of_forall_ne (by simp))

theorem TriesRun.sendsOnly {more tries : Nat} {last : Option Route} (hb : b.graph.Reachable)
    (hops : 2 ≤ r.maxHops) {result : Option (Attempt × Books)}
    (h : TriesRun timeout r index amount more tries last b record result) :
    SendsOnly (fun label sent hops => (∃ tries, label = invoiceLabel r index tries) ∧
      sent = amount ∧ KeepsTo r amount hops) record := by
  have weaken : ∀ {tries : Nat} {record : Exchanges},
      SendsOnly (fun label sent hops => label = invoiceLabel r index tries ∧ sent = amount ∧
        KeepsTo r amount hops) record →
      SendsOnly (fun label sent hops => (∃ tries, label = invoiceLabel r index tries) ∧
        sent = amount ∧ KeepsTo r amount hops) record :=
    fun h => h.mono fun _ _ _ hp => ⟨⟨_, hp.1⟩, hp.2⟩
  -- A try after which another follows has moved nothing, so the next one starts on a reachable
  -- graph.
  induction h with
  | broken step => exact weaken (step.sendsOnly hb hops)
  | stopped step final => exact weaken (step.sendsOnly hb hops)
  | again step next ih =>
      exact (weaken (step.sendsOnly hb hops)).append (ih (step.unmoved.graph.reachable hb))

theorem ChunksRun.sendsOnly {chunks : List Msat} (hb : b.graph.Reachable) (hops : 2 ≤ r.maxHops)
    {result : Option (List Attempt × Books)}
    (h : ChunksRun timeout r index chunks b record result) :
    SendsOnly (fun label amount hops => (∃ i tries, label = invoiceLabel r (index + i) tries ∧
      chunks[i]? = some amount) ∧ KeepsTo r amount hops) record := by
  -- The payments of the first chunk, and of the later chunks one place further on.
  have head : ∀ {index : Nat} {amount : Msat} {rest : List Msat} {record : Exchanges},
      SendsOnly (fun label sent hops => (∃ tries, label = invoiceLabel r index tries) ∧
        sent = amount ∧ KeepsTo r amount hops) record →
      SendsOnly (fun label sent hops => (∃ i tries, label = invoiceLabel r (index + i) tries ∧
        (amount :: rest)[i]? = some sent) ∧ KeepsTo r sent hops) record := by
    refine fun h => h.mono ?_
    rintro _ _ hops ⟨⟨tries, rfl⟩, rfl, hk⟩
    exact ⟨⟨0, tries, rfl, rfl⟩, hk⟩
  have tail : ∀ {index : Nat} {amount : Msat} {rest : List Msat} {record : Exchanges},
      SendsOnly (fun label sent hops => (∃ i tries, label = invoiceLabel r (index + 1 + i) tries ∧
        rest[i]? = some sent) ∧ KeepsTo r sent hops) record →
      SendsOnly (fun label sent hops => (∃ i tries, label = invoiceLabel r (index + i) tries ∧
        (amount :: rest)[i]? = some sent) ∧ KeepsTo r sent hops) record := by
    refine fun h => h.mono ?_
    rintro _ sent hops ⟨⟨i, tries, rfl, hi⟩, hk⟩
    exact ⟨⟨i + 1, tries, by rw [Nat.add_assoc, Nat.add_comm 1 i], hi⟩, hk⟩
  induction h with
  | nil => exact sendsOnly_of_forall_ne (by simp)
  | broken chunk => exact head (chunk.sendsOnly hb hops)
  | unrecorded chunk lost => exact head (chunk.sendsOnly hb hops)
  | cons chunk kept next ih =>
      refine (head (chunk.sendsOnly hb hops)).append (tail (ih ?_))
      rw [graph_recordAttempt kept]
      exact chunk.outcome.reachable hb

/-! ## Fees -/

/-- The fee of an attempt that moved something keeps to the request's rate. -/
def KeepsRate (r : Request) (a : Attempt) : Prop :=
  a.success = true → a.fee.toNat * 1000000 ≤ r.maxRate.toNat * a.amount.toNat

theorem PayRun.fee_eq (hlast : route.hops.getLast?.map (·.amount) = some route.amount)
    (h : PayRun timeout b route label record (some (.ok fee, b'))) (reports : ReportsSent record) :
    fee = route.fee := by
  cases h with
  | sent invoice wait =>
      generalize hr : some (Except.ok fee, b') = result at wait
      -- The fee is the reported difference, or that of the route if the invoice was found paid.
      cases wait with
      | completed delivered sent now =>
          cases (settles_of_settled hr.symm).1
          obtain ⟨hdelivered, hsent⟩ := reports [_] _ _ _ _ _ _ _ _ rfl
          rw [Route.paymentHops, List.getLast?_map, Option.map_map] at hdelivered
          have hd : some route.amount = some delivered := hlast.symm.trans hdelivered
          cases hd
          rw [Route.paymentHops, List.head?_map, Option.map_map] at hsent
          obtain ⟨hop, hhead, rfl⟩ := Option.map_eq_some_iff.mp hsent
          obtain ⟨rest, hhops⟩ := List.head?_eq_some_iff.mp hhead
          rw [Route.fee, hhops]
          rfl
      | failed failure => cases hr
      | foundPaid answer reason now stop =>
          cases (settles_of_settled hr.symm).1
          rfl
      | givenUp => cases hr

theorem TryRun.keepsRate {tries : Nat} {last again : Option Route} {attempt : Attempt}
    (h : TryRun timeout r index amount tries last b record (some (attempt, again, b')))
    (reports : ReportsSent record) : KeepsRate r attempt := by
  intro hsuccess
  cases h with
  | noRoute failure now found => cases hsuccess
  | tooDear route now found dear => cases hsuccess
  | moved route found cheap paid now =>
      obtain ⟨hamount, hlast⟩ := getLast?_of_lookup found
      obtain rfl := paid.fee_eq (hlast.trans (congrArg some hamount.symm)) reports.left
      exact Route.within_iff.mp cheap
  | failed route found cheap paid now => cases hsuccess

theorem TriesRun.keepsRate {more tries : Nat} {last : Option Route} {attempt : Attempt}
    (h : TriesRun timeout r index amount more tries last b record (some (attempt, b')))
    (reports : ReportsSent record) : KeepsRate r attempt := by
  induction h using TriesRun.ended_induction with
  | stopped step final => exact step.keepsRate reports
  | again step next ih => exact ih reports.right

theorem ChunksRun.keepsRate {chunks : List Msat} {attempts : List Attempt}
    (h : ChunksRun timeout r index chunks b record (some (attempts, b')))
    (reports : ReportsSent record) : ∀ attempt ∈ attempts, KeepsRate r attempt := by
  induction h using ChunksRun.ended_induction with
  | nil => simp
  | cons chunk kept next ih =>
      intro a ha
      rcases List.mem_cons.mp ha with rfl | ha
      · exact chunk.keepsRate reports.left
      · exact ih reports.right a ha

/-- Every attempt in the history that was not there before is one of the chunks. -/
theorem ChunksRun.recent {chunks : List Msat} {attempts : List Attempt}
    (h : ChunksRun timeout r index chunks b record (some (attempts, b'))) {a : Attempt}
    (ha : a ∈ b'.history.recent) : a ∈ b.history.recent ∨ a ∈ attempts := by
  induction h using ChunksRun.ended_induction with
  | nil => exact Or.inl ha
  | cons chunk kept next ih =>
      -- What the later chunks found in the history is from before, or from the first chunk.
      rcases ih ha with hold | hnew
      · rcases recent_recordAttempt kept hold with hold | rfl
        · rw [chunk.outcome.history] at hold
          exact Or.inl hold
        · exact Or.inr (by simp)
      · exact Or.inr (by simp [hnew])

/-- However the node replies, each payment of a request is for one of its chunks and keeps to the
request. If the node reports what was sent, the fees keep to the rate of the request as well. -/
theorem payments_keep_to_request {result : Option (Summary × Books)} (accepted : r.flaw? = none)
    (hb : b.graph.Reachable) (h : (execute timeout r b).Runs record result) :
    SendsOnly (fun label amount hops => (∃ index tries, label = invoiceLabel r index tries ∧
      r.chunks[index]? = some amount) ∧ KeepsTo r amount hops) record ∧
    (ReportsSent record → ∀ summary b', result = some (summary, b') →
      (∀ attempt, attempt ∈ summary.attempts ∨
          (attempt ∈ b'.history.recent ∧ attempt ∉ b.history.recent) →
        KeepsRate r attempt) ∧
      summary.rate ≤ r.maxRate) := by
  have hops := Request.two_le_maxHops accepted
  cases runs_execute_iff.mp h with
  | broken start chunks =>
      have hsends := chunks.sendsOnly hb hops
      simp only [Nat.zero_add] at hsends
      exact ⟨@SendsOnly.append _ [_] _ (sendsOnly_of_forall_ne (by simp)) hsends, nofun⟩
  | @finished start stop record attempts b' chunks =>
      have hsends := chunks.sendsOnly hb hops
      simp only [Nat.zero_add] at hsends
      refine ⟨@SendsOnly.append _ [_] _ (sendsOnly_of_forall_ne (by simp))
        (hsends.append (sendsOnly_of_forall_ne (by simp))), ?_⟩
      intro reports summary b'' hresult
      obtain ⟨summary', hsummary, heq⟩ := Option.map_eq_some_iff.mp hresult
      cases heq
      have hkeeps := chunks.keepsRate (@ReportsSent.right [_] _ reports).left
      obtain ⟨hattempts, hmoved, hfee, hrate⟩ := Summary.eq_of_ofAttempts? hsummary
      have hsum : summary.fee.toNat * 1000000 ≤ r.maxRate.toNat * summary.moved.toNat := by
        rw [hmoved, hfee]
        exact feesBy_le hkeeps
      -- An attempt that is new in the history is one of those of the summary.
      refine ⟨fun attempt ha => hkeeps attempt ?_, hrate ▸ rateOf_le hsum⟩
      rcases ha with ha | ⟨hnew, hold⟩
      · exact hattempts ▸ ha
      · exact (chunks.recent hnew).resolve_left hold

theorem reportsSent_paidAtOnce {invoice : Invoice} {sent : Msat} {now : Time} {stop : UInt64}
    (hlast : route.paymentHops.getLast?.map (·.amount) = some route.amount)
    (hfirst : route.paymentHops.head?.map (·.amount) = some sent) :
    ReportsSent (paidAtOnce timeout r route invoice sent now stop) := by
  intro before after hops hash secret hash' seconds delivered sent heq
  match before, heq with
  | [_, _], heq =>
      cases heq
      exact ⟨hlast, hfirst⟩
  | [], heq => cases heq
  | [_], heq => cases heq
  | [_, _, _], heq => cases heq
  | [_, _, _, _], heq => cases heq
  | [_, _, _, _, _], heq => cases heq
  | _ :: _ :: _ :: _ :: _ :: _ :: _, heq =>
      have hlen := congrArg List.length heq
      simp only [paidAtOnce, List.length_cons, List.length_append, List.length_nil] at hlen
      omega

theorem payments_keep_to_request_moveOver :
    (moveOver 1).flaw? = none ∧ Graph.twoChannels.Reachable ∧
      ReportsSent (paidAtOnce 60 (moveOver 1) routeOver ⟨"h", "s"⟩ 1001 0 5) ∧
      ∃ b', (execute 60 (moveOver 1) (.ofGraph Graph.twoChannels)).Runs
          (paidAtOnce 60 (moveOver 1) routeOver ⟨"h", "s"⟩ 1001 0 5) (some (summaryOver, b')) ∧
        SendsOnly (fun label amount hops => (∃ index tries,
            label = invoiceLabel (moveOver 1) index tries ∧
            (moveOver 1).chunks[index]? = some amount) ∧ KeepsTo (moveOver 1) amount hops)
          (paidAtOnce 60 (moveOver 1) routeOver ⟨"h", "s"⟩ 1001 0 5) ∧
        (∀ attempt ∈ summaryOver.attempts, KeepsRate (moveOver 1) attempt) ∧
        summaryOver.rate ≤ (moveOver 1).maxRate := by
  obtain ⟨b', hrun, -⟩ := runs_moveOver
  have accepted : (moveOver 1).flaw? = none := by decide +kernel
  have reports : ReportsSent (paidAtOnce 60 (moveOver 1) routeOver ⟨"h", "s"⟩ 1001 0 5) :=
    reportsSent_paidAtOnce rfl rfl
  obtain ⟨hsends, hfees⟩ := payments_keep_to_request accepted Graph.reachable_twoChannels hrun
  obtain ⟨hkeeps, hrate⟩ := hfees reports summaryOver b' rfl
  exact ⟨accepted, Graph.reachable_twoChannels, reports, b', hrun, hsends,
    fun attempt ha => hkeeps attempt (Or.inl ha), hrate⟩

end Execution

end Rebalancer
