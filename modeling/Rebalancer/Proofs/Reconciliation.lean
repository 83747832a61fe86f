import Rebalancer.Proofs.Atomicity
import Rebalancer.Proofs.Engine
import Rebalancer.Proofs.Graph.Connectivity
import Rebalancer.Proofs.Graph.LateRefusals
import Rebalancer.Proofs.Ledger.Verdicts

set_option autoImplicit false

/-! # Asking for payments that were given up

The engine walks through the payments that timed out and asks how each of them ended. The list is
made before the first question. Since its hashes are distinct, no answer changes what the ledger
knows of a payment that is still to be asked for, so every question is asked of a payment that has
timed out. The ledger then takes over the verdict on that payment alone, and the graph learns at
most one refusal, on the payment's own route (`Heeds`). What the whole walk does follows by
induction over the list (`runs_reconcileAll`).
-/

namespace Rebalancer

/-! ## What the graph learns -/

/-- `g'` is `g` with other estimates on the half `id` and on its opposite. -/
structure Graph.Reestimated (g : Graph) (id : HalfId) (g' : Graph) : Prop where
  selfId : g'.selfId = g.selfId
  nodes : g'.nodes = g.nodes
  inbound : g'.inbound = g.inbound
  own : g'.own = g.own
  others : ∀ id' : HalfId, id' ≠ id → id' ≠ id.opposite → g'.halves[id']? = g.halves[id']?
  estimates : ∀ id' : HalfId, id' = id ∨ id' = id.opposite →
    ∃ (liquidity : Msat) (now : Time),
      g'.halves[id']? = g.halves[id']?.map (·.withLiquidity liquidity now)

namespace Graph

variable {g g' : Graph} {id : HalfId} {amount : Msat} {now : Time}

theorem reestimated_applyFailure (h : g.applyFailure id amount now = some g') :
    g.Reestimated id g' := by
  obtain ⟨-, k, hk, hhalves⟩ := getElem?_applyFailure h
  refine ⟨(own_applyFailure h).2, nodes_applyFailure h, ?_, (own_applyFailure h).1, ?_, ?_⟩
  · unfold applyFailure at h
    split at h
    · cases h
    · obtain ⟨k', -, rfl⟩ := Option.map_eq_some_iff.mp h
      rfl
  · intro id' hne hopposite
    rw [hhalves, if_neg hne, if_neg hopposite]
  · intro id' hid
    by_cases heq : id' = id
    · refine ⟨refusedEstimate amount k.capacity, now, ?_⟩
      rw [hhalves, if_pos heq, heq, hk]
      rfl
    · refine ⟨subClamped k.capacity (refusedEstimate amount k.capacity), now, ?_⟩
      rw [hhalves, if_neg heq, if_pos (hid.resolve_left heq)]

/-- Estimates on halves of other channels leave the own halves as they are. -/
theorem Reestimated.own_halves (h : g.Reestimated id g') (other : g.isOwn id.scid = false)
    {id' : HalfId} (hown : g.isOwn id'.scid = true) : g'.halves[id']? = g.halves[id']? := by
  refine h.others id' ?_ ?_
  · rintro rfl
    rw [other] at hown
    cases hown
  · rintro rfl
    rw [HalfId.scid_opposite, other] at hown
    cases hown

end Graph

namespace Inquiry

/-- The question and its answer, as they go to and fro. -/
def exchange (i : Inquiry) : (q : Query.interface.Question) × Query.interface.Answer q :=
  (Query.waitPay i.hash Engine.lateWait).answered i.answer

/-- What the answer on a payment over `route` teaches: nothing, or, if the payment failed, what a
half on the route can carry that is of no own channel. -/
inductive Teaches (i : Inquiry) (route : Route) (g : Graph) : Graph → Prop
  | nothing : Teaches i route g g
  | refusal {g' : Graph} {hop : Hop} (failed : i.verdict? = some .failed)
      (mem : hop ∈ route.hops) (other : g.isOwn hop.half.scid = false)
      (reestimated : g.Reestimated hop.half g') : Teaches i route g g'

end Inquiry

/-- The answers teach one after the other, each by the route of its own payment. -/
inductive TeachInTurn (route? : String → Option Route) : List Inquiry → Graph → Graph → Prop
  | nil {g : Graph} : TeachInTurn route? [] g g
  | cons {i : Inquiry} {rest : List Inquiry} {route : Route} {g g' g'' : Graph}
      (sent : route? i.hash = some route) (first : i.Teaches route g g')
      (others : TeachInTurn route? rest g' g'') : TeachInTurn route? (i :: rest) g g''

section Teaches

variable {i : Inquiry} {inquiries : List Inquiry} {route : Route} {route? : String → Option Route}
  {g g' : Graph}

theorem Inquiry.Teaches.own (h : i.Teaches route g g') : g'.own = g.own := by
  cases h with
  | nothing => rfl
  | refusal failed mem other reestimated => exact reestimated.own

theorem Inquiry.Teaches.own_halves (h : i.Teaches route g g') {id : HalfId}
    (hown : g.isOwn id.scid = true) : g'.halves[id]? = g.halves[id]? := by
  cases h with
  | nothing => rfl
  | refusal failed mem other reestimated => exact reestimated.own_halves other hown

theorem TeachInTurn.own (h : TeachInTurn route? inquiries g g') : g'.own = g.own := by
  induction h with
  | nil => rfl
  | cons sent first others ih => exact ih.trans first.own

theorem TeachInTurn.own_halves (h : TeachInTurn route? inquiries g g') {id : HalfId}
    (hown : g.isOwn id.scid = true) : g'.halves[id]? = g.halves[id]? := by
  induction h with
  | nil => rfl
  | cons sent first others ih =>
      have hown' := hown
      rw [Graph.isOwn, ← first.own] at hown'
      exact (ih hown').trans (first.own_halves hown)

end Teaches

/-- The hop that a failure blames is on the route. -/
theorem Books.mem_of_erringHop? {route : Route} {f : PaymentFailure} {hop : Hop}
    (h : erringHop? route f = some hop) : hop ∈ route.hops := by
  unfold erringHop? at h
  split at h
  · cases h
  · split at h
    · cases h
    · exact List.mem_of_find?_eq_some h

/-- A late failure teaches at most what one half on the route of the payment can carry. -/
theorem Books.teaches_learn (b : Books) (route : Route) {i : Inquiry} {f : PaymentFailure}
    (failed : i.verdict? = some .failed) (now : Time) :
    i.Teaches route b.graph (b.learn route f now).graph := by
  unfold learn
  cases herring : erringHop? route f with
  | none => exact .nothing
  | some hop =>
      dsimp only
      cases hlearned : b.graph.applyFailure hop.half hop.amount now with
      | none => exact .nothing
      | some g =>
          exact .refusal failed (mem_of_erringHop? herring) (Graph.getElem?_applyFailure hlearned).1
            (Graph.reestimated_applyFailure hlearned)

/-! ## One question -/

namespace Engine

variable {e e' : Engine} {record : Exchanges} {hash : String}

/-- The engine has taken over the answer to an inquiry. -/
structure Heeds (e : Engine) (i : Inquiry) (e' : Engine) : Prop where
  ledger : e'.books.ledger = e.books.ledger.told i
  graph : ∃ route, e.books.ledger.route? i.hash = some route ∧
    i.Teaches route e.books.graph e'.books.graph

theorem runs_reconcileOne {result : Option (Bool × Engine)}
    (timedOut : e.books.ledger.state? hash = some .timedOut)
    (h : (e.reconcileOne hash).Runs record result) :
    ∃ i e', i.hash = hash ∧ paymentCalls record = [i.exchange] ∧
      result = some (!i.isSilent, e') ∧ e.Heeds i e' := by
  obtain ⟨entry, hentry, hstate⟩ := Option.map_eq_some_iff.mp timedOut
  have hroute : e.books.ledger.route? hash = some entry.route := by
    rw [Ledger.route?, hentry]
    rfl
  obtain ⟨answer, rest, rfl, hnext⟩ := Query.runs_ask_bind.mp h
  refine ⟨⟨hash, answer⟩, ?_⟩
  match answer, hnext with
  | .ok (.failed failure), hnext =>
      have haccept : e.books.ledger.acceptFailure hash =
          some (entry.route, e.books.ledger.resolve hash .failed) :=
        Ledger.acceptFailure_eq_some_iff.mpr ⟨entry, hentry, by rw [hstate]; rfl, rfl, rfl⟩
      unfold notifyFailure at hnext
      rw [haccept] at hnext
      obtain ⟨now, _, rfl, rfl, rfl⟩ := Query.runs_ask_bind.mp hnext
      refine ⟨_, rfl, rfl, rfl, ⟨?_, entry.route, hroute, ?_⟩⟩
      · exact Execution.ledger_learn ..
      · exact Books.teaches_learn { e.books with ledger := e.books.ledger.resolve hash .failed }
          entry.route (i := ⟨hash, .ok (.failed failure)⟩) rfl now
  | .ok (.complete delivered sent), hnext =>
      obtain ⟨rfl, rfl⟩ := hnext
      exact ⟨_, rfl, rfl, rfl, ⟨rfl, entry.route, hroute, .nothing⟩⟩
  | .ok .timedOut, hnext =>
      obtain ⟨rfl, rfl⟩ := hnext
      exact ⟨_, rfl, rfl, rfl, ⟨rfl, entry.route, hroute, .nothing⟩⟩
  | .error err, hnext =>
      obtain ⟨rfl, rfl⟩ := hnext
      exact ⟨_, rfl, rfl, rfl, ⟨rfl, entry.route, hroute, .nothing⟩⟩

/-! ## All questions -/

theorem runs_reconcileAll {hashes : List String} {result : Option (Nat × Engine)}
    (distinct : hashes.Nodup)
    (timedOut : ∀ hash ∈ hashes, e.books.ledger.state? hash = some .timedOut)
    (h : (reconcileAll hashes e).Runs record result) :
    ∃ inquiries e', inquiries.map (·.hash) = hashes ∧
      paymentCalls record = inquiries.map (·.exchange) ∧
      result = some (inquiries.countP (!·.isSilent), e') ∧
      e'.books.ledger = inquiries.foldl Ledger.told e.books.ledger ∧
      TeachInTurn e.books.ledger.route? inquiries e.books.graph e'.books.graph := by
  induction hashes generalizing e record result with
  | nil =>
      obtain ⟨rfl, rfl⟩ := h
      exact ⟨[], e, rfl, rfl, rfl, rfl, .nil⟩
  | cons hash rest ih =>
      rw [List.nodup_cons] at distinct
      unfold reconcileAll at h
      rcases Dialogue.runs_bind.mp h with ⟨first, ⟨known, e₁⟩, _, rfl, hone, hrest⟩ | ⟨hone, -⟩
      · obtain ⟨i, _, rfl, hcall, heq, hheeds⟩ :=
          runs_reconcileOne (timedOut _ List.mem_cons_self) hone
        cases heq
        have stays : ∀ hash ∈ rest, e₁.books.ledger.state? hash = some .timedOut := by
          intro hash hmem
          have hne : i.hash ≠ hash := by
            rintro rfl
            exact distinct.1 hmem
          rw [hheeds.ledger, Ledger.state?_told_of_ne hne]
          exact timedOut hash (List.mem_cons_of_mem _ hmem)
        rcases Dialogue.runs_bind.mp hrest with
          ⟨second, ⟨n, e₂⟩, _, rfl, hall, rfl, rfl⟩ | ⟨hall, -⟩
        · obtain ⟨inquiries, _, rfl, hcalls, heq, hledger, hteach⟩ := ih distinct.2 stays hall
          cases heq
          obtain ⟨route, hroute, hfirst⟩ := hheeds.graph
          rw [hheeds.ledger, Ledger.route?_told] at hteach
          rw [hheeds.ledger] at hledger
          refine ⟨i :: inquiries, e₂, rfl, ?_, ?_, hledger, .cons hroute hfirst hteach⟩
          · rw [List.append_nil, List.map_cons, ← hcalls, paymentCalls, List.filter_append]
            exact congrArg (· ++ _) hcall
          · rw [List.countP_cons, Nat.add_comm]
        · obtain ⟨inquiries, e', -, -, heq, -⟩ := ih distinct.2 stays hall
          cases heq
      · obtain ⟨i, e', -, -, heq, -⟩ := runs_reconcileOne (timedOut _ List.mem_cons_self) hone
        cases heq

/-- What is so when the engine has made these inquiries and gives this count. -/
structure Reconciles (e : Engine) (inquiries : List Inquiry) (count : Nat) (e' : Engine) :
    Prop where
  asked : e.books.ledger.Asked inquiries
  /-- The count is that of the payments that no longer count as timed out. -/
  counted : count =
    (e.books.ledger.timedOut.filter (· ∉ e'.books.ledger.timedOut)).length
  remaining : e'.books.ledger.timedOut = (inquiries.filter (·.isSilent)).map (·.hash)
  ledger : e'.books.ledger =
    ⟨e.books.ledger.capacity, e.books.ledger.entries.map (·.judged inquiries)⟩
  kept : ∀ entry ∈ e.books.ledger.entries,
    entry.hash ∉ e.books.ledger.timedOut ∨ entry.hash ∈ e'.books.ledger.timedOut →
      entry ∈ e'.books.ledger.entries
  own : e'.books.graph.own = e.books.graph.own
  own_halves : ∀ id : HalfId, e.books.graph.isOwn id.scid = true →
    e'.books.graph.halves[id]? = e.books.graph.halves[id]?
  taught : TeachInTurn e.books.ledger.route? inquiries e.books.graph e'.books.graph

/-- However the node replies, the engine asks for each payment that timed out once, and gives the
number of those whose end it learned. It can only be in states with an ordered ledger
(`Arises.ordered`). -/
theorem reconciles_of_runs {result : Option (Nat × Engine)} (ordered : e.books.ledger.Ordered)
    (h : e.reconcile.Runs record result) :
    ∃ inquiries count e', result = some (count, e') ∧
      paymentCalls record = inquiries.map (·.exchange) ∧ e.Reconciles inquiries count e' := by
  obtain ⟨inquiries, e', asked, hcalls, hresult, hledger, hteach⟩ :=
    runs_reconcileAll ordered.nodup_timedOut (fun _ => ordered.state?_of_mem_timedOut) h
  have hremaining : e'.books.ledger.timedOut = (inquiries.filter (·.isSilent)).map (·.hash) := by
    rw [hledger]
    exact ordered.timedOut_toldAll asked
  have hjudged : e'.books.ledger =
      ⟨e.books.ledger.capacity, e.books.ledger.entries.map (·.judged inquiries)⟩ :=
    hledger.trans (ordered.toldAll_eq asked)
  refine ⟨inquiries, _, e', hresult, hcalls, asked, ?_, hremaining, hjudged, ?_, hteach.own,
    fun id => hteach.own_halves, hteach⟩
  · rw [hledger]
    exact (ordered.length_left_toldAll asked).symm
  · intro entry hentry hkept
    have hnone : verdictOn? inquiries entry.hash = none := by
      cases hkept with
      | inl hother =>
          rw [← asked] at hother
          exact verdictOn?_of_notMem hother
      | inr hsilent =>
          rw [hremaining] at hsilent
          obtain ⟨i, hi, heq⟩ := List.mem_map.mp hsilent
          obtain ⟨hi, hsilent⟩ := List.mem_filter.mp hi
          rw [← heq, verdictOn?_of_mem (ordered.nodup_of_asked asked) hi]
          exact Inquiry.verdict?_eq_none_iff.mpr hsilent
    rw [hjudged]
    exact List.mem_map.mpr ⟨entry, hentry, LedgerEntry.judged_of_none hnone⟩

/-! ## Five payments -/

/-- A route that goes through the channel between `b` and `c`. -/
def routeBetween : Route :=
  ⟨[⟨⟨"8x8", 0⟩, "a", "b", 1500015, 30⟩, ⟨⟨"1x1", 0⟩, "b", "c", 1500000, 24⟩,
    ⟨⟨"9x9", 1⟩, "c", "a", 1500000, 18⟩], 1500000⟩

/-- An engine that has given up four payments over this route. -/
def givenUpBetween : Engine :=
  { ofGraph Graph.listedBetween with
    books := { Books.ofGraph Graph.listedBetween with
      ledger := ⟨8, [⟨"h1", .timedOut, routeBetween⟩, ⟨"h2", .timedOut, routeBetween⟩,
        ⟨"h3", .timedOut, routeBetween⟩, ⟨"h4", .timedOut, routeBetween⟩,
        ⟨"h5", .pending, routeBetween⟩]⟩ } }

/-- The first payment failed at the half from `b` to `c`, the second is under way, the third
settled, and there is no answer on the fourth. -/
def answerBetween : (q : Query.interface.Question) → Query.interface.Answer q
  | .waitPay "h1" _ => .ok (.failed ⟨204, "", none, none, some "1x1", some 0⟩)
  | .waitPay "h2" _ => .ok .timedOut
  | .waitPay "h3" _ => .ok (.complete 1500000 1500015)
  | .waitPay _ _ | .info | .gossip | .nodes | .channels | .createInvoice .. | .sendPay ..
  | .deleteInvoice _ => .error (.lost "")
  | .clock => (10 : Time)
  | .random | .stopwatch => (0 : UInt64)

theorem reconciles_givenUpBetween :
    givenUpBetween.books.ledger.Ordered ∧
      ∃ record inquiries e', givenUpBetween.reconcile.Runs record (some (2, e')) ∧
        givenUpBetween.Reconciles inquiries 2 e' ∧
        e'.books.ledger.timedOut = ["h2", "h4"] ∧
        e'.books.graph.halves[(⟨"1x1", 0⟩ : HalfId)]?.map (·.liquidity) = some 500000 := by
  have ordered : givenUpBetween.books.ledger.Ordered := ⟨by decide, by decide⟩
  have hrun := Dialogue.runs_transcript answerBetween givenUpBetween.reconcile
  have hends : (givenUpBetween.reconcile.transcript answerBetween).2.map (fun r =>
      (r.1, r.2.books.ledger.timedOut,
        r.2.books.graph.halves[(⟨"1x1", 0⟩ : HalfId)]?.map (·.liquidity))) =
        some (2, ["h2", "h4"], some 500000) := by
    decide +kernel
  obtain ⟨inquiries, count, e', hresult, -, hreconciles⟩ := reconciles_of_runs ordered hrun
  rw [hresult] at hrun hends
  simp only [Option.map_some, Option.some.injEq, Prod.mk.injEq] at hends
  obtain ⟨rfl, hremaining, hlearned⟩ := hends
  exact ⟨ordered, _, inquiries, e', hrun, hreconciles, hremaining, hlearned⟩

end Engine

/-! ## Engine states -/

theorem Ledger.Ordered.hear {l : Ledger} (h : l.Ordered) (n : News) : (l.hear n).Ordered := by
  match n with
  | .paid p => exact (h.perform (.issue p.entry.hash p.route)).perform (.resolve p.hash p.state)
  | .told hash => exact h.perform (.acceptFailure hash)
  | .asked hash (.ok (.failed failure)) => exact h.perform (.acceptFailure hash)
  | .asked hash (.ok (.complete delivered sent)) => exact h.perform (.resolve hash .succeeded)
  | .asked hash (.ok .timedOut) => exact h
  | .asked hash (.error err) => exact h

theorem Ledger.Ordered.hearAll {l : Ledger} (h : l.Ordered) (news : List News) :
    (l.hearAll news).Ordered := by
  induction news generalizing l with
  | nil => exact h
  | cons n rest ih => exact ih (h.hear n)

namespace Engine

variable {e e' : Engine} {record : Exchanges}

/-- The states in which an engine can be. -/
inductive Arises : Engine → Prop
  | started {engine : EngineSettings} {defaults : Defaults} {store : Store} {record : Exchanges}
      {e : Engine} (h : (start engine defaults store).Runs record (some (.ok e))) : Arises e
  | performed {e e' : Engine} {t : Task} {record : Exchanges} {result : Except Failure t.Yield}
      (before : Arises e) (h : (e.perform t).Runs record (some (result, e'))) : Arises e'
  | carriedOut {e e' : Engine} {errand : Errand} {record : Exchanges} (before : Arises e)
      (h : (e.carryOut errand).Runs record (some e')) : Arises e'
  | forgot {e : Engine} (before : Arises e) : Arises e.deleteStats.2
  /-- New lists of own channels may be gone through in another order. -/
  | reordered {e : Engine} (before : Arises e) (order : OwnOrder) :
      Arises { e with books := { e.books with order := order } }

theorem ordered_of_start {engine : EngineSettings} {defaults : Defaults} {store : Store}
    (h : (start engine defaults store).Runs record (some (.ok e))) : e.books.ledger.Ordered := by
  obtain ⟨info, rest, rfl, hinfo⟩ := Query.runs_ask_bind.mp h
  match info, hinfo with
  | .error err, hinfo => cases hinfo.2
  | .ok info, hinfo =>
      obtain ⟨now, rest, rfl, hnow⟩ := Query.runs_ask_bind.mp hinfo
      rcases runs_ofOption_bind.mp hnow with ⟨⟨history, store⟩, -, -, heq⟩ | ⟨-, -, heq⟩
      · cases heq
        exact Ledger.ordered_new _
      · cases heq

section KeepsLedger

variable {α : Type}

/-- Whatever it ends with, the dialogue leaves the ledger as it is. -/
def KeepsLedger (e : Engine) (d : NodeDialogue (α × Engine)) : Prop :=
  ∀ record a e', d.Runs record (some (a, e')) → e'.books.ledger = e.books.ledger

theorem keepsLedger_done {a : α} (h : e'.books.ledger = e.books.ledger) :
    e.KeepsLedger (.done (a, e')) := by
  rintro _ _ _ ⟨-, heq⟩
  cases heq
  exact h

theorem KeepsLedger.ask {q : Query} {f : q.Answer → NodeDialogue (α × Engine)}
    (h : ∀ answer, e.KeepsLedger (f answer)) : e.KeepsLedger (q.ask >>= f) := by
  intro record a e' hrun
  obtain ⟨answer, rest, -, hrest⟩ := Query.runs_ask_bind.mp hrun
  exact h answer rest a e' hrest

end KeepsLedger

theorem keepsLedger_refresh (e : Engine) : e.KeepsLedger e.refresh := by
  refine .ask fun gossip => ?_
  match gossip with
  | .error err => exact keepsLedger_done rfl
  | .ok gossip =>
      refine .ask fun nodes => ?_
      match nodes with
      | .error err => exact keepsLedger_done rfl
      | .ok nodes =>
          refine .ask fun channels => ?_
          match channels with
          | .error err => exact keepsLedger_done rfl
          | .ok channels => exact .ask fun now => keepsLedger_done rfl

theorem keepsLedger_refreshOwn (e : Engine) : e.KeepsLedger e.refreshOwn := by
  refine .ask fun channels => ?_
  match channels with
  | .error err => exact keepsLedger_done rfl
  | .ok channels => exact .ask fun now => keepsLedger_done rfl

/-- In every state the ledger remembers each payment once, and not more than it can hold. -/
theorem Arises.ordered (h : e.Arises) : e.books.ledger.Ordered := by
  induction h with
  | started h => exact ordered_of_start h
  | @performed e e' t record result before h ih =>
      cases t with
      | refresh =>
          rw [e.keepsLedger_refresh _ _ _ h]
          exact ih
      | refreshOwn =>
          rw [e.keepsLedger_refreshOwn _ _ _ h]
          exact ih
      | rebalance c =>
          generalize hr : some (result, e') = run at h
          cases rebalanceRun_of_runs h with
          | rejected failure none_made =>
              cases hr
              exact ih
          | carriedOut seed made run =>
              obtain ⟨⟨summary, b⟩, rfl, heq⟩ := Option.map_eq_some_iff.mp hr.symm
              cases heq
              obtain ⟨payments, hears, -⟩ := Execution.exists_hears_of_runs run
              show b.ledger.Ordered
              rw [hears.ledger]
              exact ih.hearAll _
  | carriedOut before h ih =>
      obtain ⟨news, hears, -⟩ := hears_of_carryOut h
      rw [hears.ledger]
      exact ih.hearAll news
  | forgot before ih => exact ih
  | reordered before order ih => exact ih

end Engine

end Rebalancer
