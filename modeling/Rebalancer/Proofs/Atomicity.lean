import Rebalancer.Proofs.Rejections
import Rebalancer.Proofs.Rest

set_option autoImplicit false

/-! # Tasks that fail

A refresh has all that it takes over before it changes anything, and a rebalance is carried out only
after its request was found to be in order. So a task that comes back with an error has left
everything as it was, in memory and in the store, and has made no call for a payment
(`unchanged_of_error`). Over HTTP nothing was posted to the methods for payments either, because
what the rebalancer asks goes to its own method only (`Rest.confined_answer`).
-/

namespace Rebalancer

/-! ## Calls for payments -/

/-- The question is one of the calls that make a payment: for its invoice, to send it, to wait for
its end, or to delete the invoice. -/
def Query.Pays : Query → Prop
  | createInvoice .. | sendPay .. | waitPay .. | deleteInvoice _ => True
  | info | gossip | nodes | channels | clock | random | stopwatch => False

/-- The methods of the node that make a payment. -/
def paymentMethods : List String := ["invoice", "sendpay", "waitsendpay", "delinvoice"]

namespace Rest

variable {c : Rest} {record : Exchanges} {traffic : Traffic}

/-- The document is posted to a method that makes a payment. -/
def Pays (c : Rest) : Http.Question → Prop
  | .post post => ∃ method ∈ paymentMethods, post.url = c.address method
  | .pause _ | .clock | .random | .stopwatch => False

/-- A question that does not pay is asked without a post that does. -/
theorem unpaid_of_runs_answer {q : Query} (hq : ¬ q.Pays) {result : Option q.Answer}
    (h : (c.answer q).Runs traffic result) : ∀ x ∈ traffic, ¬ c.Pays x.1 := by
  have hfree : ∀ answer, Query.call? (q.answered answer) = none := by
    intro answer
    cases q with
    | createInvoice | sendPay | waitPay | deleteInvoice => exact absurd trivial hq
    | info | gossip | nodes | channels | clock | random | stopwatch => rfl
  have hconfined : Confined (fun x => ¬ c.Pays x.1) (c.answer q) := by
    refine confined_answer hfree (fun method hmethod post reply hurl => ?_)
      fun question answer hpost => ?_
    · rintro ⟨paying, hpaying, hurl'⟩
      obtain rfl : method = paying := address_inj.mp (hurl.symm.trans hurl')
      cases q with
      | createInvoice | sendPay | waitPay | deleteInvoice => exact hq trivial
      | info | gossip | nodes | channels =>
          cases hmethod
          revert hpaying
          decide
      | clock | random | stopwatch => cases hmethod
    · cases question with
      | post post => exact absurd rfl (hpost post)
      | pause | clock | random | stopwatch => exact id
  exact (hconfined traffic result h).1

theorem Carries.unpaid (h : c.Carries record traffic) (hrecord : ∀ x ∈ record, ¬ x.1.Pays) :
    ∀ x ∈ traffic, ¬ c.Pays x.1 := by
  induction h with
  | nil => exact List.forall_mem_nil _
  | cons answered next ih =>
      obtain ⟨hfirst, hrest⟩ := List.forall_mem_cons.mp hrecord
      exact List.forall_mem_append.mpr ⟨unpaid_of_runs_answer hfirst answered, ih hrest⟩

end Rest

/-! ## Tasks -/

/-- What can be asked of the engine and can come back with an error. -/
inductive Task
  | refresh
  | refreshOwn
  | rebalance (c : Rebalance)

/-- What a task gives that does not fail. -/
abbrev Task.Yield : Task → Type
  | refresh => GraphStats
  | refreshOwn => Unit
  | rebalance _ => Summary

namespace Engine

variable {e e' : Engine} {record : Exchanges} {failure : Failure}

/-- Carries out a task. -/
def perform (e : Engine) : (t : Task) → NodeDialogue (Except Failure t.Yield × Engine)
  | .refresh => e.refresh
  | .refreshOwn => e.refreshOwn
  | .rebalance c => e.rebalance c

/-- The engine is as it was, and no call for a payment was made. -/
structure Traceless (e : Engine) (record : Exchanges) (e' : Engine) : Prop where
  unchanged : e' = e
  unpaid : ∀ x ∈ record, ¬ x.1.Pays

section FailsClean

variable {α : Type}

/-- Whether the dialogue leaves no trace on the engine when it ends with an error. -/
def FailsClean (e : Engine) (d : NodeDialogue (Except Failure α × Engine)) : Prop :=
  ∀ record failure e', d.Runs record (some (.error failure, e')) → e.Traceless record e'

theorem failsClean_error (e : Engine) (failure : Failure) :
    e.FailsClean (.done (.error failure, e) : NodeDialogue (Except Failure α × Engine)) := by
  rintro _ _ _ ⟨rfl, hresult⟩
  cases hresult
  exact ⟨rfl, List.forall_mem_nil _⟩

theorem failsClean_ok (e e₁ : Engine) (a : α) :
    e.FailsClean (.done (.ok a, e₁) : NodeDialogue (Except Failure α × Engine)) := by
  rintro _ _ _ ⟨-, hresult⟩
  cases hresult

/-- A question that does not pay leaves no trace. -/
theorem FailsClean.ask {q : Query} {f : q.Answer → NodeDialogue (Except Failure α × Engine)}
    (hq : ¬ q.Pays) (hf : ∀ answer, e.FailsClean (f answer)) : e.FailsClean (q.ask >>= f) := by
  intro record failure e' h
  obtain ⟨answer, rest, rfl, hrest⟩ := Query.runs_ask_bind.mp h
  obtain ⟨hunchanged, hunpaid⟩ := hf answer rest failure e' hrest
  exact ⟨hunchanged, List.forall_mem_cons.mpr ⟨hq, hunpaid⟩⟩

end FailsClean

/-- A refresh has the answers to all its questions before it changes anything. -/
theorem failsClean_refresh (e : Engine) : e.FailsClean e.refresh := by
  refine .ask id fun gossip => ?_
  match gossip with
  | .error err => exact e.failsClean_error _
  | .ok gossip =>
      refine .ask id fun nodes => ?_
      match nodes with
      | .error err => exact e.failsClean_error _
      | .ok nodes =>
          refine .ask id fun channels => ?_
          match channels with
          | .error err => exact e.failsClean_error _
          | .ok channels => exact .ask id fun now => failsClean_ok e _ _

theorem failsClean_refreshOwn (e : Engine) : e.FailsClean e.refreshOwn := by
  refine .ask id fun channels => ?_
  match channels with
  | .error err => exact e.failsClean_error _
  | .ok channels => exact .ask id fun now => failsClean_ok e _ _

/-- A request that is made is carried out, and gives a summary. -/
theorem failsClean_runRequest (e : Engine)
    (request : Defaults → UInt64 → Except Failure Request) :
    e.FailsClean (e.runRequest request) := by
  refine .ask id fun seed => ?_
  cases request e.defaults seed with
  | error failure => exact e.failsClean_error failure
  | ok r =>
      intro record failure e' h
      obtain ⟨run, -, hresult⟩ := runs_run_ok_iff.mp h
      obtain ⟨done, -, heq⟩ := Option.map_eq_some_iff.mp hresult
      cases heq

theorem failsClean_rebalance (e : Engine) (c : Rebalance) : e.FailsClean (e.rebalance c) := by
  cases c with
  | circular p => exact e.failsClean_runRequest _
  | pull p => exact e.failsClean_runRequest _
  | push p => exact e.failsClean_runRequest _
  | betweenNodes p =>
      show e.FailsClean (e.betweenNodes p)
      unfold betweenNodes
      cases e.books.graph.resolveEnds p.outNode p.inNode with
      | error failure => exact e.failsClean_error failure
      | ok ends => exact e.failsClean_runRequest _

theorem failsClean_perform (e : Engine) (t : Task) : e.FailsClean (e.perform t) := by
  cases t with
  | refresh => exact e.failsClean_refresh
  | refreshOwn => exact e.failsClean_refreshOwn
  | rebalance c => exact e.failsClean_rebalance c

/-- However the node replies, and whatever goes over the wire, a task that comes back with an error
has changed nothing of the engine and made no call for a payment. -/
theorem unchanged_of_error (e e' : Engine) (t : Task) (failure : Failure) :
    (∀ record, (e.perform t).Runs record (some (.error failure, e')) →
        e' = e ∧ ∀ x ∈ record, ¬ x.1.Pays) ∧
      ∀ (c : Rest) (traffic : Traffic),
        (c.run (e.perform t)).Runs traffic (some (.error failure, e')) →
          e' = e ∧ ∀ x ∈ traffic, ¬ c.Pays x.1 := by
  refine ⟨fun record h => ?_, fun c traffic h => ?_⟩
  · obtain ⟨hunchanged, hunpaid⟩ := e.failsClean_perform t record failure e' h
    exact ⟨hunchanged, hunpaid⟩
  · rcases Rest.runs_run_iff.mp h with hanswers | ⟨-, hresult⟩
    · obtain ⟨record, hruns, hcarries⟩ := Rest.exists_carries_of_answers hanswers
      obtain ⟨hunchanged, hunpaid⟩ := e.failsClean_perform t record failure e' hruns
      exact ⟨hunchanged, hcarries.unpaid hunpaid⟩
    · cases hresult

/-! ## A node that does not answer -/

/-- What is exchanged when the gossip is fetched, but not the nodes. -/
def lostNodes : Exchanges :=
  [Query.gossip.answered (.ok []), Query.nodes.answered (.error (.lost "ListNodes"))]

/-- A refresh that loses one of its answers leaves the two channels as they are, and so does one
over a dead wire, where the gossip is asked for three times, with a pause before each try and one
between any two. -/
theorem unchanged_of_error_twoChannels :
    (((ofGraph Graph.twoChannels).perform .refresh).Runs lostNodes
        (some (.error (.refresh "ListNodes"), ofGraph Graph.twoChannels)) ∧
      ∀ x ∈ lostNodes, ¬ x.1.Pays) ∧
    ∃ failure traffic,
      ((⟨"http://node", "rune"⟩ : Rest).run ((ofGraph Graph.twoChannels).perform .refresh)).Runs
        traffic (some (.error failure, ofGraph Graph.twoChannels)) ∧
      traffic.length = 8 ∧ ∀ x ∈ traffic, ¬ (⟨"http://node", "rune"⟩ : Rest).Pays x.1 := by
  have hrun : ((ofGraph Graph.twoChannels).perform .refresh).Runs lostNodes
      (some (.error (.refresh "ListNodes"), ofGraph Graph.twoChannels)) :=
    ⟨_, _, rfl, _, _, rfl, rfl, rfl⟩
  let d := (⟨"http://node", "rune"⟩ : Rest).run ((ofGraph Graph.twoChannels).perform .refresh)
  have hlength : (d.transcript Rest.deadWire).1.length = 8 := by decide +kernel
  have hfails : (d.transcript Rest.deadWire).2.map (·.1.isOk) = some false := by decide +kernel
  obtain ⟨failure, e', hresult⟩ :
      ∃ failure e', (d.transcript Rest.deadWire).2 = some (.error failure, e') := by
    obtain ⟨⟨result, e'⟩, hresult, hkind⟩ := Option.map_eq_some_iff.mp hfails
    cases result with
    | error failure => exact ⟨failure, e', hresult⟩
    | ok stats => cases hkind
  have hdead : d.Runs (d.transcript Rest.deadWire).1 (some (.error failure, e')) :=
    hresult ▸ d.runs_transcript Rest.deadWire
  obtain ⟨rfl, hunpaid⟩ := (unchanged_of_error _ _ .refresh _).2 _ _ hdead
  exact ⟨⟨hrun, ((unchanged_of_error _ _ .refresh _).1 _ hrun).2⟩, failure, _, hdead,
    hlength, hunpaid⟩

end Engine

end Rebalancer
