import Rebalancer.Proofs.Execution.Submissions
import Rebalancer.Rest

set_option autoImplicit false

/-! # Runs over HTTP

What goes over the wire while a dialogue with the node is held. The calls for payments can be read
off the documents that are posted (`Rest.callsOn`), and the answers that the rebalancer gets are a
function of the replies to them. So every run over HTTP carries a run of the dialogue, up to the
call at which it breaks off, if it does, and every beginning of a run that the wire can carry goes
on to a run over HTTP.
-/

namespace Rebalancer

/-- The method of the node that is called for a question. -/
def Query.method? : Query → Option String
  | info => some "getinfo"
  | gossip => some "listchannels"
  | nodes => some "listnodes"
  | channels => some "listpeerchannels"
  | createInvoice .. => some "invoice"
  | sendPay .. => some "sendpay"
  | waitPay .. => some "waitsendpay"
  | deleteInvoice _ => some "delinvoice"
  | clock | random | stopwatch => none

/-- What went over the wire. -/
abbrev Traffic := Dialogue.Record Http.interface

namespace Rest

variable {α : Type} {c : Rest} {traffic first second : Traffic}

/-! ## Calls on the wire -/

/-- The address of a method. -/
def address (c : Rest) (method : String) : String := s!"{c.baseUrl}/v1/{method}"

theorem address_inj {method method' : String} :
    c.address method = c.address method' ↔ method = method' := by
  unfold address
  simp only [toString]
  rw [String.append_right_inj]

/-- The call for a payment that a post is, if it is one. -/
def call? (c : Rest) : (q : Http.interface.Question) × Http.interface.Answer q →
    Option (Call Http.Reply Http.Reply)
  | ⟨.post p, reply⟩ =>
    if p.url = c.address "invoice" then some (.invoice ((p.body.get? "label").bind Json.text?))
    else if p.url = c.address "sendpay" then some (.send reply)
    else if p.url = c.address "waitsendpay" then some (.wait reply)
    else none
  | ⟨.pause _, _⟩ | ⟨.clock, _⟩ | ⟨.random, _⟩ | ⟨.stopwatch, _⟩ => none

/-- The calls for payments on the wire. -/
def callsOn (c : Rest) (traffic : Traffic) : List (Call Http.Reply Http.Reply) :=
  traffic.filterMap c.call?

theorem callsOn_append : c.callsOn (first ++ second) = c.callsOn first ++ c.callsOn second :=
  List.filterMap_append

/-! ## Runs of one call -/

theorem runs_call_iff {method : String} {params : Json} {timeout : UInt64}
    {decode : Json → Option α} {result : Option (Except Fault α)} :
    (c.call method params timeout decode).Runs traffic result ↔
      ∃ reply, traffic = [⟨.post ⟨c.address method, c.rune, params, timeout⟩, reply⟩] ∧
        result = some (ofReply method decode reply) := by
  constructor
  · rintro ⟨reply, _, rfl, rfl, rfl⟩
    exact ⟨reply, rfl, rfl⟩
  · rintro ⟨reply, rfl, rfl⟩
    exact ⟨reply, [], rfl, rfl, rfl⟩

/-- Whether every run of an exchange ends with a result, and all that goes over the wire has the
property `P`. -/
def Confined (P : (q : Http.interface.Question) × Http.interface.Answer q → Prop)
    (d : Http.Exchange α) : Prop :=
  ∀ traffic result, d.Runs traffic result → (∀ x ∈ traffic, P x) ∧ result ≠ none

section Confined

variable {P : (q : Http.interface.Question) × Http.interface.Answer q → Prop}

theorem confined_done (a : α) : Confined P (.done a : Http.Exchange α) := by
  rintro _ _ ⟨rfl, rfl⟩
  exact ⟨List.forall_mem_nil _, nofun⟩

theorem confined_ask {q : Http.Question} (h : ∀ answer : q.Answer, P ⟨q, answer⟩) :
    Confined P q.ask := by
  rintro _ _ ⟨answer, _, rfl, rfl, rfl⟩
  exact ⟨List.forall_mem_singleton.mpr (h answer), nofun⟩

theorem Confined.bind {β : Type} {d : Http.Exchange α} {f : α → Http.Exchange β}
    (h : Confined P d) (hf : ∀ a, Confined P (f a)) : Confined P (d >>= f) := by
  intro traffic result hrun
  rcases Dialogue.runs_bind.mp hrun with ⟨first, a, second, rfl, hd, hnext⟩ | ⟨hd, -⟩
  · obtain ⟨hfirst, -⟩ := h _ _ hd
    obtain ⟨hsecond, hresult⟩ := hf a _ _ hnext
    exact ⟨List.forall_mem_append.mpr ⟨hfirst, hsecond⟩, hresult⟩
  · exact absurd rfl (h _ _ hd).2

theorem confined_call {method : String} {params : Json} {timeout : UInt64}
    {decode : Json → Option α}
    (h : ∀ reply, P ⟨.post ⟨c.address method, c.rune, params, timeout⟩, reply⟩) :
    Confined P (c.call method params timeout decode) := by
  intro traffic result hrun
  obtain ⟨reply, rfl, rfl⟩ := runs_call_iff.mp hrun
  exact ⟨List.forall_mem_singleton.mpr (h reply), nofun⟩

theorem Confined.retry {name : String} {attempt : Http.Exchange (Except Fault α)}
    (h : Confined P attempt) (hpause : ∀ ms, P ⟨.pause ms, ()⟩) (delay more : Nat) :
    Confined P (Rest.retry name attempt delay more) := by
  have pauses : ∀ ms, Confined P (Http.Question.pause ms).ask := fun ms =>
    confined_ask fun _ => hpause ms
  -- Each round pauses, calls, and may go on to the next one.
  induction more generalizing delay with
  | zero =>
      unfold Rest.retry
      refine (pauses spacing).bind fun _ => h.bind fun a => ?_
      match a with
      | .ok a => exact confined_done _
      | .error (.refused e) => exact confined_done _
      | .error (.lost reason) => exact confined_done _
  | succ more ih =>
      unfold Rest.retry
      refine (pauses spacing).bind fun _ => h.bind fun a => ?_
      match a with
      | .ok a => exact confined_done _
      | .error (.refused e) => exact confined_done _
      | .error (.lost reason) => exact (pauses delay).bind fun _ => ih (2 * delay)

end Confined

/-- Whether every run of an exchange ends with a result and makes no call for a payment. -/
def Quiet (c : Rest) (d : Http.Exchange α) : Prop :=
  ∀ traffic result, d.Runs traffic result → c.callsOn traffic = [] ∧ result ≠ none

theorem quiet_iff {d : Http.Exchange α} : c.Quiet d ↔ Confined (fun x => c.call? x = none) d := by
  simp only [Quiet, Confined, callsOn, List.filterMap_eq_nil_iff]

theorem callsOn_post {method : String} {params : Json} {timeout : UInt64} {reply : Http.Reply} :
    c.callsOn [⟨.post ⟨c.address method, c.rune, params, timeout⟩, reply⟩] =
      if method = "invoice" then [.invoice ((params.get? "label").bind Json.text?)]
      else if method = "sendpay" then [.send reply]
      else if method = "waitsendpay" then [.wait reply]
      else [] := by
  unfold callsOn
  rw [List.filterMap_cons, List.filterMap_nil]
  simp only [call?, address_inj]
  split_ifs <;> rfl

/-! ## Answers -/

/-- The answer to the submission of a payment. -/
def sendAnswer (reply : Http.Reply) : Reply Unit :=
  once "SendPay" (ofReply "sendpay" (fun j => (j.sound? 0).map fun _ => ()) reply)

/-- The answer to the wait for a payment. -/
def waitAnswer (reply : Http.Reply) : Reply PaymentOutcome :=
  outcome (ofReply "waitsendpay" PaymentOutcome.completeOfJson? reply)

variable {reply : Http.Reply}

/-- The error with which the node answered, if it answered with one. -/
def error? : Http.Reply → Option RpcError
  | .full status body =>
    if Http.isSuccess status then none else (Json.readBytes? body).bind RpcError.ofJson?
  | .lost _ | .broken _ _ => none

/-- Whether the node answered that it carries out a submission: with success and a sound document.
-/
def accepts : Http.Reply → Bool
  | .full status body =>
    Http.isSuccess status && ((Json.readBytes? body).bind (Json.sound? 0)).isSome
  | .lost _ | .broken _ _ => false

theorem ofReply_eq_refused_iff {method : String} {decode : Json → Option α} {e : RpcError} :
    ofReply method decode reply = .error (.refused e) ↔ error? reply = some e := by
  cases reply with
  | lost reason => simp [ofReply, error?]
  | broken status reason => simp [ofReply, error?]
  | full status body =>
      by_cases hs : Http.isSuccess status = true
      · cases hd : (Json.readBytes? body).bind decode with
        | none => simp [ofReply, error?, hs, hd]
        | some a => simp [ofReply, error?, hs, hd]
      · cases he : (Json.readBytes? body).bind RpcError.ofJson? with
        | none => simp [ofReply, error?, hs, he]
        | some e' => simp [ofReply, error?, hs, he]

theorem ofReply_eq_ok_iff {method : String} {decode : Json → Option α} {a : α} :
    ofReply method decode reply = .ok a ↔ ∃ status body, reply = .full status body ∧
      Http.isSuccess status = true ∧ (Json.readBytes? body).bind decode = some a := by
  cases reply with
  | lost reason => simp [ofReply]
  | broken status reason => simp [ofReply]
  | full status body =>
      by_cases hs : Http.isSuccess status = true
      · cases hd : (Json.readBytes? body).bind decode with
        | none => simp [ofReply, hs, hd]
        | some a' => simp [ofReply, hs, hd]
      · cases he : (Json.readBytes? body).bind RpcError.ofJson? with
        | none => simp [ofReply, hs, he]
        | some e' => simp [ofReply, hs, he]

theorem sendAnswer_eq_refused_iff {e : RpcError} :
    (∃ call, sendAnswer reply = .error (.refused call e)) ↔ error? reply = some e := by
  rw [← @ofReply_eq_refused_iff Unit reply "sendpay" fun j => (j.sound? 0).map fun _ => ()]
  unfold sendAnswer
  cases ofReply "sendpay" (fun j => (j.sound? 0).map fun _ => ()) reply with
  | ok a => simp [once]
  | error fault =>
      cases fault with
      | refused e' => simp [once]
      | lost reason => simp [once]

theorem sendAnswer_eq_ok_iff : sendAnswer reply = .ok () ↔ accepts reply = true := by
  have hok : sendAnswer reply = .ok () ↔
      ofReply "sendpay" (fun j => (j.sound? 0).map fun _ => ()) reply = .ok () := by
    unfold sendAnswer
    cases ofReply "sendpay" (fun j => (j.sound? 0).map fun _ => ()) reply with
    | ok a => simp [once]
    | error fault =>
        cases fault with
        | refused e' => simp [once]
        | lost reason => simp [once]
  rw [hok, ofReply_eq_ok_iff]
  cases reply with
  | lost reason => simp [accepts]
  | broken status reason => simp [accepts]
  | full status body =>
      cases hj : Json.readBytes? body with
      | none => simp [accepts, hj]
      | some j =>
          cases hsound : Json.sound? 0 j with
          | none => simp [accepts, hj, hsound]
          | some j' => simp [accepts, hj, hsound]

theorem waitAnswer_eq_failed_iff :
    (∃ failure, waitAnswer reply = .ok (.failed failure)) ↔
      ∃ e, error? reply = some e ∧ e.code ≠ waitTimeoutCode := by
  have herror : ∀ e, error? reply = some e ↔
      ofReply "waitsendpay" PaymentOutcome.completeOfJson? reply = .error (.refused e) :=
    fun _ => ofReply_eq_refused_iff.symm
  simp only [herror]
  unfold waitAnswer
  cases ofReply "waitsendpay" PaymentOutcome.completeOfJson? reply with
  | ok a => simp [outcome]
  | error fault =>
      cases fault with
      | refused e =>
          by_cases hcode : e.code = waitTimeoutCode
          · simp [outcome, hcode]
          · simp [outcome, hcode]
      | lost reason => simp [outcome]

theorem runs_createInvoice_iff {amount : Msat} {label description : String}
    {result : Option (Reply Invoice)} :
    (c.createInvoice amount label description).Runs traffic result ↔
      ∃ reply, traffic = [⟨.pause spacing, ()⟩, ⟨.post ⟨c.address "invoice", c.rune,
          .obj [("amount_msat", .ofWord amount), ("label", .str label),
            ("description", .str description), ("expiry", .ofNat invoiceExpiry)],
          callTimeout⟩, reply⟩] ∧
        result = some (once "Invoice" (ofReply "invoice" Invoice.ofJson? reply)) := by
  constructor
  · rintro ⟨_, _, rfl, reply, _, rfl, rfl, rfl⟩
    exact ⟨reply, rfl, rfl⟩
  · rintro ⟨reply, rfl, rfl⟩
    exact ⟨(), _, rfl, reply, [], rfl, rfl, rfl⟩

theorem runs_sendPay_iff {route : List PaymentHop} {hash secret : String}
    {result : Option (Reply Unit)} :
    (c.sendPay route hash secret).Runs traffic result ↔
      ∃ reply, traffic = [⟨.post ⟨c.address "sendpay", c.rune,
          .obj [("route", .ofList PaymentHop.toJson route), ("payment_hash", .str hash),
            ("payment_secret", .str secret),
            ("amount_msat", .ofWord ((route.getLast?.map (·.amount)).getD 0))],
          callTimeout⟩, reply⟩] ∧
        result = some (sendAnswer reply) := by
  constructor
  · rintro ⟨reply, _, rfl, rfl, rfl⟩
    exact ⟨reply, rfl, rfl⟩
  · rintro ⟨reply, rfl, rfl⟩
    exact ⟨reply, [], rfl, rfl, rfl⟩

theorem runs_waitPay_iff {hash : String} {seconds : UInt64}
    {result : Option (Reply PaymentOutcome)} :
    (c.waitPay hash seconds).Runs traffic result ↔
      (∃ timeout reply, waitTimeout? seconds = some timeout ∧
        traffic = [⟨.post ⟨c.address "waitsendpay", c.rune,
          .obj [("payment_hash", .str hash), ("timeout", .ofWord seconds)], timeout⟩, reply⟩] ∧
        result = some (waitAnswer reply)) ∨
      (waitTimeout? seconds = none ∧ traffic = [] ∧ result = none) := by
  unfold waitPay
  cases waitTimeout? seconds with
  | none => simp
  | some timeout =>
      constructor
      · rintro ⟨reply, _, rfl, rfl, rfl⟩
        exact Or.inl ⟨timeout, reply, rfl, rfl, rfl⟩
      · rintro (⟨_, reply, ht, rfl, rfl⟩ | ⟨ht, -⟩)
        · cases ht
          exact ⟨reply, [], rfl, rfl, rfl⟩
        · cases ht

/-- For a question that is no call for a payment its method is called, and nothing else. -/
theorem confined_answer {P : (q : Http.interface.Question) × Http.interface.Answer q → Prop}
    {q : Query} (hfree : ∀ answer, Query.call? (q.answered answer) = none)
    (hposts : ∀ method ∈ q.method?, ∀ (post : Http.Post) (reply : Http.Reply),
      post.url = c.address method → P ⟨.post post, reply⟩)
    (hothers : ∀ (q : Http.Question) (answer : q.Answer), (∀ post, q ≠ .post post) →
      P ⟨q, answer⟩) : Confined P (c.answer q) := by
  have hpause : ∀ ms, P ⟨.pause ms, ()⟩ := fun ms => hothers (.pause ms) () nofun
  cases q with
  | info => exact (confined_call fun reply => hposts _ rfl _ reply rfl).retry hpause _ _
  | gossip => exact (confined_call fun reply => hposts _ rfl _ reply rfl).retry hpause _ _
  | nodes => exact (confined_call fun reply => hposts _ rfl _ reply rfl).retry hpause _ _
  | channels => exact (confined_call fun reply => hposts _ rfl _ reply rfl).retry hpause _ _
  | createInvoice => cases hfree (.error (.lost ""))
  | sendPay => cases hfree (.ok ())
  | waitPay => cases hfree (.ok .timedOut)
  | deleteInvoice =>
      refine ((confined_call fun reply => hposts _ rfl _ reply rfl).bind fun a => ?_).retry
        hpause _ _
      exact confined_done _
  | clock => exact confined_ask fun answer => hothers .clock answer nofun
  | random => exact confined_ask fun answer => hothers .random answer nofun
  | stopwatch => exact confined_ask fun answer => hothers .stopwatch answer nofun

/-- A question that is no call for a payment is none on the wire either. -/
theorem quiet_answer {q : Query} (h : ∀ answer, Query.call? (q.answered answer) = none) :
    c.Quiet (c.answer q) := by
  refine quiet_iff.mpr (confined_answer h (fun method hmethod post reply hurl => ?_)
    fun q answer hpost => ?_)
  · have hother : method ≠ "invoice" ∧ method ≠ "sendpay" ∧ method ≠ "waitsendpay" := by
      cases q with
      | createInvoice => cases h (.error (.lost ""))
      | sendPay => cases h (.ok ())
      | waitPay => cases h (.ok .timedOut)
      | info | gossip | nodes | channels | deleteInvoice =>
          cases hmethod
          decide
      | clock | random | stopwatch => cases hmethod
    simp only [call?, hurl, address_inj]
    rw [if_neg hother.1, if_neg hother.2.1, if_neg hother.2.2]
  · cases q with
    | post post => exact absurd rfl (hpost post)
    | pause | clock | random | stopwatch => rfl

/-- The wire shows the call for a payment that a question is, and the answer is read off the reply.
-/
theorem callsOn_of_runs_answer {q : Query} {answer : q.Answer}
    (h : (c.answer q).Runs traffic (some answer)) :
    (c.callsOn traffic).map (Call.map sendAnswer waitAnswer) =
      (Query.call? (q.answered answer)).toList := by
  by_cases hquiet : ∀ answer, Query.call? (q.answered answer) = none
  · rw [hquiet, (quiet_answer hquiet _ _ h).1]
    rfl
  · cases q with
    | createInvoice amount label description =>
        obtain ⟨reply, rfl, -⟩ := runs_createInvoice_iff.mp h
        show (c.callsOn ([⟨.pause spacing, ()⟩] ++ [_])).map _ = _
        rw [callsOn_append, callsOn_post]
        rfl
    | sendPay route hash secret =>
        obtain ⟨reply, rfl, heq⟩ := runs_sendPay_iff.mp h
        cases heq
        rw [callsOn_post]
        rfl
    | waitPay hash seconds =>
        rcases runs_waitPay_iff.mp h with ⟨timeout, reply, -, rfl, heq⟩ | ⟨-, -, heq⟩
        · cases heq
          rw [callsOn_post]
          rfl
        · cases heq
    | info | gossip | nodes | channels | deleteInvoice | clock | random | stopwatch =>
        exact absurd (fun _ => rfl) hquiet

/-- Only a wait can break off, and then nothing has been posted for it. -/
theorem eq_nil_of_runs_answer_none {q : Query} (h : (c.answer q).Runs traffic none) :
    traffic = [] := by
  by_cases hquiet : ∀ answer, Query.call? (q.answered answer) = none
  · exact absurd rfl (quiet_answer hquiet _ _ h).2
  · cases q with
    | createInvoice amount label description =>
        obtain ⟨reply, -, heq⟩ := runs_createInvoice_iff.mp h
        cases heq
    | sendPay route hash secret =>
        obtain ⟨reply, -, heq⟩ := runs_sendPay_iff.mp h
        cases heq
    | waitPay hash seconds =>
        rcases runs_waitPay_iff.mp h with ⟨timeout, reply, -, -, heq⟩ | ⟨-, rfl, -⟩
        · cases heq
        · rfl
    | info | gossip | nodes | channels | deleteInvoice | clock | random | stopwatch =>
        exact absurd (fun _ => rfl) hquiet

/-! ## Runs of a dialogue -/

/-- The exchanges of `record` went over the wire as `traffic`. -/
inductive Carries (c : Rest) : Exchanges → Traffic → Prop
  | nil : Carries c [] []
  | cons {q : Query} {answer : q.Answer} {call rest : Traffic} {record : Exchanges}
      (answered : (c.answer q).Runs call (some answer)) (next : Carries c record rest) :
      Carries c (q.answered answer :: record) (call ++ rest)

/-- The payments on the wire, the newest first. -/
def submissionsOn (c : Rest) (traffic : Traffic) : List (Submission Http.Reply Http.Reply) :=
  submissions (c.callsOn traffic)

variable {record : Exchanges}

theorem Carries.append {first second : Exchanges} {traffic traffic' : Traffic}
    (h : c.Carries first traffic) (h' : c.Carries second traffic') :
    c.Carries (first ++ second) (traffic ++ traffic') := by
  induction h with
  | nil => exact h'
  | cons answered next ih =>
      rw [List.append_assoc]
      exact .cons answered ih

theorem Carries.calls (h : c.Carries record traffic) :
    callsIn record = (c.callsOn traffic).map (.map sendAnswer waitAnswer) := by
  induction h with
  | nil => rfl
  | @cons q answer call rest record answered next ih =>
      calc callsIn ([q.answered answer] ++ record)
          = (Query.call? (q.answered answer)).toList ++ callsIn record := by
            rw [callsIn_append]
            rfl
        _ = (c.callsOn (call ++ rest)).map (.map sendAnswer waitAnswer) := by
            rw [callsOn_append, List.map_append, callsOn_of_runs_answer answered, ih]

/-- The payments of the rebalancer are those on the wire. -/
theorem Carries.submissions (h : c.Carries record traffic) :
    Rebalancer.submissions (callsIn record) =
      (c.submissionsOn traffic).map (.map sendAnswer waitAnswer) := by
  rw [h.calls, submissions_map]
  rfl

/-- What a node that says nothing makes of a question. -/
def silence : (q : Query) → q.Answer
  | .info => .error (.lost "")
  | .gossip => .error (.lost "")
  | .nodes => .error (.lost "")
  | .channels => .error (.lost "")
  | .createInvoice .. => .error (.lost "")
  | .sendPay .. => .error (.lost "")
  | .waitPay .. => .error (.lost "")
  | .deleteInvoice _ => .error (.lost "")
  | .clock => (0 : Int)
  | .random => (0 : UInt64)
  | .stopwatch => (0 : UInt64)

/-- What a dead wire makes of a question. -/
def deadWire : (q : Http.Question) → q.Answer
  | .post _ => .lost ""
  | .pause _ => ()
  | .clock => (0 : Int)
  | .random => (0 : UInt64)
  | .stopwatch => (0 : UInt64)

variable {d : NodeDialogue α}

theorem exists_carried_of_answers {result : Option (Option α)}
    (h : (Dialogue.run c.answer d).Runs traffic result) :
    ∃ record rest result', d.Runs (record ++ rest) result' ∧ c.Carries record traffic := by
  induction d generalizing traffic result with
  | done a =>
      obtain ⟨rfl, -⟩ := h
      exact ⟨[], [], some a, ⟨rfl, rfl⟩, .nil⟩
  | halt =>
      obtain ⟨rfl, -⟩ := h
      exact ⟨[], [], none, ⟨rfl, rfl⟩, .nil⟩
  | ask q next ih =>
      rcases Dialogue.runs_bind.mp h with ⟨first, answer, second, rfl, hcall, hnext⟩ | ⟨hcall, -⟩
      · obtain ⟨record, rest, result', hruns, hcarries⟩ := ih answer hnext
        exact ⟨Query.answered q answer :: record, rest, result', ⟨answer, _, rfl, hruns⟩,
          .cons hcall hcarries⟩
      -- Nothing was posted for the question at which the wire broke off, so any answer will do.
      · obtain rfl := eq_nil_of_runs_answer_none hcall
        exact ⟨[], _, _, ⟨silence q, _, rfl, Dialogue.runs_transcript silence _⟩, .nil⟩

/-- A run that gets an answer to every question carries a run of the dialogue. -/
theorem exists_carries_of_answers {result : Option α}
    (h : (Dialogue.run c.answer d).Runs traffic (some result)) :
    ∃ record, d.Runs record result ∧ c.Carries record traffic := by
  induction d generalizing traffic with
  | done a =>
      obtain ⟨rfl, hresult⟩ := h
      cases hresult
      exact ⟨[], ⟨rfl, rfl⟩, .nil⟩
  | halt =>
      obtain ⟨rfl, hresult⟩ := h
      cases hresult
      exact ⟨[], ⟨rfl, rfl⟩, .nil⟩
  | ask q next ih =>
      rcases Dialogue.runs_bind.mp h with ⟨first, answer, second, rfl, hcall, hnext⟩ | ⟨-, hbroken⟩
      · obtain ⟨record, hruns, hcarries⟩ := ih answer hnext
        exact ⟨Query.answered q answer :: record, ⟨answer, record, rfl, hruns⟩,
          .cons hcall hcarries⟩
      · cases hbroken

/-- Over HTTP a dialogue ends as its answers let it end, or breaks off where there is no answer. -/
theorem runs_run_iff {result : Option α} :
    (c.run d).Runs traffic result ↔
      (Dialogue.run c.answer d).Runs traffic (some result) ∨
        ((Dialogue.run c.answer d).Runs traffic none ∧ result = none) := by
  unfold Rest.run
  rw [Dialogue.runs_bind]
  constructor
  · rintro (⟨first, a, second, rfl, hd, hlast⟩ | hbroken)
    · obtain ⟨rfl, rfl⟩ := Dialogue.runs_ofOption.mp hlast
      rw [List.append_nil]
      exact Or.inl hd
    · exact Or.inr hbroken
  · rintro (hd | hbroken)
    · exact Or.inl ⟨traffic, result, [], (List.append_nil _).symm, hd,
        Dialogue.runs_ofOption.mpr ⟨rfl, rfl⟩⟩
    · exact Or.inr hbroken

/-- A run over HTTP carries the beginning of a run of the dialogue. -/
theorem exists_carried {result : Option α} (h : (c.run d).Runs traffic result) :
    ∃ record rest result', d.Runs (record ++ rest) result' ∧ c.Carries record traffic := by
  rcases runs_run_iff.mp h with hd | ⟨hd, -⟩
  · exact exists_carried_of_answers hd
  · exact exists_carried_of_answers hd

/-- After exchanges that the wire carries, the dialogue over HTTP goes on as the dialogue does. -/
theorem Carries.exists_rest {rest : Exchanges} {result : Option α}
    (hcarries : c.Carries record traffic)
    (h : d.Runs (record ++ rest) result) :
    ∃ d' : NodeDialogue α, d'.Runs rest result ∧ ∀ more result',
      (Dialogue.run c.answer d').Runs more result' →
        (Dialogue.run c.answer d).Runs (traffic ++ more) result' := by
  induction hcarries generalizing d with
  | nil => exact ⟨d, h, fun _ _ hrun => hrun⟩
  | @cons q answer call traffic record answered next ih =>
      match d, h with
      | .ask q next, ⟨answer, _, heq, hnext⟩ =>
          cases heq
          obtain ⟨d', hrest, hgoes⟩ := ih hnext
          refine ⟨d', hrest, fun more result' hrun => ?_⟩
          rw [List.append_assoc]
          exact Dialogue.runs_bind.mpr (Or.inl ⟨_, _, _, rfl, answered, hgoes more result' hrun⟩)

/-- A beginning of a run of the dialogue that the wire carries goes on to a run over HTTP. -/
theorem exists_runs_of_carries {rest : Exchanges} {result : Option α}
    (h : d.Runs (record ++ rest) result) (hcarries : c.Carries record traffic) :
    ∃ more result', (c.run d).Runs (traffic ++ more) result' := by
  obtain ⟨d', -, hgoes⟩ := hcarries.exists_rest h
  -- From there on every post is lost, which is a run like any other.
  have hmore := hgoes _ _ (Dialogue.runs_transcript deadWire (Dialogue.run c.answer d'))
  cases hend : (Dialogue.transcript deadWire (Dialogue.run c.answer d')).2 with
  | none => exact ⟨_, none, runs_run_iff.mpr (Or.inr ⟨hend ▸ hmore, rfl⟩)⟩
  | some result' => exact ⟨_, result', runs_run_iff.mpr (Or.inl (hend ▸ hmore))⟩

/-- A run of the dialogue that the wire carries is a run over HTTP. -/
theorem runs_of_carries {result : Option α} (h : d.Runs record result)
    (hcarries : c.Carries record traffic) : (c.run d).Runs traffic result := by
  rw [← List.append_nil record] at h
  obtain ⟨d', hrest, hgoes⟩ := hcarries.exists_rest h
  have hend : (Dialogue.run c.answer d').Runs [] (some result) := by
    match d', hrest with
    | .done a, ⟨_, hr⟩ => exact ⟨rfl, by rw [hr]⟩
    | .halt, ⟨_, hr⟩ => exact ⟨rfl, by rw [hr]⟩
    | .ask q next, ⟨_, _, hr, _⟩ => cases hr
  rw [← List.append_nil traffic]
  exact runs_run_iff.mpr (Or.inl (hgoes _ _ hend))

end Rest

end Rebalancer
