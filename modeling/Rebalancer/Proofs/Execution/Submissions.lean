import Mathlib.Data.List.Basic
import Std.Data.String.ToNat
import Rebalancer.Proofs.Execution.Effects

set_option autoImplicit false

/-! # The payments that are submitted for a chunk

An observer of the calls for payments keeps a list of what was submitted: for which invoice, with
which answer, and with which answer to the wait for the end (`Sighting`). What counts as an answer
is left open, so the same observer watches the calls and what they become on the wire.

A request submits a further payment for a chunk only after one that the node refused, one that the
node reported as failed, and one whose submission got no readable answer (`Retried`). It needs more
than one attempt for that.
-/

namespace Rebalancer

variable {S W S' W' : Type}

/-! ## The observer -/

/-- One call for a payment: the invoice, the submission or the wait for the end. -/
inductive Call (S W : Type)
  | invoice (label : Option String)
  | send (answer : S)
  | wait (answer : W)

/-- A payment that was submitted, with the label of the invoice that it pays and the answer to the
wait for its end, if it was waited for. -/
structure Submission (S W : Type) where
  label : Option String
  answer : S
  wait : Option W
deriving DecidableEq

/-- What the observer has seen: the label of the last invoice, and the payments, the newest first.
-/
structure Sighting (S W : Type) where
  label : Option String := none
  sent : List (Submission S W) := []

namespace Sighting

/-- Takes note of a call. A wait is for the newest payment. -/
def note (w : Sighting S W) : Call S W → Sighting S W
  | .invoice label => { w with label := label }
  | .send answer => { w with sent := ⟨w.label, answer, none⟩ :: w.sent }
  | .wait answer =>
    match w.sent with
    | [] => w
    | s :: rest => { w with sent := { s with wait := some answer } :: rest }

/-- Takes note of calls in order. -/
def after (w : Sighting S W) (calls : List (Call S W)) : Sighting S W := calls.foldl note w

theorem after_append (w : Sighting S W) (first second : List (Call S W)) :
    w.after (first ++ second) = (w.after first).after second := List.foldl_append

end Sighting

/-- The payments among some calls, the newest first. -/
def submissions (calls : List (Call S W)) : List (Submission S W) := (Sighting.after {} calls).sent

section Map

variable (f : S → S') (g : W → W')

/-- A call with other answers. -/
def Call.map : Call S W → Call S' W'
  | invoice label => .invoice label
  | send answer => .send (f answer)
  | wait answer => .wait (g answer)

/-- A payment with other answers. -/
def Submission.map (s : Submission S W) : Submission S' W' := ⟨s.label, f s.answer, s.wait.map g⟩

/-- Other answers, other payments, and nothing else. -/
theorem submissions_map (calls : List (Call S W)) :
    submissions (calls.map (Call.map f g)) = (submissions calls).map (Submission.map f g) := by
  let rename (w : Sighting S W) : Sighting S' W' := ⟨w.label, w.sent.map (Submission.map f g)⟩
  -- The observer looks at no answer, so renaming the answers commutes with what it notes.
  have step : ∀ (w : Sighting S W) (call : Call S W),
      (rename w).note (call.map f g) = rename (w.note call) := by
    rintro ⟨label, sent⟩ call
    cases call with
    | invoice label' => rfl
    | send answer => rfl
    | wait answer =>
        cases sent with
        | nil => rfl
        | cons s rest => rfl
  have run : ∀ w, (rename w).after (calls.map (Call.map f g)) = rename (w.after calls) := by
    induction calls with
    | nil => exact fun _ => rfl
    | cons call rest ih =>
        intro w
        show ((rename w).note (call.map f g)).after _ = _
        rw [step, ih]
        rfl
  exact congrArg Sighting.sent (run {})

end Map

/-! ## Payments for one chunk -/

/-- No part of a label hides another: the numbers of chunk and try can be read off. -/
theorem invoiceLabel_inj {r : Request} {index index' tries tries' : Nat} :
    invoiceLabel r index tries = invoiceLabel r index' tries' ↔
      index = index' ∧ tries = tries' := by
  constructor
  · intro h
    -- A number has no dash in it, so the dash before the try ends the number of the chunk.
    have dash : ∀ n : Nat, '-' ∉ Nat.toDigits 10 n := fun n hmem =>
      absurd (Nat.isDigit_of_mem_toDigits (by decide) (by decide) hmem) (by decide)
    simp only [invoiceLabel, toString, String.append_assoc, String.append_right_inj] at h
    have hlist : index.repr.toList ++ '-' :: tries.repr.toList =
        index'.repr.toList ++ '-' :: tries'.repr.toList := by
      simpa using congrArg String.toList h
    rw [Nat.toList_repr, Nat.toList_repr, Nat.toList_repr, Nat.toList_repr] at hlist
    obtain ⟨hindex, -, htries⟩ :=
      (List.append_cons_inj_of_notMem (dash index) (dash tries)).mp hlist
    rw [← Nat.toList_repr, ← Nat.toList_repr] at hindex htries
    exact ⟨Nat.repr_injective (String.toList_injective hindex),
      Nat.repr_injective (String.toList_injective htries)⟩
  · rintro ⟨rfl, rfl⟩
    rfl

/-- Whether a payment is for the chunk with number `index`, which the label tells. -/
def Submission.IsFor (r : Request) (index : Nat) (s : Submission S W) : Prop :=
  ∃ tries, s.label = some (invoiceLabel r index tries)

theorem Submission.IsFor.unique {r : Request} {index index' : Nat} {s : Submission S W}
    (h : s.IsFor r index) (h' : s.IsFor r index') : index = index' := by
  obtain ⟨tries, hs⟩ := h
  obtain ⟨tries', hs'⟩ := h'
  exact (invoiceLabel_inj.mp (Option.some.inj (hs.symm.trans hs'))).1

/-- `p` holds of every payment after which there is another one for the same chunk. The payments
stand in `sent` with the newest first. -/
def OnlyAfter (r : Request) (p : Submission S W → Prop) (sent : List (Submission S W)) : Prop :=
  sent.Pairwise fun later earlier =>
    ∀ index, later.IsFor r index → earlier.IsFor r index → p earlier

variable {r : Request} {p q : Submission S W → Prop} {sent : List (Submission S W)}

theorem OnlyAfter.imp (h : OnlyAfter r p sent) (hpq : ∀ s, p s → q s) : OnlyAfter r q sent :=
  List.Pairwise.imp (fun hp index later earlier => hpq _ (hp index later earlier)) h

theorem OnlyAfter.and (h : OnlyAfter r p sent) (h' : OnlyAfter r q sent) :
    OnlyAfter r (fun s => p s ∧ q s) sent :=
  List.Pairwise.imp (fun hpq index later earlier =>
    ⟨hpq.1 index later earlier, hpq.2 index later earlier⟩) (List.Pairwise.and h h')

theorem onlyAfter_map {f : S → S'} {g : W → W'} {p : Submission S' W' → Prop} :
    OnlyAfter r p (sent.map (.map f g)) ↔ OnlyAfter r (fun s => p (s.map f g)) sent :=
  List.pairwise_map

/-- What holds of all payments holds of those up to some call. -/
theorem OnlyAfter.of_append {first second : List (Call S W)}
    (h : OnlyAfter r p (submissions (first ++ second))) : OnlyAfter r p (submissions first) := by
  -- A call adds a payment in front or completes the newest one, after which there is none.
  have step : ∀ (w : Sighting S W) (call : Call S W),
      OnlyAfter r p (w.note call).sent → OnlyAfter r p w.sent := by
    rintro ⟨label, sent⟩ call h
    cases call with
    | invoice label' => exact h
    | send answer => exact (List.pairwise_cons.mp h).2
    | wait answer =>
        cases sent with
        | nil => exact h
        | cons s rest => exact List.pairwise_cons.mpr (List.pairwise_cons.mp h)
  unfold submissions at h ⊢
  rw [Sighting.after_append] at h
  generalize Sighting.after {} first = w at h ⊢
  induction second generalizing w with
  | nil => exact h
  | cons call rest ih => exact step w call (ih _ h)

/-! ## Payments in a record -/

/-- The call for a payment that an exchange is, if it is one. -/
def Query.call? : (q : Query.interface.Question) × Query.interface.Answer q →
    Option (Call (Reply Unit) (Reply PaymentOutcome))
  | ⟨.createInvoice _ label _, _⟩ => some (.invoice (some label))
  | ⟨.sendPay .., answer⟩ => some (.send answer)
  | ⟨.waitPay .., answer⟩ => some (.wait answer)
  | ⟨.deleteInvoice _, _⟩ | ⟨.info, _⟩ | ⟨.gossip, _⟩ | ⟨.nodes, _⟩ | ⟨.channels, _⟩ | ⟨.clock, _⟩
  | ⟨.random, _⟩ | ⟨.stopwatch, _⟩ => none

/-- The calls for payments in a record. -/
def callsIn (record : Exchanges) : List (Call (Reply Unit) (Reply PaymentOutcome)) :=
  record.filterMap Query.call?

theorem callsIn_append (first second : Exchanges) :
    callsIn (first ++ second) = callsIn first ++ callsIn second := List.filterMap_append

/-- A payment with the answers that the rebalancer got. -/
abbrev Submitted := Submission (Reply Unit) (Reply PaymentOutcome)

/-- How a payment stands after which another try may follow. -/
inductive Retried : Submitted → Prop
  | refused {label : Option String} (call : String) (error : RpcError) :
      Retried ⟨label, .error (.refused call error), none⟩
  | lost {label : Option String} (reason : String) :
      Retried ⟨label, .error (.lost reason), none⟩
  | failed {label : Option String} (failure : PaymentFailure) :
      Retried ⟨label, .ok (), some (.ok (.failed failure))⟩

namespace Execution

variable {timeout : UInt64} {index : Nat} {amount : Msat} {b b' : Books} {route : Route}
  {label hash : String} {record : Exchanges} {tries more : Nat} {last : Option Route}

/-- `record` adds the payments `new` to those seen before. -/
def Adds (record : Exchanges) (new : List Submitted) : Prop :=
  ∀ w : Sighting (Reply Unit) (Reply PaymentOutcome),
    (w.after (callsIn record)).sent = new ++ w.sent

theorem Adds.append {first second : Exchanges}
    {new new' : List Submitted} (h : Adds first new)
    (h' : Adds second new') : Adds (first ++ second) (new' ++ new) := by
  intro w
  rw [callsIn_append, Sighting.after_append, h', h, List.append_assoc]

theorem Adds.cons {new : List Submitted}
    {e : (q : Query.interface.Question) × Query.interface.Answer q} (quiet : Query.call? e = none)
    (h : Adds record new) : Adds (e :: record) new := by
  intro w
  rw [callsIn, List.filterMap_cons_none quiet]
  exact h w

theorem Adds.submissions_eq {new : List Submitted}
    (h : Adds record new) : submissions (callsIn record) = new :=
  (h {}).trans (List.append_nil new)

theorem AwaitRun.calls {result : Option (TryResult × Books)}
    (h : AwaitRun timeout b route label hash record result) :
    ∃ answer, callsIn record = [.wait answer] ∧
      ∀ failure b', result = some (.error failure, b') → failure.isTemporary = true →
        ∃ f, answer = .ok (.failed f) := by
  cases h with
  -- Of the four ends only a reported failure lets another try follow.
  | completed delivered sent now =>
      refine ⟨_, rfl, fun failure b' hr _ => ?_⟩
      cases (settles_of_settled hr).1
  | failed failure => exact ⟨_, rfl, fun _ _ _ _ => ⟨failure, rfl⟩⟩
  | foundPaid answer reason now stop =>
      refine ⟨_, rfl, fun failure b' hr _ => ?_⟩
      cases (settles_of_settled hr).1
  | givenUp answer reason removal stop unpaid =>
      refine ⟨_, rfl, fun failure b' hr ht => ?_⟩
      cases hr
      cases ht

theorem PayRun.adds {result : Option (TryResult × Books)}
    (h : PayRun timeout b route label record result) :
    ∃ new, Adds record new ∧ new.length ≤ 1 ∧ (∀ s ∈ new, s.label = some label) ∧
      ∀ failure b', result = some (.error failure, b') → failure.isTemporary = true →
        ∀ s ∈ new, Retried s := by
  cases h with
  | noInvoice e => exact ⟨[], fun _ => rfl, by simp, by simp, by simp⟩
  | notSent invoice e =>
      refine ⟨[⟨some label, .error e, none⟩], fun _ => rfl, by simp, by simp, ?_⟩
      intro _ _ _ _ s hs
      obtain rfl := List.mem_singleton.mp hs
      cases e with
      | refused call error => exact .refused call error
      | lost reason => exact .lost reason
  | sent invoice wait =>
      obtain ⟨answer, hcalls, htemporary⟩ := wait.calls
      refine ⟨[⟨some label, .ok (), some answer⟩], fun w => ?_, by simp, by simp, ?_⟩
      · show (((w.note _).note _).after (callsIn _)).sent = _
        rw [hcalls]
        rfl
      · intro failure b' hr ht s hs
        obtain rfl := List.mem_singleton.mp hs
        obtain ⟨f, rfl⟩ := htemporary failure b' hr ht
        exact .failed f

theorem TryRun.adds {result : Option (Attempt × Option Route × Books)}
    (h : TryRun timeout r index amount tries last b record result) :
    ∃ new, Adds record new ∧ new.length ≤ 1 ∧ (∀ s ∈ new, s.IsFor r index) ∧
      ∀ attempt route b', result = some (attempt, some route, b') → ∀ s ∈ new, Retried s := by
  have quiet : ∀ now, Adds [Query.clock.answered now] [] := fun _ _ => rfl
  cases h with
  | noRoute failure now found => exact ⟨[], quiet now, by simp, by simp, by simp⟩
  | tooDear route now found dear => exact ⟨[], quiet now, by simp, by simp, by simp⟩
  | broken route found cheap paid =>
      obtain ⟨new, hadds, hlength, hlabel, -⟩ := paid.adds
      exact ⟨new, hadds, hlength, fun s hs => ⟨tries, hlabel s hs⟩, by simp⟩
  | moved route found cheap paid now =>
      obtain ⟨new, hadds, hlength, hlabel, -⟩ := paid.adds
      exact ⟨new, hadds.append (quiet now), hlength, fun s hs => ⟨tries, hlabel s hs⟩, by simp⟩
  | @failed route found cheap _ failure b'' paid now =>
      obtain ⟨new, hadds, hlength, hlabel, hretried⟩ := paid.adds
      refine ⟨new, hadds.append (quiet now), hlength, fun s hs => ⟨tries, hlabel s hs⟩, ?_⟩
      intro attempt again b' hr
      cases ht : failure.isTemporary with
      | false =>
          rw [ht] at hr
          simp at hr
      | true => exact hretried failure b'' rfl ht

/-- The payments for one chunk, of which each was retried but the newest. -/
theorem TriesRun.adds {result : Option (Attempt × Books)}
    (h : TriesRun timeout r index amount more tries last b record result)
    (bound : more ≤ r.attempts - 1) :
    ∃ new, Adds record new ∧ (∀ s ∈ new, s.IsFor r index) ∧
      new.Pairwise fun _ earlier => 1 < r.attempts ∧ Retried earlier := by
  -- One try makes at most one payment, so only the step to the next try forms a pair.
  have alone : ∀ {new : List Submitted}, new.length ≤ 1 →
      new.Pairwise fun _ earlier => 1 < r.attempts ∧ Retried earlier := by
    intro new hlength
    cases new with
    | nil => exact .nil
    | cons s rest =>
        obtain rfl : rest = [] := List.eq_nil_of_length_eq_zero (Nat.le_zero.mp
          (Nat.le_of_succ_le_succ hlength))
        exact List.pairwise_singleton _ s
  induction h with
  | broken step =>
      obtain ⟨new, hadds, hlength, hfor, -⟩ := step.adds
      exact ⟨new, hadds, hfor, alone hlength⟩
  | stopped step final =>
      obtain ⟨new, hadds, hlength, hfor, -⟩ := step.adds
      exact ⟨new, hadds, hfor, alone hlength⟩
  | again step next ih =>
      obtain ⟨new, hadds, hlength, hfor, hretried⟩ := step.adds
      obtain ⟨new', hadds', hfor', hpairs⟩ := ih (by omega)
      have hattempts : 1 < r.attempts := by omega
      refine ⟨new' ++ new, hadds.append hadds', fun s hs => ?_, ?_⟩
      · exact (List.mem_append.mp hs).elim (hfor' s) (hfor s)
      · exact List.pairwise_append.mpr ⟨hpairs, alone hlength,
          fun _ _ s hs => ⟨hattempts, hretried _ _ _ rfl s hs⟩⟩

theorem ChunksRun.adds {chunks : List Msat} {result : Option (List Attempt × Books)}
    (h : ChunksRun timeout r index chunks b record result) :
    ∃ new, Adds record new ∧ (∀ s ∈ new, ∃ i, s.IsFor r (index + i)) ∧
      OnlyAfter r (fun s => 1 < r.attempts ∧ Retried s) new := by
  -- The payments of one chunk, seen as those of a run that ends there.
  have single : ∀ {index : Nat} {amount : Msat} {b : Books} {record : Exchanges}
      {result : Option (Attempt × Books)},
      TriesRun timeout r index amount (r.attempts - 1) 1 none b record result →
      ∃ new, Adds record new ∧ (∀ s ∈ new, s.IsFor r index) ∧
        OnlyAfter r (fun s => 1 < r.attempts ∧ Retried s) new := by
    intro _ _ _ _ _ chunk
    obtain ⟨new, hadds, hfor, hpairs⟩ := chunk.adds (Nat.le_refl _)
    exact ⟨new, hadds, hfor, hpairs.imp fun hp _ _ _ => hp⟩
  induction h with
  | nil => exact ⟨[], fun _ => rfl, by simp, .nil⟩
  | broken chunk =>
      obtain ⟨new, hadds, hfor, honly⟩ := single chunk
      exact ⟨new, hadds, fun s hs => ⟨0, hfor s hs⟩, honly⟩
  | unrecorded chunk lost =>
      obtain ⟨new, hadds, hfor, honly⟩ := single chunk
      exact ⟨new, hadds, fun s hs => ⟨0, hfor s hs⟩, honly⟩
  | @cons index _ _ _ _ _ _ _ _ _ chunk kept next ih =>
      obtain ⟨new, hadds, hfor, honly⟩ := single chunk
      obtain ⟨new', hadds', hfor', honly'⟩ := ih
      refine ⟨new' ++ new, hadds.append hadds', ?_, ?_⟩
      · intro s hs
        rcases List.mem_append.mp hs with hs | hs
        · obtain ⟨i, hi⟩ := hfor' s hs
          exact ⟨1 + i, by rw [← Nat.add_assoc]; exact hi⟩
        · exact ⟨0, hfor s hs⟩
      · refine List.pairwise_append.mpr ⟨honly', honly, ?_⟩
        -- A payment of a later chunk bears another number.
        intro later hlater earlier hearlier index' hl he
        obtain ⟨i, hi⟩ := hfor' later hlater
        have h₁ := hi.unique hl
        have h₂ := (hfor earlier hearlier).unique he
        omega

/-- However a request goes, a payment follows another one for the same chunk only if that one was
retried. -/
theorem onlyAfter_retried {result : Option (Summary × Books)}
    (h : (execute timeout r b).Runs record result) :
    OnlyAfter r (fun s => 1 < r.attempts ∧ Retried s) (submissions (callsIn record)) := by
  cases runs_execute_iff.mp h with
  | broken start chunks =>
      obtain ⟨new, hadds, -, honly⟩ := chunks.adds
      rw [(hadds.cons rfl).submissions_eq]
      exact honly
  | finished start stop chunks =>
      obtain ⟨new, hadds, -, honly⟩ := chunks.adds
      have hstop : Adds [Query.stopwatch.answered stop] [] := fun _ => rfl
      rw [((hadds.append hstop).cons rfl).submissions_eq]
      exact honly

end Execution

end Rebalancer
