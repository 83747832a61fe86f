import Rebalancer.Node
import Rebalancer.Proofs.Ledger.Operations

set_option autoImplicit false

/-! # Verdicts on payments that were given up

The node is asked how the payments ended that timed out, one after the other. Its answer is a
*verdict* on the payment, unless the payment is still under way or the answer got lost. Each verdict
changes the ledger before the next question is asked. In the end every entry has the verdict on its
own payment (`entries_toldAll`), so the payments that still count as timed out are those without
one, in the order they had (`Ordered.timedOut_toldAll`).
-/

namespace Rebalancer

/-- The question how a payment ended, with the answer. -/
structure Inquiry where
  hash : String
  answer : Reply PaymentOutcome

namespace Inquiry

/-- What the answer tells of the end of the payment. -/
def verdict? (i : Inquiry) : Option PaymentState :=
  match i.answer with
  | .ok (.complete ..) => some .succeeded
  | .ok (.failed _) => some .failed
  | .ok .timedOut | .error _ => none

/-- Whether the node answered that the payment is under way, or the answer got lost. -/
def isSilent (i : Inquiry) : Bool :=
  match i.answer with
  | .ok .timedOut | .error _ => true
  | .ok (.complete ..) | .ok (.failed _) => false

variable {i : Inquiry}

theorem verdict?_eq_none_iff : i.verdict? = none ↔ i.isSilent = true := by
  unfold verdict? isSilent
  split <;> simp_all

theorem isOpen_of_verdict? {state : PaymentState} (h : i.verdict? = some state) :
    state.isOpen = false := by
  unfold verdict? at h
  split at h <;> cases h <;> rfl

end Inquiry

/-- The verdict on a payment in the answers to some inquiries. -/
def verdictOn? (inquiries : List Inquiry) (hash : String) : Option PaymentState :=
  (inquiries.find? (·.hash == hash)).bind Inquiry.verdict?

section VerdictOn

variable {inquiries : List Inquiry} {i : Inquiry} {hash : String}

theorem verdictOn?_of_notMem (h : hash ∉ inquiries.map (·.hash)) :
    verdictOn? inquiries hash = none := by
  have hnone : inquiries.find? (·.hash == hash) = none := by
    rw [List.find?_eq_none]
    intro i hi heq
    exact h (List.mem_map.mpr ⟨i, hi, eq_of_beq heq⟩)
  rw [verdictOn?, hnone]
  rfl

theorem verdictOn?_cons_self (i : Inquiry) (inquiries : List Inquiry) :
    verdictOn? (i :: inquiries) i.hash = i.verdict? := by
  have hhead : (i.hash == i.hash) = true := beq_self_eq_true i.hash
  simp only [verdictOn?, List.find?_cons, hhead, Option.bind_some]

theorem verdictOn?_cons_of_ne (h : i.hash ≠ hash) :
    verdictOn? (i :: inquiries) hash = verdictOn? inquiries hash := by
  have hhead : (i.hash == hash) = false := beq_eq_false_iff_ne.mpr h
  simp only [verdictOn?, List.find?_cons, hhead]

/-- Every payment that was asked for once has the verdict of its own answer. -/
theorem verdictOn?_of_mem (distinct : (inquiries.map (·.hash)).Nodup) (h : i ∈ inquiries) :
    verdictOn? inquiries i.hash = i.verdict? := by
  induction inquiries with
  | nil => exact absurd h List.not_mem_nil
  | cons first rest ih =>
      rw [List.map_cons, List.nodup_cons] at distinct
      cases h with
      | head => exact verdictOn?_cons_self i rest
      | tail _ h =>
          have hne : first.hash ≠ i.hash := by
            intro heq
            exact distinct.1 (heq ▸ List.mem_map_of_mem h)
          rw [verdictOn?_cons_of_ne hne]
          exact ih distinct.2 h

end VerdictOn

/-! ## Entries -/

namespace LedgerEntry

/-- The entry after the answer to an inquiry. -/
def told (e : LedgerEntry) (i : Inquiry) : LedgerEntry := i.verdict?.elim e (e.settle i.hash)

/-- The entry with the verdict on its payment, if there is one. -/
def judged (e : LedgerEntry) (inquiries : List Inquiry) : LedgerEntry :=
  (verdictOn? inquiries e.hash).elim e fun state => { e with state := state }

variable {e : LedgerEntry} {i : Inquiry} {inquiries : List Inquiry}

@[simp] theorem hash_judged : (e.judged inquiries).hash = e.hash := by
  unfold judged
  cases verdictOn? inquiries e.hash with
  | none => rfl
  | some state => rfl

@[simp] theorem hash_told : (e.told i).hash = e.hash := by
  unfold told
  cases i.verdict? with
  | none => rfl
  | some state => exact hash_settle

theorem judged_of_none (h : verdictOn? inquiries e.hash = none) : e.judged inquiries = e := by
  rw [judged, h]
  rfl

theorem told_of_ne (h : i.hash ≠ e.hash) : e.told i = e := by
  unfold told
  cases i.verdict? with
  | none => rfl
  | some state => exact settle_of_ne h.symm

theorem told_of_hash_eq (h : i.hash = e.hash) (hopen : e.state.isOpen = true) :
    e.told i = i.verdict?.elim e fun state => { e with state := state } := by
  unfold told
  rw [h]
  cases i.verdict? with
  | none => rfl
  | some state => exact settle_of_open hopen

theorem foldl_told_of_notMem (h : e.hash ∉ inquiries.map (·.hash)) :
    inquiries.foldl told e = e := by
  induction inquiries with
  | nil => rfl
  | cons i rest ih =>
      rw [List.map_cons, List.mem_cons, not_or] at h
      rw [List.foldl_cons, told_of_ne (Ne.symm h.1)]
      exact ih h.2

/-- Of all the answers, one at most is about the entry's own payment. -/
theorem foldl_told_eq_judged (distinct : (inquiries.map (·.hash)).Nodup)
    (asked : e.hash ∈ inquiries.map (·.hash) → e.state.isOpen = true) :
    inquiries.foldl told e = e.judged inquiries := by
  induction inquiries with
  | nil => rfl
  | cons i rest ih =>
      rw [List.map_cons, List.nodup_cons] at distinct
      rw [List.foldl_cons]
      by_cases heq : i.hash = e.hash
      · have hopen := asked (List.mem_cons.mpr (Or.inl heq.symm))
        have hrest : (e.told i).hash ∉ rest.map (·.hash) := by
          rw [hash_told, ← heq]
          exact distinct.1
        rw [foldl_told_of_notMem hrest, told_of_hash_eq heq hopen, judged, ← heq,
          verdictOn?_cons_self]
      · rw [told_of_ne heq, judged, verdictOn?_cons_of_ne heq]
        exact ih distinct.2 fun hmem => asked (List.mem_cons_of_mem _ hmem)

theorem state_judged_eq_timedOut_iff :
    (e.judged inquiries).state = .timedOut ↔
      e.state = .timedOut ∧ verdictOn? inquiries e.hash = none := by
  cases hverdict : verdictOn? inquiries e.hash with
  | none =>
      rw [judged_of_none hverdict]
      simp
  | some state =>
      obtain ⟨i, -, hstate⟩ := Option.bind_eq_some_iff.mp hverdict
      have hclosed := Inquiry.isOpen_of_verdict? hstate
      have hne : state ≠ .timedOut := by
        rintro rfl
        cases hclosed
      simp [judged, hverdict, hne]

end LedgerEntry

/-! ## The ledger -/

namespace Ledger

/-- The ledger after the answer to an inquiry. -/
def told (l : Ledger) (i : Inquiry) : Ledger := i.verdict?.elim l (l.resolve i.hash)

/-- The route of a payment that is remembered. -/
def route? (l : Ledger) (hash : String) : Option Route := Option.map (·.route) <| l.entry? hash

variable {l : Ledger} {i : Inquiry} {inquiries : List Inquiry} {hash : String}

theorem entries_told (l : Ledger) (i : Inquiry) :
    (l.told i).entries = l.entries.map (·.told i) := by
  unfold told LedgerEntry.told
  cases i.verdict? with
  | none => exact (List.map_id _).symm
  | some state => exact entries_resolve l i.hash state

theorem capacity_told (l : Ledger) (i : Inquiry) : (l.told i).capacity = l.capacity := by
  unfold told
  cases i.verdict? with
  | none => rfl
  | some state => rfl

theorem route?_told (l : Ledger) (i : Inquiry) : (l.told i).route? = l.route? := by
  funext hash
  unfold told route?
  cases i.verdict? with
  | none => rfl
  | some state =>
      show Option.map _ ( entry? (l.resolve i.hash state) hash) = _
      rw [entry?_resolve, Option.map_map]
      exact congrArg (Option.map · _) (funext fun e => LedgerEntry.route_settle)

/-- An answer does not change what is known of the other payments. -/
theorem state?_told_of_ne (h : i.hash ≠ hash) : (l.told i).state? hash = l.state? hash := by
  unfold told
  cases i.verdict? with
  | none => rfl
  | some state =>
      show Option.map _ ( entry? (l.resolve i.hash state) hash) = _
      rw [entry?_resolve, state?]
      cases hentry : l.entry? hash with
      | none => rfl
      | some e =>
          have hne : e.hash ≠ i.hash := by
            rw [(mem_of_entry?_eq_some hentry).2]
            exact h.symm
          rw [Option.map_some, LedgerEntry.settle_of_ne hne]

theorem foldl_told (l : Ledger) (inquiries : List Inquiry) :
    inquiries.foldl told l = ⟨l.capacity, l.entries.map fun e => inquiries.foldl .told e⟩ := by
  induction inquiries generalizing l with
  | nil => simp
  | cons i rest ih =>
      rw [List.foldl_cons, ih, capacity_told, entries_told, List.map_map]
      rfl

/-- Just the payments that timed out were asked for. -/
def Asked (l : Ledger) (inquiries : List Inquiry) : Prop := inquiries.map (·.hash) = l.timedOut

theorem Ordered.nodup_timedOut (h : l.Ordered) : l.timedOut.Nodup := by
  rw [h.timedOut_eq]
  exact h.nodup.filter _

theorem Ordered.nodup_of_asked (h : l.Ordered) (asked : l.Asked inquiries) :
    (inquiries.map (·.hash)).Nodup := by
  rw [asked]
  exact h.nodup_timedOut

theorem Ordered.state?_of_mem_timedOut (h : l.Ordered) (hmem : hash ∈ l.timedOut) :
    l.state? hash = some .timedOut := by
  rw [h.timedOut_eq] at hmem
  exact of_decide_eq_true (List.mem_filter.mp hmem).2

theorem Ordered.state_of_hash_mem_timedOut (h : l.Ordered) {e : LedgerEntry} (he : e ∈ l.entries)
    (hmem : e.hash ∈ l.timedOut) : e.state = .timedOut := by
  have hstate : l.state? e.hash = some e.state := h.state?_eq_some_iff.mpr ⟨e, he, rfl, rfl⟩
  rw [h.state?_of_mem_timedOut hmem] at hstate
  exact (Option.some.inj hstate).symm

/-- After all answers every entry has the verdict on its own payment. -/
theorem Ordered.toldAll_eq (h : l.Ordered) (asked : l.Asked inquiries) :
    inquiries.foldl told l = ⟨l.capacity, l.entries.map (·.judged inquiries)⟩ := by
  have distinct := h.nodup_of_asked asked
  have hentries : l.entries.map (fun e => inquiries.foldl .told e) =
      l.entries.map (·.judged inquiries) := by
    refine List.map_congr_left fun e he => LedgerEntry.foldl_told_eq_judged distinct fun hmem => ?_
    rw [asked] at hmem
    rw [h.state_of_hash_mem_timedOut he hmem]
    rfl
  rw [foldl_told, hentries]

/-- The payments without a verdict still count as timed out, in the order they had. -/
theorem Ordered.timedOut_toldAll (h : l.Ordered) (asked : l.Asked inquiries) :
    (inquiries.foldl told l).timedOut = (inquiries.filter (·.isSilent)).map (·.hash) := by
  have distinct := h.nodup_of_asked asked
  let unjudged (hash : String) : Bool := (verdictOn? inquiries hash).isNone
  calc (inquiries.foldl told l).timedOut
      = ((l.entries.map (·.judged inquiries)).filter (·.state == .timedOut)).map (·.hash) := by
        rw [h.toldAll_eq asked]
        rfl
    _ = (l.entries.filter fun e => unjudged e.hash && e.state == .timedOut).map (·.hash) := by
        rw [List.filter_map, List.map_map]
        have hhash : ((·.hash) ∘ (·.judged inquiries) : LedgerEntry → String) = (·.hash) :=
          funext fun e => LedgerEntry.hash_judged
        rw [hhash]
        refine congrArg _ (List.filter_congr fun e _ => ?_)
        rw [Bool.eq_iff_iff]
        simp [unjudged, LedgerEntry.state_judged_eq_timedOut_iff, and_comm]
    _ = l.timedOut.filter unjudged := by
        rw [timedOut, List.filter_map, List.filter_filter]
        rfl
    _ = (inquiries.filter fun i => unjudged i.hash).map (·.hash) := by
        rw [← asked, List.filter_map]
        rfl
    _ = (inquiries.filter (·.isSilent)).map (·.hash) := by
        refine congrArg _ (List.filter_congr fun i hi => ?_)
        rw [Bool.eq_iff_iff, Option.isNone_iff_eq_none, verdictOn?_of_mem distinct hi,
          Inquiry.verdict?_eq_none_iff]

/-- As many payments no longer count as timed out as there are verdicts. -/
theorem Ordered.length_left_toldAll (h : l.Ordered) (asked : l.Asked inquiries) :
    (l.timedOut.filter (· ∉ (inquiries.foldl told l).timedOut)).length =
      inquiries.countP (!·.isSilent) := by
  have distinct := h.nodup_of_asked asked
  rw [h.timedOut_toldAll asked, ← asked, List.filter_map, List.length_map,
    List.countP_eq_length_filter]
  refine congrArg List.length (List.filter_congr fun i hi => ?_)
  have hmem : i.hash ∈ (inquiries.filter (·.isSilent)).map (·.hash) ↔ i.isSilent = true := by
    constructor
    · intro hmem
      obtain ⟨j, hj, heq⟩ := List.mem_map.mp hmem
      obtain ⟨hj, hsilent⟩ := List.mem_filter.mp hj
      obtain rfl := List.inj_on_of_nodup_map distinct hj hi heq
      exact hsilent
    · intro hsilent
      exact List.mem_map_of_mem (List.mem_filter.mpr ⟨hi, hsilent⟩)
  simp only [Function.comp_apply, hmem]
  cases i.isSilent with
  | true => rfl
  | false => rfl

end Ledger

end Rebalancer
