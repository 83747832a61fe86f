import Rebalancer.Proofs.Ledger

set_option autoImplicit false

/-! # The ledger through its operations

Whoever holds a ledger issues payments, resolves them, hands on the news that one failed, and asks
which timed out (`Op`). What one operation does to the entries is said once: all of them go through
it, a payment that is new enters as the newest, and the oldest drop out beyond the capacity
(`Ordered.entries_perform`). Along any operations the remembered hashes are therefore the last ones
that entered (`Ordered.hashes_after`), an entry only changes while its payment is open
(`Ordered.mem_after_of_closed`), and it has the route with which its hash entered
(`Ordered.enteredBy_of_mem_after`).
-/

namespace Rebalancer

namespace Ledger

/-- An operation on a ledger. -/
inductive Op
  | issue (hash : String) (route : Route)
  | resolve (hash : String) (state : PaymentState)
  | acceptFailure (hash : String)
  | timedOut

/-- What an operation gives back. -/
inductive Answer
  | nothing
  | accepted (route : Option Route)
  | listed (hashes : List String)

/-- Carries out an operation. -/
def perform (l : Ledger) : Op → Answer × Ledger
  | .issue hash route => (.nothing, l.issue hash route)
  | .resolve hash state => (.nothing, l.resolve hash state)
  | .acceptFailure hash => (.accepted ((l.acceptFailure hash).map (·.1)), l.heed hash)
  | .timedOut => (.listed l.timedOut, l)

/-- The ledger after some operations. -/
def after (l : Ledger) (ops : List Op) : Ledger := ops.foldl (fun l op => (l.perform op).2) l

/-- The hashes that are remembered, oldest first. -/
def hashes (l : Ledger) : List String := l.entries.map (·.hash)

/-- The hash is remembered before, between and after the operations. -/
def Remembers (l : Ledger) (hash : String) (ops : List Op) : Prop :=
  ∀ past, past <+: ops → hash ∈ (l.after past).hashes

/-- The entry that an operation adds. -/
def entering (l : Ledger) : Op → List LedgerEntry
  | .issue hash route => if hash ∈ l.hashes then [] else [⟨hash, .pending, route⟩]
  | _ => []

/-- The hashes that enter along some operations, in this order. A hash enters again if it was
forgotten. -/
def entered (l : Ledger) : List Op → List String
  | [] => []
  | op :: ops => (l.entering op).map (·.hash) ++ (l.perform op).2.entered ops

end Ledger

open Ledger

theorem PaymentState.isOpen_iff {state : PaymentState} :
    state.isOpen = true ↔ state = .pending ∨ state = .timedOut := by
  cases state <;> simp [isOpen]

theorem PaymentState.isOpen_eq_false_iff {state : PaymentState} :
    state.isOpen = false ↔ state = .succeeded ∨ state = .failed := by
  cases state <;> simp [isOpen]

namespace LedgerEntry

/-- The entry after an operation through which it is remembered. -/
def through (e : LedgerEntry) : Op → LedgerEntry
  | .resolve hash state => e.settle hash state
  | .acceptFailure hash => e.settle hash .failed
  | _ => e

variable {e : LedgerEntry} {hash : String} {state : PaymentState} {op : Op}

@[simp] theorem hash_through : (e.through op).hash = e.hash := by
  cases op with
  | issue hash route => rfl
  | resolve hash state => exact hash_settle
  | acceptFailure hash => exact hash_settle
  | timedOut => rfl

@[simp] theorem route_through : (e.through op).route = e.route := by
  cases op with
  | issue hash route => rfl
  | resolve hash state => exact route_settle
  | acceptFailure hash => exact route_settle
  | timedOut => rfl

theorem through_of_closed (h : e.state.isOpen = false) : e.through op = e := by
  cases op with
  | issue hash route => rfl
  | resolve hash state => exact settle_of_closed h
  | acceptFailure hash => exact settle_of_closed h
  | timedOut => rfl

end LedgerEntry

namespace Ledger

variable {l : Ledger} {hash : String} {state : PaymentState} {route : Route} {e e' : LedgerEntry}
  {op : Op} {ops past : List Op}

/-! ## One operation -/

/-- The entries have distinct hashes, and are not more than the capacity. -/
structure Ordered (l : Ledger) : Prop where
  nodup : l.hashes.Nodup
  bounded : l.hashes.length ≤ l.capacity

theorem ordered_new (capacity : Nat) : (new capacity).Ordered := ⟨List.nodup_nil, Nat.zero_le _⟩

theorem mem_hashes_of_mem (h : e ∈ l.entries) : e.hash ∈ l.hashes := List.mem_map_of_mem h

theorem entry?_eq_none_iff : l.entry? hash = none ↔ hash ∉ l.hashes := by
  simp [hashes, entry?]

theorem isSome_entry?_iff : (l.entry? hash).isSome = true ↔ hash ∈ l.hashes := by
  rw [Option.isSome_iff_ne_none, Ne, entry?_eq_none_iff, not_not]

/-- Two entries of one hash are one. -/
theorem Ordered.eq_of_hash_eq (h : l.Ordered) (he : e ∈ l.entries) (he' : e' ∈ l.entries)
    (heq : e.hash = e'.hash) : e = e' :=
  List.inj_on_of_nodup_map h.nodup he he' heq

theorem Ordered.entry?_eq_some_iff (h : l.Ordered) :
    l.entry? hash = some e ↔ e ∈ l.entries ∧ e.hash = hash := by
  constructor
  · exact mem_of_entry?_eq_some
  · rintro ⟨he, rfl⟩
    have hsome := isSome_entry?_iff.mpr (mem_hashes_of_mem he)
    obtain ⟨e', hfound⟩ := Option.isSome_iff_exists.mp hsome
    obtain ⟨he', hhash⟩ := mem_of_entry?_eq_some hfound
    rw [hfound, h.eq_of_hash_eq he' he hhash]

@[simp] theorem hashes_resolve (l : Ledger) (hash : String) (state : PaymentState) :
    (l.resolve hash state).hashes = l.hashes := by
  rw [hashes, entries_resolve, List.map_map]
  exact List.map_congr_left fun e _ => LedgerEntry.hash_settle

theorem entry?_resolve (l : Ledger) (hash hash' : String) (state : PaymentState) :
    entry? (l.resolve hash state) hash' = (l.entry? hash').map (·.settle hash state) := by
  have hsame : ((·.hash == hash') ∘ (·.settle hash state) : LedgerEntry → Bool) =
      (·.hash == hash') := funext fun e => congrArg (· == hash') LedgerEntry.hash_settle
  unfold entry?
  rw [entries_resolve, List.find?_map, hsame]

theorem entries_issue (l : Ledger) (hash : String) (route : Route) :
    (l.issue hash route).entries =
      if hash ∈ l.hashes then l.entries
      else (l.entries ++ [LedgerEntry.mk hash .pending route]).rtake l.capacity := by
  unfold issue
  by_cases hmem : hash ∈ l.hashes
  · rw [if_pos hmem, if_pos (isSome_entry?_iff.mpr hmem)]
  · rw [if_neg hmem, if_neg (mt isSome_entry?_iff.mp hmem)]
    rfl

/-- News of a failure changes what a resolution as failed changes. -/
theorem Ordered.heed_eq_resolve (h : l.Ordered) (hash : String) :
    l.heed hash = l.resolve hash .failed := by
  have unchanged : (∀ e ∈ l.entries, e.settle hash .failed = e) → l = l.resolve hash .failed := by
    intro hall
    have hentries : (l.resolve hash .failed).entries = l.entries := by
      rw [entries_resolve, List.map_congr_left hall, List.map_id']
    exact (congrArg (Ledger.mk l.capacity) hentries).symm
  unfold heed acceptFailure
  cases hentry : l.entry? hash with
  | none =>
      refine unchanged fun e he => LedgerEntry.settle_of_ne ?_
      rintro rfl
      exact entry?_eq_none_iff.mp hentry (mem_hashes_of_mem he)
  | some e =>
      by_cases hopen : e.state.isOpen = true
      · simp only [hopen]
        rfl
      · simp only [hopen]
        refine unchanged fun e' he' => ?_
        by_cases heq : e'.hash = hash
        · obtain rfl : e = e' :=
            Option.some.inj (hentry.symm.trans (h.entry?_eq_some_iff.mpr ⟨he', heq⟩))
          exact LedgerEntry.settle_of_closed (Bool.not_eq_true _ ▸ hopen)
        · exact LedgerEntry.settle_of_ne heq

@[simp] theorem capacity_perform (l : Ledger) (op : Op) :
    (l.perform op).2.capacity = l.capacity := by
  cases op with
  | issue hash route =>
      show (l.issue hash route).capacity = _
      unfold issue
      split
      · rfl
      · rfl
  | resolve hash state => rfl
  | acceptFailure hash =>
      show (l.heed hash).capacity = _
      obtain heq | heq := heed_eq l hash
      · rw [heq]
      · rw [heq]
        rfl
  | timedOut => rfl

/-- All that an operation does to the entries. -/
theorem Ordered.entries_perform (h : l.Ordered) (op : Op) :
    (l.perform op).2.entries =
      (l.entries.map (·.through op) ++ l.entering op).rtake l.capacity := by
  -- Without a new entry nothing drops out.
  have keep : ∀ f : LedgerEntry → LedgerEntry,
      (l.entries.map f ++ []).rtake l.capacity = l.entries.map f := by
    intro f
    rw [List.append_nil, rtake_of_length_le]
    rw [List.length_map, ← l.entries.length_map (f := LedgerEntry.hash)]
    exact h.bounded
  cases op with
  | issue hash route =>
      show (l.issue hash route).entries = ((l.entries.map id) ++ (if _ then _ else _)).rtake _
      rw [entries_issue]
      by_cases hmem : hash ∈ l.hashes
      · rw [if_pos hmem, if_pos hmem, keep, List.map_id]
      · rw [if_neg hmem, if_neg hmem, List.map_id]
  | resolve hash state => exact (keep _).symm
  | acceptFailure hash =>
      show (l.heed hash).entries = _
      rw [h.heed_eq_resolve]
      exact (keep _).symm
  | timedOut => exact (List.map_id _).symm.trans (keep id).symm

theorem Ordered.hashes_perform (h : l.Ordered) (op : Op) :
    (l.perform op).2.hashes = (l.hashes ++ (l.entering op).map (·.hash)).rtake l.capacity := by
  rw [hashes, h.entries_perform, ← rtake_map, List.map_append, List.map_map]
  have hsame : ((·.hash) ∘ (·.through op) : LedgerEntry → String) = (·.hash) :=
    funext fun _ => LedgerEntry.hash_through
  rw [hsame]
  rfl

theorem mem_entering (h : e ∈ l.entering op) :
    op = .issue e.hash e.route ∧ e.hash ∉ l.hashes ∧ e.state = .pending := by
  cases op with
  | issue hash route =>
      simp only [entering] at h
      split at h
      · exact absurd h List.not_mem_nil
      · obtain rfl := List.mem_singleton.mp h
        exact ⟨rfl, ‹_›, rfl⟩
  | resolve hash state => exact absurd h List.not_mem_nil
  | acceptFailure hash => exact absurd h List.not_mem_nil
  | timedOut => exact absurd h List.not_mem_nil

/-- A hash that is not remembered enters, and the oldest one drops out if there is no room. -/
theorem Ordered.hashes_issue (h : l.Ordered) (room : 0 < l.capacity) (hnew : hash ∉ l.hashes)
    (route : Route) :
    (l.issue hash route).hashes =
      (if l.hashes.length < l.capacity then l.hashes else l.hashes.tail) ++ [hash] := by
  have hstep := h.hashes_perform (.issue hash route)
  rw [entering, if_neg hnew] at hstep
  refine Eq.trans hstep ?_
  have hbounded := h.bounded
  by_cases hfull : l.hashes.length < l.capacity
  · rw [if_pos hfull, rtake_of_length_le]
    · rfl
    · rw [List.length_append]
      exact hfull
  · have hone : (l.hashes ++ [hash]).length - l.capacity = 1 := by
      rw [List.length_append, List.length_singleton]
      omega
    rw [if_neg hfull, ← List.drop_one, ← List.drop_append_of_le_length (by omega), ← hone]
    rfl

/-- Nothing but a hash that enters changes which hashes are remembered. -/
theorem Ordered.hashes_perform_of_known (h : l.Ordered)
    (known : ∀ hash route, op = .issue hash route → hash ∈ l.hashes) :
    (l.perform op).2.hashes = l.hashes := by
  have hnone : l.entering op = [] :=
    List.eq_nil_iff_forall_not_mem.mpr fun e he =>
      (mem_entering he).2.1 (known e.hash e.route (mem_entering he).1)
  rw [h.hashes_perform, hnone, List.map_nil, List.append_nil, rtake_of_length_le h.bounded]

theorem nodup_entering (l : Ledger) (op : Op) : ((l.entering op).map (·.hash)).Nodup := by
  cases op with
  | issue hash route =>
      simp only [entering]
      split
      · exact List.nodup_nil
      · exact List.nodup_singleton hash
  | resolve hash state => exact List.nodup_nil
  | acceptFailure hash => exact List.nodup_nil
  | timedOut => exact List.nodup_nil

theorem Ordered.perform (h : l.Ordered) (op : Op) : (l.perform op).2.Ordered where
  nodup := by
    rw [h.hashes_perform]
    refine List.Nodup.sublist (List.drop_sublist _ _)
      (h.nodup.append (nodup_entering l op) fun hash hold hnew => ?_)
    obtain ⟨e, he, rfl⟩ := List.mem_map.mp hnew
    exact (mem_entering he).2.1 hold
  bounded := by
    rw [h.hashes_perform, capacity_perform]
    exact length_rtake_le _ _

theorem Ordered.mem_perform (h : l.Ordered) (he : e' ∈ (l.perform op).2.entries) :
    (∃ e ∈ l.entries, e.through op = e') ∨ e' ∈ l.entering op := by
  rw [h.entries_perform] at he
  exact (List.mem_append.mp (List.mem_of_mem_drop he)).imp_left List.mem_map.mp

/-- An entry goes through an operation unless it is forgotten. -/
theorem Ordered.through_mem_perform (h : l.Ordered) (he : e ∈ l.entries)
    (stays : e.hash ∈ (l.perform op).2.hashes) : e.through op ∈ (l.perform op).2.entries := by
  obtain ⟨e', he', heq⟩ := List.mem_map.mp stays
  obtain ⟨e₀, he₀, rfl⟩ | hnew := h.mem_perform he'
  · obtain rfl := h.eq_of_hash_eq he₀ he (LedgerEntry.hash_through.symm.trans heq)
    exact he'
  · exact absurd (heq ▸ mem_hashes_of_mem he) (mem_entering hnew).2.1

/-! ## What an operation gives back -/

/-- The news of a failure is accepted just if the payment is open. It gives the route of the entry.
-/
theorem acceptFailure_eq_some_iff {l' : Ledger} :
    l.acceptFailure hash = some (route, l') ↔
      ∃ e, l.entry? hash = some e ∧ e.state.isOpen = true ∧ e.route = route ∧
        l.resolve hash .failed = l' := by
  unfold acceptFailure
  cases l.entry? hash with
  | none => simp
  | some e => simp

theorem acceptFailure_ne_none_iff :
    l.acceptFailure hash ≠ none ↔
      l.state? hash = some .pending ∨ l.state? hash = some .timedOut := by
  unfold acceptFailure state?
  cases l.entry? hash with
  | none => simp
  | some e => simp [PaymentState.isOpen_iff, or_iff_not_imp_left]

theorem Ordered.state?_eq_some_iff (h : l.Ordered) :
    l.state? hash = some state ↔ ∃ e ∈ l.entries, e.hash = hash ∧ e.state = state := by
  constructor
  · exact exists_entry_of_state?
  · rintro ⟨e, he, hhash, rfl⟩
    rw [state?, h.entry?_eq_some_iff.mpr ⟨he, hhash⟩]
    rfl

/-- The payments that timed out, in the order of the hashes. -/
theorem Ordered.timedOut_eq (h : l.Ordered) :
    l.timedOut = l.hashes.filter fun hash => l.state? hash = some .timedOut := by
  unfold timedOut hashes
  rw [List.filter_map]
  refine congrArg (List.map LedgerEntry.hash) (List.filter_congr fun e he => ?_)
  have hstate : l.state? e.hash = some e.state := h.state?_eq_some_iff.mpr ⟨e, he, rfl, rfl⟩
  simp [hstate, beq_eq_decide]

/-! ## Any operations -/

theorem after_append (l : Ledger) (past ops : List Op) :
    l.after (past ++ ops) = (l.after past).after ops := List.foldl_append

theorem after_append_singleton (l : Ledger) (ops : List Op) (op : Op) :
    l.after (ops ++ [op]) = ((l.after ops).perform op).2 := after_append l ops [op]

theorem capacity_after (l : Ledger) (ops : List Op) : (l.after ops).capacity = l.capacity := by
  induction ops using List.reverseRecOn with
  | nil => rfl
  | append_singleton ops op ih => rw [after_append_singleton, capacity_perform, ih]

theorem Ordered.after (h : l.Ordered) (ops : List Op) : (l.after ops).Ordered := by
  induction ops using List.reverseRecOn with
  | nil => exact h
  | append_singleton ops op ih =>
      rw [after_append_singleton]
      exact ih.perform op

theorem entered_append_singleton (l : Ledger) (ops : List Op) (op : Op) :
    l.entered (ops ++ [op]) = l.entered ops ++ ((l.after ops).entering op).map (·.hash) := by
  induction ops generalizing l with
  | nil => exact List.append_nil _
  | cons first ops ih =>
      show _ ++ (l.perform first).2.entered (ops ++ [op]) = _
      rw [ih, ← List.append_assoc]
      rfl

/-- What is remembered is what entered last. -/
theorem Ordered.hashes_after (h : l.Ordered) (ops : List Op) :
    (l.after ops).hashes = (l.hashes ++ l.entered ops).rtake l.capacity := by
  induction ops using List.reverseRecOn with
  | nil =>
      show l.hashes = (l.hashes ++ []).rtake l.capacity
      rw [List.append_nil, rtake_of_length_le h.bounded]
  | append_singleton ops op ih =>
      rw [after_append_singleton, (h.after ops).hashes_perform, ih, capacity_after,
        rtake_rtake_append, List.append_assoc, entered_append_singleton]

theorem Remembers.mem (h : l.Remembers hash ops) : hash ∈ (l.after ops).hashes :=
  h ops List.prefix_rfl

theorem Remembers.of_prefix (h : l.Remembers hash ops) (hpast : past <+: ops) :
    l.Remembers hash past := fun _ hearlier => h _ (hearlier.trans hpast)

theorem remembers_append_singleton_iff :
    l.Remembers hash (ops ++ [op]) ↔
      l.Remembers hash ops ∧ hash ∈ (l.after (ops ++ [op])).hashes := by
  constructor
  · intro h
    exact ⟨h.of_prefix (List.prefix_append ops [op]), h.mem⟩
  · rintro ⟨hold, hnow⟩ past hpast
    obtain rfl | hpast := List.prefix_concat_iff.mp hpast
    · exact hnow
    · exact hold past hpast

/-- The entry of a payment that has ended stays as it is until it is forgotten. -/
theorem Ordered.mem_after_of_closed (h : l.Ordered) (he : e ∈ l.entries)
    (hclosed : e.state.isOpen = false) (stays : l.Remembers e.hash ops) :
    e ∈ (l.after ops).entries := by
  induction ops using List.reverseRecOn with
  | nil => exact he
  | append_singleton ops op ih =>
      obtain ⟨hold, hnow⟩ := remembers_append_singleton_iff.mp stays
      rw [after_append_singleton] at hnow ⊢
      have hmem := (h.after ops).through_mem_perform (ih hold) hnow
      rwa [LedgerEntry.through_of_closed hclosed] at hmem

theorem Ordered.entry?_after_of_closed (h : l.Ordered) (he : l.entry? hash = some e)
    (hclosed : e.state.isOpen = false) (stays : l.Remembers hash ops) :
    entry? (l.after ops) hash = some e := by
  obtain ⟨hmem, rfl⟩ := mem_of_entry?_eq_some he
  exact (h.after ops).entry?_eq_some_iff.mpr ⟨h.mem_after_of_closed hmem hclosed stays, rfl⟩

/-- The hash entered with the route, by an operation since which it is remembered. -/
def EnteredBy (l : Ledger) (ops : List Op) (hash : String) (route : Route) : Prop :=
  ∃ past later, ops = past ++ .issue hash route :: later ∧ hash ∉ (l.after past).hashes ∧
    (l.after (past ++ [.issue hash route])).Remembers hash later

/-- Where the entries of a ledger come from that starts empty. -/
theorem Ordered.enteredBy_of_mem_after (h : l.Ordered) (hempty : l.entries = [])
    (he : e ∈ (l.after ops).entries) : l.EnteredBy ops e.hash e.route := by
  induction ops using List.reverseRecOn generalizing e with
  | nil =>
      rw [show (l.after []).entries = [] from hempty] at he
      exact absurd he List.not_mem_nil
  | append_singleton ops op ih =>
      have hmem := mem_hashes_of_mem he
      have he' := he
      rw [after_append_singleton] at he'
      obtain ⟨e₀, he₀, rfl⟩ | hnew := (h.after ops).mem_perform he'
      · -- The entry was there before, and the operation comes on top of the later ones.
        rw [LedgerEntry.hash_through] at hmem ⊢
        rw [LedgerEntry.route_through]
        obtain ⟨past, later, rfl, hunknown, hstays⟩ := ih he₀
        refine ⟨past, later ++ [op], by rw [List.append_assoc, List.cons_append], hunknown,
          remembers_append_singleton_iff.mpr ⟨hstays, ?_⟩⟩
        rwa [← after_append, List.append_assoc, List.singleton_append, ← List.cons_append,
          ← List.append_assoc]
      · -- The operation adds the entry.
        obtain ⟨rfl, hunknown, -⟩ := mem_entering hnew
        refine ⟨ops, [], rfl, hunknown, fun past hpast => ?_⟩
        rw [List.prefix_nil.mp hpast]
        exact hmem

/-- A failure that was accepted is not accepted again as long as the hash is remembered. -/
theorem Ordered.acceptFailure_after_eq_none (h : l.Ordered) (haccept : l.acceptFailure hash ≠ none)
    (stays : (l.after [.acceptFailure hash]).Remembers hash ops) :
    (l.after (.acceptFailure hash :: ops)).acceptFailure hash = none := by
  obtain ⟨⟨route, l'⟩, hsome⟩ := Option.ne_none_iff_exists'.mp haccept
  obtain ⟨e, hentry, hopen, -, -⟩ := acceptFailure_eq_some_iff.mp hsome
  obtain ⟨he, rfl⟩ := mem_of_entry?_eq_some hentry
  -- The news has closed the payment.
  have hfailed : { e with state := .failed } ∈ (l.perform (.acceptFailure e.hash)).2.entries := by
    have hmem := h.through_mem_perform he (stays [] List.nil_prefix)
    rwa [LedgerEntry.through, LedgerEntry.settle_of_open hopen] at hmem
  have hordered := h.perform (.acceptFailure e.hash)
  have hlate := hordered.entry?_after_of_closed
    (hordered.entry?_eq_some_iff.mpr ⟨hfailed, rfl⟩) rfl stays
  show ((l.perform (.acceptFailure e.hash)).2.after ops).acceptFailure e.hash = none
  rw [acceptFailure, hlate]
  rfl

end Ledger

end Rebalancer
