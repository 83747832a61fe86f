import Mathlib.Data.List.Nodup
import Rebalancer.Ledger
import Rebalancer.Proofs.Newest

set_option autoImplicit false

/-! # What the ledger remembers

A payment that is issued under a new hash and then ends is the newest entry of the ledger, in the
state of its end (`entries_note`). No other entry changes, but the oldest may be forgotten. Later
news change an entry only while its payment is open (`mem_entries_resolve`).
-/

namespace Rebalancer

namespace LedgerEntry

/-- The entry after news of a payment. -/
def settle (e : LedgerEntry) (hash : String) (state : PaymentState) : LedgerEntry :=
  if e.hash == hash && e.state.isOpen then { e with state := state } else e

variable {e : LedgerEntry} {hash : String} {state : PaymentState}

theorem settle_of_ne (h : e.hash ≠ hash) : e.settle hash state = e := by
  rw [settle, beq_eq_false_iff_ne.mpr h]
  rfl

theorem settle_of_closed (h : e.state.isOpen = false) : e.settle hash state = e := by
  rw [settle, h, Bool.and_false]
  rfl

theorem settle_of_open (h : e.state.isOpen = true) :
    e.settle e.hash state = { e with state := state } := by
  rw [settle, h, beq_self_eq_true]
  rfl

@[simp] theorem hash_settle : (e.settle hash state).hash = e.hash := by
  unfold settle
  split
  · rfl
  · rfl

@[simp] theorem route_settle : (e.settle hash state).route = e.route := by
  unfold settle
  split
  · rfl
  · rfl

end LedgerEntry

namespace Ledger

/-- The ledger after a payment was issued and ended, which leaves the entry `e`. -/
def note (l : Ledger) (e : LedgerEntry) : Ledger := (l.issue e.hash e.route).resolve e.hash e.state

/-- The hashes are distinct, and none of them is remembered. -/
def Fresh (l : Ledger) (hashes : List String) : Prop :=
  hashes.Nodup ∧ ∀ hash ∈ hashes, l.state? hash = none

variable {l : Ledger} {hash : String} {state : PaymentState} {e e' : LedgerEntry}
  {hashes : List String}

theorem state?_eq_none_iff : l.state? hash = none ↔ ∀ e ∈ l.entries, e.hash ≠ hash := by
  simp [state?, entry?]

theorem mem_of_entry?_eq_some (h : l.entry? hash = some e) : e ∈ l.entries ∧ e.hash = hash := by
  unfold entry? at h
  have hhash := List.find?_some h
  exact ⟨List.mem_of_find?_eq_some h, eq_of_beq hhash⟩

theorem exists_entry_of_state? (h : l.state? hash = some state) :
    ∃ e ∈ l.entries, e.hash = hash ∧ e.state = state := by
  obtain ⟨e, he, rfl⟩ := Option.map_eq_some_iff.mp h
  obtain ⟨hmem, hhash⟩ := mem_of_entry?_eq_some he
  exact ⟨e, hmem, hhash, rfl⟩

theorem entries_resolve (l : Ledger) (hash : String) (state : PaymentState) :
    (l.resolve hash state).entries = l.entries.map (·.settle hash state) := rfl

/-! ## New payments -/

/-- A new payment that ended is the newest entry. -/
theorem entries_note (unknown : l.state? e.hash = none) :
    (l.note e).entries = (l.entries ++ [e]).rtake l.capacity := by
  have hnone : l.entry? e.hash = none := Option.map_eq_none_iff.mp unknown
  have hold : l.entries.map (·.settle e.hash e.state) = l.entries :=
    (List.map_congr_left fun e' he =>
      LedgerEntry.settle_of_ne (state?_eq_none_iff.mp unknown e' he)).trans (List.map_id _)
  have hnew : (LedgerEntry.mk e.hash .pending e.route).settle e.hash e.state = e :=
    LedgerEntry.settle_of_open rfl
  unfold note issue
  rw [hnone, entries_resolve]
  show List.map _ (List.drop _ _) = List.drop _ _
  rw [List.map_drop, List.map_append, hold, List.map_singleton, hnew, List.length_append,
    List.length_append]
  rfl

theorem mem_entries_note (unknown : l.state? e.hash = none) (h : e' ∈ (l.note e).entries) :
    e' ∈ l.entries ∨ e' = e := by
  rw [entries_note unknown] at h
  exact (List.mem_append.mp (List.mem_of_mem_drop h)).imp_right List.mem_singleton.mp

theorem mem_entries_note_self (unknown : l.state? e.hash = none) (room : 0 < l.capacity) :
    e ∈ (l.note e).entries := by
  rw [entries_note unknown, List.rtake, List.length_append, List.length_singleton,
    List.drop_append_of_le_length (by omega)]
  exact List.mem_append_right _ (List.mem_singleton_self e)

/-- Every ledger has room for a payment from the start. -/
theorem capacity_new_pos (capacity : Nat) : 0 < (new capacity).capacity :=
  Nat.le_max_right capacity 1

theorem capacity_note (l : Ledger) (e : LedgerEntry) : (l.note e).capacity = l.capacity := by
  unfold note issue resolve
  split
  · rfl
  · rfl

theorem Fresh.sublist {some : List String} (h : l.Fresh hashes) (sub : some.Sublist hashes) :
    l.Fresh some := ⟨h.1.sublist sub, fun hash hmem => h.2 hash (sub.subset hmem)⟩

/-! ## Late news -/

/-- The ledger after the news that a payment failed. -/
def heed (l : Ledger) (hash : String) : Ledger := ((l.acceptFailure hash).map (·.2)).getD l

/-- Only open payments get another state. -/
theorem mem_entries_resolve (h : e ∈ (l.resolve hash state).entries) :
    e ∈ l.entries ∨ ∃ e₀ ∈ l.entries, e₀.hash = hash ∧ e₀.state.isOpen = true ∧
      e = { e₀ with state := state } := by
  rw [entries_resolve] at h
  obtain ⟨e₀, he, heq⟩ := List.mem_map.mp h
  unfold LedgerEntry.settle at heq
  split at heq
  · rename_i hopen
    obtain ⟨hhash, hopen⟩ := Bool.and_eq_true_iff.mp hopen
    exact Or.inr ⟨e₀, he, eq_of_beq hhash, hopen, heq.symm⟩
  · exact Or.inl (heq ▸ he)

theorem heed_eq (l : Ledger) (hash : String) :
    l.heed hash = l ∨ l.heed hash = l.resolve hash .failed := by
  unfold heed acceptFailure
  split
  · split
    · exact Or.inr rfl
    · exact Or.inl rfl
  · exact Or.inl rfl

end Ledger

end Rebalancer
