import Mathlib.Data.List.Flatten
import Rebalancer.Proofs.Execution.Endings

set_option autoImplicit false

/-! # The ledger after a request

If the node issues fresh hashes, the ledger, the books and the attempts agree on how the payments of
a request ended. No payment is pending any more. A payment that is remembered as succeeded was
booked and its chunk moved; one that is remembered as timed out was given up, and its invoice was to
be deleted; any other one failed.
-/

namespace Rebalancer

variable {r : Request} {index : Nat} {payments : List Payment} {p : Payment} {a : Attempt}

/-- In this state the ledger remembers a payment for a chunk with attempt `a`. -/
structure Remembered (timeout : UInt64) (booked : List Payment) (p : Payment) (a : Attempt)
    (state : PaymentState) : Prop where
  succeeded_iff : state = .succeeded ↔ p ∈ booked ∧ a.success = true
  timedOut_iff : state = .timedOut ↔ ∃ removal, (Query.deleteInvoice p.label).answered removal ∈
    p.exchanges timeout ∧ removal ≠ .ok .alreadyPaid
  failed_iff : state = .failed ↔ state ≠ .succeeded ∧ state ≠ .timedOut

theorem PaysFor.eq_concat (h : PaysFor r index payments a) (hp : p ∈ payments)
    (hstate : p.state ≠ .failed) : payments.getLast? = some p := by
  rcases List.eq_nil_or_concat payments with rfl | ⟨before, last, rfl⟩
  · cases hp
  · rw [List.concat_eq_append] at hp h ⊢
    have hbefore := h.failed_before
    rw [List.dropLast_concat] at hbefore
    rcases List.mem_append.mp hp with hp | hp
    · exact absurd (hbefore p hp) hstate
    · rw [List.getLast?_concat, List.mem_singleton.mp hp]

/-- At most one payment for a chunk did not fail. -/
theorem PaysFor.length_le_one (h : PaysFor r index payments a) :
    (payments.filter fun p => p.state != .failed).length ≤ 1 := by
  rcases List.eq_nil_or_concat payments with rfl | ⟨before, last, rfl⟩
  · exact Nat.zero_le 1
  · rw [List.concat_eq_append] at h ⊢
    have hbefore := h.failed_before
    rw [List.dropLast_concat] at hbefore
    have hnone : (before.filter fun p => p.state != .failed) = [] :=
      List.filter_eq_nil_iff.mpr fun p hp => by simp [hbefore p hp]
    rw [List.filter_append, hnone, List.nil_append]
    exact List.length_filter_le _ [last]

theorem PaysFor.remembered {timeout : UInt64} {all : List Payment}
    (h : PaysFor r index payments a) (hp : p ∈ payments) (sub : payments ⊆ all) :
    Remembered timeout (settledOf all) p a p.state := by
  refine ⟨?_, p.state_eq_timedOut_iff timeout, ?_⟩
  · constructor
    · intro hstate
      refine ⟨List.mem_filter.mpr ⟨sub hp, by simp [hstate]⟩, h.success_iff.mpr ⟨p, ?_, hstate⟩⟩
      exact h.eq_concat hp (by simp [hstate])
    · rintro ⟨hbooked, -⟩
      exact eq_of_beq (List.mem_filter.mp hbooked).2
  · have := p.state_ne_pending
    cases hstate : p.state with
    | pending => exact absurd hstate this
    | succeeded => simp
    | failed => simp
    | timedOut => simp

namespace Execution

variable {timeout : UInt64} {b b' : Books} {record : Exchanges}

/-- The newest payment for a chunk is remembered when the chunk is through. -/
theorem state?_after_chunk {l : Ledger} {all : List (List Payment)} {i : Nat}
    (room : 0 < l.capacity) (fresh : l.Fresh (all.flatten.map (·.hash)))
    (hi : all[i]? = some payments) (hp : payments.getLast? = some p) :
    (l.hearAll ((all.take (i + 1)).flatten.map .paid)).state? p.hash = some p.state := by
  have htake : (all.take (i + 1)).flatten =
      ((all.take i).flatten ++ payments.dropLast) ++ [p] := by
    rw [List.take_add_one, hi, List.flatten_append, List.append_assoc]
    congr 1
    rw [Option.toList_some, List.flatten_singleton]
    exact (List.dropLast_append_getLast? p hp).symm
  have hfresh : l.Fresh ((all.take (i + 1)).flatten.map (·.hash)) :=
    fresh.sublist ((List.take_sublist _ _).flatten.map _)
  rw [htake] at hfresh ⊢
  exact Ledger.state?_hearAll_paid room hfresh

/-- If no payment is pending before a request and the node issues fresh hashes, the ledger agrees
with the books and the attempts when the request returns. The payments for a chunk are those of the
list with its number. That there is room in the ledger is true of a new one, and no payment changes
it. -/
theorem ledger_agrees_after_execute {summary : Summary}
    (idle : ∀ e ∈ b.ledger.entries, e.state ≠ .pending) (room : 0 < b.ledger.capacity)
    (h : (execute timeout r b).Runs record (some (summary, b')))
    (fresh : b.ledger.Fresh (hashesIn record)) :
    (∀ e ∈ b'.ledger.entries, e.state ≠ .pending) ∧
      ∃ payments : List (List Payment), Hears timeout b record (payments.flatten.map .paid) b' ∧
        b.Booked (settledOf payments.flatten) b' ∧
        hashesIn record = payments.flatten.map (·.hash) ∧
        payments.length = summary.attempts.length ∧
        ∀ i ps a, payments[i]? = some ps → summary.attempts[i]? = some a →
          PaysFor r i ps a ∧
          (ps.filter fun p => p.state != .failed).length ≤ 1 ∧
          (∀ p ∈ ps.getLast?, (b.ledger.hearAll ((payments.take (i + 1)).flatten.map
            .paid)).state? p.hash = some p.state) ∧
          ∀ p ∈ ps, ∀ state, b'.ledger.state? p.hash = some state →
            Remembered timeout (settledOf payments.flatten) p a state := by
  obtain ⟨payments, hears, hlength, hfor⟩ := exists_hears_of_runs h
  have hhashes := hears.hashesIn_eq
  have hbooked := hears.booked
  rw [paymentsIn_map_paid] at hhashes hbooked
  rw [hhashes] at fresh
  refine ⟨fun e he => ?_, payments, hears, hbooked, hhashes, hlength, ?_⟩
  · rw [hears.ledger] at he
    rcases Ledger.mem_entries_hearAll_paid fresh he with hold | ⟨p, -, rfl⟩
    · exact idle e hold
    · exact p.state_ne_pending
  · intro i ps a hps ha
    have hchunk := hfor i ps a hps ha
    have hsub : ps ⊆ payments.flatten :=
      fun p hp => List.mem_flatten.mpr ⟨ps, List.mem_of_getElem? hps, hp⟩
    refine ⟨hchunk, hchunk.length_le_one, fun p hp => state?_after_chunk room fresh hps hp, ?_⟩
    intro p hp state hstate
    rw [hears.ledger] at hstate
    have heq := Ledger.state_eq_of_paid fresh (hsub hp) hstate
    exact heq ▸ hchunk.remembered hp hsub

theorem ledger_agrees_after_moveTwice :
    (∀ e ∈ (Books.ofGraph Graph.twoChannels).ledger.entries, e.state ≠ .pending) ∧
      0 < (Books.ofGraph Graph.twoChannels).ledger.capacity ∧
      (Books.ofGraph Graph.twoChannels).ledger.Fresh ["h", "i"] ∧
      ∃ b', (execute 60 moveTwice (.ofGraph Graph.twoChannels)).Runs
          (Query.stopwatch.answered 0 :: (paidTwice 1000 1001 ++ [Query.stopwatch.answered 5]))
          (some (summaryTwice, b')) ∧
        (∀ e ∈ b'.ledger.entries, e.state ≠ .pending) ∧
        ∃ payments : List (List Payment), payments.flatten.map (·.hash) = ["h", "i"] ∧
          (Books.ofGraph Graph.twoChannels).Booked (settledOf payments.flatten) b' ∧
          payments.length = 2 := by
  have room : 0 < (Books.ofGraph Graph.twoChannels).ledger.capacity := Ledger.capacity_new_pos 4
  have fresh : (Books.ofGraph Graph.twoChannels).ledger.Fresh ["h", "i"] :=
    ⟨by decide, by decide⟩
  obtain ⟨b', hchunks⟩ := chunksRun_moveTwice 1000 1001
  have hrun := runs_execute_iff.mpr (ExecuteRun.finished 0 5 hchunks)
  obtain ⟨hidle, payments, -, hbooked, hhashes, hlength, -⟩ :=
    ledger_agrees_after_execute (by exact nofun) room hrun fresh
  exact ⟨nofun, room, fresh, b', hrun, hidle, payments, hhashes.symm, hbooked, hlength⟩

end Execution

end Rebalancer
