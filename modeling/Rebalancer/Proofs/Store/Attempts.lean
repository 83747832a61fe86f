import Rebalancer.Proofs.Newest
import Rebalancer.Proofs.Route.Text
import Rebalancer.Store.Attempts

set_option autoImplicit false

/-! # The attempt table

An attempt is read back from its row as it was (`AttemptRow.attempt_ofAttempt`). The table looks for
what is too old and what is too much by time and by id. If its rows stand in the order of time and
no two have one id, this comes to dropping rows at the front (`AttemptRows.prune_eq`).
-/

namespace Rebalancer

/-! ## Rows -/

theorem AttemptRow.attempt_ofAttempt {a : Attempt} (h : CommaFree a.route) :
    (AttemptRow.ofAttempt a).attempt = a := by
  have hmode : (Mode.ofName? a.mode.name).getD .circular = a.mode := by
    rw [Mode.ofName?_name, Option.getD_some]
  have hroute : parseHalves (describeHalves a.route) = a.route := parseHalves_describeHalves h
  have hamount : wordOfSigned (signedOfWord a.amount) = a.amount := wordOfSigned_signedOfWord _
  have hfee : wordOfSigned (signedOfWord a.fee) = a.fee := wordOfSigned_signedOfWord _
  have herror : (a.error.map (·.kind)).map (fun kind =>
      (⟨kind, (a.error.map (·.message)).getD ""⟩ : AttemptError)) = a.error := by
    cases a.error with
    | none => rfl
    | some e => rfl
  simp only [attempt, ofAttempt, hmode, hroute, hamount, hfee, herror]

/-! ## Tables -/

namespace AttemptRows

variable {rows : AttemptRows}

/-- The rows stand in the order of time, and no two have one id. -/
structure Ordered (rows : AttemptRows) : Prop where
  sorted : rows.Pairwise fun a b => a.createdAt ≤ b.createdAt
  distinct : (rows.map (·.id)).Nodup

theorem Ordered.sublist {rows' : AttemptRows} (h : rows.Ordered) (hs : rows'.Sublist rows) :
    rows'.Ordered := ⟨h.sorted.sublist hs, h.distinct.sublist (hs.map _)⟩

theorem put_of_new {row : AttemptRow} (h : ∀ r ∈ rows, r.id ≠ row.id) :
    rows.put row = rows ++ [row] := by
  have hkept : rows.filter (·.id != row.id) = rows :=
    List.filter_eq_self.mpr fun r hr => bne_iff_ne.mpr (h r hr)
  rw [put, hkept]

theorem newest_eq (h : rows.Ordered) (capacity : Nat) :
    rows.newest capacity = rows.rtake capacity := by
  have hsorted : rows.byTime = rows :=
    List.mergeSort_of_pairwise (h.sorted.imp fun hle => decide_eq_true hle)
  rw [newest, hsorted, List.rtake]

/-- Of rows in order, the old ones and the surplus ones stand at the front. -/
theorem prune_eq (h : rows.Ordered) (capacity : Nat) (cutoff : Time) :
    rows.prune capacity cutoff = (rows.filter (cutoff ≤ ·.createdAt)).rtake capacity := by
  have hrecent := h.sublist (@List.filter_sublist _ (fun r => decide (cutoff ≤ r.createdAt)) rows)
  unfold prune
  dsimp only
  rw [newest_eq hrecent]
  exact filter_contains_suffix (rtake_suffix _ _) hrecent.distinct

end AttemptRows

end Rebalancer
