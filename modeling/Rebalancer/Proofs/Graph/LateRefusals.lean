import Rebalancer.Proofs.Graph.Capacities

set_option autoImplicit false

/-! # Refusals that are heard late

A refusal sets the estimate of the half that refused to what it tells, whatever the half was taken
to carry before. So the estimate is bounded by the amount that was refused, but it goes down only if
the refusal is news: one that is heard late, after a smaller amount was refused as well, raises the
estimate again (`refusal_lowers_iff`).
-/

namespace Rebalancer.Graph

variable {g g' : Graph} {id : HalfId} {amount : Msat} {now : Time}

theorem toNat_refusedEstimate (amount capacity : Msat) :
    (refusedEstimate amount capacity).toNat =
      min (amount.toNat - failureMargin.toNat) capacity.toNat := by
  rw [refusedEstimate, toNat_min_word, toNat_subClamped]

/-- What was refused bounds the estimate. -/
theorem refusedEstimate_le (amount capacity : Msat) :
    (refusedEstimate amount capacity).toNat ≤
      amount.toNat - min amount.toNat failureMargin.toNat := by
  rw [toNat_refusedEstimate]
  omega

/-- A refusal tells nothing beyond an estimate that is at the capacity, or comes within the margin
of the amount. -/
theorem refusedEstimate_le_iff {capacity liquidity : Msat} :
    refusedEstimate amount capacity ≤ liquidity ↔
      amount.toNat ≤ liquidity.toNat + failureMargin.toNat ∨ capacity ≤ liquidity := by
  rw [UInt64.le_iff_toNat_le, UInt64.le_iff_toNat_le, toNat_refusedEstimate]
  omega

/-- Of two refusals over one half, the first tells as much as the second if its amount is as large,
unless the margin or the capacity hides the difference. -/
theorem refusedEstimate_le_refusedEstimate_iff {amount' capacity : Msat} :
    refusedEstimate amount' capacity ≤ refusedEstimate amount capacity ↔
      amount' ≤ amount ∨ amount' ≤ failureMargin ∨
        capacity.toNat ≤ amount.toNat - failureMargin.toNat := by
  rw [UInt64.le_iff_toNat_le, UInt64.le_iff_toNat_le, UInt64.le_iff_toNat_le,
    toNat_refusedEstimate, toNat_refusedEstimate]
  omega

/-- The half that refused is there before and after, and has the estimate that the refusal tells. -/
theorem getElem?_refused (h : g.applyFailure id amount now = some g') :
    ∃ k : Half, g.halves[id]? = some k ∧
      g'.halves[id]? = some (k.withLiquidity (refusedEstimate amount k.capacity) now) := by
  obtain ⟨-, k, hk, hhalves⟩ := getElem?_applyFailure h
  exact ⟨k, hk, by rw [hhalves, if_pos rfl]⟩

/-- A refusal that is learned bounds the estimate by the refused amount less the margin. It does not
raise the estimate just if the amount is within the margin of the estimate, or the estimate is at
the capacity already. A further refusal, as long as the half is as the first one has left it, does
not raise the estimate just if its amount is not larger, or the margin or the capacity hides that it
is. -/
theorem refusal_lowers_iff (h : g.applyFailure id amount now = some g') :
    ∃ k k' : Half, g.halves[id]? = some k ∧ g'.halves[id]? = some k' ∧
      k'.liquidity.toNat ≤ amount.toNat - min amount.toNat failureMargin.toNat ∧
      (k'.liquidity ≤ k.liquidity ↔
        amount.toNat ≤ k.liquidity.toNat + failureMargin.toNat ∨ k.capacity ≤ k.liquidity) ∧
      ∀ (amount' : Msat) (now' : Time) (l l' : Graph), l.halves[id]? = some k' →
        l.applyFailure id amount' now' = some l' → ∃ k'' : Half, l'.halves[id]? = some k'' ∧
          (k''.liquidity ≤ k'.liquidity ↔
            amount' ≤ amount ∨ amount' ≤ failureMargin ∨
              k.capacity.toNat ≤ amount.toNat - failureMargin.toNat) := by
  obtain ⟨k, hk, hk'⟩ := getElem?_refused h
  refine ⟨k, _, hk, hk', refusedEstimate_le amount k.capacity, refusedEstimate_le_iff, ?_⟩
  intro amount' now' l l' hl hlate
  obtain ⟨k₁, hk₁, hk₁'⟩ := getElem?_refused hlate
  -- The second refusal finds the half as the first one has left it.
  obtain rfl : k₁ = k.withLiquidity (refusedEstimate amount k.capacity) now :=
    Option.some.inj (hk₁.symm.trans hl)
  rw [Half.capacity_withLiquidity] at hk₁'
  exact ⟨_, hk₁', refusedEstimate_le_refusedEstimate_iff⟩

/-! ## Two refusals on one half -/

/-- The gossip lists a channel between `b` and `c`. -/
def listing : Change :=
  .gossip [⟨"b", "c", "1x1", 4000000, true, 1000, 10, 6, 0, none⟩,
    ⟨"c", "b", "1x1", 4000000, true, 1000, 10, 6, 0, none⟩] [] 5 1000000

/-- The graph that knows this channel and nothing else. -/
def listedBetween : Graph := (empty "a").after listing

theorem reachable_listedBetween : listedBetween.Reachable := ⟨"a", [listing], rfl⟩

/-- The half from `b` to `c` refuses 1500 satoshi. -/
theorem refusal_lowers_iff_listedBetween :
    ∃ g', listedBetween.applyFailure ⟨"1x1", 0⟩ 1500000 10 = some g' ∧
      ∃ k k' : Half, listedBetween.halves[(⟨"1x1", 0⟩ : HalfId)]? = some k ∧
        g'.halves[(⟨"1x1", 0⟩ : HalfId)]? = some k' ∧ k'.liquidity.toNat ≤ 500000 ∧
        (k'.liquidity ≤ k.liquidity ↔ 1500000 ≤ k.liquidity.toNat + 1000000 ∨
          k.capacity ≤ k.liquidity) := by
  have hlearned : (listedBetween.applyFailure ⟨"1x1", 0⟩ 1500000 10).isSome = true := by
    decide +kernel
  obtain ⟨g', hg'⟩ := Option.isSome_iff_exists.mp hlearned
  obtain ⟨k, k', hk, hk', hle, hiff, -⟩ := refusal_lowers_iff hg'
  exact ⟨g', hg', k, k', hk, hk', by simpa [failureMargin] using hle,
    by simpa [failureMargin] using hiff⟩

/-- A refusal of 3000 satoshi that is heard after one of 1500 satoshi raises the estimate. -/
theorem raised_by_late_refusal :
    listedBetween.Reachable ∧
      ∃ first ∈ listedBetween.applyFailure ⟨"1x1", 0⟩ 1500000 10,
        ∃ late ∈ first.applyFailure ⟨"1x1", 0⟩ 3000000 20,
          first.halves[(⟨"1x1", 0⟩ : HalfId)]?.map (·.liquidity) = some 500000 ∧
            late.halves[(⟨"1x1", 0⟩ : HalfId)]?.map (·.liquidity) = some 2000000 :=
  ⟨reachable_listedBetween, by decide +kernel⟩

end Rebalancer.Graph
