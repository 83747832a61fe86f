import Mathlib.Algebra.Ring.Nat
import Rebalancer.Attempt

set_option autoImplicit false

/-! # What a summary adds up

The totals of a summary are sums over the attempts that moved something (`tally`), and there is no
summary just if one of them does not fit a word. What was moved tells the status: all amounts on
success, and nothing on failure. A rate that each of these attempts keeps to is kept to by the
totals.
-/

namespace Rebalancer

/-! ## Sums over attempts -/

/-- What an amount comes to over those attempts that moved something and satisfy `p`. -/
def tally (amount : Attempt → Msat) (p : Attempt → Bool) : List Attempt → Nat
  | [] => 0
  | a :: rest =>
    (if a.success = true ∧ p a = true then (amount a).toNat else 0) + tally amount p rest

/-- The amounts that the attempts moved. -/
def movedBy (attempts : List Attempt) : Nat := tally (·.amount) (fun _ => true) attempts

/-- The fees that the attempts paid. -/
def feesBy (attempts : List Attempt) : Nat := tally (·.fee) (fun _ => true) attempts

variable {amount : Attempt → Msat} {p : Attempt → Bool} {a : Attempt} {attempts : List Attempt}

theorem tally_cons_of_success (h : a.success = true) (hp : p a = true) :
    tally amount p (a :: attempts) = (amount a).toNat + tally amount p attempts := by
  rw [tally, if_pos ⟨h, hp⟩]

theorem tally_cons_of_failure (h : a.success = false) :
    tally amount p (a :: attempts) = tally amount p attempts := by
  rw [tally, if_neg (by simp [h]), Nat.zero_add]

theorem tally_le (amount : Attempt → Msat) (p : Attempt → Bool) (attempts : List Attempt) :
    tally amount p attempts ≤ tally amount (fun _ => true) attempts := by
  induction attempts with
  | nil => exact Nat.le_refl 0
  | cons a rest ih =>
      cases hs : a.success with
      | true =>
          rw [tally_cons_of_success (p := fun _ => true) hs rfl, tally]
          split
          · omega
          · omega
      | false =>
          rw [tally_cons_of_failure hs, tally_cons_of_failure hs]
          exact ih

theorem tally_eq_zero (h : ∀ a ∈ attempts, a.success = true → p a = false) :
    tally amount p attempts = 0 := by
  induction attempts with
  | nil => rfl
  | cons a rest ih =>
      rw [tally, ih fun a ha => h a (by simp [ha]), if_neg]
      rintro ⟨hs, hp⟩
      rw [h a (by simp) hs] at hp
      cases hp

/-- The sum over the attempts that moved something, taken as a summary takes it. -/
theorem foldr_successes :
    ((attempts.filter (·.success)).map amount).foldr (fun a n => a.toNat + n) 0 =
      tally amount (fun _ => true) attempts := by
  induction attempts with
  | nil => rfl
  | cons a rest ih =>
      cases hs : a.success with
      | true =>
          rw [List.filter_cons_of_pos hs, tally_cons_of_success hs rfl, ← ih]
          rfl
      | false =>
          rw [List.filter_cons_of_neg (by simp [hs]), tally_cons_of_failure hs]
          exact ih

theorem tally_eq_sum :
    tally amount (fun _ => true) attempts =
      ((attempts.filter (·.success)).map fun a => (amount a).toNat).sum := by
  rw [← foldr_successes, List.sum_eq_foldr, List.foldr_map, List.foldr_map]

/-- What was moved and what was not come to all amounts. -/
theorem movedBy_add (attempts : List Attempt) :
    movedBy attempts + ((attempts.filter (!·.success)).map (·.amount.toNat)).sum =
      (attempts.map (·.amount.toNat)).sum := by
  unfold movedBy
  induction attempts with
  | nil => rfl
  | cons a rest ih =>
      cases hs : a.success with
      | true =>
          rw [tally_cons_of_success hs rfl, List.filter_cons_of_neg (by simp [hs]), List.map_cons,
            List.sum_cons, ← ih, Nat.add_assoc]
      | false =>
          rw [tally_cons_of_failure hs, List.filter_cons_of_pos (by simp [hs]), List.map_cons,
            List.map_cons, List.sum_cons, List.sum_cons, ← ih, Nat.add_left_comm]

theorem movedBy_le (attempts : List Attempt) :
    movedBy attempts ≤ (attempts.map (·.amount.toNat)).sum := by
  rw [← movedBy_add]
  exact Nat.le_add_right _ _

/-- Positive amounts come to nothing only if there are none. -/
theorem sum_filter_eq_zero_iff (positive : ∀ a ∈ attempts, 0 < a.amount.toNat) :
    ((attempts.filter p).map (·.amount.toNat)).sum = 0 ↔ ∀ a ∈ attempts, p a = false := by
  rw [List.sum_eq_zero_iff_forall_eq_nat]
  constructor
  · intro h a ha
    cases hp : p a with
    | false => rfl
    | true =>
        have hzero := h _ (List.mem_map.mpr ⟨a, List.mem_filter.mpr ⟨ha, hp⟩, rfl⟩)
        exact absurd hzero (Nat.ne_of_gt (positive a ha))
  · intro h n hn
    obtain ⟨a, ha, -⟩ := List.mem_map.mp hn
    obtain ⟨hmem, hp⟩ := List.mem_filter.mp ha
    rw [h a hmem] at hp
    cases hp

theorem movedBy_eq_sum_iff (positive : ∀ a ∈ attempts, 0 < a.amount.toNat) :
    movedBy attempts = (attempts.map (·.amount.toNat)).sum ↔
      ∀ a ∈ attempts, a.success = true := by
  have hrest := @sum_filter_eq_zero_iff (fun a => !a.success) attempts positive
  simp only [Bool.not_eq_false'] at hrest
  rw [← hrest, ← movedBy_add]
  omega

theorem movedBy_eq_zero_iff (positive : ∀ a ∈ attempts, 0 < a.amount.toNat) :
    movedBy attempts = 0 ↔ ∀ a ∈ attempts, a.success = false := by
  rw [movedBy, tally_eq_sum]
  exact sum_filter_eq_zero_iff positive

namespace Summary

theorem toNat_of_total? {amounts : List Msat} {total : Msat} (h : total? amounts = some total) :
    total.toNat = amounts.foldr (fun a n => a.toNat + n) 0 := by
  unfold total? at h
  dsimp only at h
  split at h
  · rename_i hfits
    cases h
    rw [UInt64.toNat_ofNat']
    exact Nat.mod_eq_of_lt (Nat.lt_of_le_of_lt hfits (by decide))
  · cases h

/-- A summary has the attempts and their sums. -/
theorem eq_of_ofAttempts? {r : Request} {attempts : List Attempt} {elapsed : UInt64}
    {summary : Summary} (h : ofAttempts? r attempts elapsed = some summary) :
    summary.attempts = attempts ∧ summary.moved.toNat = movedBy attempts ∧
      summary.fee.toNat = feesBy attempts ∧ summary.rate = rateOf summary.fee summary.moved := by
  obtain ⟨moved, hmoved, h⟩ := Option.bind_eq_some_iff.mp h
  obtain ⟨fee, hfee, h⟩ := Option.bind_eq_some_iff.mp h
  cases h
  refine ⟨rfl, ?_, ?_, rfl⟩
  · exact (toNat_of_total? hmoved).trans foldr_successes
  · exact (toNat_of_total? hfee).trans foldr_successes

theorem statusOf_eq_success_iff :
    statusOf attempts = .success ↔ attempts ≠ [] ∧ ∀ a ∈ attempts, a.success = true := by
  have hall : (attempts.all (·.success) && !attempts.isEmpty) = true ↔
      attempts ≠ [] ∧ ∀ a ∈ attempts, a.success = true := by
    simp [and_comm]
  rw [← hall]
  unfold statusOf
  split
  · rename_i h
    exact iff_of_true rfl h
  · rename_i h
    refine iff_of_false ?_ h
    split
    · exact nofun
    · exact nofun

theorem statusOf_eq_failure_iff :
    statusOf attempts = .failure ↔ ∀ a ∈ attempts, a.success = false := by
  cases attempts with
  | nil => decide
  | cons a rest =>
      cases hs : a.success with
      | true =>
          simp only [statusOf, List.all_cons, List.any_cons, hs, Bool.true_or, Bool.not_true,
            Bool.false_eq_true, if_false]
          split
          · simp [hs]
          · simp [hs]
      | false => simp [statusOf, hs]

/-- What was moved tells the status. -/
theorem statusOf_iff_movedBy (some_attempt : attempts ≠ [])
    (positive : ∀ a ∈ attempts, 0 < a.amount.toNat) :
    (statusOf attempts = .success ↔
        movedBy attempts = (attempts.map (·.amount.toNat)).sum) ∧
      (statusOf attempts = .failure ↔ movedBy attempts = 0) := by
  constructor
  · rw [statusOf_eq_success_iff, movedBy_eq_sum_iff positive, and_iff_right some_attempt]
  · rw [statusOf_eq_failure_iff, movedBy_eq_zero_iff positive]

theorem total?_eq_none_iff {amounts : List Msat} :
    total? amounts = none ↔ maxWord < amounts.foldr (fun a n => a.toNat + n) 0 := by
  unfold total?
  dsimp only
  split
  · rename_i hfits
    exact iff_of_false nofun (Nat.not_lt.mpr hfits)
  · rename_i hfits
    exact iff_of_true rfl (Nat.lt_of_not_le hfits)

/-- There is no summary just if a sum does not fit a word. -/
theorem ofAttempts?_eq_none_iff {r : Request} {elapsed : UInt64} :
    ofAttempts? r attempts elapsed = none ↔
      maxWord < movedBy attempts ∨ maxWord < feesBy attempts := by
  rw [movedBy, feesBy, ← foldr_successes, ← foldr_successes, ← total?_eq_none_iff,
    ← total?_eq_none_iff]
  unfold ofAttempts?
  dsimp only
  cases total? ((attempts.filter (·.success)).map (·.amount)) with
  | none => simp
  | some moved =>
      cases total? ((attempts.filter (·.success)).map (·.fee)) with
      | none => simp
      | some fee => simp

theorem target_of_ofAttempts? {r : Request} {attempts : List Attempt} {elapsed : UInt64}
    {summary : Summary} (h : ofAttempts? r attempts elapsed = some summary) :
    summary.target = r.amount ∧ summary.status = statusOf attempts := by
  obtain ⟨moved, hmoved, h⟩ := Option.bind_eq_some_iff.mp h
  obtain ⟨fee, hfee, h⟩ := Option.bind_eq_some_iff.mp h
  cases h
  exact ⟨rfl, rfl⟩

end Summary

/-- A fee that keeps to a rate has no greater rate. -/
theorem rateOf_le {fee amount : Msat} {ceiling : Ppm}
    (h : fee.toNat * 1000000 ≤ ceiling.toNat * amount.toNat) : rateOf fee amount ≤ ceiling := by
  unfold rateOf
  split
  · exact UInt64.zero_le
  · rename_i hamount
    rw [UInt64.le_iff_toNat_le, toNat_lowWord]
    calc fee.toNat * 1000000 / amount.toNat % 2 ^ 64
        ≤ fee.toNat * 1000000 / amount.toNat := Nat.mod_le _ _
      _ ≤ ceiling.toNat := Nat.div_le_of_le_mul (by rwa [Nat.mul_comm amount.toNat])

/-- Attempts that keep to a rate keep to it in sum. -/
theorem feesBy_le {ceiling : Ppm}
    (h : ∀ attempt ∈ attempts, attempt.success = true →
      attempt.fee.toNat * 1000000 ≤ ceiling.toNat * attempt.amount.toNat) :
    feesBy attempts * 1000000 ≤ ceiling.toNat * movedBy attempts := by
  unfold feesBy movedBy
  induction attempts with
  | nil => exact Nat.zero_le _
  | cons a rest ih =>
      have hrest := ih fun a ha => h a (by simp [ha])
      cases hs : a.success with
      | true =>
          rw [tally_cons_of_success hs rfl, tally_cons_of_success hs rfl]
          calc (a.fee.toNat + feesBy rest) * 1000000
              = a.fee.toNat * 1000000 + feesBy rest * 1000000 := Nat.add_mul _ _ _
            _ ≤ ceiling.toNat * a.amount.toNat + ceiling.toNat * movedBy rest :=
                Nat.add_le_add (h a (by simp) hs) hrest
            _ = ceiling.toNat * (a.amount.toNat + movedBy rest) := (Nat.mul_add _ _ _).symm
      | false =>
          rw [tally_cons_of_failure hs, tally_cons_of_failure hs]
          exact hrest

end Rebalancer
