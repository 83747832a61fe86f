import Mathlib.Algebra.Ring.Nat
import Rebalancer.Proofs.Graph.Labels
import Rebalancer.Proofs.Graph.Rings

set_option autoImplicit false

/-! # Amounts and delays along a route

A route is priced from its end. The last hop delivers the amount, each hop before it what the next
half takes to forward that of the next hop, and the first half takes nothing. So what the sender
pays on top is the sum of what all halves but the first charge, as long as no sum is clamped, and a
part of a route up to its end is priced as if it were the whole (`priced_build`).
-/

namespace Rebalancer

theorem Half.toNat_fee (h : Half) (amount : Msat) :
    (h.fee amount).toNat =
      min (h.baseFee.toNat + amount.toNat * h.rate.toNat / 1000000) maxWord :=
  toNat_clampWord _

/-- Delays are clamped one by one, which comes to the same as clamping their sum. -/
theorem toNat_delayInto (l : List Half) :
    (delayInto l).toNat = min (18 + (l.map (·.delay.toNat)).sum) maxHalfWord := by
  induction l with
  | nil => rfl
  | cons h rest ih =>
      rw [delayInto, toNat_addDelay, ih, List.map_cons, List.sum_cons]
      omega

namespace Route

variable {amount : Msat} {halves l : List Half} {hop : Hop}

/-! ## Single hops -/

theorem getElem?_hopsOver (amount : Msat) (l : List Half) (i : Nat) :
    (hopsOver amount l)[i]? = l[i]?.map fun h => hopOver amount h (l.drop (i + 1)) := by
  induction l generalizing i with
  | nil => rfl
  | cons h rest ih =>
      cases i with
      | zero => rfl
      | succ i => exact ih i

theorem drop_hopsOver (amount : Msat) (l : List Half) (n : Nat) :
    (hopsOver amount l).drop n = hopsOver amount (l.drop n) := by
  induction l generalizing n with
  | nil => rw [List.drop_nil, hopsOver, List.drop_nil]
  | cons h rest ih =>
      cases n with
      | zero => rfl
      | succ n => exact ih n

/-- No hop delivers more than what enters the route. -/
theorem amount_le_amountInto (hh : hop ∈ hopsOver amount l) : hop.amount ≤ amountInto amount l := by
  induction l with
  | nil => cases hh
  | cons h rest ih =>
      have hstep : amountInto amount rest ≤ amountInto amount (h :: rest) :=
        le_amountInto (amountInto amount rest) [h]
      rcases List.mem_cons.mp hh with rfl | hh
      · exact hstep
      · exact UInt64.le_trans (ih hh) hstep

theorem descending_hopsOver (amount : Msat) (l : List Half) :
    (hopsOver amount l).Pairwise fun hop later => later.amount ≤ hop.amount := by
  induction l with
  | nil => exact .nil
  | cons h rest ih => exact .cons (fun _ hlater => amount_le_amountInto hlater) ih

/-! ## The fee -/

/-- The hops of the route but the first, each with its half. -/
def forwards (r : Route) (halves : List Half) : List (Hop × Half) := (r.hops.zip halves).tail

/-- What a half charges for the amount that its hop delivers. -/
def charge (p : Hop × Half) : Nat := (p.2.fee p.1.amount).toNat

theorem sum_charge_hopsOver (amount : Msat) (l : List Half) :
    (((hopsOver amount l).zip l).map charge).sum = chargedBy amount l := by
  induction l with
  | nil => rfl
  | cons h rest ih =>
      rw [hopsOver_cons, List.zip_cons_cons, List.map_cons, List.sum_cons, ih, chargedBy,
        Nat.add_comm]
      rfl

/-- If any sum on the way to the front is clamped, so is the last one. -/
theorem forall_le_maxWord_iff (amount : Msat) (l : List Half) :
    (∀ p ∈ (hopsOver amount l).zip l, p.1.amount.toNat + charge p ≤ maxWord) ↔
      amount.toNat + chargedBy amount l ≤ maxWord := by
  induction l with
  | nil => simpa [hopsOver, chargedBy] using toNat_le_maxWord amount
  | cons h rest ih =>
      rw [hopsOver_cons, List.zip_cons_cons, List.forall_mem_cons, ih, chargedBy]
      show (amountInto amount rest).toNat + (h.fee (amountInto amount rest)).toNat ≤ maxWord ∧ _ ↔ _
      rw [toNat_amountInto]
      omega

theorem toNat_fee_build (halves : List Half) (amount : Msat) :
    (build halves amount).fee.toNat =
      min (amount.toNat + (((build halves amount).forwards halves).map charge).sum) maxWord -
        amount.toNat := by
  cases halves with
  | nil =>
      have := toNat_le_maxWord amount
      show 0 = min (amount.toNat + 0) maxWord - amount.toNat
      omega
  | cons h rest =>
      show (subClamped (amountInto amount rest) amount).toNat =
        min (amount.toNat + (((hopsOver amount rest).zip rest).map charge).sum) maxWord -
          amount.toNat
      rw [toNat_subClamped, toNat_amountInto, sum_charge_hopsOver]

/-! ## The whole route -/

/-- The route runs over `halves` and is priced from its end, where it delivers `amount`. -/
structure PricedOver (halves : List Half) (amount : Msat) (r : Route) : Prop where
  amount_eq : r.amount = amount
  ends : r.hops.map (fun hop => (hop.half, hop.source, hop.destination)) =
    halves.map fun h => (h.id, h.source, h.destination)
  last : ∀ hop ∈ r.hops.getLast?, hop.amount = amount ∧ hop.delay = 18
  charges : ∀ (i : Nat) (hop next : Hop) (h : Half), r.hops[i]? = some hop →
    r.hops[i + 1]? = some next → halves[i + 1]? = some h →
      hop.amount = addClamped next.amount (h.fee next.amount) ∧
        hop.amount.toNat = min (next.amount.toNat +
          (h.baseFee.toNat + next.amount.toNat * h.rate.toNat / 1000000)) maxWord
  delays : ∀ (i : Nat) (hop : Hop), r.hops[i]? = some hop →
    hop.delay.toNat = min (18 + ((halves.drop (i + 1)).map (·.delay.toNat)).sum) maxHalfWord
  descends : r.hops.Pairwise fun hop later => later.amount ≤ hop.amount
  fee_eq : r.fee.toNat = ((r.forwards halves).map charge).sum ↔
    ∀ p ∈ r.forwards halves, p.1.amount.toNat + charge p ≤ maxWord

theorem last_build {hop : Hop} (hlast : (build halves amount).hops.getLast? = some hop) :
    hop.amount = amount ∧ hop.delay = 18 := by
  rcases List.eq_nil_or_concat halves with rfl | ⟨rest, h, rfl⟩
  · cases hlast
  · rw [List.concat_eq_append] at hlast
    have hhop := Option.some.inj (hlast.symm.trans (getLast?_hopsOver amount rest h))
    rw [hhop]
    exact ⟨rfl, rfl⟩

theorem charges_build {i : Nat} {hop next : Hop} {h : Half}
    (hhop : (build halves amount).hops[i]? = some hop)
    (hnext : (build halves amount).hops[i + 1]? = some next) (hh : halves[i + 1]? = some h) :
    hop.amount = addClamped next.amount (h.fee next.amount) := by
  obtain ⟨k, -, rfl⟩ := Option.map_eq_some_iff.mp ((getElem?_hopsOver ..).symm.trans hhop)
  obtain ⟨k', hk', rfl⟩ := Option.map_eq_some_iff.mp ((getElem?_hopsOver ..).symm.trans hnext)
  obtain rfl := Option.some.inj (hk'.symm.trans hh)
  obtain ⟨hi, hget⟩ := List.getElem?_eq_some_iff.mp hh
  show amountInto amount (halves.drop (i + 1)) = _
  rw [List.drop_eq_getElem_cons hi, hget]
  rfl

theorem delays_build {i : Nat} {hop : Hop} (hhop : (build halves amount).hops[i]? = some hop) :
    hop.delay.toNat =
      min (18 + ((halves.drop (i + 1)).map (·.delay.toNat)).sum) maxHalfWord := by
  obtain ⟨h, -, rfl⟩ := Option.map_eq_some_iff.mp ((getElem?_hopsOver ..).symm.trans hhop)
  exact toNat_delayInto _

theorem fee_build_iff (halves : List Half) (amount : Msat) :
    (build halves amount).fee.toNat = (((build halves amount).forwards halves).map charge).sum ↔
      ∀ p ∈ (build halves amount).forwards halves, p.1.amount.toNat + charge p ≤ maxWord := by
  have hfits : (∀ p ∈ (build halves amount).forwards halves,
      p.1.amount.toNat + charge p ≤ maxWord) ↔
        amount.toNat + (((build halves amount).forwards halves).map charge).sum ≤ maxWord := by
    cases halves with
    | nil => simpa [forwards] using toNat_le_maxWord amount
    | cons h rest =>
        show (∀ p ∈ (hopsOver amount rest).zip rest, _) ↔
          amount.toNat + (((hopsOver amount rest).zip rest).map charge).sum ≤ maxWord
        rw [sum_charge_hopsOver, forall_le_maxWord_iff]
  have hamount := toNat_le_maxWord amount
  rw [hfits, toNat_fee_build]
  omega

/-- A route over any halves is priced from its end, so each hop delivers what the next half takes
for forwarding, and the fee is what all halves but the first charge, just if no sum is clamped. The
route over the last of the halves has the last of the hops. -/
theorem priced_build (halves : List Half) (amount : Msat) :
    PricedOver halves amount (build halves amount) ∧
      ∀ n, (build (halves.drop n) amount).hops = (build halves amount).hops.drop n := by
  refine ⟨?_, fun n => (drop_hopsOver amount halves n).symm⟩
  constructor
  case amount_eq => rfl
  case ends => exact map_hopsOver (fun _ _ => rfl) halves
  case last => exact fun hop => last_build
  case charges =>
    intro i hop next h hhop hnext hh
    have hcharge := charges_build hhop hnext hh
    refine ⟨hcharge, ?_⟩
    rw [hcharge, toNat_addClamped, Half.toNat_fee]
    omega
  case delays => exact fun i hop => delays_build
  case descends => exact descending_hopsOver amount halves
  case fee_eq => exact fee_build_iff halves amount

end Route

end Rebalancer
