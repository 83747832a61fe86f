import Rebalancer.Proofs.Graph.Candidates

set_option autoImplicit false

/-! # What a payment leaves in its exit

A pull tests the floor of an exit on the chunk alone, before it is known which route the payment
takes and what the route costs. What really leaves the exit is the amount of the first hop, which is
the chunk and the whole fee of the route. So the balance can fall short of the floor, but by no more
than the fee (`spares_of_mem_exitsAmong`).
-/

namespace Rebalancer

/-- The floor in exact numbers. The share of the capacity is cut to a word, which makes a difference
for shares above the whole only. -/
theorem ExitFilter.toNat_floor {f : ExitFilter} {c : OwnChannel} (h : f.depletePercent ≤ 100) :
    (f.floor c).toNat =
      min f.depleteAmount.toNat (c.total.toNat * f.depletePercent.toNat / 100) := by
  rw [floor, toNat_min_word, toNat_percentOf h]

/-- The first hop of a route over halves delivers the amount and the fee of the route. -/
theorem Route.exists_first_build (amount : Msat) (out : Half) (rest : List Half) :
    ∃ first, (build (out :: rest) amount).hops.head? = some first ∧
      first.amount.toNat = amount.toNat + (build (out :: rest) amount).fee.toNat := by
  refine ⟨hopOver amount out rest, rfl, ?_⟩
  have hle : amount.toNat ≤ (amountInto amount rest).toNat :=
    UInt64.le_iff_toNat_le.mp (le_amountInto amount rest)
  have hfee : (build (out :: rest) amount).fee.toNat =
      (amountInto amount rest).toNat - amount.toNat := toNat_subClamped _ amount
  show (amountInto amount rest).toNat = _
  omega

namespace Graph

variable {g : Graph} {records : List (String × OwnChannel)} {entry : String} {amount : Msat}
  {maxHops : Nat} {f : ExitFilter}

/-- The payment that starts with the hop `first` leaves the floor in its exit `own`, in exact
numbers. -/
def LeavesFloor (f : ExitFilter) (own : OwnChannel) (first : Hop) : Prop :=
  min f.depleteAmount.toNat (own.total.toNat * f.depletePercent.toNat / 100) +
    first.amount.toNat ≤ own.toUs.toNat

instance (f : ExitFilter) (own : OwnChannel) (first : Hop) : Decidable (LeavesFloor f own first) :=
  inferInstanceAs (Decidable (_ ≤ _))

/-- What the payment over `route` leaves in its exit `own`: the floor after the chunk, and all of
the floor but the fee of the route after the whole payment. -/
structure Spares (f : ExitFilter) (own : OwnChannel) (amount : Msat) (route : Route) (first : Hop) :
    Prop where
  takes : first.amount.toNat = amount.toNat + route.fee.toNat
  chunk : (f.floor own).toNat + amount.toNat ≤ own.toUs.toNat
  payment : (f.floor own).toNat + first.amount.toNat ≤ own.toUs.toNat + route.fee.toNat
  floor_eq : f.depletePercent ≤ 100 → (f.floor own).toNat =
    min f.depleteAmount.toNat (own.total.toNat * f.depletePercent.toNat / 100)
  leavesFloor_iff : f.depletePercent ≤ 100 → (LeavesFloor f own first ↔
    route.fee.toNat ≤ own.toUs.toNat - amount.toNat - (f.floor own).toNat)

/-- Every exit that is found keeps its floor when the chunk has left it, in whatever order the own
channels are gone through. The payment takes the fee of the route on top of the chunk, so it keeps
the floor just if the fee fits between them, and else falls short of it by at most the fee. -/
theorem spares_of_mem_exitsAmong {candidates : List Candidate}
    (hrecords : records.Perm g.own.toList)
    (h : g.exitsAmong records entry amount maxHops f = .ok candidates) {c : Candidate}
    (hc : c ∈ candidates) :
    ∃ own first, g.own[c.scid]? = some own ∧ c.route.hops.head? = some first ∧
      Spares f own amount c.route first := by
  obtain ⟨own, hown, hafford, hring⟩ := exists_own_of_mem_exitsAmong hrecords h hc
  obtain ⟨-, out, back, path, -, -, -, -, -, -, hroute⟩ := ring_eq_ok_iff.mp hring
  obtain ⟨first, hfirst, htakes⟩ := Route.exists_first_build amount out (path ++ [back])
  rw [← hroute] at hfirst htakes
  have hchunk := ExitFilter.affords_iff.mp hafford
  refine ⟨own, first, hown, hfirst, htakes, hchunk, by omega, ExitFilter.toNat_floor, ?_⟩
  intro hpercent
  rw [LeavesFloor, ← ExitFilter.toNat_floor hpercent]
  omega

/-! ## Two channels -/

/-- The exit that a pull into the empty channel finds. -/
def exitFound : Candidate := ⟨"1x1", 0, .build [halfToB, halfFromB] 1000⟩

/-- The first hop of its route. -/
def firstHop : Hop := hopOver 1000 halfToB [halfFromB]

/-- The floor is just what the chunk leaves. The records are gone through from the last to the
first. -/
theorem spares_twoChannels :
    twoChannels.own.toList.reverse.Perm twoChannels.own.toList ∧
      twoChannels.exitsAmong twoChannels.own.toList.reverse "2x1" 1000 2 ⟨1000, none, 100, 999000⟩ =
        .ok [exitFound] ∧
      exitFound ∈ [exitFound] ∧
      ∃ own first, twoChannels.own["1x1"]? = some own ∧ exitFound.route.hops.head? = some first ∧
        Spares ⟨1000, none, 100, 999000⟩ own 1000 exitFound.route first := by
  have hperm := List.reverse_perm twoChannels.own.toList
  have hpull := exitsAmong_twoChannels (f := ⟨1000, none, 100, 999000⟩) hperm rfl (by decide)
  have hmem := List.mem_singleton_self exitFound
  exact ⟨hperm, hpull, hmem, spares_of_mem_exitsAmong hperm hpull hmem⟩

/-- With its fee, this payment leaves less than the floor. A share above the whole of the capacity
may be cut to a floor that is lower still. -/
theorem depleted_twoChannels :
    twoChannels.Reachable ∧ twoChannels.own["1x1"]? = some (channelWith "b" "1x1" 1000000 0) ∧
      exitFound.route.hops.head? = some firstHop ∧
      (twoChannels.pullCandidates "2x1" 1000 2 ⟨1000, none, 100, 999000⟩ = .ok [exitFound] ∧
        ¬ LeavesFloor ⟨1000, none, 100, 999000⟩ (channelWith "b" "1x1" 1000000 0) firstHop) ∧
      twoChannels.pullCandidates "2x1" 1000 2 ⟨1000, none, 1844674407370956, 1000000⟩ =
          .ok [exitFound] ∧
        ¬ LeavesFloor ⟨1000, none, 1844674407370956, 1000000⟩ (channelWith "b" "1x1" 1000000 0)
          firstHop :=
  ⟨reachable_twoChannels, by decide +kernel, rfl,
    ⟨exitsAmong_twoChannels (.refl _) rfl (by decide), by decide⟩,
    exitsAmong_twoChannels (.refl _) rfl (by decide), by decide⟩

end Graph

end Rebalancer
