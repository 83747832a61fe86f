import Rebalancer.Proofs.Graph.OwnHalves
import Rebalancer.Proofs.Graph.Rings
import Rebalancer.Proofs.Tables

set_option autoImplicit false

/-! # What a payment moves

A payment debits the record of its exit and credits that of its entry
(`getElem?_own_applyPayment`). The two ends of a ring are checked against the liquidity of their
halves, which is that of the records. So a payment over a ring never meets a clamped sum: what
leaves by the exit is what comes in by the entry (`Moves`), and the records stay as the node could
have reported them (`Backed`).
-/

namespace Rebalancer

open Std

/-- What the node reports of a channel: no more can be sent than is ours, and no more can be
received than is not. -/
structure OwnChannel.Backed (c : OwnChannel) : Prop where
  spendable_le : c.spendable.toNat ≤ c.toUs.toNat
  fits : c.toUs.toNat + c.receivable.toNat ≤ c.total.toNat

namespace Graph

variable {c : OwnChannel} {amount : Msat}

/-- A record from which `amount` can be sent, after it has left. -/
theorem debited_of_le (h : c.Backed) (ha : amount ≤ c.spendable) :
    (debited c amount).toUs.toNat + amount.toNat = c.toUs.toNat ∧
      (debited c amount).spendable.toNat + amount.toNat = c.spendable.toNat ∧
      (debited c amount).receivable.toNat = c.receivable.toNat + amount.toNat := by
  have hspend := h.spendable_le
  have hfits := h.fits
  have hword := toNat_le_maxWord c.total
  have ha' : amount.toNat ≤ c.spendable.toNat := UInt64.le_iff_toNat_le.mp ha
  -- With `h` none of the three sums leaves the word, so clamping changes nothing.
  simp only [debited, toNat_subClamped, toNat_addClamped]
  omega

/-- A record that can receive `amount`, after it has come in. -/
theorem credited_of_le (h : c.Backed) (ha : amount ≤ c.receivable) :
    (credited c amount).toUs.toNat = c.toUs.toNat + amount.toNat ∧
      (credited c amount).spendable.toNat = c.spendable.toNat + amount.toNat ∧
      (credited c amount).receivable.toNat + amount.toNat = c.receivable.toNat := by
  have hspend := h.spendable_le
  have hfits := h.fits
  have hword := toNat_le_maxWord c.total
  have ha' : amount.toNat ≤ c.receivable.toNat := UInt64.le_iff_toNat_le.mp ha
  simp only [credited, toNat_subClamped, toNat_addClamped]
  omega

theorem backed_debited (h : c.Backed) (ha : amount ≤ c.spendable) : (debited c amount).Backed := by
  obtain ⟨htoUs, hspend, hreceive⟩ := debited_of_le h ha
  have htotal : (debited c amount).total = c.total := rfl
  have := h.spendable_le
  have := h.fits
  constructor
  · omega
  · rw [htotal]
    omega

theorem backed_credited (h : c.Backed) (ha : amount ≤ c.receivable) :
    (credited c amount).Backed := by
  obtain ⟨htoUs, hspend, hreceive⟩ := credited_of_le h ha
  have htotal : (credited c amount).total = c.total := rfl
  have := h.spendable_le
  have := h.fits
  constructor
  · omega
  · rw [htotal]
    omega

/-- Every record is one that the node could have reported. -/
def Backed (g : Graph) : Prop :=
  ∀ (scid : String) (c : OwnChannel), g.own[scid]? = some c → c.Backed

/-- No own channel's peer is the local node itself. -/
def NoSelfPeer (g : Graph) : Prop :=
  ∀ (scid : String) (c : OwnChannel), g.own[scid]? = some c → c.peer ≠ g.selfId

instance (c : OwnChannel) : Decidable c.Backed :=
  decidable_of_iff
    (c.spendable.toNat ≤ c.toUs.toNat ∧ c.toUs.toNat + c.receivable.toNat ≤ c.total.toNat)
    ⟨fun h => ⟨h.1, h.2⟩, fun h => ⟨h.1, h.2⟩⟩

instance (g : Graph) : Decidable g.Backed :=
  decidable_of_iff (∀ e ∈ g.own.toList, e.2.Backed) (by
    simp only [Prod.forall, TreeMap.mem_toList_iff_getElem?_eq_some]
    exact Iff.rfl)

instance (g : Graph) : Decidable g.NoSelfPeer :=
  decidable_of_iff (∀ e ∈ g.own.toList, e.2.peer ≠ g.selfId) (by
    simp only [Prod.forall, TreeMap.mem_toList_iff_getElem?_eq_some]
    exact Iff.rfl)

/-- The balance that is ours in a channel; none in a channel that is not ours. -/
def toUsAt (g : Graph) (scid : String) : Int :=
  weightAt (fun _ c => (c.toUs.toNat : Int)) g.own scid

/-- The balance that is ours in all channels. -/
def balance (g : Graph) : Int := total (fun _ c => (c.toUs.toNat : Int)) g.own

/-- What can be sent or received over a channel. -/
def capacityAt? (g : Graph) (scid : String) : Option Nat :=
  g.own[scid]?.map fun c => c.spendable.toNat + c.receivable.toNat

/-- From `g` to `g'`, `amount` has moved from the channel `exit` to the channel `entry`, which had
room for it. -/
structure Moves (g g' : Graph) (exit entry : String) (amount : Msat) : Prop where
  selfId : g'.selfId = g.selfId
  ne : exit ≠ entry
  out : ∃ c : OwnChannel, g.own[exit]? = some c ∧ amount ≤ c.spendable ∧
    g'.own[exit]? = some (debited c amount)
  back : ∃ c : OwnChannel, g.own[entry]? = some c ∧ amount ≤ c.receivable ∧
    g'.own[entry]? = some (credited c amount)
  other : ∀ scid : String, scid ≠ exit → scid ≠ entry → g'.own[scid]? = g.own[scid]?

/-- The record of the channel `scid` after a payment: the exit is debited, the entry credited. -/
def recordAfter (route : Route) (amount : Msat) (scid : String) (c : OwnChannel) : OwnChannel :=
  let left := if route.exit? = some scid then debited c amount else c
  if route.entry? = some scid then credited left amount else left

theorem getElem?_own_applyPayment (g : Graph) (route : Route) (amount : Msat) (now : Time)
    (scid : String) :
    (g.applyPayment route amount now).own[scid]? =
      g.own[scid]?.map (recordAfter route amount scid) := by
  show ((g.modifyOwn route.exit? (debited · amount)).modifyOwn route.entry?
    (credited · amount)).own[scid]? = _
  rw [getElem?_modifyOwn, getElem?_modifyOwn]
  cases g.own[scid]? with
  | none => simp
  | some c =>
      unfold recordAfter
      split_ifs <;> rfl

/-- A payment changes the records of its exit and its entry only. -/
theorem getElem?_own_applyPayment_of_ne (g : Graph) {route : Route} {exit entry : String}
    (amount : Msat) (now : Time) (hexit : route.exit? = some exit)
    (hentry : route.entry? = some entry) (hne : exit ≠ entry) (scid : String) :
    (g.applyPayment route amount now).own[scid]? =
      if scid = exit then g.own[scid]?.map (debited · amount)
      else if scid = entry then g.own[scid]?.map (credited · amount)
      else g.own[scid]? := by
  rw [getElem?_own_applyPayment]
  unfold recordAfter
  rw [hexit, hentry]
  cases g.own[scid]? with
  | none => simp
  | some c => grind

/-- A payment over a round of halves moves its amount, if the own halves agree with the records. -/
theorem IsRound.moves {g : Graph} (hk : g.Keyed) (hs : g.Synced) (hself : g.NoSelfPeer)
    {exit entry : String} {maxHops : Nat} {out back : Half} {path : List Half}
    (h : g.IsRound exit entry amount maxHops out back path) (now : Time) :
    Moves g (g.applyPayment (.build (out :: (path ++ [back])) amount) amount now) exit entry
      amount := by
  have hown := getElem?_own_applyPayment_of_ne g amount now (h.exit? hk) (h.entry? hk) h.ne
  obtain ⟨c, hc, hid, hout⟩ := exists_own_of_outHalf? hk h.out_eq
  obtain ⟨d, hd, hid', hback⟩ := exists_own_of_inHalf? hk h.back_eq
  obtain ⟨out', hout', -, hspend⟩ := (hs exit c hc (hself exit c hc)).out
  obtain ⟨back', hback', -, hreceive⟩ := (hs entry d hd (hself entry d hd)).back
  -- The halves that the search checked are those that agree with the records.
  have hout'' : out' = out := by
    rw [← hid, hout] at hout'
    exact (Option.some.inj hout').symm
  have hback'' : back' = back := by
    rw [← hid', hback] at hback'
    exact (Option.some.inj hback').symm
  subst hout'' hback''
  have hcarry := (carries_append.mp h.carries.2).2.1
  constructor
  · rfl
  · exact h.ne
  · refine ⟨c, hc, hspend ▸ le_liquidity_of_canCarry h.out_carries, ?_⟩
    rw [hown, if_pos rfl, hc]
    rfl
  · refine ⟨d, hd, hreceive ▸ le_liquidity_of_canCarry hcarry, ?_⟩
    rw [hown, if_neg (Ne.symm h.ne), if_pos rfl, hd]
    rfl
  · intro scid hexit hentry
    rw [hown, if_neg hexit, if_neg hentry]

section Moves

variable {g g' : Graph} {exit entry : String}

theorem toUsAt_of_some {scid : String} (h : g.own[scid]? = some c) :
    g.toUsAt scid = c.toUs.toNat := by
  rw [toUsAt, weightAt, h]
  rfl

theorem toUsAt_congr {scid : String} (h : g'.own[scid]? = g.own[scid]?) :
    g'.toUsAt scid = g.toUsAt scid := by
  rw [toUsAt, toUsAt, weightAt, weightAt, h]

/-- Every channel keeps a record of the same peer. -/
theorem Moves.exists_own (h : Moves g g' exit entry amount) {scid : String} {c' : OwnChannel}
    (hc : g'.own[scid]? = some c') :
    ∃ c : OwnChannel, g.own[scid]? = some c ∧ c'.peer = c.peer ∧ (c.Backed → c'.Backed) := by
  -- A record of `g'` is debited, credited, or what it was.
  by_cases hexit : scid = exit
  · subst hexit
    obtain ⟨c, hold, hle, hnew⟩ := h.out
    rw [hnew] at hc
    cases hc
    exact ⟨c, hold, rfl, fun hb => backed_debited hb hle⟩
  · by_cases hentry : scid = entry
    · subst hentry
      obtain ⟨c, hold, hle, hnew⟩ := h.back
      rw [hnew] at hc
      cases hc
      exact ⟨c, hold, rfl, fun hb => backed_credited hb hle⟩
    · rw [h.other scid hexit hentry] at hc
      exact ⟨c', hc, rfl, id⟩

theorem Moves.backed (h : Moves g g' exit entry amount) (hb : g.Backed) : g'.Backed := by
  intro scid c' hc'
  obtain ⟨c, hc, -, hbacked⟩ := h.exists_own hc'
  exact hbacked (hb scid c hc)

theorem Moves.noSelfPeer (h : Moves g g' exit entry amount) (hself : g.NoSelfPeer) :
    g'.NoSelfPeer := by
  intro scid c' hc'
  obtain ⟨c, hc, hpeer, -⟩ := h.exists_own hc'
  rw [hpeer, h.selfId]
  exact hself scid c hc

/-- What leaves by the exit comes in by the entry. -/
theorem Moves.toUsAt (h : Moves g g' exit entry amount) (hb : g.Backed) (scid : String) :
    g'.toUsAt scid = g.toUsAt scid - (if exit = scid then (amount.toNat : Int) else 0) +
      (if entry = scid then (amount.toNat : Int) else 0) := by
  have hne := h.ne
  obtain ⟨c, hc, hle, hc'⟩ := h.out
  obtain ⟨d, hd, hle', hd'⟩ := h.back
  by_cases hexit : exit = scid
  · subst hexit
    have := (debited_of_le (hb _ c hc) hle).1
    rw [toUsAt_of_some hc, toUsAt_of_some hc', if_pos rfl, if_neg (Ne.symm hne)]
    omega
  · by_cases hentry : entry = scid
    · subst hentry
      have := (credited_of_le (hb _ d hd) hle').1
      rw [toUsAt_of_some hd, toUsAt_of_some hd', if_neg hexit, if_pos rfl]
      omega
    · rw [toUsAt_congr (h.other scid (Ne.symm hexit) (Ne.symm hentry)), if_neg hexit, if_neg hentry]
      omega

theorem Moves.capacityAt? (h : Moves g g' exit entry amount) (hb : g.Backed) (scid : String) :
    g'.capacityAt? scid = g.capacityAt? scid := by
  obtain ⟨c, hc, hle, hc'⟩ := h.out
  obtain ⟨d, hd, hle', hd'⟩ := h.back
  unfold Graph.capacityAt?
  by_cases hexit : scid = exit
  · subst hexit
    obtain ⟨-, hspend, hreceive⟩ := debited_of_le (hb _ c hc) hle
    rw [hc, hc', Option.map_some, Option.map_some]
    congr 1
    omega
  · by_cases hentry : scid = entry
    · subst hentry
      obtain ⟨-, hspend, hreceive⟩ := credited_of_le (hb _ d hd) hle'
      rw [hd, hd', Option.map_some, Option.map_some]
      congr 1
      omega
    · rw [h.other scid hexit hentry]

end Moves

end Graph

end Rebalancer
