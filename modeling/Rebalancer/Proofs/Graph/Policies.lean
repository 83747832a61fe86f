import Rebalancer.Proofs.Graph.Estimates
import Rebalancer.Proofs.Tables

set_option autoImplicit false

/-! # Policies of own channels

A record of an own channel tells the policies of both sides, but a peer refresh uses them only for
the halves that it adds: a half that is known keeps its policy (`policyAt?_applyOwn`), and so it
does under all other changes until the gossip lists it (`policyAt?_afterAll`). So of two lists the
earlier one sets the policies, and the halves follow the later list just if they knew nothing else
before it (`follows_iff`).
-/

namespace Rebalancer

open Std

/-- The policy that the half has. -/
def Half.policy (h : Half) : Policy := ⟨h.htlcMin, h.htlcMax, h.delay, h.baseFee, h.rate⟩

/-- The policy for a half of this capacity, for which a maximum of zero stands. -/
def Policy.over (p : Policy) (capacity : Msat) : Policy :=
  { p with htlcMax := if p.htlcMax = 0 then capacity else p.htlcMax }

/-- The policy that the record tells for the half from the local node. -/
def OwnChannel.outPolicy (c : OwnChannel) : Policy := (c.ownPolicy.getD {}).over c.total

/-- The policy that the record tells for the half to the local node. -/
def OwnChannel.backPolicy (c : OwnChannel) : Policy := (c.remotePolicy.getD {}).over c.total

namespace Graph

variable {g : Graph} {scid : String} {c : OwnChannel}

/-- The policy of the half `id`, if it is known. -/
def policyAt? (g : Graph) (id : HalfId) : Option Policy := g.halves[id]?.map Half.policy

/-- The policy that the records tell for the half `id`. The two halves of a channel of the local
node with itself have one name, and the one to the local node is added last. -/
def recorded? (g : Graph) (id : HalfId) : Option Policy :=
  g.own[id.scid]?.bind fun c =>
    if g.inId id.scid c = id then some c.backPolicy
    else if g.outId id.scid c = id then some c.outPolicy
    else none

/-- Both halves of the own channel `c` have the policies that its record tells. -/
def Follows (g : Graph) (scid : String) (c : OwnChannel) : Prop :=
  g.policyAt? (g.outId scid c) = some c.outPolicy ∧
    g.policyAt? (g.inId scid c) = some c.backPolicy

instance (g : Graph) (scid : String) (c : OwnChannel) : Decidable (g.Follows scid c) :=
  inferInstanceAs (Decidable (_ ∧ _))

/-! ## One list -/

theorem policy_ownState (g : Graph) (now : Time) (id : HalfId) (h : Half) :
    (g.ownState now id h).policy = h.policy := by
  rcases ownState_cases g now id with hkeeps | ⟨active, liquidity, hsets⟩
  · rw [hkeeps]
  · rw [hsets]
    rfl

/-- The half that the records add under the name `id`, if it is not known. -/
theorem find?_reverse_missingOwn (now : Time) {id : HalfId} (hid : id ∉ g.halves) :
    ((g.missingOwn now).reverse.find? fun h => h.id == id) =
      g.own[id.scid]?.bind fun c =>
        (g.ownHalves now id.scid c).reverse.find? fun h => h.id == id := by
  have hmissing : ∀ h : Half,
      decide ((!g.halves.contains h.id) = true ∧ (h.id == id) = true) = (h.id == id) := by
    intro h
    rw [Bool.eq_iff_iff, decide_eq_true_iff, beq_iff_eq, Bool.not_eq_true', and_iff_right_iff_imp]
    rintro rfl
    exact Bool.eq_false_iff.mpr fun hin => hid (TreeMap.mem_iff_contains.mpr hin)
  rw [missingOwn, ← List.filter_reverse, List.find?_filter]
  simp only [hmissing]
  exact find?_reverse_flatMap_toList (t := g.own) (f := fun e => g.ownHalves now e.1 e.2)
    fun e h hh heq =>
      (scid_of_mem_ownHalves hh).symm.trans (congrArg HalfId.scid (beq_iff_eq.mp heq))

theorem find?_reverse_ownHalves (g : Graph) (now : Time) (scid : String) (c : OwnChannel)
    (id : HalfId) :
    ((g.ownHalves now scid c).reverse.find? fun h => h.id == id).map Half.policy =
      if g.inId scid c = id then some c.backPolicy
      else if g.outId scid c = id then some c.outPolicy
      else none := by
  set out : Half := .ofPolicy scid g.selfId c.peer c.total c.ownPolicy now
  set back : Half := .ofPolicy scid c.peer g.selfId c.total c.remotePolicy now
  show ([back, out].find? fun h => h.id == id).map Half.policy = _
  have hback : back.id = g.inId scid c := rfl
  have hout : out.id = g.outId scid c := rfl
  rw [List.find?_cons, List.find?_singleton, hback, hout]
  by_cases hin : g.inId scid c = id
  · rw [if_pos hin, beq_iff_eq.mpr hin]
    rfl
  · rw [if_neg hin, beq_false_of_ne hin]
    by_cases hid : g.outId scid c = id
    · rw [if_pos hid, if_pos (beq_iff_eq.mpr hid)]
      rfl
    · rw [if_neg hid, if_neg fun h => hid (beq_iff_eq.mp h)]
      rfl

/-- A half that is known stays as it is, and one that the records tell of is added. -/
theorem policyAt?_addMissing (g : Graph) (now : Time) (id : HalfId) :
    (g.addMissing now).policyAt? id = (g.policyAt? id).or (g.recorded? id) := by
  by_cases hid : id ∈ g.halves
  · obtain ⟨k, hk⟩ := Option.isSome_iff_exists.mp (TreeMap.mem_iff_isSome_getElem?.mp hid)
    rw [policyAt?, policyAt?, getElem?_addMissing hk, hk, Option.map_some, Option.some_or]
  · rw [policyAt?, addMissing, getElem?_insertAll, find?_reverse_missingOwn now hid, policyAt?,
      TreeMap.getElem?_eq_none hid, Option.or_none, Option.map_none, Option.none_or, recorded?,
      Option.map_bind]
    congr 1
    funext c
    exact find?_reverse_ownHalves g now id.scid c id

theorem policyAt?_syncOwn (g : Graph) (now : Time) (id : HalfId) :
    (g.syncOwn now).policyAt? id = g.policyAt? id := by
  show (g.halves.map (g.ownState now))[id]?.map _ = _
  rw [TreeMap.getElem?_map, Option.map_map, policyAt?]
  congr 1
  funext h
  exact g.policy_ownState now id h

/-- A list sets the policies of the halves that are not known. -/
theorem policyAt?_applyOwn (g : Graph) (channels : List OwnChannel) (now : Time) (id : HalfId) :
    (g.applyOwn channels now).policyAt? id =
      (g.policyAt? id).or ((g.withOwn channels).recorded? id) := by
  rw [applyOwn_eq]
  show (((g.withOwn channels).addMissing now).syncOwn now).policyAt? id = _
  rw [policyAt?_syncOwn, policyAt?_addMissing]
  rfl

/-! ## Any changes -/

/-- The change is a gossip that lists the half `id`. -/
def Change.Lists (id : HalfId) : Change → Prop
  | .gossip listings _ _ _ => id ∈ listings.map Announcement.id
  | .restore .. | .own .. | .payment .. | .failure .. => False

theorem policy_gossiped {gossip : List Announcement} {id : HalfId}
    (h : id ∉ gossip.map Announcement.id) (g : Graph) (now : Time) (reset : UInt64) (k : Half) :
    (g.gossiped gossip now reset id k).policy = k.policy := by
  rw [gossiped, policy_ownState, heard, listingsOf_eq_nil_iff.mpr h, List.foldl_nil]
  split
  · rfl
  · unfold aged
    split
    · rfl
    · split
      · rfl
      · rfl

/-- A known half keeps its policy under every change but a gossip that lists it. -/
theorem policyAt?_after {change : Change} {id : HalfId} {p : Policy}
    (h : g.policyAt? id = some p) (hc : ¬ change.Lists id) :
    (g.after change).policyAt? id = some p := by
  obtain ⟨k, hk, rfl⟩ := Option.map_eq_some_iff.mp h
  cases change with
  | restore halves nodes =>
      show (g.restore halves nodes).halves[id]?.map _ = _
      rw [getElem?_restore, hk, Option.some_or, Option.map_some]
  | gossip gossip nodes now reset =>
      show (g.applyGossip gossip nodes now reset).halves[id]?.map _ = _
      rw [getElem?_applyGossip_eq, hk, Option.some_or, Option.map_some, Option.map_some,
        policy_gossiped hc]
  | own channels now =>
      show (g.applyOwn channels now).policyAt? id = _
      rw [policyAt?_applyOwn, h, Option.some_or]
  | payment route amount now =>
      show (((g.modifyOwn _ _).modifyOwn _ _).syncOwn now).policyAt? id = _
      rw [policyAt?_syncOwn, policyAt?, halves_modifyOwn, halves_modifyOwn, hk, Option.map_some]
  | failure blamed amount now =>
      show ((g.applyFailure blamed amount now).getD g).policyAt? id = _
      cases hf : g.applyFailure blamed amount now with
      | none => exact h
      | some g' => exact (map_halves_applyFailure (fun _ _ => rfl) hf id).trans h

/-- Whatever happens, a half has the policy that it was first known with until the gossip lists it.
-/
theorem policyAt?_afterAll {changes : List Change} {id : HalfId} {p : Policy}
    (h : g.policyAt? id = some p) (hc : ∀ change ∈ changes, ¬ change.Lists id) :
    (changes.foldl after g).policyAt? id = some p := by
  induction changes generalizing g with
  | nil => exact h
  | cons change rest ih =>
      obtain ⟨hchange, hrest⟩ := List.forall_mem_cons.mp hc
      exact ih (policyAt?_after h hchange) hrest

/-! ## Two lists -/

theorem recorded?_congr {g' : Graph} (hown : g'.own = g.own) (hself : g'.selfId = g.selfId) :
    g'.recorded? = g.recorded? := by
  unfold recorded?
  rw [hown, outId_congr hself, inId_congr hself]

theorem recorded?_inId (hc : g.own[scid]? = some c) :
    g.recorded? (g.inId scid c) = some c.backPolicy := by
  have hc' : g.own[(g.inId scid c).scid]? = some c := hc
  rw [recorded?, hc', Option.bind_some]
  exact if_pos rfl

theorem recorded?_outId (hc : g.own[scid]? = some c) (hp : c.peer ≠ g.selfId) :
    g.recorded? (g.outId scid c) = some c.outPolicy := by
  have hc' : g.own[(g.outId scid c).scid]? = some c := hc
  rw [recorded?, hc', Option.bind_some]
  exact (if_neg (inId_ne_outId hp)).trans (if_pos rfl)

theorem outId_eq_inId (hp : c.peer = g.selfId) : g.outId scid c = g.inId scid c := by
  rw [outId, inId, hp]

/-- The two halves of a channel of the local node with itself have one policy only. -/
theorem Follows.outPolicy_eq (h : g.Follows scid c) (hp : c.peer = g.selfId) :
    c.outPolicy = c.backPolicy := by
  obtain ⟨hout, hback⟩ := h
  rw [outId_eq_inId hp, hback] at hout
  exact (Option.some.inj hout).symm

theorem follows_congr {g' : Graph} (hself : g'.selfId = g.selfId) :
    g'.Follows scid c ↔ g'.policyAt? (g.outId scid c) = some c.outPolicy ∧
      g'.policyAt? (g.inId scid c) = some c.backPolicy := by
  rw [Follows, outId_congr hself, inId_congr hself]

section TwoLists

variable (g) (first second : List OwnChannel) (now later : Time)

theorem policyAt?_empty_applyOwn (id : HalfId) :
    ((empty g.selfId).applyOwn second later).policyAt? id = (g.withOwn second).recorded? id := by
  have hnone : (empty g.selfId).policyAt? id = none := by
    rw [policyAt?, empty, TreeMap.getElem?_emptyc, Option.map_none]
  have hsame : ((empty g.selfId).withOwn second).recorded? = (g.withOwn second).recorded? :=
    recorded?_congr rfl rfl
  rw [policyAt?_applyOwn, hnone, Option.none_or, hsame]

/-- A graph that knew nothing has the policies of the first list that it sees. -/
theorem follows_empty_applyOwn_iff (hc : (g.withOwn second).own[scid]? = some c) :
    ((empty g.selfId).applyOwn second later).Follows scid c ↔
      (c.peer = g.selfId → c.outPolicy = c.backPolicy) := by
  have hself : ((empty g.selfId).applyOwn second later).selfId = g.selfId :=
    selfId_applyOwn (empty g.selfId) second later
  refine ⟨fun h hp => h.outPolicy_eq (hp.trans hself.symm), fun h => ?_⟩
  rw [follows_congr hself, policyAt?_empty_applyOwn, policyAt?_empty_applyOwn]
  have hback : (g.withOwn second).recorded? (g.inId scid c) = some c.backPolicy :=
    recorded?_inId (g := g.withOwn second) hc
  refine ⟨?_, hback⟩
  by_cases hp : c.peer = g.selfId
  · rw [outId_eq_inId hp, hback, h hp]
  · exact recorded?_outId (g := g.withOwn second) hc hp

/-- The policy that the half `id` has before the second list. -/
def knownFrom (id : HalfId) : Option Policy :=
  (g.policyAt? id).or ((g.withOwn first).recorded? id)

theorem policyAt?_applyOwn_applyOwn (id : HalfId) :
    ((g.applyOwn first now).applyOwn second later).policyAt? id =
      (g.knownFrom first id).or ((g.withOwn second).recorded? id) := by
  have hsame : ((g.applyOwn first now).withOwn second).recorded? = (g.withOwn second).recorded? :=
    recorded?_congr rfl (selfId_applyOwn g first now)
  rw [policyAt?_applyOwn, policyAt?_applyOwn, hsame, knownFrom]

variable {g}

/-- After two lists a channel of the second one has the policies that its record tells just if it
would have them without the first, and its halves have the policies that they would have without
the first. They do if no other policy of them was known before. -/
theorem follows_iff (hc : ((g.applyOwn first now).applyOwn second later).own[scid]? = some c) :
    let fresh := (empty g.selfId).applyOwn second later
    let both := (g.applyOwn first now).applyOwn second later
    (fresh.Follows scid c ↔ (c.peer = g.selfId → c.outPolicy = c.backPolicy)) ∧
      (both.Follows scid c ↔ fresh.Follows scid c ∧
        ∀ id, id = g.outId scid c ∨ id = g.inId scid c →
          both.policyAt? id = fresh.policyAt? id) ∧
      ∀ id, both.policyAt? id = fresh.policyAt? id ↔
        ∀ p, g.knownFrom first id = some p → fresh.policyAt? id = some p := by
  intro fresh both
  have hfresh : fresh.Follows scid c ↔ (c.peer = g.selfId → c.outPolicy = c.backPolicy) := by
    rw [own_applyOwn] at hc
    exact follows_empty_applyOwn_iff g second later hc
  have hfreshSelf : fresh.selfId = g.selfId := selfId_applyOwn (empty g.selfId) second later
  have hbothSelf : both.selfId = g.selfId :=
    (selfId_applyOwn (g.applyOwn first now) second later).trans (selfId_applyOwn g first now)
  refine ⟨hfresh, ⟨fun h => ?_, fun ⟨h, hsame⟩ => ?_⟩, fun id => ?_⟩
  · have h' : fresh.Follows scid c :=
      hfresh.mpr fun hp => h.outPolicy_eq (hp.trans hbothSelf.symm)
    refine ⟨h', ?_⟩
    obtain ⟨hout, hback⟩ := (follows_congr hbothSelf).mp h
    obtain ⟨hout', hback'⟩ := (follows_congr hfreshSelf).mp h'
    rintro id (rfl | rfl)
    · rw [hout, hout']
    · rw [hback, hback']
  · rw [follows_congr hfreshSelf] at h
    rw [follows_congr hbothSelf, hsame _ (Or.inl rfl), hsame _ (Or.inr rfl)]
    exact h
  · rw [policyAt?_applyOwn_applyOwn, policyAt?_empty_applyOwn]
    cases g.knownFrom first id with
    | none => simp
    | some p => simp [eq_comm]

end TwoLists

/-! ## A peer that raises its fee -/

/-- A channel whose peer charges `baseFee`. -/
def channelFor (baseFee : Msat) : OwnChannel :=
  { channelWith "b" "1x1" 600000 400000 with
    policies := some {
      own := some ⟨0, 900000, 6, 1000, 10⟩
      remote := some ⟨1, 800000, 40, baseFee, 20⟩ } }

/-- A second list that tells the same policies is followed. -/
theorem follows_iff_channelFor :
    (((empty "a").applyOwn [channelFor 1] 0).applyOwn [channelFor 1] 5).own["1x1"]? =
        some (channelFor 1) ∧
      (((empty "a").applyOwn [channelFor 1] 0).applyOwn [channelFor 1] 5).Follows "1x1"
        (channelFor 1) := by
  have hown : (((empty "a").applyOwn [channelFor 1] 0).applyOwn [channelFor 1] 5).own["1x1"]? =
      some (channelFor 1) := by
    decide +kernel
  obtain ⟨hfresh, hboth, hsame⟩ := follows_iff [channelFor 1] [channelFor 1] 0 5 hown
  refine ⟨hown, hboth.mpr ⟨hfresh.mpr fun h => absurd h (by decide), fun id hid => ?_⟩⟩
  refine (hsame id).mpr ?_
  rcases hid with rfl | rfl
  · decide +kernel
  · decide +kernel

/-- The fee that the peer asked first stays, although the second list alone would be followed. -/
theorem not_follows_raised_fee :
    (((empty "a").applyOwn [channelFor 1] 0).applyOwn [channelFor 2] 5).own["1x1"]? =
        some (channelFor 2) ∧
      ((empty "a").applyOwn [channelFor 2] 5).Follows "1x1" (channelFor 2) ∧
      ¬ (((empty "a").applyOwn [channelFor 1] 0).applyOwn [channelFor 2] 5).Follows "1x1"
        (channelFor 2) ∧
      (((empty "a").applyOwn [channelFor 1] 0).applyOwn [channelFor 2] 5).policyAt? ⟨"1x1", 1⟩ =
        some (channelFor 1).backPolicy := by
  decide +kernel

end Graph

end Rebalancer
