import Mathlib.Data.List.Induction
import Rebalancer.Proofs.Graph.Estimates

set_option autoImplicit false

/-! # Estimates and capacities

An estimate above the capacity of its half stands for an amount that cannot be there. The gossip
clamps every estimate to what it lists, and a failure clamps that of the half it blames, but the
opposite half is given what the capacity of the blamed half leaves, whatever its own capacity is. So
the halves of channels that are not own ones stay within their capacities just as long as no failure
leaves the opposite half too much (`withinCapacity_iff`).
-/

namespace Rebalancer

open Std

/-! ## Halves -/

namespace Half

/-- The estimate is at most the capacity. -/
def WithinCapacity (h : Half) : Prop := h.liquidity ≤ h.capacity

instance (h : Half) : Decidable h.WithinCapacity := inferInstanceAs (Decidable (_ ≤ _))

theorem withinCapacity_withLiquidity {h : Half} {liquidity : Msat} {now : Time} :
    (h.withLiquidity liquidity now).WithinCapacity ↔ liquidity ≤ h.capacity := Iff.rfl

theorem withinCapacity_announced (h : Half) (a : Announcement) :
    (h.announced a).WithinCapacity := by
  show min h.liquidity a.capacity ≤ a.capacity
  rw [UInt64.le_iff_toNat_le, toNat_min_word]
  exact Nat.min_le_right _ _

theorem withinCapacity_half (h : Half) (now : Time) :
    (h.withLiquidity (h.capacity / 2) now).WithinCapacity := by
  rw [withinCapacity_withLiquidity, UInt64.le_iff_toNat_le, UInt64.toNat_div]
  exact Nat.div_le_self _ _

theorem withinCapacity_ofAnnouncement (a : Announcement) (now : Time) :
    (ofAnnouncement a now).WithinCapacity := by
  rw [← Graph.announced_ofAnnouncement]
  exact withinCapacity_announced _ a

theorem WithinCapacity.foldl_announced {h : Half} (hh : h.WithinCapacity) (l : List Announcement) :
    (l.foldl announced h).WithinCapacity :=
  List.foldlRecOn l _ hh fun k _ a _ => withinCapacity_announced k a

theorem WithinCapacity.aged {h : Half} (hh : h.WithinCapacity) (now : Time) (reset : UInt64)
    (listed : Bool) : (Graph.aged now reset listed h).WithinCapacity := by
  unfold Graph.aged
  split
  · exact hh
  · split
    · exact withinCapacity_half h now
    · exact hh

theorem capacity_withLiquidity (h : Half) (liquidity : Msat) (now : Time) :
    (h.withLiquidity liquidity now).capacity = h.capacity := rfl

theorem capacity_aged (h : Half) (now : Time) (reset : UInt64) (listed : Bool) :
    (Graph.aged now reset listed h).capacity = h.capacity := by
  unfold Graph.aged
  split
  · rfl
  · split <;> rfl

end Half

namespace Graph

variable {g : Graph} {id : HalfId} {scid : String} {amount : Msat} {now : Time}

/-! ## Channels that are not own ones -/

/-- The change does not make the channel an own one. -/
def Change.LeavesOut (scid : String) : Change → Prop
  | .own channels _ => ∀ c ∈ channels, c.scid ≠ some scid
  | .restore .. | .gossip .. | .payment .. | .failure .. => True

/-- No list of own channels has had the channel. -/
def NeverOwn (changes : List Change) (scid : String) : Prop := ∀ c ∈ changes, c.LeavesOut scid

theorem neverOwn_append_singleton {before : List Change} {c : Change} :
    NeverOwn (before ++ [c]) scid ↔ NeverOwn before scid ∧ c.LeavesOut scid := by
  rw [NeverOwn, List.forall_mem_append, List.forall_mem_singleton]
  rfl

theorem NeverOwn.of_prefix {before changes : List Change} (h : NeverOwn changes scid)
    (hpre : before <+: changes) : NeverOwn before scid := fun c hc => h c (hpre.subset hc)

theorem isOwn_after {c : Change} (hother : g.isOwn scid = false) (hc : c.LeavesOut scid) :
    (g.after c).isOwn scid = false := by
  cases c with
  | restore halves nodes =>
      show (g.restore halves nodes).isOwn scid = false
      rw [isOwn, own_restore]
      exact hother
  | gossip gossip nodes now reset =>
      show (g.applyGossip gossip nodes now reset).isOwn scid = false
      rw [isOwn, own_applyGossip]
      exact hother
  | own channels now =>
      show (g.applyOwn channels now).isOwn scid = false
      rw [isOwn, own_applyOwn]
      exact isOwn_withOwn (g := g) hc
  | payment route amount now =>
      show (g.applyPayment route amount now).isOwn scid = false
      rw [isOwn_applyPayment]
      exact hother
  | failure blamed amount now =>
      show ((g.applyFailure blamed amount now).getD g).isOwn scid = false
      cases hf : g.applyFailure blamed amount now with
      | none => exact hother
      | some g' =>
          rw [Option.getD_some, isOwn, (own_applyFailure hf).1]
          exact hother

theorem isOwn_of_neverOwn {changes : List Change} (h : NeverOwn changes scid) (selfId : String) :
    (changes.foldl after (.empty selfId)).isOwn scid = false :=
  List.foldlRecOn changes _ (motive := fun g : Graph => g.isOwn scid = false) rfl
    fun _ hother c hc => isOwn_after hother (h c hc)

/-- How a half of no own channel comes to be what it is after a change. -/
inductive Becomes (g : Graph) (id : HalfId) : Change → Half → Prop
  /-- It was this before. -/
  | stays {c : Change} {h : Half} (before : g.halves[id]? = some h) : Becomes g id c h
  /-- It was known or is listed for the first time. -/
  | hears {gossip : List Announcement} {nodes : List NodeAnnouncement} {now : Time}
      {reset : UInt64} {h : Half}
      (known : g.halves[id]?.or (firstHeard gossip id now) = some h) :
      Becomes g id (.gossip gossip nodes now reset)
        (aged now reset ((gossip.map Announcement.id).contains id) (heard gossip id h))
  /-- It refused an amount. -/
  | refuses {amount : Msat} {now : Time} {h : Half} (before : g.halves[id]? = some h) :
      Becomes g id (.failure id amount now)
        (h.withLiquidity (refusedEstimate amount h.capacity) now)
  /-- The opposite half `k` refused an amount. -/
  | gains {blamed : HalfId} {amount : Msat} {now : Time} {h k : Half}
      (opposite : id = blamed.opposite) (before : g.halves[id]? = some h)
      (blames : g.halves[blamed]? = some k) :
      Becomes g id (.failure blamed amount now)
        (h.withLiquidity (subClamped k.capacity (refusedEstimate amount k.capacity)) now)

/-- Every half of no own channel is there by one of these ways, unless a snapshot was read. -/
theorem becomes_of_after {c : Change} {h : Half} (hother : g.isOwn id.scid = false)
    (hc : c.LeavesOut id.scid) (hread : ∀ halves nodes, c ≠ .restore halves nodes)
    (hh : (g.after c).halves[id]? = some h) : g.Becomes id c h := by
  cases c with
  | restore halves nodes => exact absurd rfl (hread halves nodes)
  | gossip gossip nodes now reset =>
      have hh' : (g.applyGossip gossip nodes now reset).halves[id]? = some h := hh
      rw [getElem?_applyGossip_eq] at hh'
      obtain ⟨k, hk, rfl⟩ := Option.map_eq_some_iff.mp hh'
      rw [gossiped, ownState_of_other hother, hother, if_neg Bool.false_ne_true]
      exact .hears hk
  | own channels now =>
      have hh' : (g.applyOwn channels now).halves[id]? = some h := hh
      rw [getElem?_applyOwn_of_other (isOwn_withOwn hc)] at hh'
      exact .stays hh'
  | payment route amount now =>
      have hh' : (g.applyPayment route amount now).halves[id]? = some h := hh
      rw [getElem?_applyPayment hother] at hh'
      exact .stays hh'
  | failure blamed amount now =>
      have hh' : ((g.applyFailure blamed amount now).getD g).halves[id]? = some h := hh
      cases hf : g.applyFailure blamed amount now with
      | none =>
          rw [hf] at hh'
          exact .stays hh'
      | some g' =>
          rw [hf, Option.getD_some] at hh'
          obtain ⟨-, k, hk, hhalves⟩ := getElem?_applyFailure hf
          rw [hhalves] at hh'
          split at hh'
          · rename_i hid
            subst hid
            cases hh'
            exact .refuses hk
          · split at hh'
            · rename_i hid
              obtain ⟨k', hk', rfl⟩ := Option.map_eq_some_iff.mp hh'
              exact .gains hid hk' hk
            · exact .stays hh'

/-! ## Refusals that leave too much -/

/-- If the opposite half refuses `amount`, what that leaves of its capacity is more than the half
`id` can hold. -/
def Overfilled (g : Graph) (id : HalfId) (amount : Msat) : Prop :=
  ∃ h k : Half, g.halves[id]? = some h ∧ g.halves[id.opposite]? = some k ∧
    h.capacity.toNat + (amount.toNat - failureMargin.toNat) < k.capacity.toNat

instance (g : Graph) (id : HalfId) (amount : Msat) : Decidable (g.Overfilled id amount) :=
  decidable_of_iff
    (∃ h ∈ g.halves[id]?, ∃ k ∈ g.halves[id.opposite]?,
      h.capacity.toNat + (amount.toNat - failureMargin.toNat) < k.capacity.toNat)
    ⟨fun ⟨h, hh, k, hk, hlt⟩ => ⟨h, k, hh, hk, hlt⟩,
      fun ⟨h, k, hh, hk, hlt⟩ => ⟨h, hh, k, hk, hlt⟩⟩

theorem le_left_iff {h k : Half} :
    subClamped k.capacity (refusedEstimate amount k.capacity) ≤ h.capacity ↔
      k.capacity.toNat ≤ h.capacity.toNat + (amount.toNat - failureMargin.toNat) := by
  rw [UInt64.le_iff_toNat_le, toNat_subClamped, refusedEstimate, toNat_min_word, toNat_subClamped]
  omega

/-- A change that does not overfill the half keeps it within its capacity. -/
theorem Becomes.withinCapacity {c : Change} {h : Half} (hb : g.Becomes id c h)
    (hg : ∀ k, g.halves[id]? = some k → k.WithinCapacity)
    (hc : ∀ amount now, c = .failure id.opposite amount now → ¬ g.Overfilled id amount) :
    h.WithinCapacity := by
  cases hb with
  | stays before => exact hg h before
  | @hears gossip nodes now reset k known =>
      have hk : k.WithinCapacity := by
        rcases Option.or_eq_some_iff.mp known with hold | ⟨-, hnew⟩
        · exact hg k hold
        · obtain ⟨a, -, rfl⟩ := Option.map_eq_some_iff.mp hnew
          exact Half.withinCapacity_ofAnnouncement a now
      have hheard : (heard gossip id k).WithinCapacity := hk.foldl_announced (listingsOf gossip id)
      exact hheard.aged now reset _
  | @refuses amount now k before =>
      rw [Half.withinCapacity_withLiquidity, UInt64.le_iff_toNat_le, refusedEstimate,
        toNat_min_word]
      exact Nat.min_le_right _ _
  | @gains blamed amount now h k opposite before blames =>
      have hblamed : blamed = id.opposite := by rw [opposite, HalfId.opposite_opposite]
      subst hblamed
      rw [Half.withinCapacity_withLiquidity, le_left_iff]
      by_contra hmore
      rw [Nat.not_le] at hmore
      exact hc amount now rfl ⟨h, k, before, blames, hmore⟩

/-- A refusal that overfills the half takes it beyond its capacity. -/
theorem Overfilled.exceeds (ho : g.Overfilled id amount) (hother : g.isOwn id.scid = false)
    (now : Time) : ∃ h : Half,
      (g.after (.failure id.opposite amount now)).halves[id]? = some h ∧ ¬ h.WithinCapacity := by
  obtain ⟨h, k, hh, hk, hlt⟩ := ho
  have hblamed : g.isOwn id.opposite.scid = false := hother
  obtain ⟨g', hg'⟩ := exists_applyFailure hblamed hk amount now
  obtain ⟨-, k', hk', hhalves⟩ := getElem?_applyFailure hg'
  obtain rfl : k = k' := Option.some.inj (hk.symm.trans hk')
  refine ⟨h.withLiquidity (subClamped k.capacity (refusedEstimate amount k.capacity)) now, ?_, ?_⟩
  · show ((g.applyFailure id.opposite amount now).getD g).halves[id]? = _
    rw [hg', Option.getD_some, hhalves, if_neg (HalfId.opposite_ne id).symm,
      HalfId.opposite_opposite, if_pos rfl, hh]
    rfl
  · rw [Half.withinCapacity_withLiquidity, le_left_iff, Nat.not_le]
    exact hlt

/-! ## Any changes -/

section Changes

variable {changes : List Change} (selfId : String)

/-- As long as no refusal overfills the half, it stays within its capacity. -/
theorem withinCapacity_of_not_overfilled
    (hread : ∀ halves nodes, Change.restore halves nodes ∉ changes)
    (hfills : ∀ before amount now, before ++ [.failure id.opposite amount now] <+: changes →
      ¬ (before.foldl after (.empty selfId)).Overfilled id amount)
    (hnever : NeverOwn changes id.scid) {h : Half}
    (hh : (changes.foldl after (.empty selfId)).halves[id]? = some h) : h.WithinCapacity := by
  induction changes using List.reverseRecOn generalizing h with
  | nil => simp [empty] at hh
  | append_singleton before c ih =>
      obtain ⟨hbefore, hc⟩ := neverOwn_append_singleton.mp hnever
      rw [List.foldl_append] at hh
      have hb : Becomes _ id c h := becomes_of_after (isOwn_of_neverOwn hbefore selfId) hc
        (fun halves nodes heq => hread halves nodes (by simp [heq])) hh
      refine hb.withinCapacity (fun k hk => ?_) fun amount now hfails => ?_
      · refine ih (fun halves nodes hmem => hread halves nodes (by simp [hmem])) ?_ hbefore hk
        exact fun early amount now hearly =>
          hfills early amount now (hearly.trans (List.prefix_append before [c]))
      · exact hfills before amount now (by rw [hfails])

/-- From an empty graph, by any changes but the reading of a snapshot: as long as its channel has
not been an own one, a half is within its capacity all along just if no refusal of the opposite half
overfills it. -/
theorem withinCapacity_iff (hread : ∀ halves nodes, Change.restore halves nodes ∉ changes)
    (id : HalfId) :
    (∀ before, before <+: changes → NeverOwn before id.scid → ∀ h : Half,
        (before.foldl after (.empty selfId)).halves[id]? = some h → h.liquidity ≤ h.capacity) ↔
      ∀ before amount now, before ++ [.failure id.opposite amount now] <+: changes →
        NeverOwn before id.scid →
          ¬ (before.foldl after (.empty selfId)).Overfilled id amount := by
  constructor
  · intro hwithin before amount now hpre hnever hfills
    obtain ⟨h, hh, hexceeds⟩ := hfills.exceeds (isOwn_of_neverOwn hnever selfId) now
    refine hexceeds (hwithin _ hpre (neverOwn_append_singleton.mpr ⟨hnever, trivial⟩) h ?_)
    rw [List.foldl_append]
    exact hh
  · intro hfills before hpre hnever h hh
    refine withinCapacity_of_not_overfilled selfId (fun halves nodes hmem => ?_) ?_ hnever hh
    · exact hread halves nodes (hpre.subset hmem)
    · intro early amount now hearly
      have hnever' : NeverOwn early id.scid :=
        hnever.of_prefix ((List.prefix_append early _).trans hearly)
      exact hfills early amount now (hearly.trans hpre) hnever'

end Changes

/-! ## One capacity for both halves -/

/-- The gossip of the change lists the halves of the channel with this capacity only. -/
def Change.ListsWith (scid : String) (capacity : Msat) : Change → Prop
  | .gossip listings _ _ _ => ∀ a ∈ listings, a.scid = scid → a.capacity = capacity
  | .restore .. | .own .. | .payment .. | .failure .. => True

theorem Becomes.capacity_eq {c : Change} {h : Half} {capacity : Msat} (hb : g.Becomes id c h)
    (hg : ∀ k, g.halves[id]? = some k → k.capacity = capacity)
    (hc : c.ListsWith id.scid capacity) : h.capacity = capacity := by
  cases hb with
  | stays before => exact hg h before
  | @hears gossip nodes now reset k known =>
      have hlisted : ∀ a ∈ listingsOf gossip id, a.capacity = capacity := by
        intro a ha
        obtain ⟨hmem, hid⟩ := List.mem_filter.mp ha
        exact hc a hmem (congrArg HalfId.scid (beq_iff_eq.mp hid))
      have hk : k.capacity = capacity := by
        rcases Option.or_eq_some_iff.mp known with hold | ⟨-, hnew⟩
        · exact hg k hold
        · obtain ⟨a, ha, rfl⟩ := Option.map_eq_some_iff.mp hnew
          exact hlisted a (List.mem_of_head? ha)
      have hheard : (heard gossip id k).capacity = capacity :=
        List.foldlRecOn (motive := fun k : Half => k.capacity = capacity) _ _ hk
          fun _ _ a ha => hlisted a ha
      rw [← hheard]
      exact Half.capacity_aged _ now reset _
  | @refuses amount now k before =>
      rw [Half.capacity_withLiquidity]
      exact hg k before
  | @gains blamed amount now k k' opposite before blames =>
      rw [Half.capacity_withLiquidity]
      exact hg k before

/-- A channel that is listed with one capacity has it. -/
theorem capacity_eq_of_listsWith {changes : List Change} {capacity : Msat} (selfId : String)
    (hread : ∀ halves nodes, Change.restore halves nodes ∉ changes)
    (hlists : ∀ c ∈ changes, c.ListsWith id.scid capacity) (hnever : NeverOwn changes id.scid)
    {h : Half} (hh : (changes.foldl after (.empty selfId)).halves[id]? = some h) :
    h.capacity = capacity := by
  induction changes using List.reverseRecOn generalizing h with
  | nil => simp [empty] at hh
  | append_singleton before c ih =>
      obtain ⟨hbefore, hc⟩ := neverOwn_append_singleton.mp hnever
      rw [List.foldl_append] at hh
      have hb : Becomes _ id c h := becomes_of_after (isOwn_of_neverOwn hbefore selfId) hc
        (fun halves nodes heq => hread halves nodes (by simp [heq])) hh
      refine hb.capacity_eq (fun k hk => ?_) (hlists c (by simp))
      exact ih (fun halves nodes hmem => hread halves nodes (by simp [hmem]))
        (fun c' hc' => hlists c' (by simp [hc'])) hbefore hk

/-- A channel that is listed with one capacity is not estimated at more. -/
theorem withinCapacity_of_listsWith {changes : List Change} {capacity : Msat} (selfId : String)
    (hread : ∀ halves nodes, Change.restore halves nodes ∉ changes)
    (hlists : ∀ c ∈ changes, c.ListsWith id.scid capacity) (hnever : NeverOwn changes id.scid)
    {h : Half} (hh : (changes.foldl after (.empty selfId)).halves[id]? = some h) :
    h.liquidity ≤ capacity := by
  rw [← capacity_eq_of_listsWith selfId hread hlists hnever hh]
  refine withinCapacity_of_not_overfilled selfId hread ?_ hnever hh
  rintro before amount now hpre ⟨k, k', hk, hk', hlt⟩
  have hbefore : before <+: changes := (List.prefix_append before _).trans hpre
  have hequal : ∀ {id' : HalfId} {k : Half}, id'.scid = id.scid →
      (before.foldl after (.empty selfId)).halves[id']? = some k → k.capacity = capacity :=
    fun hscid hk => capacity_eq_of_listsWith selfId
      (fun halves nodes hmem => hread halves nodes (hbefore.subset hmem))
      (fun c hc => hscid ▸ hlists c (hbefore.subset hc)) (hscid ▸ hnever.of_prefix hbefore) hk
  rw [hequal rfl hk, hequal id.scid_opposite hk'] at hlt
  omega

/-! ## A refusal on a channel between other nodes -/

/-- The gossip lists the channel between `b` and `c`, and then a payment of 1500 satoshi is refused
at `b`. -/
def refusedAtB (there back : Msat) : List Change :=
  [.gossip [⟨"b", "c", "1x1", there, true, 1000, 10, 6, 0, none⟩,
      ⟨"c", "b", "1x1", back, true, 1000, 10, 6, 0, none⟩] [] 5 1000000,
    .failure ⟨"1x1", 0⟩ 1500000 10]

theorem restore_notMem_refusedAtB (there back : Msat) (halves : List Half)
    (nodes : List (String × String)) : Change.restore halves nodes ∉ refusedAtB there back := by
  simp [refusedAtB]

theorem neverOwn_refusedAtB (there back : Msat) (scid : String) :
    NeverOwn (refusedAtB there back) scid := by
  simp [NeverOwn, refusedAtB, Change.LeavesOut]

/-- The half to `c` and the half back have one capacity. -/
theorem withinCapacity_iff_refusedAtB :
    (∀ halves nodes, Change.restore halves nodes ∉ refusedAtB 4000000 4000000) ∧
      ∀ before, before <+: refusedAtB 4000000 4000000 → NeverOwn before "1x1" → ∀ h : Half,
        (before.foldl after (.empty "a")).halves[(⟨"1x1", 1⟩ : HalfId)]? = some h →
          h.liquidity ≤ h.capacity := by
  refine ⟨restore_notMem_refusedAtB _ _,
    (withinCapacity_iff "a" (restore_notMem_refusedAtB _ _) ⟨"1x1", 1⟩).mpr ?_⟩
  intro before amount now hpre _
  rcases before with _ | ⟨first, _ | ⟨second, rest⟩⟩
  · simp [refusedAtB] at hpre
  · simp only [refusedAtB, List.cons_append, List.nil_append, List.cons_prefix_cons,
      Change.failure.injEq] at hpre
    obtain ⟨rfl, ⟨-, rfl, rfl⟩, -⟩ := hpre
    decide +kernel
  · simp [refusedAtB] at hpre

/-- The half back has a quarter of the capacity of the half to `c` only. -/
theorem exceeds_capacity_refusedAtB :
    NeverOwn (refusedAtB 4000000 1000000) "1x1" ∧
      ∃ h ∈ ((refusedAtB 4000000 1000000).foldl after (.empty "a")).halves[(⟨"1x1", 1⟩ : HalfId)]?,
        h.liquidity = 3500000 ∧ h.capacity = 1000000 :=
  ⟨neverOwn_refusedAtB _ _ _, by decide +kernel⟩

end Graph

end Rebalancer
