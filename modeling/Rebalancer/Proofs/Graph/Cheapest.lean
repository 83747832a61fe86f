import Rebalancer.Proofs.Graph.Greedy
import Rebalancer.Proofs.Graph.Nodes

set_option autoImplicit false

/-! # The paths that are found

A search goes on from the one way that it keeps for a node. A chain of halves is found, or one as
good, if that way can take the place of what the chain has behind the node (`Unobstructed`): it has
to leave room for another half, and the half before it has to be able to carry what it takes. Where
the length of paths is no matter and no half asks for more than the amount, that is so for all
chains, and the path that is found is the cheapest (`finds_cheapest`). Otherwise a chain can be
missed, since a cheap way that is long hides a dear one that is short.
-/

namespace Rebalancer

open Std

/-! ## Comparing ways -/

/-- What the halves charge for more is no less. -/
theorem forwardingFee_mono {amount amount' : Msat} (h : amount.toNat ≤ amount'.toNat) (base : Msat)
    (rate : Ppm) :
    (forwardingFee base rate amount).toNat ≤ (forwardingFee base rate amount').toNat := by
  have hrate : amount.toNat * rate.toNat / 1000000 ≤ amount'.toNat * rate.toNat / 1000000 :=
    Nat.div_le_div_right (Nat.mul_le_mul_right _ h)
  rw [forwardingFee, forwardingFee, toNat_clampWord, toNat_clampWord]
  omega

/-- What the halves charge together, up to the largest word. -/
def totalFee (amount : Msat) (path : List Half) : Nat := min (chargedBy amount path) maxWord

/-- The label of a way along the path. -/
def pathLabel (amount : Msat) (path : List Half) : Label :=
  toLex (totalFee amount path, path.length)

@[simp] theorem fee_pathLabel (amount : Msat) (path : List Half) :
    (pathLabel amount path).fee = totalFee amount path := rfl

@[simp] theorem length_pathLabel (amount : Msat) (path : List Half) :
    (pathLabel amount path).length = path.length := rfl

theorem carried_pathLabel (amount : Msat) (path : List Half) :
    (pathLabel amount path).carried amount = amountInto amount path := by
  rw [← UInt64.toNat_inj, Label.carried, toNat_clampWord, fee_pathLabel, totalFee,
    toNat_amountInto]
  omega

theorem pathLabel_cons (amount : Msat) (h : Half) (rest : List Half) :
    pathLabel amount (h :: rest) = (pathLabel amount rest).extend amount h := by
  have hfee : totalFee amount (h :: rest) =
      min (totalFee amount rest + (h.fee (amountInto amount rest)).toNat) maxWord := by
    rw [totalFee, totalFee, chargedBy]
    omega
  rw [Label.extend, carried_pathLabel, fee_pathLabel, length_pathLabel, ← hfee]
  rfl

theorem Way.Priced.label_eq {amount : Msat} {w : Way} (hw : w.Priced amount) :
    w.label = pathLabel amount w.path := by
  rw [Way.label, hw.fee, toNat_clampWord]
  rfl

namespace Label

variable {l m n : Label}

/-- The fee is less, or it is the same and there are no more halves. Fees that have reached the
largest word are the same however many the halves are. -/
def AsGood (l m : Label) : Prop :=
  l.fee < m.fee ∨ l.fee = m.fee ∧ (l.length ≤ m.length ∨ l.fee = maxWord)

theorem AsGood.refl (l : Label) : l.AsGood l := Or.inr ⟨rfl, Or.inl le_rfl⟩

theorem AsGood.of_le (h : l ≤ m) : l.AsGood m := by
  rcases le_iff.mp h with hfee | ⟨hfee, hlength⟩
  · exact Or.inl hfee
  · exact Or.inr ⟨hfee, Or.inl hlength⟩

theorem AsGood.trans (h : l.AsGood m) (h' : m.AsGood n) : l.AsGood n := by
  unfold AsGood at h h' ⊢
  omega

theorem AsGood.fee_le (h : l.AsGood m) : l.fee ≤ m.fee := by
  unfold AsGood at h
  omega

/-- A cheaper way takes no more. -/
theorem AsGood.carried_le (h : l.AsGood m) (amount : Msat) :
    (l.carried amount).toNat ≤ (m.carried amount).toNat := by
  have hfee := h.fee_le
  rw [carried, carried, toNat_clampWord, toNat_clampWord]
  omega

/-- A half charges no more for a cheaper way, so the better way stays the better one. -/
theorem AsGood.extend (h : l.AsGood m) (amount : Msat) (k : Half) :
    (l.extend amount k).AsGood (m.extend amount k) := by
  have hcharge : (k.fee (l.carried amount)).toNat ≤ (k.fee (m.carried amount)).toNat :=
    forwardingFee_mono (h.carried_le amount) _ _
  rcases h with hfee | ⟨hfee, hlength⟩
  · rw [AsGood, fee_extend, fee_extend, length_extend, length_extend]
    omega
  · have hsame : l.carried amount = m.carried amount := by rw [carried, carried, hfee]
    rw [AsGood, fee_extend, fee_extend, length_extend, length_extend, hsame, hfee]
    omega

end Label

namespace Graph

variable {g : Graph} {source target : String} {amount : Msat} {maxEdges : Nat} {chain : List Half}

/-! ## Chains -/

/-- Known halves that lead from `source` to `target` between other nodes than the local one, and can
carry what has to enter them for `amount` to arrive. -/
structure IsChain (g : Graph) (source target : String) (amount : Msat) (chain : List Half) :
    Prop where
  joins : Joins source chain target
  carries : Carries amount chain
  known : ∀ h ∈ chain, g.halves[h.id]? = some h
  away : ∀ h ∈ chain, h.source ≠ g.selfId ∧ h.destination ≠ g.selfId

instance (g : Graph) (source target : String) (amount : Msat) (chain : List Half) :
    Decidable (g.IsChain source target amount chain) :=
  decidable_of_iff
    (Joins source chain target ∧ Carries amount chain ∧ (∀ h ∈ chain, g.halves[h.id]? = some h) ∧
      ∀ h ∈ chain, h.source ≠ g.selfId ∧ h.destination ≠ g.selfId)
    ⟨fun ⟨hjoins, hcarries, hknown, haway⟩ => ⟨hjoins, hcarries, hknown, haway⟩,
      fun hc => ⟨hc.joins, hc.carries, hc.known, hc.away⟩⟩

theorem IsChain.tail {h : Half} {rest : List Half}
    (hc : g.IsChain source target amount (h :: rest)) :
    g.IsChain h.destination target amount rest :=
  ⟨hc.joins.2, hc.carries.2, fun k hk => hc.known k (List.mem_cons_of_mem h hk),
    fun k hk => hc.away k (List.mem_cons_of_mem h hk)⟩

/-- Halves whose sources are other nodes lead past the local node, if they end at another node. -/
theorem destination_ne_of_joins {node : String} (hjoins : Joins source chain target)
    (hsource : ∀ h ∈ chain, h.source ≠ node) (htarget : target ≠ node) :
    ∀ h ∈ chain, h.destination ≠ node := by
  induction chain generalizing source with
  | nil => exact List.forall_mem_nil _
  | cons h rest ih =>
      obtain ⟨-, hrest⟩ := hjoins
      obtain ⟨-, hsource'⟩ := List.forall_mem_cons.mp hsource
      refine List.forall_mem_cons.mpr ⟨?_, ih hrest hsource'⟩
      cases rest with
      | nil =>
          have hend : h.destination = target := hrest
          rw [hend]
          exact htarget
      | cons k rest =>
          rw [← hrest.1]
          exact hsource' k List.mem_cons_self

/-- What is found is a chain. -/
theorem Keyed.isChain_of_findPath (hg : g.Keyed) {path : List Half}
    (hpath : g.findPath source target amount maxEdges = some path) :
    g.IsChain source target amount path ∧ path.length ≤ maxEdges := by
  obtain ⟨-, htarget, hp⟩ := hg.isPath_of_findPath hpath
  exact ⟨⟨hp.joins, hp.carries, hp.known, fun h hh =>
    ⟨hp.away h hh, destination_ne_of_joins hp.joins hp.away htarget h hh⟩⟩, hp.length_le⟩

/-- Wherever a path could turn off the chain, to go on as well as the chain does, the path leaves
room for the half before it, and that half can carry what the path takes. -/
def Unobstructed (g : Graph) (target : String) (amount : Msat) (maxEdges : Nat) :
    List Half → Prop
  | [] => True
  | h :: rest =>
    (∀ path, g.IsPath h.destination target amount maxEdges path →
      (pathLabel amount path).AsGood (pathLabel amount rest) →
        path.length < maxEdges ∧ h.canCarry (amountInto amount path) = true) ∧
      g.Unobstructed target amount maxEdges rest

theorem target_mem_of_joins {node : String} (hjoins : Joins node chain target) (hne : chain ≠ []) :
    target ∈ chain.map (·.destination) := by
  induction chain generalizing node with
  | nil => exact absurd rfl hne
  | cons h rest ih =>
      obtain ⟨-, hrest⟩ := hjoins
      cases rest with
      | nil =>
          have hend : h.destination = target := hrest
          rw [List.map_cons, hend]
          exact List.mem_cons_self
      | cons k rest => exact List.mem_cons_of_mem _ (ih hrest (List.cons_ne_nil k rest))

/-- Only the empty path leads from a node to itself. -/
theorem IsPath.eq_nil {path : List Half} (hp : g.IsPath target target amount maxEdges path) :
    path = [] := by
  by_contra hne
  exact (List.nodup_cons.mp hp.simple).1 (target_mem_of_joins hp.joins hne)

/-- Nothing obstructs a half that leads to the target, if it can carry the amount. -/
theorem unobstructed_singleton {h : Half} (hd : h.destination = target)
    (hcarry : h.canCarry amount = true) (hroom : 0 < maxEdges) :
    g.Unobstructed target amount maxEdges [h] := by
  refine ⟨fun path hp _ => ?_, trivial⟩
  rw [hd] at hp
  rw [hp.eq_nil]
  exact ⟨hroom, hcarry⟩

/-- A half that can carry an amount can carry less, unless it asks for more. -/
theorem canCarry_of_le {h : Half} {more : Msat} (hcarry : h.canCarry more = true)
    (hle : amount.toNat ≤ more.toNat) (hmin : h.htlcMin ≤ amount) : h.canCarry amount = true := by
  simp only [Half.canCarry, Bool.and_eq_true, decide_eq_true_eq, UInt64.le_iff_toNat_le] at *
  obtain ⟨⟨⟨hactive, hliquidity⟩, -⟩, hmax⟩ := hcarry
  exact ⟨⟨⟨hactive, hle.trans hliquidity⟩, hmin⟩, hle.trans hmax⟩

/-- A half that can carry what a way takes can carry what a way as good takes, unless it asks for
more. -/
theorem canCarry_of_asGood {h : Half} {path rest : List Half}
    (hcarry : h.canCarry (amountInto amount rest) = true)
    (hgood : (pathLabel amount path).AsGood (pathLabel amount rest)) (hmin : h.htlcMin ≤ amount) :
    h.canCarry (amountInto amount path) = true := by
  have hle := hgood.carried_le amount
  rw [carried_pathLabel, carried_pathLabel] at hle
  refine canCarry_of_le hcarry hle (UInt64.le_trans hmin ?_)
  rw [UInt64.le_iff_toNat_le, toNat_amountInto]
  have hword := toNat_le_maxWord amount
  omega

/-- Nothing obstructs a half before free halves, if they leave room for it: no path from there is
cheaper, and none that is as cheap may be longer. -/
theorem Unobstructed.cons_of_free {h : Half} {rest : List Half}
    (hrest : g.Unobstructed target amount maxEdges rest) (hfree : totalFee amount rest = 0)
    (hroom : rest.length < maxEdges) (hcarry : h.canCarry (amountInto amount rest) = true)
    (hmin : h.htlcMin ≤ amount) : g.Unobstructed target amount maxEdges (h :: rest) := by
  refine ⟨fun path hp hgood => ⟨?_, ?_⟩, hrest⟩
  · rcases hgood with hless | ⟨hsame, hlength | hmax⟩
    · rw [fee_pathLabel, fee_pathLabel, hfree] at hless
      exact absurd hless (Nat.not_lt_zero _)
    · exact hlength.trans_lt hroom
    · rw [hsame, fee_pathLabel, hfree] at hmax
      exact absurd hmax (by decide)
  · exact canCarry_of_asGood hcarry hgood hmin

/-- From the start of an unobstructed chain the search knows a way that is as good. -/
theorem exists_way_of_unobstructed (hg : g.Keyed) (hl : g.Lists)
    (hchain : g.IsChain source target amount chain)
    (hfree : g.Unobstructed target amount maxEdges chain) :
    ∃ w, (g.explored target amount maxEdges).ways[source]? = some w ∧
      Label.AsGood w.label (pathLabel amount chain) := by
  have hgreedy := greedy_explored hg hl target amount maxEdges
  have hprogress := progress_explored hg hl target amount maxEdges
  -- From the end of the chain to its start.
  induction chain generalizing source with
  | nil =>
      have hsource : source = target := hchain.joins
      subst hsource
      obtain ⟨w, hw, hlabel⟩ := Search.exists_way_of_labelAt hgreedy.zero
      refine ⟨w, hw, ?_⟩
      rw [hlabel]
      exact .refl _
  | cons h rest ih =>
      obtain ⟨hnow, hlater⟩ := hfree
      obtain ⟨w, hw, hgood⟩ := ih hchain.tail hlater
      have hpriced := hprogress.priced _ w hw
      have hway := hprogress.sound _ w hw
      rw [hpriced.label_eq] at hgood
      obtain ⟨hroom, hcarry⟩ := hnow w.path hway.path hgood
      have hopens : g.Opens amount maxEdges h w.label := by
        refine ⟨hchain.known h List.mem_cons_self, (hchain.away h List.mem_cons_self).1, hroom, ?_⟩
        rw [hpriced.label_eq, carried_pathLabel]
        exact hcarry
      have hle := hgreedy.least (Search.labelAt_of_some hw) hopens
      obtain ⟨l, hlabel⟩ :=
        WithTop.ne_top_iff_exists.mp (ne_top_of_le_ne_top WithTop.coe_ne_top hle)
      obtain ⟨w', hw', rfl⟩ := Search.exists_way_of_labelAt hlabel.symm
      rw [← hlabel, WithTop.coe_le_coe, hpriced.label_eq] at hle
      have hstart : h.source = source := hchain.joins.1
      refine ⟨w', hstart ▸ hw', ?_⟩
      rw [pathLabel_cons]
      exact (Label.AsGood.of_le hle).trans (hgood.extend amount h)

/-! ## A way around -/

/-- A half that charges `fee` for each payment, as the gossip lists it. -/
def chargingHalf (source destination scid : String) (fee : Msat) : Announcement :=
  ⟨source, destination, scid, 4000000, true, fee, 0, 6, 0, none⟩

/-- From `b` one gets to `c`, and from there to `e`, where the way around over `d` is free. -/
def roundabout (entry direct : Msat) : Graph :=
  (empty "a").applyGossip
    [chargingHalf "b" "c" "1x1" entry, chargingHalf "c" "e" "2x1" direct,
      chargingHalf "c" "d" "3x1" 0, chargingHalf "d" "e" "4x1" 0] [] 5 1000000

theorem reachable_roundabout (entry direct : Msat) : (roundabout entry direct).Reachable :=
  ⟨"a", [.gossip _ _ _ _], rfl⟩

/-- The chain from `b` straight to `e`. -/
def straight (entry direct : Msat) : List Half :=
  [.ofAnnouncement (chargingHalf "b" "c" "1x1" entry) 5,
    .ofAnnouncement (chargingHalf "c" "e" "2x1" direct) 5]

/-- The chain from `b` to `e` by the way around. -/
def around (entry : Msat) : List Half :=
  [.ofAnnouncement (chargingHalf "b" "c" "1x1" entry) 5,
    .ofAnnouncement (chargingHalf "c" "d" "3x1" 0) 5,
    .ofAnnouncement (chargingHalf "d" "e" "4x1" 0) 5]

/-! ## What is found -/

theorem findPath_eq_some_of_way (hg : g.Keyed) (hl : g.Lists) (hsource : source ≠ g.selfId)
    (htarget : target ≠ g.selfId) {w : Way}
    (hw : (g.explored target amount maxEdges).ways[source]? = some w) :
    g.findPath source target amount maxEdges = some w.path := by
  rw [findPath_eq hg hl hsource htarget, hw]
  rfl

/-- An unobstructed chain is found, or a path that is as good. -/
theorem exists_path_of_unobstructed (hg : g.Keyed) (hl : g.Lists) (hsource : source ≠ g.selfId)
    (htarget : target ≠ g.selfId) (hchain : g.IsChain source target amount chain)
    (hfree : g.Unobstructed target amount maxEdges chain) :
    ∃ path, g.findPath source target amount maxEdges = some path ∧
      (pathLabel amount path).AsGood (pathLabel amount chain) := by
  obtain ⟨w, hw, hgood⟩ := exists_way_of_unobstructed hg hl hchain hfree
  have hpriced := (progress_explored hg hl target amount maxEdges).priced _ w hw
  rw [hpriced.label_eq] at hgood
  exact ⟨w.path, findPath_eq_some_of_way hg hl hsource htarget hw, hgood⟩

/-- A path is found just if the source has a label. -/
theorem Greedy.isSome_findPath_iff (hg : g.Keyed) (hl : g.Lists) (hsource : source ≠ g.selfId)
    (htarget : target ≠ g.selfId) {labels : String → WithTop Label}
    (hgreedy : g.Greedy target amount maxEdges labels) :
    (g.findPath source target amount maxEdges).isSome = true ↔ labels source ≠ ⊤ := by
  rw [findPath_eq hg hl hsource htarget, Option.isSome_map,
    (greedy_explored hg hl target amount maxEdges).unique hgreedy, Search.labelAt]
  cases (g.explored target amount maxEdges).ways[source]? with
  | none => simp
  | some w => simp

/-- What is found is a path of at most `maxEdges` halves. It is found just if the greedy choice of
labels, of which there is one, gives the source one. So it is if some chain is unobstructed. -/
theorem Reachable.finds_unobstructed (hg : g.Reachable) (hsource : source ≠ g.selfId)
    (htarget : target ≠ g.selfId) (amount : Msat) (maxEdges : Nat) :
    (∀ path, g.findPath source target amount maxEdges = some path →
        g.IsChain source target amount path ∧ path.length ≤ maxEdges) ∧
      (∃! labels, g.Greedy target amount maxEdges labels) ∧
      (∀ labels, g.Greedy target amount maxEdges labels →
        ((g.findPath source target amount maxEdges).isSome = true ↔ labels source ≠ ⊤)) ∧
      ∀ chain, g.IsChain source target amount chain →
        g.Unobstructed target amount maxEdges chain →
          (g.findPath source target amount maxEdges).isSome = true := by
  refine ⟨fun path hpath => hg.keyed.isChain_of_findPath hpath, ?_, fun labels hgreedy => ?_,
    fun chain hchain hfree => ?_⟩
  · exact ⟨_, greedy_explored hg.keyed hg.lists target amount maxEdges,
      fun labels hgreedy =>
        (greedy_explored hg.keyed hg.lists target amount maxEdges).unique hgreedy⟩
  · exact hgreedy.isSome_findPath_iff hg.keyed hg.lists hsource htarget
  · obtain ⟨path, hpath, -⟩ :=
      exists_path_of_unobstructed hg.keyed hg.lists hsource htarget hchain hfree
    rw [hpath]
    rfl

/-- If the direct half is free too, the straight chain is found with room for two halves. -/
theorem finds_unobstructed_roundabout :
    (roundabout 5 0).Reachable ∧ "b" ≠ (roundabout 5 0).selfId ∧ "e" ≠ (roundabout 5 0).selfId ∧
      (roundabout 5 0).IsChain "b" "e" 1000 (straight 5 0) ∧
      (roundabout 5 0).Unobstructed "e" 1000 2 (straight 5 0) ∧
      ((roundabout 5 0).findPath "b" "e" 1000 2).isSome = true := by
  have hb : "b" ≠ (roundabout 5 0).selfId := by decide +kernel
  have he : "e" ≠ (roundabout 5 0).selfId := by decide +kernel
  obtain ⟨-, -, -, hfinds⟩ := (reachable_roundabout 5 0).finds_unobstructed hb he 1000 2
  have hchain : (roundabout 5 0).IsChain "b" "e" 1000 (straight 5 0) := by decide +kernel
  have hdirect : (roundabout 5 0).Unobstructed "e" 1000 2
      [.ofAnnouncement (chargingHalf "c" "e" "2x1" 0) 5] :=
    unobstructed_singleton rfl (by decide +kernel) (by decide)
  have hfree : (roundabout 5 0).Unobstructed "e" 1000 2 (straight 5 0) :=
    hdirect.cons_of_free (by decide +kernel) (by decide) (by decide +kernel) (by decide +kernel)
  exact ⟨reachable_roundabout 5 0, hb, he, hchain, hfree, hfinds _ hchain hfree⟩

/-- With a fee on the direct half the straight chain is missed: the label of `c` is that of
the way around, which is free and leaves no room for the half from `b`. -/
theorem straight_missed_roundabout :
    (roundabout 5 1).Reachable ∧ (roundabout 5 1).IsChain "b" "e" 1000 (straight 5 1) ∧
      (straight 5 1).length ≤ 2 ∧ (roundabout 5 1).findPath "b" "e" 1000 2 = none := by
  refine ⟨reachable_roundabout 5 1, by decide +kernel, by decide, ?_⟩
  rw [findPath_eq_runListed]
  decide +kernel

/-! ## The cheapest path -/

/-- A path that meets no node twice has fewer halves than there are known nodes. -/
theorem IsPath.length_lt (hk : g.Known) {path : List Half}
    (hp : g.IsPath source target amount maxEdges path) (hsource : source ∈ g.nodes) :
    path.length < g.nodes.size := by
  have hknown : ∀ node ∈ source :: path.map (·.destination), node ∈ g.nodes.keys := by
    refine List.forall_mem_cons.mpr ⟨TreeMap.mem_keys.mpr hsource, fun node hnode => ?_⟩
    obtain ⟨h, hh, rfl⟩ := List.mem_map.mp hnode
    exact TreeMap.mem_keys.mpr (hk.ends (hp.known h hh)).2
  have hlength := (hp.simple.subperm hknown).length_le
  rw [List.length_cons, List.length_map, TreeMap.length_keys] at hlength
  exact hlength

/-- Nothing obstructs a chain if any path is short enough and no half asks for more than the
amount. -/
theorem IsChain.unobstructed (hk : g.Known) (hchain : g.IsChain source target amount chain)
    (hroom : g.nodes.size ≤ maxEdges)
    (hmin : ∀ (id : HalfId) (h : Half), g.halves[id]? = some h → h.htlcMin ≤ amount) :
    g.Unobstructed target amount maxEdges chain := by
  induction chain generalizing source with
  | nil => trivial
  | cons h rest ih =>
      have hknown : g.halves[h.id]? = some h := hchain.known h List.mem_cons_self
      refine ⟨fun path hp hgood => ⟨?_, ?_⟩, ih hchain.tail⟩
      · exact (hp.length_lt hk (hk.ends hknown).2).trans_le hroom
      · exact canCarry_of_asGood hchain.carries.1 hgood (hmin h.id h hknown)

/-- If there may be as many halves as there are nodes, and no half asks for more than the amount, a
path is found just if there is a chain, and no chain is better. -/
theorem Reachable.finds_cheapest (hg : g.Reachable) (hsource : source ≠ g.selfId)
    (htarget : target ≠ g.selfId) (hroom : g.nodes.size ≤ maxEdges)
    (hmin : ∀ (id : HalfId) (h : Half), g.halves[id]? = some h → h.htlcMin ≤ amount) :
    ((g.findPath source target amount maxEdges).isSome = true ↔
        ∃ chain, g.IsChain source target amount chain) ∧
      ∀ path, g.findPath source target amount maxEdges = some path →
        g.IsChain source target amount path ∧
          ∀ chain, g.IsChain source target amount chain →
            totalFee amount path < totalFee amount chain ∨
              totalFee amount path = totalFee amount chain ∧
                (path.length ≤ chain.length ∨ totalFee amount path = maxWord) := by
  have hfound : ∀ chain, g.IsChain source target amount chain →
      ∃ path, g.findPath source target amount maxEdges = some path ∧
        (pathLabel amount path).AsGood (pathLabel amount chain) := fun chain hchain =>
    exists_path_of_unobstructed hg.keyed hg.lists hsource htarget hchain
      (hchain.unobstructed hg.known hroom hmin)
  refine ⟨⟨fun hsome => ?_, fun ⟨chain, hchain⟩ => ?_⟩,
    fun path hpath => ⟨?_, fun chain hchain => ?_⟩⟩
  · obtain ⟨path, hpath⟩ := Option.isSome_iff_exists.mp hsome
    exact ⟨path, (hg.keyed.isChain_of_findPath hpath).1⟩
  · obtain ⟨path, hpath, -⟩ := hfound chain hchain
    rw [hpath]
    rfl
  · exact (hg.keyed.isChain_of_findPath hpath).1
  · obtain ⟨path', hpath', hgood⟩ := hfound chain hchain
    obtain rfl : path = path' := Option.some.inj (hpath.symm.trans hpath')
    exact hgood

theorem htlcMin_le_of_values (h : ∀ k ∈ g.halves.values, k.htlcMin ≤ amount) (id : HalfId)
    (k : Half) (hk : g.halves[id]? = some k) : k.htlcMin ≤ amount :=
  h k (mem_values_iff.mpr ⟨id, hk⟩)

/-- The way around is the cheapest chain from `b` to `e`. -/
theorem finds_cheapest_roundabout :
    ((roundabout 5 1).Reachable ∧ "b" ≠ (roundabout 5 1).selfId ∧
        "e" ≠ (roundabout 5 1).selfId ∧ (roundabout 5 1).nodes.size ≤ 4 ∧
        ∀ (id : HalfId) (h : Half), (roundabout 5 1).halves[id]? = some h → h.htlcMin ≤ 1000) ∧
      (roundabout 5 1).findPath "b" "e" 1000 4 = some (around 5) ∧
      ∀ chain, (roundabout 5 1).IsChain "b" "e" 1000 chain →
        totalFee 1000 (around 5) < totalFee 1000 chain ∨
          totalFee 1000 (around 5) = totalFee 1000 chain ∧
            ((around 5).length ≤ chain.length ∨ totalFee 1000 (around 5) = maxWord) := by
  have hb : "b" ≠ (roundabout 5 1).selfId := by decide +kernel
  have he : "e" ≠ (roundabout 5 1).selfId := by decide +kernel
  have hroom : (roundabout 5 1).nodes.size ≤ 4 := by decide +kernel
  have hmin : ∀ (id : HalfId) (h : Half),
      (roundabout 5 1).halves[id]? = some h → h.htlcMin ≤ 1000 :=
    htlcMin_le_of_values (by decide +kernel)
  have hfound : (roundabout 5 1).findPath "b" "e" 1000 4 = some (around 5) := by
    rw [findPath_eq_runListed]
    decide +kernel
  have hcheapest := (reachable_roundabout 5 1).finds_cheapest hb he hroom hmin
  exact ⟨⟨reachable_roundabout 5 1, hb, he, hroom, hmin⟩, hfound, (hcheapest.2 _ hfound).2⟩

/-- If the half from `b` charges as much as a word can hold, either chain costs that much, and the
one that is found is the longer one. -/
theorem longer_found_roundabout :
    ((roundabout 0xFFFFFFFFFFFFFFFF 1).Reachable ∧
        "b" ≠ (roundabout 0xFFFFFFFFFFFFFFFF 1).selfId ∧
        "e" ≠ (roundabout 0xFFFFFFFFFFFFFFFF 1).selfId ∧
        (roundabout 0xFFFFFFFFFFFFFFFF 1).nodes.size ≤ 4 ∧
        ∀ (id : HalfId) (h : Half),
          (roundabout 0xFFFFFFFFFFFFFFFF 1).halves[id]? = some h → h.htlcMin ≤ 1000) ∧
      (roundabout 0xFFFFFFFFFFFFFFFF 1).findPath "b" "e" 1000 4 =
        some (around 0xFFFFFFFFFFFFFFFF) ∧
      (roundabout 0xFFFFFFFFFFFFFFFF 1).IsChain "b" "e" 1000 (straight 0xFFFFFFFFFFFFFFFF 1) ∧
      totalFee 1000 (straight 0xFFFFFFFFFFFFFFFF 1) = totalFee 1000 (around 0xFFFFFFFFFFFFFFFF) ∧
      (straight 0xFFFFFFFFFFFFFFFF 1).length < (around 0xFFFFFFFFFFFFFFFF).length := by
  refine ⟨⟨reachable_roundabout _ _, by decide +kernel, by decide +kernel, by decide +kernel,
    htlcMin_le_of_values (by decide +kernel)⟩, ?_, by decide +kernel, by decide +kernel, by decide⟩
  rw [findPath_eq_runListed]
  decide +kernel

end Graph

end Rebalancer
