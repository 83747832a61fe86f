import Rebalancer.Proofs.Graph.Labels
import Rebalancer.Proofs.Graph.Listing
import Rebalancer.Proofs.Graph.Rings

set_option autoImplicit false

/-! # The order of the listing

Two graphs can know the same and still list the halves that lead to a node in different orders:
another gossip order or a restart is enough. A search may then run along other halves, but the
labels of its nodes are the same at every step (`Search.Matches`), so what it finds costs the same
(`finds_same_of_relisted`). In a graph whose listing is in order, the halves alone tell which halves
are listed for a node, so graphs that know the same differ in nothing but that order
(`Listed.perm_inbound`).
-/

namespace Rebalancer

open Std

/-- Paths that have as many halves and charge the same, as a search adds it up: a sum beyond the
largest word counts as the largest word. -/
structure SamePrice (amount : Msat) (path path' : List Half) : Prop where
  fee : clampWord (chargedBy amount path') = clampWord (chargedBy amount path)
  length : path'.length = path.length

/-- Into paths of the same price enters the same amount. -/
theorem SamePrice.amountInto_eq {amount : Msat} {path path' : List Half}
    (h : SamePrice amount path path') : amountInto amount path' = amountInto amount path := by
  have hfee := congrArg UInt64.toNat h.fee
  rw [toNat_clampWord, toNat_clampWord] at hfee
  rw [← UInt64.toNat_inj, toNat_amountInto, toNat_amountInto]
  omega

/-- Routes whose first hops deliver the same, with the same fee and as many hops. -/
structure Route.SamePrice (route route' : Route) : Prop where
  first : route'.hops.head?.map (·.amount) = route.hops.head?.map (·.amount)
  fee : route'.fee = route.fee
  length : route'.hops.length = route.hops.length

/-- Both searches fail for the same reason, or both find routes of the same price. -/
def SameOffer : Except Failure Route → Except Failure Route → Prop
  | .ok route, .ok route' => route.SamePrice route'
  | .error failure, .error failure' => failure' = failure
  | _, _ => False

theorem SameOffer.bind {α : Type} {x : Except Failure α} {f f' : α → Except Failure Route}
    (h : ∀ a, SameOffer (f a) (f' a)) : SameOffer (x >>= f) (x >>= f') := by
  cases x with
  | error failure => exact rfl
  | ok a => exact h a

theorem SameOffer.check {p : Prop} [Decidable p] {failure : Failure}
    {x x' : Except Failure Route} (h : SameOffer x x') :
    SameOffer (if p then (do (throw failure : Except Failure PUnit); x) else x)
      (if p then (do (throw failure : Except Failure PUnit); x') else x') := by
  by_cases hp : p
  · rw [if_pos hp, if_pos hp]
    exact rfl
  · rw [if_neg hp, if_neg hp]
    exact h

/-- Between the same ends, paths of the same price make routes of the same price. -/
theorem SamePrice.build {amount : Msat} {out back : Half} {path path' : List Half}
    (h : SamePrice (amountInto amount [back]) path path') :
    (Route.build (out :: (path ++ [back])) amount).SamePrice
      (.build (out :: (path' ++ [back])) amount) := by
  have hfirst : amountInto amount (path' ++ [back]) = amountInto amount (path ++ [back]) := by
    rw [amountInto_append, amountInto_append, h.amountInto_eq]
  constructor
  · exact congrArg some hfirst
  · exact congrArg (subClamped · amount) hfirst
  · show (Route.hopsOver amount _).length = (Route.hopsOver amount _).length
    rw [Route.length_hopsOver, Route.length_hopsOver, List.length_cons, List.length_cons,
      List.length_append, List.length_append, h.length]

namespace Graph

variable {g g' : Graph}

/-- `g'` knows what `g` knows. All that may differ is the order in which the halves that lead to a
node are listed. -/
structure Relisted (g g' : Graph) : Prop where
  selfId : g'.selfId = g.selfId
  halves : ∀ id : HalfId, g'.halves[id]? = g.halves[id]?
  nodes : ∀ id : String, g'.nodes[id]? = g.nodes[id]?
  own : ∀ scid : String, g'.own[scid]? = g.own[scid]?
  listed : ∀ node : String, (g'.inbound.getD node []).Perm (g.inbound.getD node [])

theorem Relisted.incoming (h : Relisted g g') (node : String) :
    (g'.incoming node).Perm (g.incoming node) := by
  have hhalves : (fun id : HalfId => g'.halves[id]?) = fun id => g.halves[id]? := funext h.halves
  unfold Graph.incoming
  rw [hhalves]
  exact (h.listed node).filterMap _

/-- In graphs whose listing is in order, the same halves are listed for every node. -/
theorem Listed.perm_inbound (hg : g.Keyed) (hl : g.Listed) (hg' : g'.Keyed) (hl' : g'.Listed)
    (halves : ∀ id : HalfId, g'.halves[id]? = g.halves[id]?) (node : String) :
    (g'.inbound.getD node []).Perm (g.inbound.getD node []) := by
  refine (List.perm_ext_iff_of_nodup (hl'.nodup node) (hl.nodup node)).mpr fun id => ?_
  constructor
  · intro hid
    obtain ⟨h, hh, rfl⟩ := hg'.leads hid
    rw [halves] at hh
    exact hl.lists hh
  · intro hid
    obtain ⟨h, hh, rfl⟩ := hg.leads hid
    rw [← halves] at hh
    exact hl'.lists hh

end Graph

/-! ## Two searches -/

namespace Search

open Rebalancer.Graph

variable {g g' : Graph} {s s' : Search} {amount : Msat} {maxEdges : Nat}

/-- Two searches that have settled the same nodes and know the same labels. -/
structure Matches (amount : Msat) (s s' : Search) : Prop where
  labels : s'.labelAt = s.labelAt
  settled : s'.settled = s.settled
  queues : s.Queues
  queues' : s'.Queues
  priced : s.Priced amount
  priced' : s'.Priced amount

theorem matches_start (target : String) (amount : Msat) :
    Matches amount (start target amount) (start target amount) :=
  ⟨rfl, rfl, queues_start target amount, queues_start target amount, priced_start target amount,
    priced_start target amount⟩

/-- The same node is settled next. -/
theorem Matches.min?_waiting (h : Matches amount s s') : s'.waiting.min? = s.waiting.min? := by
  refine TreeSet.Equiv.min?_eq (.of_forall_mem_iff fun x => ?_)
  rw [h.queues' x, h.queues x, h.labels, h.settled]

/-- The ways from a node have one label and carry the same. -/
theorem Matches.exists_way (h : Matches amount s s') {node : String} {w : Way}
    (hw : s.ways[node]? = some w) :
    ∃ w', s'.ways[node]? = some w' ∧ w'.label = w.label ∧ w'.amount = w.amount := by
  have hlabel : s'.labelAt node = w.label := by rw [h.labels, labelAt_of_some hw]
  obtain ⟨w', hw', hl⟩ := exists_way_of_labelAt hlabel
  exact ⟨w', hw', hl,
    (h.priced' node w' hw').amount_eq (h.priced node w hw) (Way.label_eq_iff.mp hl).1⟩

theorem Matches.ways_eq_none (h : Matches amount s s') {node : String}
    (hw : s.ways[node]? = none) : s'.ways[node]? = none := by
  cases hw' : s'.ways[node]? with
  | none => rfl
  | some w' =>
      have hlabel : (w'.label : WithTop (ℕ ×ₗ ℕ)) = ⊤ := by
        rw [← labelAt_of_some hw', h.labels, labelAt_of_none hw]
      cases hlabel

/-- Settling a node and extending its way by the halves that lead to it, in whatever order, keeps
the labels the same. -/
theorem Matches.expand (h : Matches amount s s') (hg : Relisted g g') {next : Waiting}
    (hnext : next ∈ s.waiting) {w w' : Way} (hw : s.ways[next.2.2]? = some w)
    (hw' : s'.ways[next.2.2]? = some w') (hl : w'.label = w.label) (ha : w'.amount = w.amount) :
    Matches amount (s.expand g maxEdges next w) (s'.expand g' maxEdges next w') := by
  have hnext' : next ∈ s'.waiting := by
    rw [h.queues' next, h.labels, h.settled]
    exact (h.queues next).mp hnext
  have hlength : w'.path.length = w.path.length := (Way.label_eq_iff.mp hl).2
  refine ⟨?_, ?_, h.queues.expand hnext, h.queues'.expand hnext', h.priced.expand next
    (h.priced _ w hw), h.priced'.expand next (h.priced' _ w' hw')⟩
  · unfold Search.expand
    rw [hlength]
    split
    · exact h.labels
    · rw [labelAt_foldl_relax, labelAt_foldl_relax]
      show (g'.incoming next.2.2).foldl (lower g'.selfId (s'.settled.insert next.2.2) w')
        s'.labelAt =
          (g.incoming next.2.2).foldl (lower g.selfId (s.settled.insert next.2.2) w) s.labelAt
      rw [h.labels, h.settled, hg.selfId, lower_congr hl ha]
      exact (hg.incoming next.2.2).foldl_eq s.labelAt
  · unfold Search.expand
    rw [hlength]
    split
    · show s'.settled.insert next.2.2 = s.settled.insert next.2.2
      rw [h.settled]
    · rw [settled_foldl_relax, settled_foldl_relax]
      show s'.settled.insert next.2.2 = s.settled.insert next.2.2
      rw [h.settled]

/-- Searches with the same labels find paths of the same price, or none. -/
theorem Matches.run (h : Matches amount s s') (hg : Relisted g g') (source : String)
    (fuel : Nat) :
    Option.Rel (SamePrice amount) (run g source maxEdges fuel s)
      (run g' source maxEdges fuel s') := by
  -- The two runs settle the same node at every step, each with its own way.
  induction fuel generalizing s s' with
  | zero => exact .none
  | succ fuel ih =>
      rw [run_succ, run_succ, h.min?_waiting]
      cases hmin : s.waiting.min? with
      | none => exact .none
      | some next =>
          have hnext : next ∈ s.waiting :=
            (TreeSet.min?_eq_some_iff_mem_and_forall.mp hmin).1
          cases hw : s.ways[next.2.2]? with
          | none =>
              simp only [hw, h.ways_eq_none hw]
              exact .none
          | some w =>
              obtain ⟨w', hw', hl, ha⟩ := h.exists_way hw
              simp only [hw, hw']
              split
              · obtain ⟨hfee, hlength⟩ := Way.label_eq_iff.mp hl
                refine .some ⟨?_, hlength⟩
                rw [← (h.priced' _ w' hw').fee, ← (h.priced _ w hw).fee, hfee]
              · exact ih (h.expand hg hnext hw hw' hl ha)

end Search

/-! ## Paths and rings -/

namespace Graph

variable {g g' : Graph}

theorem Relisted.findPath (h : Relisted g g') (source target : String) (amount : Msat)
    (maxEdges : Nat) :
    Option.Rel (SamePrice amount) (g.findPath source target amount maxEdges)
      (g'.findPath source target amount maxEdges) := by
  have hsize : g'.halves.size = g.halves.size := (equiv_of_getElem? h.halves).size_eq
  unfold Graph.findPath
  rw [h.selfId, hsize]
  split
  · exact .none
  · exact (Search.matches_start target amount).run h source _

theorem Relisted.isOwn (h : Relisted g g') (scid : String) : g'.isOwn scid = g.isOwn scid := by
  rw [Graph.isOwn, Graph.isOwn, TreeMap.contains_eq_isSome_getElem?,
    TreeMap.contains_eq_isSome_getElem?, h.own]

theorem Relisted.exitHalf (h : Relisted g g') (scid : String) :
    g'.exitHalf scid = g.exitHalf scid := by
  have hout : g'.outHalf? scid = g.outHalf? scid := by
    unfold outHalf? outId
    rw [h.own, h.selfId]
    simp only [h.halves]
  rw [Graph.exitHalf, Graph.exitHalf, h.isOwn, hout]

theorem Relisted.entryHalf (h : Relisted g g') (scid : String) :
    g'.entryHalf scid = g.entryHalf scid := by
  have hin : g'.inHalf? scid = g.inHalf? scid := by
    unfold inHalf? inId
    rw [h.own, h.selfId]
    simp only [h.halves]
  rw [Graph.entryHalf, Graph.entryHalf, h.isOwn, hin]

/-- Rings through the same ends, over paths that cost the same, cost the same. -/
theorem Relisted.ring (h : Relisted g g') (exit entry : String) (amount : Msat) (maxHops : Nat) :
    SameOffer (g.ring exit entry amount maxHops) (g'.ring exit entry amount maxHops) := by
  unfold Graph.ring
  rw [h.exitHalf, h.entryHalf]
  refine .check (.bind fun out => .bind fun back => .bind fun _ => ?_)
  have hpath := h.findPath out.destination back.source (amountInto amount [back]) (maxHops - 2)
  generalize g.findPath out.destination back.source (amountInto amount [back]) (maxHops - 2) =
    found at hpath ⊢
  generalize g'.findPath out.destination back.source (amountInto amount [back]) (maxHops - 2) =
    found' at hpath ⊢
  cases hpath with
  | none => exact rfl
  | @some path path' hprice =>
      have hfirst : amountInto amount (path' ++ [back]) = amountInto amount (path ++ [back]) := by
        rw [amountInto_append, amountInto_append, hprice.amountInto_eq]
      show SameOffer (if _ then _ else _) (if _ then _ else _)
      rw [hfirst]
      split
      · exact hprice.build
      · exact rfl

/-- What is found does not depend on the order in which the halves are listed: graphs that know the
same find paths of the same price or none, and rings of the same price or none for one reason. -/
theorem finds_same_of_relisted (h : Relisted g g') :
    (∀ (source target : String) (amount : Msat) (maxEdges : Nat),
      Option.Rel (SamePrice amount) (g.findPath source target amount maxEdges)
        (g'.findPath source target amount maxEdges)) ∧
      ∀ (exit entry : String) (amount : Msat) (maxHops : Nat),
        SameOffer (g.ring exit entry amount maxHops) (g'.ring exit entry amount maxHops) :=
  ⟨h.findPath, h.ring⟩

/-! ## Two equal channels -/

/-- How the gossip lists one of the equal channels from `b` to `c`. -/
def listingEqual (scid : String) : Announcement where
  source := "b"
  destination := "c"
  scid := scid
  capacity := 4000000
  active := true
  baseFee := 7
  rate := 0
  delay := 0
  htlcMin := 0
  htlcMax := none

/-- A local node with a full channel to `b` and an empty one from `c`, which has heard of the
channels between the two in this order. -/
def heardInOrder (scids : List String) : Graph :=
  ((empty "a").applyOwn
    [channelWith "b" "1x1" 2000000 0, channelWith "c" "2x1" 0 2000000] 0).applyGossip
    (scids.map listingEqual) [] 0 100

theorem evolves_heardInOrder (scids : List String) :
    Evolves Fresh (.empty "a") (heardInOrder scids) :=
  (evolves_applyOwn_of_away (by decide) 0).trans (evolves_applyGossip _ _ _ _ _)

theorem relisted_heardInOrder :
    Relisted (heardInOrder ["3x1", "4x1"]) (heardInOrder ["4x1", "3x1"]) := by
  have hkeyed : ∀ scids, (heardInOrder scids).Keyed := fun scids =>
    (evolves_heardInOrder scids).fits_of_fresh.preserves.keyed (keyed_empty "a")
  have hlisted : ∀ scids, (heardInOrder scids).Listed := fun scids =>
    (evolves_heardInOrder scids).listed (keyed_empty "a") (listed_empty "a")
  have hhalves : (heardInOrder ["4x1", "3x1"]).halves.toList =
      (heardInOrder ["3x1", "4x1"]).halves.toList := by decide +kernel
  have hnodes : (heardInOrder ["4x1", "3x1"]).nodes.toList =
      (heardInOrder ["3x1", "4x1"]).nodes.toList := by decide +kernel
  have hown : (heardInOrder ["4x1", "3x1"]).own.toList =
      (heardInOrder ["3x1", "4x1"]).own.toList := by decide +kernel
  have halike := getElem?_eq_of_toList hhalves
  exact ⟨by decide +kernel, halike, getElem?_eq_of_toList hnodes, getElem?_eq_of_toList hown,
    Listed.perm_inbound (hkeyed _) (hlisted _) (hkeyed _) (hlisted _) halike⟩

/-- The path leads over the channel that was listed first, and costs the same over either. -/
theorem finds_same_heardInOrder :
    Relisted (heardInOrder ["3x1", "4x1"]) (heardInOrder ["4x1", "3x1"]) ∧
      (heardInOrder ["3x1", "4x1"]).findPath "b" "c" 1000 1 =
        some [.ofAnnouncement (listingEqual "3x1") 0] ∧
      (heardInOrder ["4x1", "3x1"]).findPath "b" "c" 1000 1 =
        some [.ofAnnouncement (listingEqual "4x1") 0] ∧
      (∀ (source target : String) (amount : Msat) (maxEdges : Nat),
        Option.Rel (SamePrice amount)
          ((heardInOrder ["3x1", "4x1"]).findPath source target amount maxEdges)
          ((heardInOrder ["4x1", "3x1"]).findPath source target amount maxEdges)) ∧
      ∀ (exit entry : String) (amount : Msat) (maxHops : Nat),
        SameOffer ((heardInOrder ["3x1", "4x1"]).ring exit entry amount maxHops)
          ((heardInOrder ["4x1", "3x1"]).ring exit entry amount maxHops) := by
  refine ⟨relisted_heardInOrder, ?_, ?_, finds_same_of_relisted relisted_heardInOrder⟩
  · unfold findPath
    rw [Search.run_eq_runListed]
    decide +kernel
  · unfold findPath
    rw [Search.run_eq_runListed]
    decide +kernel

end Graph

end Rebalancer
