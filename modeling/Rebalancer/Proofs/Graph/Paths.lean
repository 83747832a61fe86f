import Mathlib.Tactic.Set
import Rebalancer.Graph.Search
import Rebalancer.Proofs.Graph.Reachable

set_option autoImplicit false

/-! # The paths that a search finds

A search keeps a way from every node it has reached to the end of the search. Each way runs through
settled nodes only, and a settled node gets no other way, so no way meets a node twice
(`Search.Sound`). What the search returns is such a way (`isPath_of_findPath`).
-/

namespace Rebalancer

open Std

/-! ## Chains of halves -/

/-- Whether the halves lead from one node to another. -/
def Joins : String → List Half → String → Prop
  | a, [], b => a = b
  | a, h :: rest, b => h.source = a ∧ Joins h.destination rest b

/-- Whether each half can carry what has to enter the halves after it for `amount` to arrive. -/
def Carries (amount : Msat) : List Half → Prop
  | [] => True
  | h :: rest => h.canCarry (amountInto amount rest) = true ∧ Carries amount rest

instance decidableJoins : ∀ (a : String) (l : List Half) (b : String), Decidable (Joins a l b)
  | a, [], b => inferInstanceAs (Decidable (a = b))
  | a, h :: rest, b =>
    have := decidableJoins h.destination rest b
    inferInstanceAs (Decidable (h.source = a ∧ Joins h.destination rest b))

instance decidableCarries (amount : Msat) : ∀ l : List Half, Decidable (Carries amount l)
  | [] => inferInstanceAs (Decidable True)
  | h :: rest =>
    have := decidableCarries amount rest
    inferInstanceAs (Decidable (h.canCarry (amountInto amount rest) = true ∧ Carries amount rest))

theorem amountInto_append (amount : Msat) (l m : List Half) :
    amountInto amount (l ++ m) = amountInto (amountInto amount m) l := by
  induction l with
  | nil => rfl
  | cons h rest ih => rw [List.cons_append, amountInto, amountInto, ih]

theorem le_amountInto (amount : Msat) (halves : List Half) : amount ≤ amountInto amount halves := by
  induction halves with
  | nil => exact UInt64.le_refl amount
  | cons h rest ih =>
      refine UInt64.le_trans ih (UInt64.le_iff_toNat_le.mpr ?_)
      have hword := toNat_le_maxWord (amountInto amount rest)
      rw [amountInto, toNat_addClamped]
      omega

theorem carries_append {amount : Msat} {l m : List Half} :
    Carries amount (l ++ m) ↔ Carries (amountInto amount m) l ∧ Carries amount m := by
  induction l with
  | nil => simp [Carries]
  | cons h rest ih => rw [List.cons_append, Carries, Carries, ih, amountInto_append, and_assoc]

theorem joins_append {a b : String} {l m : List Half} :
    Joins a (l ++ m) b ↔ ∃ c, Joins a l c ∧ Joins c m b := by
  induction l generalizing a with
  | nil => simp [Joins]
  | cons h rest ih => simp only [List.cons_append, Joins, ih, exists_and_left, and_assoc]

namespace Graph

/-- A path of known halves away from the local node, on which no node is met twice, that delivers
`amount` at its end and has at most `maxEdges` halves. -/
structure IsPath (g : Graph) (source target : String) (amount : Msat) (maxEdges : Nat)
    (path : List Half) : Prop where
  joins : Joins source path target
  carries : Carries amount path
  length_le : path.length ≤ maxEdges
  known : ∀ h ∈ path, g.halves[h.id]? = some h
  away : ∀ h ∈ path, h.source ≠ g.selfId
  simple : (source :: path.map (·.destination)).Nodup

/-- The path that starts with one more half, at a node it has not met. -/
theorem IsPath.cons {g : Graph} {source target : String} {amount : Msat} {maxEdges : Nat}
    {path : List Half} (hp : g.IsPath source target amount maxEdges path) {h : Half}
    (hd : h.destination = source) (hk : g.halves[h.id]? = some h) (ha : h.source ≠ g.selfId)
    (hc : h.canCarry (amountInto amount path) = true) (hl : path.length < maxEdges)
    (hs : h.source ∉ source :: path.map (·.destination)) :
    g.IsPath h.source target amount maxEdges (h :: path) where
  joins := ⟨rfl, hd.symm ▸ hp.joins⟩
  carries := ⟨hc, hp.carries⟩
  length_le := hl
  known := List.forall_mem_cons.mpr ⟨hk, hp.known⟩
  away := List.forall_mem_cons.mpr ⟨ha, hp.away⟩
  simple := by
    rw [List.map_cons, hd]
    exact List.nodup_cons.mpr ⟨hs, hp.simple⟩

theorem Keyed.mem_incoming {g : Graph} (hg : g.Keyed) {node : String} {h : Half}
    (hh : h ∈ g.incoming node) : g.halves[h.id]? = some h ∧ h.destination = node := by
  obtain ⟨id, hid, hk⟩ := List.mem_filterMap.mp hh
  obtain ⟨k, hk', hd⟩ := hg.leads hid
  have hkey := hg.id_eq hk
  rw [hk] at hk'
  cases hk'
  exact ⟨hkey ▸ hk, hd⟩

end Graph

/-! ## The search -/

namespace Search

variable {g : Graph} {target : String} {amount : Msat} {maxEdges : Nat}

/-- Way `w` is a path from `node` through nodes of `settled`, and its amount is what the path takes
for `amount` to arrive. -/
structure IsWay (g : Graph) (target : String) (amount : Msat) (maxEdges : Nat)
    (settled : TreeSet String) (node : String) (w : Way) : Prop where
  path : g.IsPath node target amount maxEdges w.path
  amount_eq : w.amount = amountInto amount w.path
  settled : ∀ h ∈ w.path, h.destination ∈ settled

/-- Every way that the search keeps is one. -/
def Sound (g : Graph) (target : String) (amount : Msat) (maxEdges : Nat) (s : Search) : Prop :=
  ∀ (node : String) (w : Way), s.ways[node]? = some w →
    IsWay g target amount maxEdges s.settled node w

theorem sound_start (g : Graph) (target : String) (amount : Msat) (maxEdges : Nat) :
    Sound g target amount maxEdges (.start target amount) := by
  intro node w hw
  have hw' : ((∅ : TreeMap String Way).insert target ⟨[], 0, amount⟩)[node]? = some w := hw
  -- The only way is the empty one, from the target.
  rw [TreeMap.getElem?_insert] at hw'
  split at hw'
  · rename_i hc
    obtain rfl : target = node := LawfulEqCmp.eq_of_compare hc
    cases hw'
    refine ⟨⟨rfl, trivial, Nat.zero_le _, ?_, ?_, ?_⟩, rfl, ?_⟩
    all_goals simp
  · simp at hw'

theorem settled_offer (s : Search) (node : String) (w : Way) :
    (s.offer node w).settled = s.settled := by
  unfold offer
  split
  · rfl
  · split <;> rfl

/-- A search that offers a way keeps its ways, or has the offered one instead. -/
theorem ways_offer (s : Search) (node : String) (w : Way) {v : String} {x : Way}
    (hx : (s.offer node w).ways[v]? = some x) :
    s.ways[v]? = some x ∨ (v = node ∧ x = w) := by
  -- The way goes in when there is none and when it is better than the one there is.
  have inserted : (s.ways.insert node w)[v]? = some x →
      s.ways[v]? = some x ∨ (v = node ∧ x = w) := by
    intro h
    rw [TreeMap.getElem?_insert] at h
    split at h
    · rename_i hc
      cases h
      exact Or.inr ⟨(LawfulEqCmp.eq_of_compare hc).symm, rfl⟩
    · exact Or.inl h
  unfold offer at hx
  split at hx
  · exact inserted hx
  · split at hx
    · exact inserted hx
    · exact Or.inl hx

theorem settled_relax (selfId : String) (w : Way) (s : Search) (h : Half) :
    (s.relax selfId w h).settled = s.settled := by
  unfold relax
  split
  · rfl
  · exact settled_offer s _ _

/-- Extending the way of a settled node by a half from an open one. -/
theorem IsWay.extend {settled : TreeSet String} {node : String} {w : Way} {h : Half}
    (hw : IsWay g target amount maxEdges settled node w) (hn : node ∈ settled)
    (hl : w.path.length < maxEdges) (hk : g.halves[h.id]? = some h) (hd : h.destination = node)
    (ha : h.source ≠ g.selfId) (ho : h.source ∉ settled) (hc : h.canCarry w.amount = true) :
    IsWay g target amount maxEdges settled h.source (w.extend h) where
  path := by
    refine hw.path.cons hd hk ha (hw.amount_eq ▸ hc) hl fun hmem => ho ?_
    -- All nodes of the way are settled, and the half comes from a node that is not.
    rcases List.mem_cons.mp hmem with hs | hs
    · exact hs ▸ hn
    · obtain ⟨k, hk, hkd⟩ := List.mem_map.mp hs
      exact hkd ▸ hw.settled k hk
  amount_eq := by
    show addClamped w.amount (h.fee w.amount) = amountInto amount (h :: w.path)
    rw [hw.amount_eq]
    rfl
  settled := List.forall_mem_cons.mpr ⟨hd.symm ▸ hn, hw.settled⟩

theorem Sound.relax {s : Search} (hs : Sound g target amount maxEdges s) {node : String} {w : Way}
    {h : Half} (hw : IsWay g target amount maxEdges s.settled node w) (hn : node ∈ s.settled)
    (hl : w.path.length < maxEdges) (hk : g.halves[h.id]? = some h) (hd : h.destination = node) :
    Sound g target amount maxEdges (s.relax g.selfId w h) := by
  intro v x hx
  rw [settled_relax]
  unfold Search.relax at hx
  split at hx
  · exact hs v x hx
  · rename_i hopen
    simp only [Bool.or_eq_true, beq_iff_eq, Bool.not_eq_true', not_or, Bool.not_eq_false] at hopen
    rcases ways_offer s _ _ hx with hx | ⟨rfl, rfl⟩
    · exact hs v x hx
    · exact hw.extend hn hl hk hd hopen.1.1 hopen.1.2 hopen.2

/-- Settling a node and extending its way by the halves that lead to it. -/
theorem Sound.relaxAll {s : Search} (hs : Sound g target amount maxEdges s) {node : String}
    {w : Way} (hw : IsWay g target amount maxEdges s.settled node w) (hn : node ∈ s.settled)
    (hl : w.path.length < maxEdges) {halves : List Half}
    (hh : ∀ h ∈ halves, g.halves[h.id]? = some h ∧ h.destination = node) :
    Sound g target amount maxEdges (halves.foldl (Search.relax g.selfId w) s) := by
  induction halves generalizing s with
  | nil => exact hs
  | cons h rest ih =>
      obtain ⟨hk, hd⟩ := hh h (by simp)
      refine ih (hs.relax hw hn hl hk hd) ?_ ?_ fun k hk => hh k (by simp [hk])
      · rw [settled_relax]
        exact hw
      · rw [settled_relax]
        exact hn

theorem Sound.settle {s : Search} (hs : Sound g target amount maxEdges s) (next : Waiting)
    (node : String) :
    Sound g target amount maxEdges
      { s with waiting := s.waiting.erase next, settled := s.settled.insert node } := by
  intro v x hx
  have hw := hs v x hx
  exact ⟨hw.path, hw.amount_eq, fun h hh => TreeSet.mem_insert.mpr (Or.inr (hw.settled h hh))⟩

/-- The search after the node of `next` has been settled with way `w`. -/
def expand (g : Graph) (maxEdges : Nat) (s : Search) (next : Waiting) (w : Way) : Search :=
  let s := { s with waiting := s.waiting.erase next, settled := s.settled.insert next.2.2 }
  if maxEdges ≤ w.path.length then s else (g.incoming next.2.2).foldl (relax g.selfId w) s

theorem run_succ (g : Graph) (source : String) (maxEdges fuel : Nat) (s : Search) :
    run g source maxEdges (fuel + 1) s =
      match s.waiting.min? with
      | none => none
      | some next =>
        match s.ways[next.2.2]? with
        | none => none
        | some w =>
          if next.2.2 == source then some w.path
          else run g source maxEdges fuel (s.expand g maxEdges next w) := rfl

/-- The search that reads the next node to settle off the list of those that wait. -/
def runListed (g : Graph) (source : String) (maxEdges : Nat) :
    Nat → Search → Option (List Half)
  | 0, _ => none
  | fuel + 1, s =>
    match s.waiting.toList.head? with
    | none => none
    | some next =>
      match s.ways[next.2.2]? with
      | none => none
      | some w =>
        if next.2.2 == source then some w.path
        else runListed g source maxEdges fuel (s.expand g maxEdges next w)

/-- Read off the list, the nodes of a search on given channels can be evaluated. -/
theorem run_eq_runListed (g : Graph) (source : String) (maxEdges fuel : Nat) (s : Search) :
    run g source maxEdges fuel s = runListed g source maxEdges fuel s := by
  induction fuel generalizing s with
  | zero => rfl
  | succ fuel ih =>
      rw [run_succ, runListed, TreeSet.min?_eq_head?_toList]
      simp only [ih]

theorem Sound.expand (hg : g.Keyed) {s : Search} (hs : Sound g target amount maxEdges s)
    (next : Waiting) {w : Way} (hw : s.ways[next.2.2]? = some w) :
    Sound g target amount maxEdges (s.expand g maxEdges next w) := by
  have hsettle := hs.settle next next.2.2
  unfold Search.expand
  split
  · exact hsettle
  · rename_i hl
    have hn : next.2.2 ∈ s.settled.insert next.2.2 :=
      TreeSet.mem_insert.mpr (Or.inl ReflCmp.compare_self)
    exact hsettle.relaxAll (hsettle _ w hw) hn (Nat.lt_of_not_le hl) fun h hh => hg.mem_incoming hh

/-- What a sound search returns is a path from `source`. -/
theorem Sound.isPath_of_run {source : String} (hg : g.Keyed) {fuel : Nat} {s : Search}
    (hs : Sound g target amount maxEdges s) {path : List Half}
    (hrun : run g source maxEdges fuel s = some path) :
    g.IsPath source target amount maxEdges path := by
  -- Every expansion keeps the search sound, and what is returned is one of its ways.
  induction fuel generalizing s with
  | zero => cases hrun
  | succ fuel ih =>
      rw [run_succ] at hrun
      split at hrun
      · cases hrun
      · rename_i next _
        split at hrun
        · cases hrun
        · rename_i w hw
          split at hrun
          · rename_i hsource
            cases hrun
            exact beq_iff_eq.mp hsource ▸ (hs _ w hw).path
          · exact ih (hs.expand hg next hw) hrun

end Search

namespace Graph

/-- From a node to itself leads the empty path. -/
theorem findPath_self {g : Graph} {node : String} (h : node ≠ g.selfId) (amount : Msat)
    (maxEdges : Nat) : g.findPath node node amount maxEdges = some [] := by
  have hmin : (Search.start node amount).waiting.min? = some (Search.key node ⟨[], 0, amount⟩) :=
    TreeSet.min?_insert_of_isEmpty rfl
  have hway : (Search.start node amount).ways[node]? = some ⟨[], 0, amount⟩ :=
    TreeMap.getElem?_insert_self
  unfold findPath
  rw [if_neg (by simp [h]), Search.run_succ, hmin]
  simp only [Search.key, hway, beq_self_eq_true, if_true]

/-- What is found on given channels can be evaluated. -/
theorem findPath_eq_runListed (g : Graph) (source target : String) (amount : Msat)
    (maxEdges : Nat) :
    g.findPath source target amount maxEdges =
      if source == g.selfId || target == g.selfId then none
      else Search.runListed g source maxEdges (g.halves.size + 1) (.start target amount) := by
  rw [findPath, Search.run_eq_runListed]

/-- A path that is found avoids the local node, meets no node twice, and can carry the amount. -/
theorem Keyed.isPath_of_findPath {g : Graph} (hg : g.Keyed) {source target : String}
    {amount : Msat} {maxEdges : Nat} {path : List Half}
    (h : g.findPath source target amount maxEdges = some path) :
    source ≠ g.selfId ∧ target ≠ g.selfId ∧ g.IsPath source target amount maxEdges path := by
  unfold findPath at h
  split at h
  · cases h
  · rename_i hends
    simp only [Bool.or_eq_true, beq_iff_eq, not_or] at hends
    exact ⟨hends.1, hends.2,
      (Search.sound_start g target amount maxEdges).isPath_of_run hg h⟩

end Graph

end Rebalancer
