import Rebalancer.Proofs.Graph.Reachable

set_option autoImplicit false

/-! # Known nodes

A node is kept with its id, its alias and whether it is connected, of which the last is derived
from everything else. Every node stands under its own id, and both ends of a half are known
(`Known`). Whatever adds a half or an alias makes its nodes known first, and none is dropped.
-/

namespace Rebalancer.Graph

open Std

/-! ## Id and alias -/

/-- Id and alias of the node under `id`. -/
def named? (g : Graph) (id : String) : Option (String × String) :=
  g.nodes[id]?.map fun n => (n.id, n.nickname)

theorem mem_nodes_iff {g : Graph} {id : String} : id ∈ g.nodes ↔ (g.named? id).isSome = true := by
  rw [TreeMap.mem_iff_isSome_getElem?, named?, Option.isSome_map]

theorem mem_nodes_congr {g g' : Graph} {id : String} (h : g'.named? id = g.named? id) :
    id ∈ g'.nodes ↔ id ∈ g.nodes := by
  rw [mem_nodes_iff, mem_nodes_iff, h]

theorem named?_ensureNode (g : Graph) (id k : String) :
    (g.ensureNode id).named? k =
      if id = k then some ((g.named? k).getD (k, "")) else g.named? k := by
  show Option.map _ (g.nodes.insertIfNew id { id := id })[k]? = _
  rw [TreeMap.getElem?_insertIfNew]
  by_cases hk : id = k
  · subst hk
    rw [if_pos rfl]
    by_cases hmem : id ∈ g.nodes
    · -- A node that is known stays what it is.
      obtain ⟨p, hp⟩ := Option.isSome_iff_exists.mp (mem_nodes_iff.mp hmem)
      rw [if_neg (fun h => h.2 hmem), ← named?, hp, Option.getD_some]
    · have hnone : g.named? id = none := by rw [named?, TreeMap.getElem?_eq_none hmem]; rfl
      rw [if_pos ⟨ReflCmp.compare_self, hmem⟩, hnone]
      rfl
  · rw [if_neg (fun h => hk (LawfulEqCmp.eq_of_compare h.1)), if_neg hk, named?]

theorem named?_nameNode (g : Graph) (id : String) (nickname : Option String) (k : String) :
    (g.nameNode id nickname).named? k =
      if id = k then
        some (((g.named? k).getD (k, "")).1, nickname.getD ((g.named? k).getD (k, "")).2)
      else g.named? k := by
  cases nickname with
  | none => exact named?_ensureNode g id k
  | some nickname =>
      show Option.map _ ((g.ensureNode id).nodes.modify id _)[k]? = _
      rw [TreeMap.getElem?_modify]
      have hensured := named?_ensureNode g id k
      by_cases hk : id = k
      · subst hk
        rw [if_pos rfl] at hensured
        obtain ⟨n, hn, hp⟩ := Option.map_eq_some_iff.mp hensured
        rw [if_pos ReflCmp.compare_self, if_pos rfl, hn, ← hp]
        rfl
      · rw [if_neg hk] at hensured
        rw [if_neg (fun h => hk (LawfulEqCmp.eq_of_compare h)), if_neg hk, ← hensured, named?]

theorem named?_insertHalf (g : Graph) (h : Half) (k : String) :
    (g.insertHalf h).named? k =
      ((g.ensureNode h.source).ensureNode h.destination).named? k := rfl

/-- A half between known nodes brings no node. -/
theorem named?_insertHalf_of_mem {g : Graph} {h : Half} (hs : h.source ∈ g.nodes)
    (hd : h.destination ∈ g.nodes) (k : String) : (g.insertHalf h).named? k = g.named? k := by
  have stays : ∀ g : Graph, ∀ id ∈ g.nodes, (g.ensureNode id).named? k = g.named? k := by
    intro g id hid
    rw [named?_ensureNode]
    split
    · rename_i hk
      subst hk
      obtain ⟨p, hp⟩ := Option.isSome_iff_exists.mp (mem_nodes_iff.mp hid)
      rw [hp, Option.getD_some]
    · rfl
  have hd' : h.destination ∈ (g.ensureNode h.source).nodes :=
    TreeMap.mem_insertIfNew.mpr (Or.inr hd)
  rw [named?_insertHalf, stays _ _ hd', stays _ _ hs]

theorem named?_syncNodes (g : Graph) (k : String) : g.syncNodes.named? k = g.named? k := by
  show Option.map _ (g.nodes.map _)[k]? = _
  rw [TreeMap.getElem?_map, Option.map_map, named?]
  rfl

/-! ## Nodes that halves and names rely on -/

/-- Every node stands under its own id, and the ends of every half are known. -/
structure Known (g : Graph) : Prop where
  id_eq : ∀ {id : String} {n : Node}, g.nodes[id]? = some n → n.id = id
  ends : ∀ {id : HalfId} {h : Half}, g.halves[id]? = some h →
    h.source ∈ g.nodes ∧ h.destination ∈ g.nodes

/-- All nodes stand under their ids if they do so by their ids and aliases. -/
theorem id_eq_iff {g : Graph} : (∀ {id : String} {n : Node}, g.nodes[id]? = some n → n.id = id) ↔
    ∀ {id : String} {p : String × String}, g.named? id = some p → p.1 = id := by
  constructor
  · intro h id p hp
    obtain ⟨n, hn, rfl⟩ := Option.map_eq_some_iff.mp hp
    exact h hn
  · intro h id n hn
    exact h (p := (n.id, n.nickname)) (by rw [named?, hn]; rfl)

theorem Known.fst_eq {g : Graph} (h : g.Known) {id : String} {p : String × String}
    (hp : g.named? id = some p) : p.1 = id := id_eq_iff.mp h.id_eq hp

/-- The node that is there, or the new one. -/
theorem Known.fst_getD {g : Graph} (h : g.Known) (id : String) :
    ((g.named? id).getD (id, "")).1 = id := by
  cases hp : g.named? id with
  | none => rfl
  | some p => exact h.fst_eq hp

theorem known_empty (selfId : String) : (empty selfId).Known := by
  constructor
  · intro id n hn
    simp [empty] at hn
  · intro id h hh
    simp [empty] at hh

theorem Known.ensureNode {g : Graph} (hg : g.Known) (id : String) : (g.ensureNode id).Known := by
  constructor
  · refine id_eq_iff.mpr fun {k p} hp => ?_
    rw [named?_ensureNode] at hp
    split at hp
    · rw [← Option.some.inj hp]
      exact hg.fst_getD k
    · exact hg.fst_eq hp
  · intro k h hh
    obtain ⟨hs, hd⟩ := hg.ends hh
    exact ⟨TreeMap.mem_insertIfNew.mpr (Or.inr hs), TreeMap.mem_insertIfNew.mpr (Or.inr hd)⟩

theorem mem_nodes_nameNode {g : Graph} {id k : String} (nickname : Option String)
    (hk : k ∈ g.nodes) : k ∈ (g.nameNode id nickname).nodes := by
  have hensured : k ∈ (g.ensureNode id).nodes := TreeMap.mem_insertIfNew.mpr (Or.inr hk)
  cases nickname with
  | none => exact hensured
  | some nickname => exact TreeMap.mem_modify.mpr hensured

theorem Known.nameNode {g : Graph} (hg : g.Known) (id : String) (nickname : Option String) :
    (g.nameNode id nickname).Known := by
  constructor
  · refine id_eq_iff.mpr fun {k p} hp => ?_
    rw [named?_nameNode] at hp
    split at hp
    · rw [← Option.some.inj hp]
      exact hg.fst_getD k
    · exact hg.fst_eq hp
  · intro k h hh
    have hold : g.halves[k]? = some h := by
      cases nickname <;> exact hh
    obtain ⟨hs, hd⟩ := hg.ends hold
    exact ⟨mem_nodes_nameNode nickname hs, mem_nodes_nameNode nickname hd⟩

theorem Known.syncNodes {g : Graph} (hg : g.Known) : g.syncNodes.Known := by
  constructor
  · refine id_eq_iff.mpr fun {k p} hp => ?_
    rw [named?_syncNodes] at hp
    exact hg.fst_eq hp
  · intro k h hh
    obtain ⟨hs, hd⟩ := hg.ends hh
    exact ⟨TreeMap.mem_map.mpr hs, TreeMap.mem_map.mpr hd⟩

theorem Known.insertHalf {g : Graph} (hg : g.Known) (h : Half) : (g.insertHalf h).Known := by
  have hensured := (hg.ensureNode h.source).ensureNode h.destination
  refine ⟨hensured.id_eq, fun {k k'} hk => ?_⟩
  rw [getElem?_insertHalf] at hk
  split at hk
  · -- The ends of the new half are made known before it is added.
    cases hk
    have hs : h.source ∈ (g.ensureNode h.source).nodes :=
      TreeMap.mem_insertIfNew.mpr (Or.inl ReflCmp.compare_self)
    exact ⟨TreeMap.mem_insertIfNew.mpr (Or.inr hs),
      TreeMap.mem_insertIfNew.mpr (Or.inl ReflCmp.compare_self)⟩
  · exact hensured.ends hk

theorem Reshapes.known {g g' : Graph} (h : Reshapes g g') (hn : g'.nodes = g.nodes)
    (hg : g.Known) : g'.Known := by
  constructor
  · intro id n hn'
    exact hg.id_eq (hn ▸ hn')
  · intro id k hk
    obtain ⟨k', hk', -, hs, hd⟩ := h.exists_before hk
    rw [hn, hs, hd]
    exact hg.ends hk'

section Steps

variable {Fit : Graph → Half → Prop} {g g' : Graph}

theorem Evolves.known (h : Evolves Fit g g') (hg : g.Known) : g'.Known := by
  induction h with
  | refl g => exact hg
  | trans _ _ ih ih' => exact ih' (ih hg)
  | reshape halves nodes => exact halves.known nodes hg
  | name g id nickname => exact hg.nameNode id nickname
  | connect g => exact hg.syncNodes
  | insert fit => exact hg.insertHalf _

/-- No step drops a node. -/
theorem Evolves.mem_nodes (h : Evolves Fit g g') {id : String} (hid : id ∈ g.nodes) :
    id ∈ g'.nodes := by
  induction h with
  | refl g => exact hid
  | trans _ _ ih ih' => exact ih' (ih hid)
  | reshape _ nodes => rwa [nodes]
  | name g _ nickname => exact mem_nodes_nameNode nickname hid
  | connect g => exact TreeMap.mem_map.mpr hid
  | insert fit =>
      exact TreeMap.mem_insertIfNew.mpr (Or.inr (TreeMap.mem_insertIfNew.mpr (Or.inr hid)))

end Steps

theorem Reachable.known {g : Graph} (h : g.Reachable) : g.Known :=
  h.induct known_empty fun g c ih => (evolves_after g c).known ih

end Rebalancer.Graph
