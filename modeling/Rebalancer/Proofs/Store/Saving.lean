import Rebalancer.Proofs.Graph.Listing
import Rebalancer.Proofs.Graph.Restart
import Rebalancer.Store.Transaction

set_option autoImplicit false

/-! # Saving a graph is all or nothing

The halves of a graph have distinct names and its nodes distinct ids, so of the constraints of the
tables only that on directions can be broken. It is broken just if a half has a direction other than
0 and 1, wherever this half stands in the order in which the rows are written. The rows before it
are written then, and the transaction takes them back (`write_of_refused`). Otherwise the tables end
up with the rows of the graph and no others (`write_of_admitted`).
-/

namespace Rebalancer

/-- The table of halves admits the direction. -/
def Half.Admitted (h : Half) : Prop := h.id.direction = 0 ∨ h.id.direction = 1

theorem Half.admitted_iff {h : Half} : h.Admitted ↔ h.id.direction ≤ 1 := by
  have hzero : (0 : UInt8).toNat = 0 := rfl
  have hone : (1 : UInt8).toNat = 1 := rfl
  rw [Admitted, UInt8.le_iff_toNat_le, ← UInt8.toNat_inj, ← UInt8.toNat_inj, hzero, hone]
  omega

instance (h : Half) : Decidable h.Admitted := inferInstanceAs (Decidable (_ ∨ _))

/-- The row of a node. -/
def Node.row (n : Node) : String × String := (n.id, n.nickname)

namespace Snapshot

variable {s : Snapshot} {h : Half} {n : Node} {halves before rest : List Half} {nodes : List Node}

/-! ## Rows -/

theorem valid_ofHalf : (HalfRow.ofHalf h).valid = true ↔ h.Admitted :=
  decide_eq_true_iff.trans Half.admitted_iff.symm

theorem insertHalf_of_admitted (admitted : h.Admitted) (fresh : ∀ r ∈ s.halves, r.half.id ≠ h.id) :
    insertHalf h s = (.ok (), { s with halves := s.halves ++ [.ofHalf h] }) := by
  have hfresh : (s.halves.any fun r => r.half.id == h.id) = false := by
    rw [List.any_eq_false]
    intro r hr
    exact fun heq => fresh r hr (eq_of_beq heq)
  unfold insertHalf
  dsimp only
  rw [if_pos (valid_ofHalf.mpr admitted), hfresh]
  rfl

theorem insertHalf_of_refused (refused : ¬ h.Admitted) :
    insertHalf h s = (.error .direction, s) := by
  unfold insertHalf
  dsimp only
  rw [if_neg (mt valid_ofHalf.mp refused)]

theorem insertNode_of_fresh (fresh : ∀ r ∈ s.nodes, r.1 ≠ n.id) :
    insertNode n s = (.ok (), { s with nodes := s.nodes ++ [n.row] }) := by
  have hfresh : (s.nodes.any (·.1 == n.id)) = false := by
    rw [List.any_eq_false]
    intro r hr
    exact fun heq => fresh r hr (eq_of_beq heq)
  unfold insertNode
  rw [hfresh]
  rfl

/-! ## Tables -/

/-- Halves that the table admits are written in their order, whatever is to be written after them.
-/
theorem insertHalves_append (admitted : ∀ h ∈ before, h.Admitted)
    (distinct : (before.map (·.id)).Nodup)
    (fresh : ∀ h ∈ before, ∀ r ∈ s.halves, r.half.id ≠ h.id) (written : Nat) :
    insertHalves (before ++ rest) written s =
      insertHalves rest (written + before.length)
        { s with halves := s.halves ++ before.map .ofHalf } := by
  induction before generalizing s written with
  | nil => simp
  | cons h more ih =>
      rw [List.map_cons, List.nodup_cons] at distinct
      have hmore : ∀ k ∈ more, ∀ r ∈ s.halves ++ [HalfRow.ofHalf h], r.half.id ≠ k.id := by
        intro k hk r hr
        rcases List.mem_append.mp hr with hr | hr
        · exact fresh k (List.mem_cons_of_mem h hk) r hr
        · rw [List.mem_singleton.mp hr, HalfRow.half_ofHalf]
          intro heq
          exact distinct.1 (heq ▸ List.mem_map_of_mem hk)
      rw [List.cons_append, insertHalves,
        insertHalf_of_admitted (admitted h List.mem_cons_self) (fresh h List.mem_cons_self)]
      dsimp only
      rw [ih (fun k hk => admitted k (List.mem_cons_of_mem h hk)) distinct.2 hmore]
      rw [List.map_cons, List.length_cons, List.append_assoc, Nat.add_right_comm]
      rfl

theorem insertNodes_eq (distinct : (nodes.map (·.id)).Nodup)
    (fresh : ∀ n ∈ nodes, ∀ r ∈ s.nodes, r.1 ≠ n.id) :
    insertNodes nodes s = (.ok (), { s with nodes := s.nodes ++ nodes.map Node.row }) := by
  induction nodes generalizing s with
  | nil => simp [insertNodes]
  | cons n more ih =>
      rw [List.map_cons, List.nodup_cons] at distinct
      have hmore : ∀ k ∈ more, ∀ r ∈ s.nodes ++ [n.row], r.1 ≠ k.id := by
        intro k hk r hr
        rcases List.mem_append.mp hr with hr | hr
        · exact fresh k (List.mem_cons_of_mem n hk) r hr
        · rw [List.mem_singleton.mp hr]
          intro heq
          exact distinct.1 (List.mem_map.mpr ⟨k, hk, heq.symm⟩)
      rw [insertNodes, insertNode_of_fresh (fresh n List.mem_cons_self)]
      dsimp only
      rw [ih distinct.2 hmore, List.map_cons, List.append_assoc]
      rfl

/-- If all halves are admitted, the tables end up with the rows of the halves and nodes. -/
theorem replace_of_admitted (admitted : ∀ h ∈ halves, h.Admitted)
    (distinct : (halves.map (·.id)).Nodup) (distinct_nodes : (nodes.map (·.id)).Nodup) :
    replace halves nodes s =
      (.ok halves.length, ⟨halves.map .ofHalf, nodes.map Node.row⟩) := by
  have hhalves := @insertHalves_append ⟨[], []⟩ halves [] admitted distinct
    (fun _ _ _ hr => absurd hr List.not_mem_nil) 0
  have hnodes := @insertNodes_eq ⟨halves.map .ofHalf, []⟩ nodes distinct_nodes
    (fun _ _ _ hr => absurd hr List.not_mem_nil)
  rw [List.append_nil, insertHalves] at hhalves
  unfold replace
  dsimp only
  rw [hhalves]
  dsimp only
  rw [List.nil_append, hnodes]
  simp

/-- The first half that is not admitted ends the writing. The rows before it stand in the table
then, and no node. -/
theorem replace_of_refused (admitted : ∀ h ∈ before, h.Admitted) (refused : ¬ h.Admitted)
    (distinct : (before.map (·.id)).Nodup) :
    replace (before ++ h :: rest) nodes s = (.error .direction, ⟨before.map .ofHalf, []⟩) := by
  have hhalves := @insertHalves_append ⟨[], []⟩ before (h :: rest) admitted distinct
    (fun _ _ _ hr => absurd hr List.not_mem_nil) 0
  rw [insertHalves, insertHalf_of_refused refused] at hhalves
  unfold replace
  dsimp only
  rw [hhalves]
  rfl

end Snapshot

/-! ## Transactions -/

namespace Store

variable {s : Store} {halves : List Half} {nodes : List Node}

theorem write_of_admitted (admitted : ∀ h ∈ halves, h.Admitted)
    (distinct : (halves.map (·.id)).Nodup) (distinct_nodes : (nodes.map (·.id)).Nodup) :
    s.write halves nodes = (.ok halves.length,
      { s with snapshot := ⟨halves.map .ofHalf, nodes.map Node.row⟩ }) := by
  unfold write transact
  rw [Snapshot.replace_of_admitted admitted distinct distinct_nodes]

theorem write_of_refused (refused : ∃ h ∈ halves, ¬ h.Admitted)
    (distinct : (halves.map (·.id)).Nodup) :
    s.write halves nodes = (.error .direction, s) := by
  -- The halves before the first that is not admitted are written, and this one is refused.
  obtain ⟨h, hfound⟩ : ∃ h, halves.find? (fun h => ¬ h.Admitted) = some h := by
    rw [← Option.isSome_iff_exists, List.find?_isSome]
    obtain ⟨h, hh, hrefused⟩ := refused
    exact ⟨h, hh, decide_eq_true hrefused⟩
  obtain ⟨hrefused, before, rest, rfl, hbefore⟩ := List.find?_eq_some_iff_append.mp hfound
  have hadmitted : ∀ h ∈ before, h.Admitted := by
    intro h hh
    simpa using hbefore h hh
  rw [List.map_append] at distinct
  unfold write transact
  rw [Snapshot.replace_of_refused hadmitted (of_decide_eq_true hrefused) distinct.of_append_left]

end Store

/-! ## Graphs -/

/-- The tables have a row for each half and each node of the graph, and no others. -/
structure Snapshot.Keeps (t : Snapshot) (g : Graph) : Prop where
  halves : (t.halves.map HalfRow.half).Perm g.halves.values
  nodes : t.nodes.Perm (g.nodes.values.map Node.row)

namespace Graph

variable {g : Graph}

theorem nodup_ids_nodes (hg : g.Known) : (g.nodes.values.map (·.id)).Nodup := by
  have hkeys : g.nodes.values.map (·.id) = g.nodes.keys := by
    rw [values_eq_map_toList, List.map_map, ← Std.TreeMap.map_fst_toList_eq_keys]
    refine List.map_congr_left fun e he => ?_
    exact hg.id_eq (Std.TreeMap.mem_toList_iff_getElem?_eq_some.mp he)
  rw [hkeys]
  exact Std.TreeMap.nodup_keys

theorem save_of_admitted (admitted : ∀ h ∈ g.halves.values, h.Admitted) (s : Store) :
    s.save g =
      { s with snapshot := ⟨g.halves.values.map .ofHalf, g.nodes.values.map Node.row⟩ } := by
  have hvalid : (g.halves.values.map HalfRow.ofHalf).all HalfRow.valid = true := by
    rw [List.all_map, List.all_eq_true]
    exact fun h hh => Snapshot.valid_ofHalf.mpr (admitted h hh)
  rw [Store.save, Snapshot.ofGraph?, if_pos hvalid]
  rfl

theorem save_of_refused (refused : ∃ h ∈ g.halves.values, ¬ h.Admitted) (s : Store) :
    s.save g = s := by
  obtain ⟨h, hh, hrefused⟩ := refused
  have hinvalid : ¬ (g.halves.values.map HalfRow.ofHalf).all HalfRow.valid = true := by
    intro hall
    rw [List.all_map, List.all_eq_true] at hall
    exact hrefused (Snapshot.valid_ofHalf.mp (hall h hh))
  rw [Store.save, Snapshot.ofGraph?, if_neg hinvalid]

/-- To save a graph is to write it in the order of its own tables. -/
theorem write_values_eq_save (hg : g.Reachable) (s : Store) :
    (s.write g.halves.values g.nodes.values).2 = s.save g := by
  have distinct := nodup_ids_values hg.keyed
  by_cases hall : ∀ h ∈ g.halves.values, h.Admitted
  · rw [Store.write_of_admitted hall distinct (nodup_ids_nodes hg.known), save_of_admitted hall]
  · obtain ⟨h, hh, hrefused⟩ := not_forall₂.mp hall
    have refused : ∃ h ∈ g.halves.values, ¬ h.Admitted := ⟨h, hh, hrefused⟩
    rw [Store.write_of_refused refused distinct, save_of_refused refused]

/-- A graph is saved as a whole or not at all, in whatever order its halves and nodes are written
and whatever the tables held before. -/
theorem save_all_or_nothing (hg : g.Reachable) {halves : List Half} {nodes : List Node}
    (order : halves.Perm g.halves.values) (order_nodes : nodes.Perm g.nodes.values) :
    ((∃ h ∈ g.halves.values, ¬ h.Admitted) → ∀ s : Store,
      s.write halves nodes = (.error .direction, s) ∧ s.save g = s) ∧
    ((∀ h ∈ g.halves.values, h.Admitted) → ∃ t : Snapshot, t.Keeps g ∧ ∀ s : Store,
      s.write halves nodes = (.ok g.halves.size, { s with snapshot := t })) ∧
    ∀ s : Store, (s.write g.halves.values g.nodes.values).2 = s.save g := by
  have distinct : (halves.map (·.id)).Nodup :=
    (order.map _).nodup_iff.mpr (nodup_ids_values hg.keyed)
  have distinct_nodes : (nodes.map (·.id)).Nodup :=
    (order_nodes.map _).nodup_iff.mpr (nodup_ids_nodes hg.known)
  refine ⟨fun hrefused s => ⟨?_, save_of_refused hrefused s⟩, fun hadmitted => ?_,
    write_values_eq_save hg⟩
  · refine Store.write_of_refused ?_ distinct
    obtain ⟨h, hh, hrefused⟩ := hrefused
    exact ⟨h, order.mem_iff.mpr hh, hrefused⟩
  · refine ⟨⟨halves.map .ofHalf, nodes.map Node.row⟩, ⟨?_, order_nodes.map _⟩, fun s => ?_⟩
    · have hround : HalfRow.half ∘ HalfRow.ofHalf = id := funext HalfRow.half_ofHalf
      rw [List.map_map, hround, List.map_id]
      exact order
    · rw [Store.write_of_admitted (fun h hh => hadmitted h (order.mem_iff.mp hh)) distinct
        distinct_nodes, order.length_eq, length_values]

/-- A graph that was restored from a snapshot with a direction that the table does not admit. -/
def restoredOdd : Graph :=
  (empty "a").restore
    [.ofPolicy "1x1" "a" "b" 1000000 none 0,
      { Half.ofPolicy "3x1" "a" "b" 1000000 none 0 with id := ⟨"3x1", 7⟩ },
      .ofPolicy "4x1" "b" "a" 1000000 none 0] [("a", "alice")]

/-- Over the snapshot of `usedStore`, one graph is not saved and another one is, both with the last
half first. -/
theorem save_all_or_nothing_usedStore :
    restoredOdd.Reachable ∧ twoChannels.Reachable ∧
      usedStore.write restoredOdd.halves.values.reverse restoredOdd.nodes.values =
        (.error .direction, usedStore) ∧
      ∃ t : Snapshot, t.Keeps twoChannels ∧
        usedStore.write twoChannels.halves.values.reverse twoChannels.nodes.values =
          (.ok 4, { usedStore with snapshot := t }) := by
  have hodd : restoredOdd.Reachable := ⟨"a", [.restore _ _], rfl⟩
  have hrefused : ∃ h ∈ restoredOdd.halves.values, ¬ h.Admitted := by decide +kernel
  have hadmitted : ∀ h ∈ twoChannels.halves.values, h.Admitted := by decide +kernel
  have hsize : twoChannels.halves.size = 4 := by decide +kernel
  obtain ⟨hnothing, -, -⟩ := save_all_or_nothing hodd (List.reverse_perm _) (.refl _)
  obtain ⟨-, hall, -⟩ := save_all_or_nothing reachable_twoChannels (List.reverse_perm _) (.refl _)
  obtain ⟨t, hkeeps, hwrite⟩ := hall hadmitted
  rw [hsize] at hwrite
  exact ⟨hodd, reachable_twoChannels, (hnothing hrefused usedStore).1, t, hkeeps,
    hwrite usedStore⟩

end Graph

end Rebalancer
