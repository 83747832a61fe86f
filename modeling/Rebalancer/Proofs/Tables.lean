import Mathlib.Algebra.BigOperators.Group.Finset.Piecewise
import Mathlib.Tactic.Ring
import Std.Data.TreeMap

set_option autoImplicit false

/-! # Rows of a table

The rows of a table as a list, what they add up to, and how the sum changes with one row.
-/

namespace Rebalancer

open Std Finset

section Rows

variable {α β : Type} {cmp : α → α → Ordering}

theorem values_eq_map_toList (t : TreeMap α β cmp) : t.values = t.toList.map (·.2) := by
  have hfold : t.values = t.foldr (fun _ v l => v :: l) [] := rfl
  rw [hfold, TreeMap.foldr_eq_foldr_toList]
  exact (List.map_eq_foldr ..).symm

theorem length_values (t : TreeMap α β cmp) : t.values.length = t.size := by
  rw [values_eq_map_toList, List.length_map, TreeMap.length_toList]

variable [TransCmp cmp] [LawfulEqCmp cmp]

theorem mem_values_iff {t : TreeMap α β cmp} {v : β} : v ∈ t.values ↔ ∃ k : α, t[k]? = some v := by
  rw [values_eq_map_toList, List.mem_map]
  constructor
  · rintro ⟨e, he, rfl⟩
    exact ⟨e.1, TreeMap.mem_toList_iff_getElem?_eq_some.mp he⟩
  · rintro ⟨k, hk⟩
    exact ⟨(k, v), TreeMap.mem_toList_iff_getElem?_eq_some.mpr hk, rfl⟩

/-- A row is listed once. -/
theorem nodup_toList (t : TreeMap α β cmp) : t.toList.Nodup := by
  refine TreeMap.distinct_keys_toList.imp fun hne heq => hne ?_
  rw [heq]
  exact ReflCmp.compare_self

/-- Tables that give the same answers have the same rows. -/
theorem equiv_of_getElem? {t t' : TreeMap α β cmp} (h : ∀ k : α, t[k]? = t'[k]?) : t.Equiv t' := by
  refine .of_toList_perm ((List.perm_ext_iff_of_nodup (nodup_toList t) (nodup_toList t')).mpr ?_)
  rintro ⟨k, v⟩
  rw [TreeMap.mem_toList_iff_getElem?_eq_some, TreeMap.mem_toList_iff_getElem?_eq_some, h]

omit [LawfulEqCmp cmp] in
/-- Tables with the same rows give the same answers. -/
theorem getElem?_eq_of_toList {t t' : TreeMap α β cmp} (h : t'.toList = t.toList) (k : α) :
    t'[k]? = t[k]? :=
  (TreeMap.Equiv.of_toList_perm (.of_eq h)).getElem?_eq

/-- Of what the rows of a table give, the last that `p` looks for is that of the row under `k`, if
`p` looks for what this row gives only. -/
theorem find?_reverse_flatMap_toList {γ : Type} {t : TreeMap α β cmp} {f : α × β → List γ}
    {p : γ → Bool} {k : α} (h : ∀ e, ∀ x ∈ f e, p x = true → e.1 = k) :
    (t.toList.flatMap f).reverse.find? p = t[k]?.bind fun v => (f (k, v)).reverse.find? p := by
  have hrow : ∀ {e x}, (f e).reverse.find? p = some x → e.1 = k := fun {e x} hx =>
    h e x (List.mem_reverse.mp (List.mem_of_find?_eq_some hx)) (List.find?_some hx)
  rw [List.reverse_flatMap, List.find?_flatMap]
  change t.toList.reverse.findSome? (fun e => (f e).reverse.find? p) = _
  -- No other row has anything to look for, so it does not matter how many stand behind it.
  cases hfound : t.toList.reverse.findSome? fun e => (f e).reverse.find? p with
  | some x =>
      obtain ⟨e, he, hx⟩ := List.exists_of_findSome?_eq_some hfound
      have hmem := TreeMap.mem_toList_iff_getElem?_eq_some.mp (List.mem_reverse.mp he)
      obtain rfl : e.1 = k := hrow hx
      rw [hmem, Option.bind_some]
      exact hx.symm
  | none =>
      rw [List.findSome?_eq_none_iff] at hfound
      cases hk : t[k]? with
      | none => rfl
      | some v =>
          exact (hfound (k, v) (List.mem_reverse.mpr
            (TreeMap.mem_toList_iff_getElem?_eq_some.mpr hk))).symm

/-- What a table has under a key stands in the list that it was made of. -/
theorem mem_of_getElem?_ofList {l : List (α × β)} {k : α} {v : β}
    (h : (TreeMap.ofList l cmp)[k]? = some v) : (k, v) ∈ l := by
  rw [TreeMap.ofList_equiv_foldl.getElem?_eq] at h
  -- From the left, each row is put in the place of an earlier one with its key.
  suffices ∀ t : TreeMap α β cmp, (l.foldl (fun t e => t.insert e.1 e.2) t)[k]? = some v →
      (k, v) ∈ l ∨ t[k]? = some v by
    rcases this ∅ h with hmem | hnone
    · exact hmem
    · rw [TreeMap.getElem?_emptyc] at hnone
      cases hnone
  clear h
  induction l with
  | nil => exact fun t ht => Or.inr ht
  | cons e rest ih =>
      intro t ht
      rcases ih _ ht with hmem | hput
      · exact Or.inl (List.mem_cons_of_mem e hmem)
      · rw [TreeMap.getElem?_insert] at hput
        split at hput
        · rename_i hkey
          obtain rfl : e.1 = k := LawfulEqCmp.eq_of_compare hkey
          cases hput
          exact Or.inl List.mem_cons_self
        · exact Or.inr hput

/-- A table made anew from its rows gives the same answers. -/
theorem equiv_ofList_toList (t : TreeMap α β cmp) : (TreeMap.ofList t.toList cmp).Equiv t := by
  refine equiv_of_getElem? fun k => Option.ext fun v => ⟨fun h => ?_, fun h => ?_⟩
  · exact TreeMap.mem_toList_iff_getElem?_eq_some.mp (mem_of_getElem?_ofList h)
  · exact TreeMap.getElem?_ofList_of_mem ReflCmp.compare_self TreeMap.distinct_keys_toList
      (TreeMap.mem_toList_iff_getElem?_eq_some.mpr h)

end Rows

variable {α β : Type} {cmp : α → α → Ordering}

/-- What the rows of a table weigh together. -/
def total (weight : α → β → Int) (t : TreeMap α β cmp) : Int :=
  (t.toList.map fun e => weight e.1 e.2).sum

/-- What the row under `k` weighs; nothing if there is none. -/
def weightAt (weight : α → β → Int) (t : TreeMap α β cmp) (k : α) : Int :=
  (t[k]?.map (weight k)).getD 0

variable [TransCmp cmp] [LawfulEqCmp cmp] [DecidableEq α]

/-- The total is the sum over any set of keys that has all keys of the table. -/
theorem total_eq_sum (weight : α → β → Int) {t : TreeMap α β cmp} {s : Finset α}
    (h : ∀ k ∈ t, k ∈ s) : total weight t = ∑ k ∈ s, weightAt weight t k := by
  have hmem : ∀ e ∈ t.toList, t[e.1]? = some e.2 := fun e he =>
    TreeMap.mem_toList_iff_getElem?_eq_some.mp he
  have hkeys : t.toList.map (fun e => weight e.1 e.2) = t.keys.map (weightAt weight t) := by
    rw [← TreeMap.map_fst_toList_eq_keys, List.map_map]
    refine List.map_congr_left fun e he => ?_
    show _ = (t[e.1]?.map (weight e.1)).getD 0
    rw [hmem e he]
    rfl
  have hnodup : t.keys.Nodup := TreeMap.nodup_keys
  rw [total, hkeys, ← List.sum_toFinset _ hnodup]
  -- Keys that the table does not have weigh nothing.
  refine Finset.sum_subset (fun k hk => h k ?_) fun k _ hk => ?_
  · exact TreeMap.mem_keys.mp (List.mem_toFinset.mp hk)
  · have hnot : k ∉ t := fun hin => hk (List.mem_toFinset.mpr (TreeMap.mem_keys.mpr hin))
    rw [weightAt, TreeMap.getElem?_eq_none hnot]
    rfl

/-- Tables that differ in one row differ in their totals by that row. -/
theorem total_add_weightAt (weight : α → β → Int) {t t' : TreeMap α β cmp} (k : α)
    (h : ∀ k', k' ≠ k → t'[k']? = t[k']?) :
    total weight t' + weightAt weight t k = total weight t + weightAt weight t' k := by
  have hs : ∀ k' ∈ t, k' ∈ insert k (t.keys ++ t'.keys).toFinset := fun k' hk => by
    simp [TreeMap.mem_keys, hk]
  have hs' : ∀ k' ∈ t', k' ∈ insert k (t.keys ++ t'.keys).toFinset := fun k' hk => by
    simp [TreeMap.mem_keys, hk]
  -- Both totals are sums over the keys of both tables; off `k` these agree term by term.
  have hrest : ∑ k' ∈ (insert k (t.keys ++ t'.keys).toFinset).erase k, weightAt weight t' k' =
      ∑ k' ∈ (insert k (t.keys ++ t'.keys).toFinset).erase k, weightAt weight t k' := by
    refine Finset.sum_congr rfl fun k' hk => ?_
    rw [weightAt, weightAt, h k' (Finset.ne_of_mem_erase hk)]
  rw [total_eq_sum weight hs, total_eq_sum weight hs',
    ← Finset.add_sum_erase _ _ (Finset.mem_insert_self k _),
    ← Finset.add_sum_erase _ (weightAt weight t) (Finset.mem_insert_self k _), hrest]
  ring

end Rebalancer
