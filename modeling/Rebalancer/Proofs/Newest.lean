import Mathlib.Data.List.DropRight

set_option autoImplicit false

/-! # The newest of a list

What is kept in the order of time and cut to a capacity, such as the attempts of a history and the
payments of a ledger, is the end of a list.
-/

namespace Rebalancer

variable {α β : Type}

/-- Of a list that was cut to its last elements, what is appended to it finds the same last ones. -/
theorem rtake_rtake_append (l m : List α) (n : Nat) :
    (l.rtake n ++ m).rtake n = (l ++ m).rtake n := by
  unfold List.rtake
  rw [List.length_append, List.length_append, List.length_drop, List.drop_append, List.drop_append,
    List.drop_drop, List.length_drop]
  congr 2
  · omega
  · omega

theorem length_rtake_le (l : List α) (n : Nat) : (l.rtake n).length ≤ n := by
  rw [List.rtake, List.length_drop]
  omega

theorem rtake_of_length_le {l : List α} {n : Nat} (h : l.length ≤ n) : l.rtake n = l := by
  rw [List.rtake, Nat.sub_eq_zero_of_le h, List.drop_zero]

theorem rtake_cons_of_le {a : α} {l : List α} {n : Nat} (h : n ≤ l.length) :
    (a :: l).rtake n = l.rtake n := by
  rw [List.rtake, List.length_cons, Nat.succ_sub h, List.drop_succ_cons]
  rfl

theorem rtake_suffix (l : List α) (n : Nat) : l.rtake n <:+ l := List.drop_suffix _ l

theorem rtake_map (f : α → β) (l : List α) (n : Nat) : (l.map f).rtake n = (l.rtake n).map f := by
  rw [List.rtake, List.rtake, List.length_map, List.map_drop]

/-- If all that come after one that passes pass too, it is the same to take the newest of those that
pass and those of the newest that pass. -/
theorem rtake_filter {p : α → Bool} {l : List α}
    (h : l.Pairwise fun a b => p a = true → p b = true) (n : Nat) :
    (l.filter p).rtake n = (l.rtake n).filter p := by
  induction l with
  | nil => simp
  | cons a rest ih =>
      obtain ⟨hlater, hrest⟩ := List.pairwise_cons.mp h
      by_cases hp : p a = true
      · -- Then all pass, in the whole list as in the newest.
        have hall : ∀ b ∈ a :: rest, p b = true := by
          intro b hb
          rcases List.mem_cons.mp hb with rfl | hb
          · exact hp
          · exact hlater b hb hp
        have hnewest : ∀ b ∈ (a :: rest).rtake n, p b = true :=
          fun b hb => hall b ((rtake_suffix _ n).subset hb)
        rw [List.filter_eq_self.mpr hall, List.filter_eq_self.mpr hnewest]
      · rw [List.filter_cons_of_neg hp]
        rcases Nat.lt_or_ge rest.length n with hn | hn
        · -- There are not too many, and `a` is dropped by the filter.
          have hlength := Nat.le_trans (List.length_filter_le p rest) (Nat.le_of_lt hn)
          rw [rtake_of_length_le hlength, rtake_of_length_le hn, List.filter_cons_of_neg hp]
        · rw [rtake_cons_of_le hn, ih hrest]

/-- The end of a list is found again by its keys, if no two keys are the same. -/
theorem filter_contains_suffix [BEq β] [LawfulBEq β] {key : α → β} {l after : List α}
    (hs : after <:+ l) (distinct : (l.map key).Nodup) :
    l.filter (fun a => (after.map key).contains (key a)) = after := by
  obtain ⟨before, rfl⟩ := hs
  rw [List.map_append, List.nodup_append] at distinct
  have hbefore : before.filter (fun a => (after.map key).contains (key a)) = [] := by
    refine List.filter_eq_nil_iff.mpr fun a ha hkey => ?_
    exact distinct.2.2 _ (List.mem_map_of_mem ha) _ (List.contains_iff_mem.mp hkey) rfl
  have hafter : after.filter (fun a => (after.map key).contains (key a)) = after :=
    List.filter_eq_self.mpr fun a ha => List.contains_iff_mem.mpr (List.mem_map_of_mem ha)
  rw [List.filter_append, hbefore, hafter, List.nil_append]

end Rebalancer
