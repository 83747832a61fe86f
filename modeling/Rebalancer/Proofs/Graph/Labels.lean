import Mathlib.Data.Prod.Lex
import Mathlib.Logic.Function.Basic
import Mathlib.Order.WithBot
import Rebalancer.Proofs.Graph.Paths

set_option autoImplicit false

/-! # The labels of a search

Of two ways that are equally good a search keeps the one it saw first, so the ways it keeps depend
on the order in which the halves are listed. What it decides by does not. The label of a node, which
is fee and length of its way (`Search.labelAt`), is the least of all that were offered, in whatever
order they came. Which nodes wait follows from the labels (`Search.Queues`), and what a way carries
follows from its fee (`Way.Priced`).
-/

namespace Rebalancer

open Std

/-! ## What halves charge -/

/-- What the halves charge together for `amount` to arrive, as an exact sum. -/
def chargedBy (amount : Msat) : List Half → Nat
  | [] => 0
  | h :: rest => chargedBy amount rest + (h.fee (amountInto amount rest)).toNat

theorem toNat_amountInto (amount : Msat) (l : List Half) :
    (amountInto amount l).toNat = min (amount.toNat + chargedBy amount l) maxWord := by
  induction l with
  | nil =>
      have := toNat_le_maxWord amount
      simp only [amountInto, chargedBy]
      omega
  | cons h rest ih =>
      rw [amountInto, toNat_addClamped, ih, chargedBy]
      omega

namespace Way

variable {w v : Way} {amount : Msat}

/-- What ways are compared by: the fee, then the number of halves. -/
def label (w : Way) : ℕ ×ₗ ℕ := toLex (w.fee.toNat, w.path.length)

theorem better_iff : w.better v = true ↔ w.label < v.label := by
  rw [label, label, Prod.Lex.toLex_lt_toLex, better]
  simp only [Bool.or_eq_true, Bool.and_eq_true, decide_eq_true_eq, beq_iff_eq,
    UInt64.lt_iff_toNat_lt, UInt64.toNat_inj]

theorem label_le_of_better (h : w.better v = true) : w.label ≤ v.label := (better_iff.mp h).le

theorem label_le_of_not_better (h : ¬ w.better v = true) : v.label ≤ w.label :=
  le_of_not_gt fun hlt => h (better_iff.mpr hlt)

theorem label_eq_iff : w.label = v.label ↔ w.fee = v.fee ∧ w.path.length = v.path.length := by
  rw [label, label, toLex_inj, Prod.mk.injEq, UInt64.toNat_inj]

/-- Fee and amount of the way are those of its path. -/
structure Priced (amount : Msat) (w : Way) : Prop where
  fee : w.fee = clampWord (chargedBy amount w.path)
  amount : w.amount = amountInto amount w.path

theorem priced_nil (amount : Msat) : Priced amount ⟨[], 0, amount⟩ := ⟨rfl, rfl⟩

theorem Priced.extend (hw : w.Priced amount) (h : Half) : (w.extend h).Priced amount := by
  constructor
  · show addClamped w.fee (h.fee w.amount) = clampWord (chargedBy amount (h :: w.path))
    rw [← UInt64.toNat_inj, toNat_addClamped, toNat_clampWord, hw.fee, toNat_clampWord, hw.amount,
      chargedBy]
    omega
  · show addClamped w.amount (h.fee w.amount) = amountInto amount (h :: w.path)
    rw [hw.amount]
    rfl

/-- Ways of one fee carry one amount. -/
theorem Priced.amount_eq (hw : w.Priced amount) (hv : v.Priced amount) (h : w.fee = v.fee) :
    w.amount = v.amount := by
  have hcharged : min (chargedBy amount w.path) maxWord =
      min (chargedBy amount v.path) maxWord := by
    rw [← toNat_clampWord, ← toNat_clampWord, ← hw.fee, ← hv.fee, h]
  rw [hw.amount, hv.amount, ← UInt64.toNat_inj, toNat_amountInto, toNat_amountInto]
  omega

/-- The label of a longer way depends on the label of the way and on what it carries. -/
theorem label_extend (hl : w.label = v.label) (ha : w.amount = v.amount) (h : Half) :
    (w.extend h).label = (v.extend h).label := by
  obtain ⟨hfee, hlength⟩ := label_eq_iff.mp hl
  refine label_eq_iff.mpr ⟨?_, ?_⟩
  · show addClamped w.fee (h.fee w.amount) = addClamped v.fee (h.fee v.amount)
    rw [hfee, ha]
  · show w.path.length + 1 = v.path.length + 1
    rw [hlength]

end Way

instance : LawfulEqCmp Waiting.compare where
  eq_of_compare := by
    rintro ⟨fee, length, node⟩ ⟨fee', length', node'⟩ h
    obtain ⟨hfee, hrest⟩ := compareLex_eq_eq.mp h
    obtain ⟨hlength, hnode⟩ := compareLex_eq_eq.mp hrest
    obtain rfl : fee = fee' := LawfulEqCmp.eq_of_compare hfee
    obtain rfl : length = length' := LawfulEqCmp.eq_of_compare hlength
    obtain rfl : node = node' := LawfulEqCmp.eq_of_compare hnode
    rfl

namespace Search

variable {s : Search} {amount : Msat} {selfId node : String} {w : Way}

/-! ## Labels of nodes -/

/-- The label of the way known from `node`. A node that is not reached comes after all labels. -/
def labelAt (s : Search) (node : String) : WithTop (ℕ ×ₗ ℕ) :=
  s.ways[node]?.elim ⊤ fun w => (w.label : WithTop (ℕ ×ₗ ℕ))

theorem labelAt_of_some (h : s.ways[node]? = some w) : s.labelAt node = w.label := by
  rw [labelAt, h]
  rfl

theorem labelAt_of_none (h : s.ways[node]? = none) : s.labelAt node = ⊤ := by
  rw [labelAt, h]
  rfl

theorem exists_way_of_labelAt {l : ℕ ×ₗ ℕ} (h : s.labelAt node = l) :
    ∃ w, s.ways[node]? = some w ∧ w.label = l := by
  cases hw : s.ways[node]? with
  | none =>
      rw [labelAt_of_none hw] at h
      cases h
  | some w =>
      rw [labelAt_of_some hw] at h
      exact ⟨w, rfl, WithTop.coe_inj.mp h⟩

/-- An offered way changes the label of its node at most, to its own if that is less. -/
theorem labelAt_offer (s : Search) (node : String) (w : Way) :
    (s.offer node w).labelAt =
      Function.update s.labelAt node (min (s.labelAt node) w.label) := by
  -- The way that is taken in.
  have taken : ∀ s' : Search, s'.ways = s.ways.insert node w →
      s'.labelAt = Function.update s.labelAt node w.label := by
    intro s' hs'
    funext k
    rw [Function.update_apply]
    by_cases hk : k = node
    · subst hk
      rw [if_pos rfl]
      exact labelAt_of_some (by rw [hs', TreeMap.getElem?_insert_self])
    · rw [if_neg hk, labelAt, hs', TreeMap.getElem?_insert,
        if_neg fun h => hk (LawfulEqCmp.eq_of_compare h).symm, labelAt]
  unfold offer
  split
  · rename_i hnone
    rw [labelAt_of_none hnone, min_eq_right le_top]
    exact taken _ rfl
  · rename_i v hv
    rw [labelAt_of_some hv]
    split
    · rename_i hbetter
      rw [min_eq_right (WithTop.coe_le_coe.mpr (Way.label_le_of_better hbetter))]
      exact taken _ rfl
    · rename_i hworse
      rw [min_eq_left (WithTop.coe_le_coe.mpr (Way.label_le_of_not_better hworse)),
        ← labelAt_of_some hv, Function.update_eq_self]

/-- What extending way `w` by `h` makes of the labels. -/
def lower (selfId : String) (settled : TreeSet String) (w : Way)
    (labels : String → WithTop (ℕ ×ₗ ℕ)) (h : Half) : String → WithTop (ℕ ×ₗ ℕ) :=
  if h.source == selfId || settled.contains h.source || !h.canCarry w.amount then labels
  else Function.update labels h.source (min (labels h.source) (w.extend h).label)

theorem labelAt_relax (selfId : String) (w : Way) (s : Search) (h : Half) :
    (s.relax selfId w h).labelAt = lower selfId s.settled w s.labelAt h := by
  unfold relax lower
  split
  · rfl
  · exact labelAt_offer s h.source (w.extend h)

theorem settled_foldl_relax (selfId : String) (w : Way) (l : List Half) (s : Search) :
    (l.foldl (relax selfId w) s).settled = s.settled := by
  induction l generalizing s with
  | nil => rfl
  | cons h rest ih => rw [List.foldl_cons, ih, settled_relax]

theorem labelAt_foldl_relax (selfId : String) (w : Way) (l : List Half) (s : Search) :
    (l.foldl (relax selfId w) s).labelAt = l.foldl (lower selfId s.settled w) s.labelAt := by
  induction l generalizing s with
  | nil => rfl
  | cons h rest ih => rw [List.foldl_cons, List.foldl_cons, ih, settled_relax, labelAt_relax]

/-- In which order a way is extended by two halves makes no difference to the labels. -/
theorem lower_right_comm (selfId : String) (settled : TreeSet String) (w : Way)
    (labels : String → WithTop (ℕ ×ₗ ℕ)) (h k : Half) :
    lower selfId settled w (lower selfId settled w labels h) k =
      lower selfId settled w (lower selfId settled w labels k) h := by
  unfold lower
  split
  · rfl
  · split
    · rfl
    · by_cases hsource : h.source = k.source
      · rw [hsource, Function.update_self, Function.update_self, Function.update_idem,
          Function.update_idem, min_right_comm]
      · rw [Function.update_of_ne hsource, Function.update_of_ne (Ne.symm hsource),
          Function.update_comm hsource]

instance (selfId : String) (settled : TreeSet String) (w : Way) :
    RightCommutative (lower selfId settled w) := ⟨lower_right_comm selfId settled w⟩

theorem lower_congr {v : Way} (hl : w.label = v.label) (ha : w.amount = v.amount)
    (settled : TreeSet String) : lower selfId settled w = lower selfId settled v := by
  funext labels h
  unfold lower
  rw [Way.label_extend hl ha, ha]

/-! ## The nodes that wait -/

/-- The nodes that wait are those reached and not settled, each under its label. -/
def Queues (s : Search) : Prop :=
  ∀ x : Waiting, x ∈ s.waiting ↔
    s.labelAt x.2.2 = (toLex (x.1.toNat, x.2.1) : ℕ ×ₗ ℕ) ∧ x.2.2 ∉ s.settled

theorem key_eq_iff {x : Waiting} {w : Way} :
    x = key node w ↔ x.2.2 = node ∧ w.label = toLex (x.1.toNat, x.2.1) := by
  obtain ⟨fee, length, node'⟩ := x
  rw [key, Prod.mk.injEq, Prod.mk.injEq, Way.label, toLex_inj, Prod.mk.injEq, UInt64.toNat_inj]
  constructor
  · rintro ⟨rfl, rfl, rfl⟩
    exact ⟨rfl, rfl, rfl⟩
  · rintro ⟨rfl, rfl, rfl⟩
    exact ⟨rfl, rfl, rfl⟩

theorem mem_insert_waiting {t : TreeSet Waiting Waiting.compare} {x y : Waiting} :
    x ∈ t.insert y ↔ x = y ∨ x ∈ t := by
  rw [TreeSet.mem_insert, LawfulEqCmp.compare_eq_iff_eq, eq_comm]

theorem mem_erase_waiting {t : TreeSet Waiting Waiting.compare} {x y : Waiting} :
    x ∈ t.erase y ↔ x ≠ y ∧ x ∈ t := by
  rw [TreeSet.mem_erase, ne_eq, LawfulEqCmp.compare_eq_iff_eq, ne_eq, eq_comm]

theorem queues_start (target : String) (amount : Msat) : (start target amount).Queues := by
  intro x
  have hlabel : ∀ k, (start target amount).labelAt k =
      if k = target then ((⟨[], 0, amount⟩ : Way).label : WithTop (ℕ ×ₗ ℕ)) else ⊤ := by
    intro k
    show ((∅ : TreeMap String Way).insert target ⟨[], 0, amount⟩)[k]?.elim ⊤ _ = _
    by_cases hk : k = target
    · rw [hk, if_pos rfl, TreeMap.getElem?_insert_self]
      rfl
    · rw [if_neg hk, TreeMap.getElem?_insert,
        if_neg fun h => hk (LawfulEqCmp.eq_of_compare h).symm, TreeMap.getElem?_emptyc]
      rfl
  have hwaiting : x ∈ (start target amount).waiting ↔ x = key target ⟨[], 0, amount⟩ := by
    show x ∈ (∅ : TreeSet Waiting Waiting.compare).insert _ ↔ _
    rw [mem_insert_waiting, or_iff_left TreeSet.not_mem_emptyc]
  have hopen : x.2.2 ∉ (start target amount).settled := TreeSet.not_mem_emptyc
  rw [hwaiting, key_eq_iff, hlabel, and_iff_left hopen]
  by_cases hk : x.2.2 = target
  · rw [if_pos hk, and_iff_right hk, WithTop.coe_inj]
  · rw [if_neg hk, iff_false_left fun h => hk h.1]
    exact WithTop.top_ne_coe

/-- An offered way keeps the queue in order if its node is not settled. -/
theorem Queues.offer (hs : s.Queues) (hopen : node ∉ s.settled) : (s.offer node w).Queues := by
  intro x
  rw [settled_offer, labelAt_offer, Function.update_apply]
  by_cases hk : x.2.2 = node
  · subst hk
    rw [if_pos rfl, and_iff_left hopen]
    have hold := hs x
    rw [and_iff_left hopen] at hold
    unfold Search.offer
    split
    · rename_i hnone
      rw [labelAt_of_none hnone] at hold ⊢
      rw [min_eq_right le_top, WithTop.coe_inj]
      show x ∈ s.waiting.insert _ ↔ _
      rw [mem_insert_waiting, key_eq_iff, and_iff_right rfl, or_iff_left]
      exact fun h => WithTop.top_ne_coe (hold.mp h)
    · rename_i v hv
      rw [labelAt_of_some hv] at hold ⊢
      split
      · rename_i hbetter
        rw [min_eq_right (WithTop.coe_le_coe.mpr (Way.label_le_of_better hbetter)), WithTop.coe_inj]
        show x ∈ (s.waiting.erase _).insert _ ↔ _
        rw [mem_insert_waiting, key_eq_iff, and_iff_right rfl, or_iff_left]
        -- The node has waited under the label of the way it had.
        intro h
        obtain ⟨hne, hmem⟩ := mem_erase_waiting.mp h
        exact hne (key_eq_iff.mpr ⟨rfl, WithTop.coe_inj.mp (hold.mp hmem)⟩)
      · rename_i hworse
        rw [min_eq_left (WithTop.coe_le_coe.mpr (Way.label_le_of_not_better hworse))]
        exact hold
  · -- A node other than that of the way goes on to wait as it did.
    rw [if_neg hk, ← hs x]
    have hne : ∀ v : Way, x ≠ key node v := fun v h => hk (key_eq_iff.mp h).1
    unfold Search.offer
    split
    · show x ∈ s.waiting.insert _ ↔ _
      rw [mem_insert_waiting, or_iff_right (hne w)]
    · rename_i v _
      split
      · show x ∈ (s.waiting.erase _).insert _ ↔ _
        rw [mem_insert_waiting, or_iff_right (hne w), mem_erase_waiting, and_iff_right (hne v)]
      · exact Iff.rfl

theorem Queues.relax (hs : s.Queues) (h : Half) : (s.relax selfId w h).Queues := by
  unfold Search.relax
  split
  · exact hs
  · rename_i hopen
    simp only [Bool.or_eq_true, not_or] at hopen
    exact hs.offer fun hmem => hopen.1.2 (TreeSet.mem_iff_contains.mp hmem)

theorem Queues.settle (hs : s.Queues) {next : Waiting} (hnext : next ∈ s.waiting) :
    Queues
      { s with waiting := s.waiting.erase next, settled := s.settled.insert next.2.2 } := by
  intro x
  show x ∈ s.waiting.erase next ↔ s.labelAt x.2.2 = _ ∧ x.2.2 ∉ s.settled.insert next.2.2
  rw [mem_erase_waiting, hs x, TreeSet.mem_insert, LawfulEqCmp.compare_eq_iff_eq, not_or]
  constructor
  · rintro ⟨hne, hlabel, hopen⟩
    refine ⟨hlabel, fun hnode => hne ?_, hopen⟩
    -- A node waits under one label only.
    have hlabel' := ((hs next).mp hnext).1
    rw [hnode, hlabel, WithTop.coe_inj, toLex_inj, Prod.mk.injEq, UInt64.toNat_inj] at hlabel'
    exact Prod.ext hlabel'.1 (Prod.ext hlabel'.2 hnode.symm)
  · rintro ⟨hlabel, hnode, hopen⟩
    exact ⟨fun h => hnode (congrArg (·.2.2) h).symm, hlabel, hopen⟩

theorem Queues.expand {g : Graph} {maxEdges : Nat} (hs : s.Queues) {next : Waiting}
    (hnext : next ∈ s.waiting) : (s.expand g maxEdges next w).Queues := by
  have hsettled := hs.settle hnext
  unfold Search.expand
  split
  · exact hsettled
  · exact List.foldlRecOn _ _ hsettled fun _ hs h _ => hs.relax h

/-! ## Fees and amounts of the ways -/

/-- Every way that the search keeps has fee and amount of its path. -/
def Priced (amount : Msat) (s : Search) : Prop :=
  ∀ (node : String) (w : Way), s.ways[node]? = some w → w.Priced amount

theorem priced_start (target : String) (amount : Msat) : (start target amount).Priced amount := by
  intro node w hw
  have hw' : ((∅ : TreeMap String Way).insert target ⟨[], 0, amount⟩)[node]? = some w := hw
  rw [TreeMap.getElem?_insert] at hw'
  split at hw'
  · cases hw'
    exact Way.priced_nil amount
  · rw [TreeMap.getElem?_emptyc] at hw'
    cases hw'

theorem Priced.relax (hs : s.Priced amount) (hw : w.Priced amount) (h : Half) :
    (s.relax selfId w h).Priced amount := by
  intro v x hx
  unfold Search.relax at hx
  split at hx
  · exact hs v x hx
  · rcases ways_offer s _ _ hx with hx | ⟨-, rfl⟩
    · exact hs v x hx
    · exact hw.extend h

theorem Priced.expand {g : Graph} {maxEdges : Nat} (hs : s.Priced amount) (next : Waiting)
    (hw : w.Priced amount) : (s.expand g maxEdges next w).Priced amount := by
  unfold Search.expand
  split
  · exact hs
  · exact List.foldlRecOn _ _ hs fun _ hs h _ => Priced.relax hs hw h

end Search

end Rebalancer
