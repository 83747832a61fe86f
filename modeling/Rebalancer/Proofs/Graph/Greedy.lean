import Mathlib.Data.Finset.Card
import Rebalancer.Proofs.Graph.Labels
import Rebalancer.Proofs.Graph.Listing

set_option autoImplicit false

/-! # What a search settles

A search keeps one label for each node, the least of those that it was offered, and extends it when
the node is settled. So the labels that are settled solve equations (`Graph.Greedy`): the target has
the zero label, and every other node has the least label that a half makes of the label of the node
behind it. They are the only solution (`Greedy.unique`), and where a search stops makes no
difference to them: it returns the way that its source has when all nodes are settled
(`findPath_eq`).
-/

namespace Rebalancer

open Std

/-! ## Labels -/

/-- What the halves of a way charge, up to the largest word, and how many they are. -/
abbrev Label := ℕ ×ₗ ℕ

namespace Label

/-- What the halves charge. -/
def fee (l : Label) : ℕ := (ofLex l).1

/-- The number of halves. -/
def length (l : Label) : ℕ := (ofLex l).2

/-- The label of the way without halves. -/
def zero : Label := toLex (0, 0)

/-- What has to enter a way with this label for `amount` to arrive. -/
def carried (amount : Msat) (l : Label) : Msat := clampWord (amount.toNat + l.fee)

/-- The label of a way with `h` before it. -/
def extend (amount : Msat) (h : Half) (l : Label) : Label :=
  toLex (min (l.fee + (h.fee (l.carried amount)).toNat) maxWord, l.length + 1)

@[simp] theorem fee_extend (amount : Msat) (h : Half) (l : Label) :
    (l.extend amount h).fee = min (l.fee + (h.fee (l.carried amount)).toNat) maxWord := rfl

@[simp] theorem length_extend (amount : Msat) (h : Half) (l : Label) :
    (l.extend amount h).length = l.length + 1 := rfl

theorem lt_iff {l m : Label} : l < m ↔ l.fee < m.fee ∨ l.fee = m.fee ∧ l.length < m.length :=
  Prod.Lex.lt_iff

theorem le_iff {l m : Label} : l ≤ m ↔ l.fee < m.fee ∨ l.fee = m.fee ∧ l.length ≤ m.length :=
  Prod.Lex.le_iff

theorem zero_le (l : Label) : zero ≤ l := by
  rw [le_iff]
  exact (Nat.eq_zero_or_pos l.fee).elim (fun hfee => Or.inr ⟨hfee.symm, Nat.zero_le _⟩) Or.inl

/-- A half makes a way longer and no cheaper. -/
theorem lt_extend {l : Label} (hl : l.fee ≤ maxWord) (amount : Msat) (h : Half) :
    l < l.extend amount h := by
  rw [lt_iff, fee_extend, length_extend]
  omega

end Label

namespace Way

variable {w : Way} {amount : Msat}

theorem fee_label (w : Way) : Label.fee w.label = w.fee.toNat := rfl

theorem length_label (w : Way) : Label.length w.label = w.path.length := rfl

theorem fee_label_le (w : Way) : Label.fee w.label ≤ maxWord := toNat_le_maxWord w.fee

theorem Priced.carried_label (hw : w.Priced amount) : Label.carried amount w.label = w.amount := by
  rw [← UInt64.toNat_inj, Label.carried, toNat_clampWord, fee_label, hw.fee, toNat_clampWord,
    hw.amount, toNat_amountInto]
  omega

theorem Priced.label_extend (hw : w.Priced amount) (h : Half) :
    (w.extend h).label = Label.extend amount h w.label := by
  have hfee : (w.extend h).fee.toNat = min (w.fee.toNat + (h.fee w.amount).toNat) maxWord :=
    toNat_addClamped _ _
  rw [Label.extend, hw.carried_label, fee_label, length_label, label, hfee]
  rfl

end Way

namespace Graph

variable {g : Graph} {target : String} {amount : Msat} {maxEdges : Nat}

/-! ## The equations -/

/-- The half can go before a way with the label `l`. -/
structure Opens (g : Graph) (amount : Msat) (maxEdges : Nat) (h : Half) (l : Label) : Prop where
  known : g.halves[h.id]? = some h
  away : h.source ≠ g.selfId
  room : l.length < maxEdges
  carries : h.canCarry (l.carried amount) = true

/-- The labels are those of ways to `target` that are chosen greedily: every node extends the one
label of the node behind it, and takes the least label of those that it can have. -/
structure Greedy (g : Graph) (target : String) (amount : Msat) (maxEdges : Nat)
    (labels : String → WithTop Label) : Prop where
  zero : labels target = Label.zero
  least : ∀ {h : Half} {l : Label}, labels h.destination = l → g.Opens amount maxEdges h l →
    labels h.source ≤ l.extend amount h
  origin : ∀ {node : String} {l : Label}, labels node = l → node = target ∨
    ∃ (h : Half) (m : Label), h.source = node ∧ labels h.destination = m ∧
      g.Opens amount maxEdges h m ∧ l = m.extend amount h

section Solutions

variable {labels labels' : String → WithTop Label}

theorem Greedy.fee_le (hg : g.Greedy target amount maxEdges labels) {node : String} {l : Label}
    (hl : labels node = l) : l.fee ≤ maxWord := by
  rcases hg.origin hl with rfl | ⟨h, m, -, -, -, rfl⟩
  · rw [hg.zero, WithTop.coe_inj] at hl
    rw [← hl]
    exact Nat.zero_le _
  · exact Nat.min_le_right _ _

/-- If all lesser labels of two solutions are the same, a label of one bounds the other. -/
theorem Greedy.le_of_lesser (hg : g.Greedy target amount maxEdges labels)
    (hg' : g.Greedy target amount maxEdges labels') {l : Label}
    (hlesser : ∀ m < l, ∀ node, labels node = m → labels' node = m) {node : String}
    (hl : labels node = l) : labels' node ≤ l := by
  rcases hg.origin hl with rfl | ⟨h, m, rfl, hm, hopens, rfl⟩
  · rw [hg'.zero, ← hl, hg.zero]
  · have hlt : m < m.extend amount h := Label.lt_extend (hg.fee_le hm) amount h
    exact hg'.least (hlesser m hlt _ hm) hopens

/-- If two solutions have the lesser labels at the same nodes, a label of one is one of the other.
-/
theorem Greedy.eq_of_lesser (hg : g.Greedy target amount maxEdges labels)
    (hg' : g.Greedy target amount maxEdges labels') {l : Label}
    (hlesser : ∀ m < l, ∀ node, labels node = m ↔ labels' node = m) {node : String}
    (hl : labels node = l) : labels' node = l := by
  have hle : labels' node ≤ l :=
    hg.le_of_lesser hg' (fun m hm node => (hlesser m hm node).mp) hl
  refine hle.antisymm (le_of_not_gt fun hlt => ?_)
  obtain ⟨m, hm⟩ := WithTop.ne_top_iff_exists.mp (ne_top_of_lt hlt)
  rw [← hm, WithTop.coe_lt_coe] at hlt
  rw [(hlesser m hlt node).mpr hm.symm, WithTop.coe_inj] at hl
  exact absurd hl hlt.ne

/-- The equations have one solution only. -/
theorem Greedy.unique (hg : g.Greedy target amount maxEdges labels)
    (hg' : g.Greedy target amount maxEdges labels') : labels' = labels := by
  -- By induction on the label: nodes have it in both solutions or in neither.
  have hsame : ∀ (l : Label) (node : String), labels node = l ↔ labels' node = l := by
    intro l
    induction l using WellFoundedLT.induction with
    | ind l ih =>
        exact fun node => ⟨hg.eq_of_lesser hg' ih,
          hg'.eq_of_lesser hg fun m hm node => (ih m hm node).symm⟩
  funext node
  cases hl : labels node with
  | coe l => exact (hsame l node).mp hl
  | top =>
      by_contra hne
      obtain ⟨l, hl'⟩ := WithTop.ne_top_iff_exists.mp hne
      rw [(hsame l node).mpr hl'.symm] at hl
      cases hl

end Solutions

end Graph

/-! ## One node settled -/

namespace Search

open Rebalancer.Graph

variable {g : Graph} {s : Search} {target source : String} {amount : Msat} {maxEdges fuel : Nat}
  {selfId node : String} {settled : TreeSet String} {w : Way}
  {labels : String → WithTop Label} {l : List Half}

/-- Extending a way raises no label. -/
theorem lower_le (selfId : String) (settled : TreeSet String) (w : Way)
    (labels : String → WithTop Label) (h : Half) (node : String) :
    lower selfId settled w labels h node ≤ labels node := by
  unfold lower
  split
  · exact le_rfl
  · rw [Function.update_apply]
    split
    · rename_i hnode
      rw [hnode]
      exact min_le_left _ _
    · exact le_rfl

theorem foldl_lower_le (labels : String → WithTop Label) (l : List Half) (node : String) :
    l.foldl (lower selfId settled w) labels node ≤ labels node :=
  List.foldlRecOn (motive := fun labels' : String → WithTop Label => labels' node ≤ labels node) l
    _ le_rfl fun labels' hle h _ => (lower_le selfId settled w labels' h node).trans hle

/-- What the half makes of the way bounds the label of its source. -/
theorem foldl_lower_le_of_mem {h : Half} (hh : h ∈ l) (hself : h.source ≠ selfId)
    (hopen : h.source ∉ settled) (hcarry : h.canCarry w.amount = true) :
    l.foldl (lower selfId settled w) labels h.source ≤ (w.extend h).label := by
  obtain ⟨before, after, rfl⟩ := List.append_of_mem hh
  rw [List.foldl_append, List.foldl_cons]
  refine (foldl_lower_le _ after h.source).trans ?_
  have hcontains : settled.contains h.source = false :=
    Bool.eq_false_iff.mpr fun hc => hopen (TreeSet.mem_iff_contains.mpr hc)
  unfold lower
  rw [if_neg (by simp [hself, hcontains, hcarry]), Function.update_self]
  exact min_le_right _ _

/-- A label is what it was, or one that a half makes of the way. -/
theorem foldl_lower_cases (selfId : String) (settled : TreeSet String) (w : Way)
    (labels : String → WithTop Label) (l : List Half) (node : String) :
    l.foldl (lower selfId settled w) labels node = labels node ∨
      ∃ h ∈ l, h.source = node ∧ node ≠ selfId ∧ node ∉ settled ∧ h.canCarry w.amount = true ∧
        l.foldl (lower selfId settled w) labels node = (w.extend h).label := by
  refine List.foldlRecOn
    (motive := fun labels' : String → WithTop Label => labels' node = labels node ∨
      ∃ h ∈ l, h.source = node ∧ node ≠ selfId ∧ node ∉ settled ∧ h.canCarry w.amount = true ∧
        labels' node = (w.extend h).label) l _ (Or.inl rfl) fun labels' ih h hh => ?_
  unfold lower
  split
  · exact ih
  · rename_i hopen
    simp only [Bool.or_eq_true, beq_iff_eq, Bool.not_eq_true', not_or, Bool.not_eq_false] at hopen
    obtain ⟨⟨hself, hsettled⟩, hcarry⟩ := hopen
    rw [Function.update_apply]
    split
    · rename_i hnode
      subst hnode
      rcases min_choice (labels' h.source) ((w.extend h).label : WithTop Label) with hmin | hmin
      · rw [hmin]
        exact ih
      · rw [hmin]
        exact Or.inr ⟨h, hh, rfl, hself, fun hmem => hsettled (TreeSet.mem_iff_contains.mp hmem),
          hcarry, rfl⟩
    · exact ih

/-- The labels of settled nodes stay. -/
theorem foldl_lower_of_settled (labels : String → WithTop Label) (l : List Half)
    (hnode : node ∈ settled) : l.foldl (lower selfId settled w) labels node = labels node := by
  rcases foldl_lower_cases selfId settled w labels l node with
    hsame | ⟨-, -, -, -, hopen, -⟩
  · exact hsame
  · exact absurd hnode hopen

theorem settled_expand (s : Search) (g : Graph) (maxEdges : Nat) (next : Waiting) (w : Way) :
    (s.expand g maxEdges next w).settled = s.settled.insert next.2.2 := by
  unfold Search.expand
  split
  · rfl
  · exact settled_foldl_relax _ _ _ _

theorem labelAt_expand (s : Search) (g : Graph) (maxEdges : Nat) (next : Waiting) (w : Way) :
    (s.expand g maxEdges next w).labelAt =
      if maxEdges ≤ w.path.length then s.labelAt
      else (g.incoming next.2.2).foldl (lower g.selfId (s.settled.insert next.2.2) w)
        s.labelAt := by
  unfold Search.expand
  split
  · rfl
  · exact labelAt_foldl_relax _ _ _ _

theorem labelAt_expand_le (s : Search) (g : Graph) (maxEdges : Nat) (next : Waiting) (w : Way)
    (node : String) : (s.expand g maxEdges next w).labelAt node ≤ s.labelAt node := by
  rw [labelAt_expand]
  split
  · exact le_rfl
  · exact foldl_lower_le _ _ node

theorem labelAt_expand_of_settled {next : Waiting} (hnode : node ∈ s.settled.insert next.2.2) :
    (s.expand g maxEdges next w).labelAt node = s.labelAt node := by
  rw [labelAt_expand]
  split
  · rfl
  · exact foldl_lower_of_settled _ _ hnode

/-- What a half before the settled node makes of its label bounds the label of its source. -/
theorem labelAt_expand_le_extend (hg : g.Keyed) (hl : g.Lists) (hw : w.Priced amount)
    {next : Waiting} {h : Half} (hd : h.destination = next.2.2)
    (hopens : g.Opens amount maxEdges h w.label) (hopen : h.source ∉ s.settled.insert next.2.2) :
    (s.expand g maxEdges next w).labelAt h.source ≤ Label.extend amount h w.label := by
  have hcarry : h.canCarry w.amount = true := by
    rw [← hw.carried_label]
    exact hopens.carries
  have hroom : w.path.length < maxEdges := hopens.room
  rw [labelAt_expand, if_neg (Nat.not_le_of_lt hroom), ← hw.label_extend]
  exact foldl_lower_le_of_mem ((mem_incoming_iff hg hl).mpr ⟨hopens.known, hd⟩) hopens.away hopen
    hcarry

/-- A label changes only to what a half before the settled node makes of its label. -/
theorem labelAt_expand_cases (hg : g.Keyed) (hw : w.Priced amount) (s : Search) (maxEdges : Nat)
    (next : Waiting) (node : String) :
    (s.expand g maxEdges next w).labelAt node = s.labelAt node ∨
      ∃ h : Half, h.source = node ∧ h.destination = next.2.2 ∧
        g.Opens amount maxEdges h w.label ∧
        (s.expand g maxEdges next w).labelAt node = Label.extend amount h w.label := by
  rw [labelAt_expand]
  split
  · exact Or.inl rfl
  · rename_i hroom
    rcases foldl_lower_cases g.selfId (s.settled.insert next.2.2) w s.labelAt
      (g.incoming next.2.2) node with hsame | ⟨h, hh, hsource, hself, -, hcarry, hlabel⟩
    · exact Or.inl hsame
    · obtain ⟨hknown, hd⟩ := hg.mem_incoming hh
      rw [hw.label_extend] at hlabel
      refine Or.inr ⟨h, hsource, hd, ⟨hknown, ?_, Nat.lt_of_not_le hroom, ?_⟩, hlabel⟩
      · rw [hsource]
        exact hself
      · rw [hw.carried_label]
        exact hcarry

/-- The ways of settled nodes stay. -/
theorem ways_relax_of_settled (h : Half) (hnode : node ∈ s.settled) :
    (s.relax selfId w h).ways[node]? = s.ways[node]? := by
  unfold Search.relax
  split
  · rfl
  · rename_i hopen
    simp only [Bool.or_eq_true, not_or] at hopen
    have hne : ¬ compare h.source node = .eq := fun hc =>
      hopen.1.2 (LawfulEqCmp.eq_of_compare hc ▸ TreeSet.mem_iff_contains.mp hnode)
    have hput : (s.ways.insert h.source (w.extend h))[node]? = s.ways[node]? := by
      rw [TreeMap.getElem?_insert, if_neg hne]
    unfold Search.offer
    split
    · exact hput
    · split
      · exact hput
      · rfl

theorem ways_foldl_relax_of_settled (l : List Half) (hnode : node ∈ s.settled) :
    (l.foldl (relax selfId w) s).ways[node]? = s.ways[node]? := by
  induction l generalizing s with
  | nil => rfl
  | cons h rest ih =>
      have hnode' : node ∈ (s.relax selfId w h).settled := by
        rw [settled_relax]
        exact hnode
      rw [List.foldl_cons, ih hnode', ways_relax_of_settled h hnode]

theorem ways_expand_of_settled {next : Waiting} (hnode : node ∈ s.settled.insert next.2.2) :
    (s.expand g maxEdges next w).ways[node]? = s.ways[node]? := by
  unfold Search.expand
  split
  · rfl
  · exact ways_foldl_relax_of_settled _ hnode

/-! ## The settled nodes -/

/-- How far a search has come: every label is that of a half before a settled node, every half
before a settled node has been tried, and no node that is open has a lesser label than a settled
one. -/
structure Progress (g : Graph) (target : String) (amount : Msat) (maxEdges : Nat)
    (s : Search) : Prop where
  sound : Sound g target amount maxEdges s
  priced : s.Priced amount
  queues : s.Queues
  zero : s.labelAt target = Label.zero
  settled_le : ∀ {v u : String}, v ∈ s.settled → u ∉ s.settled → s.labelAt v ≤ s.labelAt u
  least : ∀ {h : Half} {l : Label}, h.destination ∈ s.settled → s.labelAt h.destination = l →
    g.Opens amount maxEdges h l → s.labelAt h.source ≤ l.extend amount h
  origin : ∀ {node : String} {l : Label}, s.labelAt node = l → node = target ∨
    ∃ (h : Half) (m : Label), h.source = node ∧ h.destination ∈ s.settled ∧
      s.labelAt h.destination = m ∧ g.Opens amount maxEdges h m ∧ l = m.extend amount h

theorem labelAt_start (target : String) (amount : Msat) (node : String) :
    (start target amount).labelAt node =
      if node = target then (Label.zero : WithTop Label) else ⊤ := by
  by_cases hnode : node = target
  · subst hnode
    rw [if_pos rfl]
    have hway : (start node amount).ways[node]? = some ⟨[], 0, amount⟩ :=
      TreeMap.getElem?_insert_self
    exact labelAt_of_some hway
  · rw [if_neg hnode]
    refine labelAt_of_none ?_
    show ((∅ : TreeMap String Way).insert target ⟨[], 0, amount⟩)[node]? = none
    rw [TreeMap.getElem?_insert, if_neg fun hc => hnode (LawfulEqCmp.eq_of_compare hc).symm,
      TreeMap.getElem?_emptyc]

theorem progress_start (g : Graph) (target : String) (amount : Msat) (maxEdges : Nat) :
    Progress g target amount maxEdges (start target amount) := by
  have hopen : ∀ node, node ∉ (start target amount).settled := fun _ => TreeSet.not_mem_emptyc
  refine ⟨sound_start g target amount maxEdges, priced_start target amount,
    queues_start target amount, ?_, fun hv => absurd hv (hopen _), fun hd => absurd hd (hopen _),
    fun {node l} hl => Or.inl ?_⟩
  · rw [labelAt_start, if_pos rfl]
  · by_contra hnode
    rw [labelAt_start, if_neg hnode] at hl
    cases hl

/-- Who waits before another has no greater label. -/
theorem label_le_of_compare {x y : Waiting} (h : (Waiting.compare x y).isLE = true) :
    (toLex (x.1.toNat, x.2.1) : Label) ≤ toLex (y.1.toNat, y.2.1) := by
  rw [Label.le_iff]
  rcases Ordering.isLE_then_iff_or.mp h with hfee | ⟨hfee, hrest⟩
  · have hlt : x.1 < y.1 := compare_eq_lt.mp hfee
    exact Or.inl (UInt64.lt_iff_toNat_lt.mp hlt)
  · have heq : x.1 = y.1 := LawfulEqCmp.eq_of_compare hfee
    refine Or.inr ⟨congrArg UInt64.toNat heq, ?_⟩
    rcases Ordering.isLE_then_iff_or.mp hrest with hlength | ⟨hlength, -⟩
    · exact (compare_eq_lt.mp hlength).le
    · exact (LawfulEqCmp.eq_of_compare hlength : x.2.1 = y.2.1).le

/-- No open node has a lesser label than the one that is settled next. -/
theorem Queues.labelAt_le (hs : s.Queues) {next : Waiting} (hmin : s.waiting.min? = some next)
    {u : String} (hu : u ∉ s.settled) : s.labelAt next.2.2 ≤ s.labelAt u := by
  obtain ⟨hnext, hleast⟩ := TreeSet.min?_eq_some_iff_mem_and_forall.mp hmin
  cases hw : s.ways[u]? with
  | none =>
      rw [labelAt_of_none hw]
      exact le_top
  | some w =>
      have hwaits : key u w ∈ s.waiting := (hs (key u w)).mpr ⟨labelAt_of_some hw, hu⟩
      rw [((hs next).mp hnext).1, labelAt_of_some hw, WithTop.coe_le_coe]
      exact label_le_of_compare (hleast (key u w) hwaits)

theorem mem_settled_insert {settled : TreeSet String} {node v : String} :
    v ∈ settled.insert node ↔ v = node ∨ v ∈ settled := by
  rw [TreeSet.mem_insert, LawfulEqCmp.compare_eq_iff_eq, eq_comm]

section Expand

variable {next : Waiting}

/-- The node that is settled has the greatest label of those that are. -/
theorem Progress.labelAt_le_of_settled (hs : Progress g target amount maxEdges s)
    (hmin : s.waiting.min? = some next) {v : String} (hv : v ∈ s.settled.insert next.2.2) :
    s.labelAt v ≤ s.labelAt next.2.2 := by
  have hnext : next ∈ s.waiting := (TreeSet.min?_eq_some_iff_mem_and_forall.mp hmin).1
  rcases mem_settled_insert.mp hv with rfl | hv
  · exact le_rfl
  · exact hs.settled_le hv ((hs.queues next).mp hnext).2

/-- No half takes a node below the one that is settled. -/
theorem Progress.labelAt_le_expand (hg : g.Keyed) (hs : Progress g target amount maxEdges s)
    (hmin : s.waiting.min? = some next) (hw : s.ways[next.2.2]? = some w) {u : String}
    (hu : u ∉ s.settled) :
    s.labelAt next.2.2 ≤ (s.expand g maxEdges next w).labelAt u := by
  rcases labelAt_expand_cases hg (hs.priced _ w hw) s maxEdges next u with
    hsame | ⟨h, -, -, -, hextends⟩
  · rw [hsame]
    exact hs.queues.labelAt_le hmin hu
  · rw [hextends, labelAt_of_some hw, WithTop.coe_le_coe]
    exact (Label.lt_extend w.fee_label_le amount h).le

theorem Progress.least_expand (hg : g.Keyed) (hl : g.Lists)
    (hs : Progress g target amount maxEdges s) (hmin : s.waiting.min? = some next)
    (hw : s.ways[next.2.2]? = some w) {h : Half} {l : Label}
    (hd : h.destination ∈ s.settled.insert next.2.2) (hlabel : s.labelAt h.destination = l)
    (hopens : g.Opens amount maxEdges h l) :
    (s.expand g maxEdges next w).labelAt h.source ≤ l.extend amount h := by
  -- The half leads to the node that is settled now, or has been tried before.
  rcases mem_settled_insert.mp hd with hd' | hd'
  · have hnext : s.labelAt next.2.2 = w.label := labelAt_of_some hw
    rw [hd', hnext, WithTop.coe_inj] at hlabel
    subst hlabel
    by_cases hsource : h.source ∈ s.settled.insert next.2.2
    · refine (labelAt_expand_of_settled hsource).le.trans ?_
      refine (hs.labelAt_le_of_settled hmin hsource).trans ?_
      rw [hnext, WithTop.coe_le_coe]
      exact (Label.lt_extend w.fee_label_le amount h).le
    · exact labelAt_expand_le_extend hg hl (hs.priced _ w hw) hd' hopens hsource
  · exact (labelAt_expand_le s g maxEdges next w h.source).trans (hs.least hd' hlabel hopens)

theorem Progress.origin_expand (hg : g.Keyed) (hs : Progress g target amount maxEdges s)
    (hw : s.ways[next.2.2]? = some w) {l : Label}
    (hlabel : (s.expand g maxEdges next w).labelAt node = l) : node = target ∨
    ∃ (h : Half) (m : Label), h.source = node ∧ h.destination ∈ s.settled.insert next.2.2 ∧
      s.labelAt h.destination = m ∧ g.Opens amount maxEdges h m ∧ l = m.extend amount h := by
  rcases labelAt_expand_cases hg (hs.priced _ w hw) s maxEdges next node with
    hsame | ⟨h, hsource, hd, hopens, hextends⟩
  · rw [hsame] at hlabel
    rcases hs.origin hlabel with htarget | ⟨h, m, hsource, hd, hm, hopens, hl⟩
    · exact Or.inl htarget
    · exact Or.inr ⟨h, m, hsource, mem_settled_insert.mpr (Or.inr hd), hm, hopens, hl⟩
  · rw [hextends, WithTop.coe_inj] at hlabel
    refine Or.inr ⟨h, w.label, hsource, mem_settled_insert.mpr (Or.inl hd), ?_, hopens, hlabel.symm⟩
    rw [hd]
    exact labelAt_of_some hw

/-- Settling the node that waits first keeps all that. -/
theorem Progress.expand (hg : g.Keyed) (hl : g.Lists)
    (hs : Progress g target amount maxEdges s) (hmin : s.waiting.min? = some next)
    (hw : s.ways[next.2.2]? = some w) :
    Progress g target amount maxEdges (s.expand g maxEdges next w) where
  sound := hs.sound.expand hg next hw
  priced := hs.priced.expand next (hs.priced _ w hw)
  queues := hs.queues.expand (TreeSet.min?_eq_some_iff_mem_and_forall.mp hmin).1
  zero := by
    refine ((labelAt_expand_le s g maxEdges next w target).trans hs.zero.le).antisymm ?_
    cases (s.expand g maxEdges next w).labelAt target with
    | top => exact le_top
    | coe l => exact WithTop.coe_le_coe.mpr (Label.zero_le l)
  settled_le := by
    intro v u hv hu
    rw [settled_expand] at hv hu
    rw [labelAt_expand_of_settled hv]
    exact (hs.labelAt_le_of_settled hmin hv).trans
      (hs.labelAt_le_expand hg hmin hw fun hmem => hu (mem_settled_insert.mpr (Or.inr hmem)))
  least := by
    intro h l hd hlabel hopens
    rw [settled_expand] at hd
    rw [labelAt_expand_of_settled hd] at hlabel
    exact hs.least_expand hg hl hmin hw hd hlabel hopens
  origin := by
    intro node l hlabel
    rcases hs.origin_expand hg hw hlabel with htarget | ⟨h, m, hsource, hd, hm, hopens, heq⟩
    · exact Or.inl htarget
    · refine Or.inr ⟨h, m, hsource, ?_, ?_, hopens, heq⟩
      · rw [settled_expand]
        exact hd
      · rw [labelAt_expand_of_settled hd]
        exact hm

end Expand

/-! ## All nodes settled -/

/-- The search that settles nodes until none waits. -/
def exhaust (g : Graph) (maxEdges : Nat) : Nat → Search → Search
  | 0, s => s
  | fuel + 1, s =>
    match s.waiting.min? with
    | none => s
    | some next =>
      match s.ways[next.2.2]? with
      | none => s
      | some w => exhaust g maxEdges fuel (s.expand g maxEdges next w)

/-- A node that waits has a way. -/
theorem Queues.exists_way (hs : s.Queues) {next : Waiting} (hmin : s.waiting.min? = some next) :
    next.2.2 ∉ s.settled ∧ ∃ w, s.ways[next.2.2]? = some w := by
  have hnext : next ∈ s.waiting := (TreeSet.min?_eq_some_iff_mem_and_forall.mp hmin).1
  obtain ⟨hlabel, hopen⟩ := (hs next).mp hnext
  obtain ⟨w, hw, -⟩ := exists_way_of_labelAt hlabel
  exact ⟨hopen, w, hw⟩

/-- An induction over the nodes that a search settles: it ends out of fuel or with nothing left to
settle, or goes on from the next node. -/
theorem Progress.exhaust_induction (hg : g.Keyed) (hl : g.Lists)
    {motive : Nat → Search → Prop}
    (spent : ∀ s, Progress g target amount maxEdges s → motive 0 s)
    (idle : ∀ fuel s, Progress g target amount maxEdges s → s.waiting.min? = none →
      motive (fuel + 1) s)
    (settles : ∀ fuel s next w, Progress g target amount maxEdges s →
      s.waiting.min? = some next → s.ways[next.2.2]? = some w → next.2.2 ∉ s.settled →
      motive fuel (s.expand g maxEdges next w) → motive (fuel + 1) s)
    (hs : Progress g target amount maxEdges s) (fuel : Nat) : motive fuel s := by
  induction fuel generalizing s with
  | zero => exact spent s hs
  | succ fuel ih =>
      cases hmin : s.waiting.min? with
      | none => exact idle fuel s hs hmin
      | some next =>
          obtain ⟨hopen, w, hw⟩ := hs.queues.exists_way hmin
          exact settles fuel s next w hs hmin hw hopen (ih (hs.expand hg hl hmin hw))

theorem exhaust_of_none (hmin : s.waiting.min? = none) : exhaust g maxEdges (fuel + 1) s = s := by
  rw [exhaust, hmin]

theorem exhaust_of_some {next : Waiting} (hmin : s.waiting.min? = some next)
    (hw : s.ways[next.2.2]? = some w) :
    exhaust g maxEdges (fuel + 1) s = exhaust g maxEdges fuel (s.expand g maxEdges next w) := by
  rw [exhaust, hmin]
  simp only [hw]

theorem Progress.exhaust (hg : g.Keyed) (hl : g.Lists)
    (hs : Progress g target amount maxEdges s) (fuel : Nat) :
    Progress g target amount maxEdges (exhaust g maxEdges fuel s) := by
  refine hs.exhaust_induction hg hl
    (motive := fun fuel s => Progress g target amount maxEdges (Search.exhaust g maxEdges fuel s))
    (fun s hs => hs) (fun fuel s hs hmin => ?_) (fun fuel s next w _ hmin hw _ ih => ?_) fuel
  · rw [exhaust_of_none hmin]
    exact hs
  · rw [exhaust_of_some hmin hw]
    exact ih

/-- The way of a settled node is the one that it has in the end. -/
theorem Progress.ways_exhaust (hg : g.Keyed) (hl : g.Lists)
    (hs : Progress g target amount maxEdges s) (fuel : Nat) (hnode : node ∈ s.settled) :
    (Search.exhaust g maxEdges fuel s).ways[node]? = s.ways[node]? := by
  refine hs.exhaust_induction hg hl
    (motive := fun fuel s => node ∈ s.settled →
      (Search.exhaust g maxEdges fuel s).ways[node]? = s.ways[node]?)
    (fun s _ _ => rfl) (fun fuel s hs hmin _ => ?_)
    (fun fuel s next w _ hmin hw _ ih hnode => ?_) fuel hnode
  · rw [exhaust_of_none hmin]
  · have hnode' : node ∈ s.settled.insert next.2.2 := mem_settled_insert.mpr (Or.inr hnode)
    rw [exhaust_of_some hmin hw, ih (by rw [settled_expand]; exact hnode'),
      ways_expand_of_settled hnode']

theorem not_mem_waiting_of_min? (hmin : s.waiting.min? = none) (x : Waiting) : x ∉ s.waiting := by
  rw [TreeSet.min?_eq_none_iff] at hmin
  exact TreeSet.not_mem_of_isEmpty hmin

/-- A node that is neither settled nor waits has no way. -/
theorem Queues.ways_eq_none (hs : s.Queues) (hwaits : ∀ x, x ∉ s.waiting)
    (hnode : node ∉ s.settled) : s.ways[node]? = none := by
  cases hw : s.ways[node]? with
  | none => rfl
  | some w => exact absurd ((hs (key node w)).mpr ⟨labelAt_of_some hw, hnode⟩) (hwaits _)

/-- If no node waits in the end, a search returns the way that its source has then. -/
theorem Progress.run_eq (hg : g.Keyed) (hl : g.Lists)
    (hs : Progress g target amount maxEdges s) (fuel : Nat) (hsource : source ∉ s.settled)
    (hdone : ∀ x, x ∉ (Search.exhaust g maxEdges fuel s).waiting) :
    run g source maxEdges fuel s =
      (Search.exhaust g maxEdges fuel s).ways[source]?.map (·.path) := by
  refine hs.exhaust_induction hg hl
    (motive := fun fuel s => source ∉ s.settled →
      (∀ x, x ∉ (Search.exhaust g maxEdges fuel s).waiting) →
        run g source maxEdges fuel s =
          (Search.exhaust g maxEdges fuel s).ways[source]?.map (·.path))
    (fun s hs hsource hdone => ?_) (fun fuel s hs hmin hsource hdone => ?_)
    (fun fuel s next w hs hmin hw _ ih hsource hdone => ?_) fuel hsource hdone
  · have hnone : s.ways[source]? = none := hs.queues.ways_eq_none hdone hsource
    rw [Search.exhaust, hnone]
    rfl
  · have hnone : s.ways[source]? = none :=
      hs.queues.ways_eq_none (not_mem_waiting_of_min? hmin) hsource
    rw [exhaust_of_none hmin, run_succ, hmin, hnone]
    rfl
  · rw [exhaust_of_some hmin hw] at hdone ⊢
    rw [run_succ, hmin]
    simp only [hw]
    have hnext := hs.expand hg hl hmin hw
    have hsettled := settled_expand s g maxEdges next w
    by_cases hnode : next.2.2 = source
    · have hin : source ∈ s.settled.insert next.2.2 := mem_settled_insert.mpr (Or.inl hnode.symm)
      have hin' : source ∈ (s.expand g maxEdges next w).settled := by
        rw [hsettled]
        exact hin
      rw [if_pos (beq_iff_eq.mpr hnode), hnext.ways_exhaust hg hl fuel hin',
        ways_expand_of_settled hin, ← hnode, hw]
      rfl
    · rw [if_neg (by simp [hnode])]
      refine ih ?_ hdone
      rw [hsettled, mem_settled_insert, not_or]
      exact ⟨fun h => hnode h.symm, hsource⟩

/-- The nodes that can still be settled: the target, and every node with a half from it. -/
def openNodes (g : Graph) (target : String) (s : Search) : Finset String :=
  (target :: g.halves.values.map (·.source)).toFinset.filter (· ∉ s.settled)

theorem Progress.mem_openNodes (hs : Progress g target amount maxEdges s) {l : Label}
    (hlabel : s.labelAt node = l) (hopen : node ∉ s.settled) : node ∈ openNodes g target s := by
  refine Finset.mem_filter.mpr ⟨List.mem_toFinset.mpr ?_, hopen⟩
  rcases hs.origin hlabel with rfl | ⟨h, m, rfl, -, -, hopens, -⟩
  · exact List.mem_cons_self
  · have hvalue : h ∈ g.halves.values := mem_values_iff.mpr ⟨h.id, hopens.known⟩
    exact List.mem_cons_of_mem _ (List.mem_map_of_mem hvalue)

/-- A search that may settle as many nodes as are open leaves none waiting. -/
theorem Progress.not_mem_waiting_exhaust (hg : g.Keyed) (hl : g.Lists)
    (hs : Progress g target amount maxEdges s) (fuel : Nat)
    (hfuel : (openNodes g target s).card ≤ fuel) (x : Waiting) :
    x ∉ (Search.exhaust g maxEdges fuel s).waiting := by
  refine hs.exhaust_induction hg hl
    (motive := fun fuel s => (openNodes g target s).card ≤ fuel →
      x ∉ (Search.exhaust g maxEdges fuel s).waiting)
    (fun s hs hfuel hx => ?_) (fun fuel s _ hmin _ => ?_)
    (fun fuel s next w hs hmin hw hopen ih hfuel => ?_) fuel hfuel
  · obtain ⟨hlabel, hopen⟩ := (hs.queues x).mp hx
    have hempty : openNodes g target s = ∅ := Finset.card_eq_zero.mp (Nat.le_zero.mp hfuel)
    have hmem := hs.mem_openNodes hlabel hopen
    rw [hempty] at hmem
    exact absurd hmem (Finset.notMem_empty _)
  · rw [exhaust_of_none hmin]
    exact not_mem_waiting_of_min? hmin x
  · rw [exhaust_of_some hmin hw]
    -- One node less is open once the next one is settled.
    have hfewer : (openNodes g target (s.expand g maxEdges next w)).card <
        (openNodes g target s).card := by
      refine Finset.card_lt_card ⟨fun v hv => ?_, fun hsub => ?_⟩
      · obtain ⟨hv, hopen'⟩ := Finset.mem_filter.mp hv
        rw [settled_expand, mem_settled_insert, not_or] at hopen'
        exact Finset.mem_filter.mpr ⟨hv, hopen'.2⟩
      · have hnext := hsub (hs.mem_openNodes (labelAt_of_some hw) hopen)
        have hopen' := (Finset.mem_filter.mp hnext).2
        rw [settled_expand, mem_settled_insert] at hopen'
        exact hopen' (Or.inl rfl)
    exact ih (by omega)

theorem card_openNodes_le (g : Graph) (target : String) (s : Search) :
    (openNodes g target s).card ≤ g.halves.size + 1 := by
  refine (Finset.card_filter_le _ _).trans ((List.toFinset_card_le _).trans ?_)
  rw [List.length_cons, List.length_map, length_values]

end Search

namespace Graph

open Search

variable {g : Graph} {source target node : String} {amount : Msat} {maxEdges : Nat} {w : Way}

/-- The search for ways to `target` with all nodes settled. -/
def explored (g : Graph) (target : String) (amount : Msat) (maxEdges : Nat) : Search :=
  exhaust g maxEdges (g.halves.size + 1) (.start target amount)

theorem progress_explored (hg : g.Keyed) (hl : g.Lists) (target : String) (amount : Msat)
    (maxEdges : Nat) : Progress g target amount maxEdges (g.explored target amount maxEdges) :=
  (progress_start g target amount maxEdges).exhaust hg hl _

theorem not_mem_waiting_explored (hg : g.Keyed) (hl : g.Lists) (x : Waiting) :
    x ∉ (g.explored target amount maxEdges).waiting :=
  (progress_start g target amount maxEdges).not_mem_waiting_exhaust hg hl _
    (card_openNodes_le g target _) x

/-- The labels that are settled solve the equations. -/
theorem greedy_explored (hg : g.Keyed) (hl : g.Lists) (target : String) (amount : Msat)
    (maxEdges : Nat) :
    g.Greedy target amount maxEdges (g.explored target amount maxEdges).labelAt := by
  have hs := progress_explored hg hl target amount maxEdges
  -- A node with a label is settled, since it does not wait.
  have hsettled : ∀ {node : String} {l : Label},
      (g.explored target amount maxEdges).labelAt node = l →
        node ∈ (g.explored target amount maxEdges).settled := by
    intro node l hlabel
    by_contra hopen
    obtain ⟨w, hw, -⟩ := exists_way_of_labelAt hlabel
    exact not_mem_waiting_explored hg hl (key node w)
      ((hs.queues (key node w)).mpr ⟨labelAt_of_some hw, hopen⟩)
  refine ⟨hs.zero, fun hlabel hopens => hs.least (hsettled hlabel) hlabel hopens,
    fun hlabel => ?_⟩
  rcases hs.origin hlabel with htarget | ⟨h, m, hsource, -, hm, hopens, rfl⟩
  · exact Or.inl htarget
  · exact Or.inr ⟨h, m, hsource, hm, hopens, rfl⟩

/-- A search returns the way that its source has once all nodes are settled. -/
theorem findPath_eq (hg : g.Keyed) (hl : g.Lists) (hsource : source ≠ g.selfId)
    (htarget : target ≠ g.selfId) (amount : Msat) (maxEdges : Nat) :
    g.findPath source target amount maxEdges =
      (g.explored target amount maxEdges).ways[source]?.map (·.path) := by
  unfold findPath
  rw [if_neg (by simp [hsource, htarget])]
  exact (progress_start g target amount maxEdges).run_eq hg hl _ TreeSet.not_mem_emptyc
    (not_mem_waiting_explored hg hl)

end Graph

end Rebalancer
