import Mathlib.Data.String.Basic
import Mathlib.Tactic.Set
import Rebalancer.Graph.Payment
import Rebalancer.Graph.Refresh

set_option autoImplicit false

/-! # Reachable graphs

A graph starts empty and is changed by refreshes, by payments that settled and by failures that
were learned from. Whatever the changes, a half stays under its own name, keeps its ends and is
never dropped (`Grows`), and the halves listed as leading to a node do lead there (`Keyed`).

Every change is made of a few elementary steps (`Evolves`), of which only one adds a half. What
these steps keep is kept by every change.
-/

namespace Rebalancer

open Std

/-- Whether two halves are the same way through the same channel. -/
def Half.SameWay (h k : Half) : Prop :=
  h.id = k.id ∧ h.source = k.source ∧ h.destination = k.destination

/-- Whether the direction of a half's name is that from its source to its destination. -/
def Half.Directed (h : Half) : Prop := h.id.direction = directionOf h.source h.destination

@[simp] theorem Half.SameWay.refl (h : Half) : h.SameWay h := ⟨rfl, rfl, rfl⟩

theorem Half.SameWay.trans {h k l : Half} (hk : h.SameWay k) (kl : k.SameWay l) : h.SameWay l :=
  ⟨hk.1.trans kl.1, hk.2.1.trans kl.2.1, hk.2.2.trans kl.2.2⟩

theorem Half.SameWay.directed {h k : Half} (hw : h.SameWay k) (hk : k.Directed) : h.Directed := by
  obtain ⟨hid, hs, hd⟩ := hw
  rw [Half.Directed, hid, hs, hd]
  exact hk

@[simp] theorem Half.sameWay_announced (h : Half) (a : Announcement) : (h.announced a).SameWay h :=
  ⟨rfl, rfl, rfl⟩

@[simp] theorem Half.sameWay_withLiquidity (h : Half) (l : Msat) (now : Time) :
    (h.withLiquidity l now).SameWay h := ⟨rfl, rfl, rfl⟩

namespace Graph

/-! ## Changes -/

/-- One change of a graph. -/
inductive Change
  | restore (halves : List Half) (nodes : List (String × String))
  | gossip (gossip : List Announcement) (nodes : List NodeAnnouncement) (now : Time)
      (reset : UInt64)
  | own (channels : List OwnChannel) (now : Time)
  | payment (route : Route) (amount : Msat) (now : Time)
  | failure (id : HalfId) (amount : Msat) (now : Time)

/-- The graph after a change. A failure that teaches nothing leaves it as it is. -/
def after (g : Graph) : Change → Graph
  | .restore halves nodes => g.restore halves nodes
  | .gossip gossip nodes now reset => g.applyGossip gossip nodes now reset
  | .own channels now => g.applyOwn channels now
  | .payment route amount now => g.applyPayment route amount now
  | .failure id amount now => (g.applyFailure id amount now).getD g

/-- Whether changes lead to a graph from one that knows nothing. -/
def Reachable (g : Graph) : Prop :=
  ∃ (selfId : String) (changes : List Change), g = changes.foldl after (.empty selfId)

theorem Reachable.after {g : Graph} (h : g.Reachable) (c : Change) : (g.after c).Reachable := by
  obtain ⟨selfId, changes, rfl⟩ := h
  exact ⟨selfId, changes ++ [c], by rw [List.foldl_append]; rfl⟩

/-- What holds of the empty graphs and is kept by every change holds of every reachable graph. -/
theorem Reachable.induct {motive : Graph → Prop} (empty : ∀ selfId, motive (.empty selfId))
    (after : ∀ g c, motive g → motive (g.after c)) {g : Graph} (h : g.Reachable) : motive g := by
  obtain ⟨selfId, changes, rfl⟩ := h
  -- The changes are applied from the left, so the graph they start from varies.
  suffices ∀ g, motive g → motive (changes.foldl Graph.after g) from this _ (empty selfId)
  induction changes with
  | nil => exact fun _ hg => hg
  | cons c rest ih => exact fun g hg => ih _ (after g c hg)

/-! ## Growth -/

/-- `g'` has all halves of `g` under their names and with their ends. -/
structure Grows (g g' : Graph) : Prop where
  selfId : g'.selfId = g.selfId
  halves : ∀ (id : HalfId) (h : Half), g.halves[id]? = some h →
    ∃ h' : Half, g'.halves[id]? = some h' ∧ h'.SameWay h

theorem Grows.refl (g : Graph) : Grows g g := ⟨rfl, fun _ h hh => ⟨h, hh, .refl h⟩⟩

theorem Grows.trans {g g' g'' : Graph} (h : Grows g g') (h' : Grows g' g'') : Grows g g'' := by
  refine ⟨h'.selfId.trans h.selfId, fun id k hk => ?_⟩
  obtain ⟨k', hk', hw⟩ := h.halves id k hk
  obtain ⟨k'', hk'', hw'⟩ := h'.halves id k' hk'
  exact ⟨k'', hk'', hw'.trans hw⟩

theorem Grows.mem_halves {g g' : Graph} (h : Grows g g') {id : HalfId} (hid : id ∈ g.halves) :
    id ∈ g'.halves := by
  rw [TreeMap.mem_iff_isSome_getElem?] at hid ⊢
  obtain ⟨k, hk⟩ := Option.isSome_iff_exists.mp hid
  obtain ⟨k', hk', -⟩ := h.halves id k hk
  rw [hk']
  rfl

/-- Every half is stored under its own name, and the halves listed for a node are known and lead
to it. -/
structure Keyed (g : Graph) : Prop where
  id_eq : ∀ {id : HalfId} {h : Half}, g.halves[id]? = some h → h.id = id
  leads : ∀ {node : String} {id : HalfId}, id ∈ g.inbound.getD node [] →
    ∃ h : Half, g.halves[id]? = some h ∧ h.destination = node

theorem keyed_empty (selfId : String) : (empty selfId).Keyed := by
  constructor
  · intro id h hh
    simp [empty] at hh
  · intro node id hid
    simp [empty] at hid

/-- `g'` lists the same halves for every node as `g`, and has the same halves but for what they
carry. -/
structure Reshapes (g g' : Graph) : Prop where
  selfId : g'.selfId = g.selfId
  inbound : g'.inbound = g.inbound
  halves : ∀ id : HalfId, Option.Rel Half.SameWay g'.halves[id]? g.halves[id]?

theorem Reshapes.grows {g g' : Graph} (h : Reshapes g g') : Grows g g' := by
  refine ⟨h.selfId, fun id k hk => ?_⟩
  have hr := h.halves id
  rw [hk] at hr
  cases hk' : g'.halves[id]? with
  | none => rw [hk'] at hr; cases hr
  | some k' =>
      rw [hk'] at hr
      cases hr with
      | some hw => exact ⟨k', rfl, hw⟩

/-- A half that is there was there before. -/
theorem Reshapes.exists_before {g g' : Graph} (h : Reshapes g g') {id : HalfId} {k : Half}
    (hk : g'.halves[id]? = some k) : ∃ k' : Half, g.halves[id]? = some k' ∧ k.SameWay k' := by
  have hr := h.halves id
  rw [hk] at hr
  cases hk' : g.halves[id]? with
  | none => rw [hk'] at hr; cases hr
  | some k' =>
      rw [hk'] at hr
      cases hr with
      | some hw => exact ⟨k', rfl, hw⟩

theorem Reshapes.keyed {g g' : Graph} (h : Reshapes g g') (hg : g.Keyed) : g'.Keyed := by
  constructor
  · intro id k hk
    obtain ⟨k', hk', hw⟩ := h.exists_before hk
    exact hw.1.trans (hg.id_eq hk')
  · intro node id hid
    rw [h.inbound] at hid
    obtain ⟨k, hk, hd⟩ := hg.leads hid
    obtain ⟨k', hk', hw⟩ := h.grows.halves id k hk
    exact ⟨k', hk', hw.2.2.trans hd⟩

theorem rel_sameWay_map (f : Half → Half) (hf : ∀ h, (f h).SameWay h) (o : Option Half) :
    Option.Rel Half.SameWay (o.map f) o := by
  cases o with
  | none => exact .none
  | some h => exact .some (hf h)

/-- Replacing what one half carries. -/
theorem reshapes_insert {g : Graph} {id : HalfId} {h h' : Half} (hh : g.halves[id]? = some h)
    (hw : h'.SameWay h) : Reshapes g { g with halves := g.halves.insert id h' } := by
  refine ⟨rfl, rfl, fun k => ?_⟩
  rw [TreeMap.getElem?_insert]
  -- The half under `id` is replaced, any other stays what it was.
  by_cases hk : id = k
  · subst hk
    rw [hh, if_pos ReflCmp.compare_self]
    exact .some hw
  · rw [if_neg (fun hc => hk (LawfulEqCmp.eq_of_compare hc))]
    simpa using rel_sameWay_map (fun h => h) Half.SameWay.refl g.halves[k]?

/-- Changing what each half carries. -/
theorem reshapes_map (g : Graph) (f : HalfId → Half → Half)
    (hf : ∀ id h, (f id h).SameWay h) :
    Reshapes g { g with halves := g.halves.map f } := by
  refine ⟨rfl, rfl, fun id => ?_⟩
  rw [TreeMap.getElem?_map]
  exact rel_sameWay_map (f id) (hf id) _

/-- Changing what one half carries. -/
theorem reshapes_modify (g : Graph) (id : HalfId) (f : Half → Half)
    (hf : ∀ h, (f h).SameWay h) :
    Reshapes g { g with halves := g.halves.modify id f } := by
  refine ⟨rfl, rfl, fun k => ?_⟩
  rw [TreeMap.getElem?_modify]
  split
  · rename_i hc
    obtain rfl : id = k := LawfulEqCmp.eq_of_compare hc
    exact rel_sameWay_map f hf _
  · simpa using rel_sameWay_map (fun h => h) Half.SameWay.refl g.halves[k]?

/-- A change that leaves the halves alone. -/
theorem reshapes_of_eq {g g' : Graph} (hs : g'.selfId = g.selfId) (hi : g'.inbound = g.inbound)
    (hh : g'.halves = g.halves) : Reshapes g g' := by
  refine ⟨hs, hi, fun id => ?_⟩
  rw [hh]
  simpa using rel_sameWay_map (fun h => h) Half.SameWay.refl g.halves[id]?

theorem reshapes_nameNode (g : Graph) (id : String) (nickname : Option String) :
    Reshapes g (g.nameNode id nickname) := by
  cases nickname with
  | none => exact reshapes_of_eq rfl rfl rfl
  | some nickname => exact reshapes_of_eq rfl rfl rfl

theorem reshapes_syncNodes (g : Graph) : Reshapes g g.syncNodes := reshapes_of_eq rfl rfl rfl

/-- A half can join a graph that does not know it, or knows it with the same ends. -/
def Fits (g : Graph) (h : Half) : Prop := ∀ k, g.halves[h.id]? = some k → h.SameWay k

theorem getElem?_insertHalf (g : Graph) (h : Half) (id : HalfId) :
    (g.insertHalf h).halves[id]? = if h.id = id then some h else g.halves[id]? := by
  show (g.halves.insert h.id h)[id]? = _
  by_cases hid : h.id = id
  · subst hid
    rw [TreeMap.getElem?_insert_self, if_pos rfl]
  · rw [TreeMap.getElem?_insert, if_neg fun hc => hid (LawfulEqCmp.eq_of_compare hc), if_neg hid]

theorem grows_insertHalf {g : Graph} {h : Half} (hf : g.Fits h) : Grows g (g.insertHalf h) := by
  refine ⟨rfl, fun id k hk => ?_⟩
  rw [getElem?_insertHalf]
  by_cases hid : h.id = id
  · subst hid
    exact ⟨h, if_pos rfl, hf k hk⟩
  · exact ⟨k, by rw [if_neg hid, hk], .refl k⟩

theorem Keyed.insertHalf {g : Graph} (hg : g.Keyed) {h : Half} (hf : g.Fits h) :
    (g.insertHalf h).Keyed := by
  have hnew : (g.insertHalf h).halves[h.id]? = some h := by
    rw [getElem?_insertHalf, if_pos rfl]
  constructor
  · intro id k hk
    rw [getElem?_insertHalf] at hk
    split at hk
    · rename_i hid
      cases hk
      exact hid
    · exact hg.id_eq hk
  · intro node id hid
    -- What was listed before is known still, so only the new half is left to look at.
    have old : ∀ node id, id ∈ g.inbound.getD node [] →
        ∃ k, (g.insertHalf h).halves[id]? = some k ∧ k.destination = node := by
      intro node id hid
      obtain ⟨k, hk, hd⟩ := hg.leads hid
      obtain ⟨k', hk', hw⟩ := (grows_insertHalf hf).halves id k hk
      exact ⟨k', hk', hw.2.2.trans hd⟩
    have hid' : id ∈ (g.inbound.insert h.destination
        (g.inbound.getD h.destination [] ++ [h.id])).getD node [] := hid
    rw [TreeMap.getD_insert] at hid'
    split at hid'
    · rename_i hc
      obtain rfl : h.destination = node := LawfulEqCmp.eq_of_compare hc
      rcases List.mem_append.mp hid' with hid' | hid'
      · exact old _ _ hid'
      · obtain rfl := List.mem_singleton.mp hid'
        exact ⟨h, hnew, rfl⟩
    · exact old _ _ hid'

/-! ## What every change keeps -/

/-- The step from `g` to `g'` drops no half and keeps the names and the listing in order. -/
structure Preserves (g g' : Graph) : Prop where
  grows : Grows g g'
  keyed : g.Keyed → g'.Keyed

theorem Preserves.refl (g : Graph) : Preserves g g := ⟨.refl g, fun hg => hg⟩

theorem Preserves.trans {g g' g'' : Graph} (h : Preserves g g') (h' : Preserves g' g'') :
    Preserves g g'' := ⟨h.grows.trans h'.grows, fun hg => h'.keyed (h.keyed hg)⟩

theorem Reshapes.preserves {g g' : Graph} (h : Reshapes g g') : Preserves g g' :=
  ⟨h.grows, h.keyed⟩

theorem preserves_insertHalf {g : Graph} {h : Half} (hf : g.Fits h) :
    Preserves g (g.insertHalf h) := ⟨grows_insertHalf hf, fun hg => hg.insertHalf hf⟩

/-! ## Elementary steps -/

/-- `g'` comes from `g` by elementary steps. A half is added only where `Fit` allows it. -/
inductive Evolves (Fit : Graph → Half → Prop) : Graph → Graph → Prop
  | refl (g : Graph) : Evolves Fit g g
  | trans {g g' g'' : Graph} (first : Evolves Fit g g') (second : Evolves Fit g' g'') :
      Evolves Fit g g''
  /-- The halves carry something else, or the records of the own channels have changed. -/
  | reshape {g g' : Graph} (halves : Reshapes g g') (nodes : g'.nodes = g.nodes) : Evolves Fit g g'
  | name (g : Graph) (id : String) (nickname : Option String) :
      Evolves Fit g (g.nameNode id nickname)
  | connect (g : Graph) : Evolves Fit g g.syncNodes
  | insert {g : Graph} {h : Half} (fit : Fit g h) : Evolves Fit g (g.insertHalf h)

/-- A half that the graph does not know and whose name tells the direction between its ends. -/
structure Fresh (g : Graph) (h : Half) : Prop where
  unknown : h.id ∉ g.halves
  directed : h.Directed

theorem fits_of_unknown {g : Graph} {h : Half} (hu : h.id ∉ g.halves) : g.Fits h := by
  intro k hk
  rw [TreeMap.getElem?_eq_none hu] at hk
  cases hk

/-- What no step changes, no sequence of steps changes. -/
theorem foldl_keeps {α β : Type} (f : Graph → α) {step : Graph → β → Graph}
    (hstep : ∀ g b, f (step g b) = f g) (l : List β) (g : Graph) :
    f (l.foldl step g) = f g := by
  induction l generalizing g with
  | nil => rfl
  | cons b rest ih => exact (ih _).trans (hstep g b)

section Steps

variable {Fit : Graph → Half → Prop} {g g' : Graph}

theorem Evolves.mono {Fit' : Graph → Half → Prop} (h : Evolves Fit g g')
    (hfit : ∀ g h, Fit g h → Fit' g h) : Evolves Fit' g g' := by
  induction h with
  | refl g => exact .refl g
  | trans _ _ ih ih' => exact .trans ih ih'
  | reshape halves nodes => exact .reshape halves nodes
  | name g id nickname => exact .name g id nickname
  | connect g => exact .connect g
  | insert fit => exact .insert (hfit _ _ fit)

theorem Evolves.preserves (h : Evolves Fits g g') : Preserves g g' := by
  induction h with
  | refl g => exact .refl g
  | trans _ _ ih ih' => exact ih.trans ih'
  | reshape halves _ => exact halves.preserves
  | name g id nickname => exact (reshapes_nameNode g id nickname).preserves
  | connect g => exact (reshapes_syncNodes g).preserves
  | insert fit => exact preserves_insertHalf fit

theorem Evolves.fits_of_fresh (h : Evolves Fresh g g') : Evolves Fits g g' :=
  h.mono fun _ _ hf => fits_of_unknown hf.unknown

theorem evolves_foldl {β : Type} {step : Graph → β → Graph} {l : List β}
    (hstep : ∀ g, ∀ b ∈ l, Evolves Fit g (step g b)) (g : Graph) :
    Evolves Fit g (l.foldl step g) := by
  induction l generalizing g with
  | nil => exact .refl g
  | cons b rest ih =>
      exact .trans (hstep g b List.mem_cons_self)
        (ih (fun g b hb => hstep g b (List.mem_cons_of_mem _ hb)) _)

/-- Halves can be added in turn if each fits the graph to which those before it were added. -/
theorem evolves_insertAll {l : List Half}
    (fit : ∀ before h after, l = before ++ h :: after → Fit (before.foldl insertHalf g) h) :
    Evolves Fit g (l.foldl insertHalf g) := by
  induction l generalizing g with
  | nil => exact .refl g
  | cons h rest ih =>
      refine .trans (.insert (fit [] h rest rfl)) (ih fun before k after heq => ?_)
      exact fit (h :: before) k after (by rw [heq]; rfl)

/-- Of halves that are added in turn, the last one of a name stays. -/
theorem getElem?_insertAll (l : List Half) (g : Graph) (id : HalfId) :
    (l.foldl insertHalf g).halves[id]? =
      (l.reverse.find? fun h => h.id == id).or g.halves[id]? := by
  induction l generalizing g with
  | nil => rfl
  | cons h rest ih =>
      have hput : (g.insertHalf h).halves[id]? =
          ([h].find? fun h => h.id == id).or g.halves[id]? := by
        rw [getElem?_insertHalf, List.find?_singleton]
        by_cases hid : h.id = id
        · rw [if_pos hid, if_pos (beq_iff_eq.mpr hid), Option.some_or]
        · rw [if_neg hid, if_neg fun heq => hid (beq_iff_eq.mp heq), Option.none_or]
      rw [List.foldl_cons, ih, hput, List.reverse_cons, List.find?_append, Option.or_assoc]

/-- After halves were added, a half is one of them or was known before. -/
theorem mem_or_known_of_insertAll {l : List Half} {id : HalfId} {k : Half}
    (h : (l.foldl insertHalf g).halves[id]? = some k) :
    (k ∈ l ∧ k.id = id) ∨ g.halves[id]? = some k := by
  rw [getElem?_insertAll, Option.or_eq_some_iff] at h
  rcases h with hfound | ⟨-, hold⟩
  · have hid : k.id = id := by simpa using List.find?_some hfound
    exact Or.inl ⟨List.mem_reverse.mp (List.mem_of_find?_eq_some hfound), hid⟩
  · exact Or.inr hold

end Steps

/-! ## Each change -/

section Changes

variable {Fit : Graph → Half → Prop}

theorem sameWay_ownState (g : Graph) (now : Time) (id : HalfId) (h : Half) :
    (g.ownState now id h).SameWay h := by
  unfold ownState
  split
  · exact .refl h
  · split
    · exact ⟨rfl, rfl, rfl⟩
    · split
      · exact ⟨rfl, rfl, rfl⟩
      · exact .refl h

theorem evolves_syncOwn (g : Graph) (now : Time) : Evolves Fit g (g.syncOwn now) :=
  .reshape (reshapes_map g _ (g.sameWay_ownState now)) rfl

theorem evolves_insertNew {halves : List Half}
    (fit : ∀ g, ∀ h ∈ halves, h.id ∉ g.halves → Fit g h) (g : Graph) :
    Evolves Fit g (g.insertNew halves) := by
  refine evolves_foldl (fun g h hh => ?_) g
  split
  · exact .refl g
  · rename_i hnew
    exact .insert (fit g h hh hnew)

/-- A half that was not known is the first of its name among those added. -/
theorem getElem?_insertNew (l : List Half) (g : Graph) (id : HalfId) :
    (g.insertNew l).halves[id]? = g.halves[id]?.or (l.find? fun h => h.id == id) := by
  induction l generalizing g with
  | nil => exact (Option.or_none).symm
  | cons h rest ih =>
      show (((if h.id ∈ g.halves then g else g.insertHalf h)).insertNew rest).halves[id]? = _
      rw [ih, List.find?_cons]
      by_cases hid : h.id = id
      · subst hid
        rw [beq_self_eq_true]
        split
        · rename_i hmem
          -- The half is known already, and what is known comes first.
          obtain ⟨k, hk⟩ := Option.isSome_iff_exists.mp (TreeMap.mem_iff_isSome_getElem?.mp hmem)
          rw [hk, Option.some_or, Option.some_or]
        · rename_i hnew
          rw [getElem?_insertHalf, if_pos rfl, TreeMap.getElem?_eq_none hnew, Option.some_or,
            Option.none_or]
      · have hother : ((if h.id ∈ g.halves then g else g.insertHalf h)).halves[id]? =
            g.halves[id]? := by
          split
          · rfl
          · rw [getElem?_insertHalf, if_neg hid]
        rw [hother, beq_false_of_ne hid]

/-- The graph with all names of a snapshot. -/
def nameAll (g : Graph) (nodes : List (String × String)) : Graph :=
  nodes.foldl (fun g n => g.nameNode n.1 (some n.2)) g

theorem restore_eq (g : Graph) (halves : List Half) (nodes : List (String × String)) :
    g.restore halves nodes = ((g.nameAll nodes).insertNew halves).syncNodes := rfl

theorem halves_nameNode (g : Graph) (id : String) (nickname : Option String) :
    (g.nameNode id nickname).halves = g.halves := by
  cases nickname <;> rfl

theorem halves_nameAll (g : Graph) (nodes : List (String × String)) :
    (g.nameAll nodes).halves = g.halves :=
  foldl_keeps halves (fun g (n : String × String) => halves_nameNode g n.1 (some n.2)) nodes g

theorem evolves_nameAll (g : Graph) (nodes : List (String × String)) :
    Evolves Fit g (g.nameAll nodes) := evolves_foldl (fun g n _ => .name g n.1 (some n.2)) g

theorem evolves_restore {halves : List Half}
    (fit : ∀ g, ∀ h ∈ halves, h.id ∉ g.halves → Fit g h) (g : Graph)
    (nodes : List (String × String)) : Evolves Fit g (g.restore halves nodes) := by
  rw [restore_eq]
  exact .trans (.trans (evolves_nameAll g nodes) (evolves_insertNew fit _)) (.connect _)

theorem evolves_announce (g : Graph) (now : Time) (a : Announcement) :
    Evolves Fresh g (g.announce now a) := by
  unfold announce
  split
  · rename_i h hh
    exact .reshape (reshapes_insert hh (h.sameWay_announced a)) rfl
  · rename_i hnew
    have hunknown : a.id ∉ g.halves := by
      rw [TreeMap.mem_iff_isSome_getElem?, hnew]
      exact Bool.false_ne_true
    exact .insert ⟨hunknown, rfl⟩

theorem sameWay_aged (now : Time) (reset : UInt64) (listed : Bool) (h : Half) :
    (aged now reset listed h).SameWay h := by
  unfold aged
  split
  · exact ⟨rfl, rfl, rfl⟩
  · split
    · exact ⟨rfl, rfl, rfl⟩
    · exact .refl h

/-- The graph with all halves that the gossip lists. -/
def announceAll (g : Graph) (gossip : List Announcement) (now : Time) : Graph :=
  gossip.foldl (fun g a => g.announce now a) g

/-- The graph with all nodes that the gossip lists. -/
def hearNodes (g : Graph) (nodes : List NodeAnnouncement) : Graph :=
  nodes.foldl (fun g n => g.nameNode n.id n.nickname) g

/-- The graph with the halves of no own channel aged by the gossip. -/
def ageAll (g : Graph) (gossip : List Announcement) (now : Time) (reset : UInt64) : Graph :=
  { g with
    halves := g.halves.map fun id h =>
      if g.isOwn id.scid then h
      else aged now reset ((TreeSet.ofList (gossip.map Announcement.id)).contains id) h }

theorem applyGossip_eq (g : Graph) (gossip : List Announcement) (nodes : List NodeAnnouncement)
    (now : Time) (reset : UInt64) :
    g.applyGossip gossip nodes now reset =
      ((((g.announceAll gossip now).hearNodes nodes).ageAll gossip now reset).syncOwn
        now).syncNodes := rfl

theorem evolves_announceAll (g : Graph) (gossip : List Announcement) (now : Time) :
    Evolves Fresh g (g.announceAll gossip now) :=
  evolves_foldl (fun g a _ => evolves_announce g now a) g

theorem evolves_hearNodes (g : Graph) (nodes : List NodeAnnouncement) :
    Evolves Fit g (g.hearNodes nodes) := evolves_foldl (fun g n _ => .name g n.id n.nickname) g

theorem evolves_ageAll (g : Graph) (gossip : List Announcement) (now : Time) (reset : UInt64) :
    Evolves Fit g (g.ageAll gossip now reset) := by
  refine .reshape (reshapes_map g _ fun id h => ?_) rfl
  split
  · exact .refl h
  · exact sameWay_aged now reset _ h

theorem evolves_applyGossip (g : Graph) (gossip : List Announcement)
    (nodes : List NodeAnnouncement) (now : Time) (reset : UInt64) :
    Evolves Fresh g (g.applyGossip gossip nodes now reset) := by
  rw [applyGossip_eq]
  have hheard := (evolves_announceAll g gossip now).trans (evolves_hearNodes _ nodes)
  exact .trans (.trans (hheard.trans (evolves_ageAll _ gossip now reset)) (evolves_syncOwn _ now))
    (.connect _)

/-- The two directions between different nodes are opposite. -/
theorem directionOf_swap {a b : String} (h : a ≠ b) : directionOf b a = directionOf a b ^^^ 1 := by
  unfold directionOf
  rcases Std.lt_trichotomy a b with hab | rfl | hba
  · rw [if_pos hab, if_neg hab.asymm]
    rfl
  · exact absurd rfl h
  · rw [if_pos hba, if_neg hba.asymm]
    rfl

theorem directionOf_ne_swap {a b : String} (h : a ≠ b) : directionOf b a ≠ directionOf a b := by
  rw [directionOf_swap h]
  unfold directionOf
  split <;> decide

/-- Halves of own channels with the same name have the same ends. -/
theorem sameWay_of_mem_ownHalves {g : Graph} {now : Time} {scid : String} {c : OwnChannel}
    {h k : Half} (hh : h ∈ g.ownHalves now scid c) (hk : k ∈ g.ownHalves now scid c)
    (hid : h.id = k.id) : k.SameWay h := by
  simp only [ownHalves, List.mem_cons, List.not_mem_nil, or_false] at hh hk
  -- The two halves have one name only if both ends are the local node.
  have ends : directionOf g.selfId c.peer = directionOf c.peer g.selfId → g.selfId = c.peer :=
    fun hd => by_contra fun hne => directionOf_ne_swap hne hd.symm
  rcases hh with rfl | rfl <;> rcases hk with rfl | rfl
  · exact .refl _
  · have hp := ends (congrArg HalfId.direction hid)
    exact ⟨hid.symm, hp.symm, hp⟩
  · have hp := ends (congrArg HalfId.direction hid).symm
    exact ⟨hid.symm, hp, hp.symm⟩
  · exact .refl _

theorem scid_of_mem_ownHalves {g : Graph} {now : Time} {scid : String} {c : OwnChannel} {h : Half}
    (hh : h ∈ g.ownHalves now scid c) : h.id.scid = scid := by
  simp only [ownHalves, List.mem_cons, List.not_mem_nil, or_false] at hh
  rcases hh with rfl | rfl <;> rfl

theorem directed_of_mem_ownHalves {g : Graph} {now : Time} {scid : String} {c : OwnChannel}
    {h : Half} (hh : h ∈ g.ownHalves now scid c) : h.Directed := by
  simp only [ownHalves, List.mem_cons, List.not_mem_nil, or_false] at hh
  rcases hh with rfl | rfl <;> rfl

/-- The halves of own channels that the graph does not know. -/
def missingOwn (g : Graph) (now : Time) : List Half :=
  (g.own.toList.flatMap fun e => g.ownHalves now e.1 e.2).filter fun h => !g.halves.contains h.id

/-- The graph with the records of `channels` in place of its own. -/
def withOwn (g : Graph) (channels : List OwnChannel) : Graph :=
  { g with own := TreeMap.ofList (keyed channels) }

/-- The graph with both halves of every own channel. -/
def addMissing (g : Graph) (now : Time) : Graph := (g.missingOwn now).foldl insertHalf g

theorem applyOwn_eq (g : Graph) (channels : List OwnChannel) (now : Time) :
    g.applyOwn channels now =
      (((g.withOwn channels).addMissing now).syncOwn now).syncNodes := rfl

theorem exists_own_of_mem_missingOwn {g : Graph} {now : Time} {h : Half}
    (hh : h ∈ g.missingOwn now) :
    h.id ∉ g.halves ∧ ∃ (scid : String) (c : OwnChannel), g.own[scid]? = some c ∧
      h ∈ g.ownHalves now scid c := by
  obtain ⟨hmem, hnew⟩ := List.mem_filter.mp hh
  obtain ⟨⟨scid, c⟩, he, hh'⟩ := List.mem_flatMap.mp hmem
  refine ⟨?_, scid, c, TreeMap.mem_toList_iff_getElem?_eq_some.mp he, hh'⟩
  rw [TreeMap.mem_iff_contains, Bool.not_eq_true]
  simpa using hnew

/-- Missing halves of one name are of one channel, and of one record of it. -/
theorem sameWay_of_mem_missingOwn {g : Graph} {now : Time} {h k : Half}
    (hh : h ∈ g.missingOwn now) (hk : k ∈ g.missingOwn now) (hid : h.id = k.id) :
    k.SameWay h := by
  obtain ⟨-, s, c, hc, hh'⟩ := exists_own_of_mem_missingOwn hh
  obtain ⟨-, t, d, hd, hk'⟩ := exists_own_of_mem_missingOwn hk
  obtain rfl : s = t :=
    calc s = h.id.scid := (scid_of_mem_ownHalves hh').symm
      _ = k.id.scid := by rw [hid]
      _ = t := scid_of_mem_ownHalves hk'
  obtain rfl : c = d := Option.some.inj (hc.symm.trans hd)
  exact sameWay_of_mem_ownHalves hh' hk' hid

/-- The halves of own channels that are not known yet can be added. -/
theorem evolves_addMissing (g : Graph) (now : Time) : Evolves Fits g (g.addMissing now) := by
  refine evolves_insertAll fun before h after heq k hk => ?_
  have hh : h ∈ g.missingOwn now := by simp [heq]
  rcases mem_or_known_of_insertAll hk with ⟨hmem, hid⟩ | hold
  · exact sameWay_of_mem_missingOwn (by simp [heq, hmem]) hh hid
  · exact fits_of_unknown (exists_own_of_mem_missingOwn hh).1 k hold

theorem evolves_withOwn (g : Graph) (channels : List OwnChannel) :
    Evolves Fit g (g.withOwn channels) := .reshape (reshapes_of_eq rfl rfl rfl) rfl

theorem evolves_applyOwn (g : Graph) (channels : List OwnChannel) (now : Time) :
    Evolves Fits g (g.applyOwn channels now) := by
  rw [applyOwn_eq]
  exact .trans (.trans ((evolves_withOwn g channels).trans (evolves_addMissing _ now))
    (evolves_syncOwn _ now)) (.connect _)

theorem evolves_modifyOwn (g : Graph) (scid : Option String) (f : OwnChannel → OwnChannel) :
    Evolves Fit g (g.modifyOwn scid f) := by
  cases scid with
  | none => exact .refl g
  | some scid => exact .reshape (reshapes_of_eq rfl rfl rfl) rfl

theorem evolves_applyPayment (g : Graph) (route : Route) (amount : Msat) (now : Time) :
    Evolves Fit g (g.applyPayment route amount now) :=
  .trans (.trans (evolves_modifyOwn g _ _) (evolves_modifyOwn _ _ _)) (evolves_syncOwn _ now)

theorem evolves_applyFailure {g g' : Graph} {id : HalfId} {amount : Msat} {now : Time}
    (h : g.applyFailure id amount now = some g') : Evolves Fit g g' := by
  unfold applyFailure at h
  split at h
  · cases h
  · obtain ⟨k, hk, rfl⟩ := Option.map_eq_some_iff.mp h
    exact .trans (.reshape (reshapes_modify g id _ fun k => k.sameWay_withLiquidity _ now) rfl)
      (.reshape (reshapes_modify _ id.opposite _ fun k => k.sameWay_withLiquidity _ now) rfl)

theorem evolves_after (g : Graph) (c : Change) : Evolves Fits g (g.after c) := by
  cases c with
  | restore halves nodes => exact evolves_restore (fun g h _ hu => fits_of_unknown hu) g nodes
  | gossip gossip nodes now reset =>
      exact (evolves_applyGossip g gossip nodes now reset).fits_of_fresh
  | own channels now => exact evolves_applyOwn g channels now
  | payment route amount now => exact evolves_applyPayment g route amount now
  | failure id amount now =>
      show Evolves Fits g ((g.applyFailure id amount now).getD g)
      cases h : g.applyFailure id amount now with
      | none => exact .refl g
      | some g' => exact evolves_applyFailure h

end Changes

/-- No change drops a half or moves one, and none puts the names or the listing in disorder. -/
theorem preserves_after (g : Graph) (c : Change) : Preserves g (g.after c) :=
  (evolves_after g c).preserves

theorem Reachable.keyed {g : Graph} (h : g.Reachable) : g.Keyed :=
  h.induct keyed_empty fun g c ih => (preserves_after g c).keyed ih

/-! ## Two channels -/

/-- An own channel that has `spendable` on our side and `receivable` on that of the peer, who
charges one millisatoshi for each payment. -/
def channelWith (peer scid : String) (spendable receivable : Msat) : OwnChannel where
  peer := peer
  connected := true
  state := normalState
  scid := some scid
  total := addClamped spendable receivable
  toUs := spendable
  spendable := spendable
  receivable := receivable
  policies := some { remote := some { htlcMax := addClamped spendable receivable, baseFee := 1 } }

/-- A local node with two channels to one peer, one of them full and one of them empty. -/
def twoChannels : Graph :=
  (empty "a").applyOwn [channelWith "b" "1x1" 1000000 0, channelWith "b" "2x1" 0 1000000] 0

theorem reachable_twoChannels : twoChannels.Reachable :=
  ⟨"a", [.own [channelWith "b" "1x1" 1000000 0, channelWith "b" "2x1" 0 1000000] 0], rfl⟩

end Graph

end Rebalancer
