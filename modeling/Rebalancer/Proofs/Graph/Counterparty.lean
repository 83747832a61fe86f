import Mathlib.Data.Prod.Lex
import Mathlib.Data.String.Basic
import Rebalancer.Graph.Counterparty
import Rebalancer.Proofs.Graph.Rings
import Rebalancer.Proofs.Graph.Estimates

set_option autoImplicit false

/-! # Channels with named peers

In which order the nodes and the channels are gone through makes no difference to the ends that two
names stand for. A name stands for the node with this id, and an alias for its only bearer. Of the
channels the fullest is taken, and two channels are never equally full, because the one with the
lesser id then counts as the fuller one (`ends_in_any_order`).
-/

namespace Rebalancer.Graph

open Std (TreeMap)

variable {g : Graph} {name outNode inNode exit entry : String} {nodes : List Node}
  {channels : List OwnChannel}

/-! ## The fullest channel -/

section Fullest

variable {measure : OwnChannel → Msat} {e f : String × OwnChannel}
  {l : List (String × OwnChannel)} {P : String → OwnChannel → Prop} {scid : String}

/-- The place of a channel among others: the more it has of `measure` the earlier, and with as much
the lesser its id. -/
def place (measure : OwnChannel → Msat) (e : String × OwnChannel) : Lex (Natᵒᵈ × String) :=
  toLex (OrderDual.toDual (measure e.2).toNat, e.1)

theorem place_le_iff :
    place measure e ≤ place measure f ↔
      measure f.2 < measure e.2 ∨ measure f.2 = measure e.2 ∧ e.1 ≤ f.1 := by
  rw [place, place, Prod.Lex.toLex_le_toLex, OrderDual.toDual_lt_toDual, OrderDual.toDual_inj,
    UInt64.lt_iff_toNat_lt, UInt64.toNat_inj, eq_comm]

theorem fuller_iff : fuller measure e f = true ↔ place measure e < place measure f := by
  rw [place, place, Prod.Lex.toLex_lt_toLex, OrderDual.toDual_lt_toDual, OrderDual.toDual_inj,
    ← UInt64.lt_iff_toNat_lt, UInt64.toNat_inj]
  simp [fuller]

theorem fullest_eq_none_iff : fullest measure l = none ↔ l = [] := by
  cases l with
  | nil => exact iff_of_true rfl rfl
  | cons e rest =>
      refine iff_of_false (fun h => ?_) (List.cons_ne_nil e rest)
      unfold fullest at h
      split at h
      · cases h
      · split at h
        · cases h
        · cases h

/-- The fullest channel is one of those that are compared, and comes first among them. -/
theorem first_of_fullest (h : fullest measure l = some e) :
    e ∈ l ∧ ∀ f ∈ l, place measure e ≤ place measure f := by
  induction l generalizing e with
  | nil => cases h
  | cons k rest ih =>
      unfold fullest at h
      split at h
      · rename_i hnone
        cases h
        rw [fullest_eq_none_iff.mp hnone]
        exact ⟨List.mem_singleton_self _, fun f hf => (List.mem_singleton.mp hf) ▸ le_rfl⟩
      · rename_i best hbest
        obtain ⟨hmem, hle⟩ := ih hbest
        split at h
        · rename_i hfuller
          cases h
          have hlt := fuller_iff.mp hfuller
          refine ⟨List.mem_cons_self, fun f hf => ?_⟩
          rcases List.mem_cons.mp hf with rfl | hf
          · exact le_rfl
          · exact hlt.le.trans (hle f hf)
        · rename_i hless
          cases h
          have hle' := not_lt.mp (mt fuller_iff.mpr hless)
          refine ⟨List.mem_cons_of_mem _ hmem, fun f hf => ?_⟩
          rcases List.mem_cons.mp hf with rfl | hf
          · exact hle'
          · exact hle f hf

/-- Of the channels with `P` the one called `scid` has most of `measure`, and none of those that
have as much of it has a lesser id. -/
def IsFullest (measure : OwnChannel → Msat) (P : String → OwnChannel → Prop) (scid : String) :
    Prop :=
  ∃ c, P scid c ∧ ∀ scid' c', P scid' c' →
    measure c' < measure c ∨ measure c' = measure c ∧ scid ≤ scid'

theorem exists_fullest_iff (hl : ∀ scid c, (scid, c) ∈ l ↔ P scid c) :
    (∃ c, fullest measure l = some (scid, c)) ↔ IsFullest measure P scid := by
  constructor
  · rintro ⟨c, hc⟩
    obtain ⟨hmem, hle⟩ := first_of_fullest hc
    exact ⟨c, (hl scid c).mp hmem, fun scid' c' hP =>
      place_le_iff.mp (hle (scid', c') ((hl scid' c').mpr hP))⟩
  · rintro ⟨c, hP, hfirst⟩
    have hmem := (hl scid c).mpr hP
    cases hbest : fullest measure l with
    | none =>
        rw [fullest_eq_none_iff.mp hbest] at hmem
        cases hmem
    | some best =>
        -- Each of the two comes before the other, so they have the same place and the same id.
        obtain ⟨hbestmem, hle⟩ := first_of_fullest hbest
        have hle' : place measure (scid, c) ≤ place measure best :=
          place_le_iff.mpr (hfirst best.1 best.2 ((hl best.1 best.2).mp hbestmem))
        have hplace := le_antisymm (hle (scid, c) hmem) hle'
        have hscid : best.1 = scid := congrArg (fun p => (ofLex p).2) hplace
        exact ⟨best.2, congrArg some (Prod.ext hscid rfl)⟩

theorem fullest_eq_none_iff_forall (hl : ∀ scid c, (scid, c) ∈ l ↔ P scid c) :
    fullest measure l = none ↔ ∀ scid c, ¬ P scid c := by
  rw [fullest_eq_none_iff, List.eq_nil_iff_forall_not_mem]
  exact ⟨fun h scid c hP => h (scid, c) ((hl scid c).mpr hP), fun h e he =>
    h e.1 e.2 ((hl e.1 e.2).mp he)⟩

end Fullest

/-! ## Peers by their names -/

/-- The graph knows the node `n` under `key`, and `name` is its alias. -/
def Bears (g : Graph) (name key : String) (n : Node) : Prop :=
  g.nodes[key]? = some n ∧ n.goesBy name = true

/-- `name` is the id of a node, or else the alias of just one node, and this node has the id
`id`. -/
def Names (g : Graph) (name id : String) : Prop :=
  (∃ n : Node, g.nodes[name]? = some n ∧ n.id = id) ∨
    (g.nodes[name]? = none ∧ ∃ key n, g.Bears name key n ∧ n.id = id ∧
      ∀ key' n', g.Bears name key' n' → key' = key)

/-- Why `name` stands for no node: it is no id, and either no alias or that of several nodes. -/
inductive Misnames (g : Graph) (name : String) : Refusal → Prop
  | unknown (no_id : g.nodes[name]? = none) (no_alias : ∀ key n, ¬ g.Bears name key n) :
      Misnames g name (.unknownNode name)
  | ambiguous (no_id : g.nodes[name]? = none) {key key' : String} {n n' : Node}
      (first : g.Bears name key n) (second : g.Bears name key' n') (two : key ≠ key') :
      Misnames g name (.ambiguousAlias name)

/-- The nodes that bear the alias `name`, each with its key. -/
def bearers (g : Graph) (name : String) : List (String × Node) :=
  g.nodes.toList.filter fun e => e.2.goesBy name

theorem mem_bearers_iff {e : String × Node} : e ∈ g.bearers name ↔ g.Bears name e.1 e.2 := by
  rw [bearers, List.mem_filter, TreeMap.mem_toList_iff_getElem?_eq_some, Bears]

theorem perm_bearers (hnodes : nodes.Perm g.nodes.values) (name : String) :
    (nodes.filter (·.goesBy name)).Perm ((g.bearers name).map (·.2)) := by
  have hvalues : g.nodes.values.filter (·.goesBy name) = (g.bearers name).map (·.2) := by
    rw [values_eq_map_toList, List.filter_map]
    rfl
  exact hvalues ▸ hnodes.filter _

theorem pairwise_bearers (g : Graph) (name : String) :
    (g.bearers name).Pairwise fun e e' => e.1 ≠ e'.1 :=
  (TreeMap.distinct_keys_toList.imp fun hne heq => hne (compare_eq_iff_eq.mpr heq)).filter _

/-- A name that is no id is looked for among the aliases, in whatever order. -/
theorem resolvePeer_of_none (hnodes : nodes.Perm g.nodes.values) (hnone : g.nodes[name]? = none) :
    g.resolvePeer nodes name =
      match g.bearers name with
      | [e] => .ok e.2.id
      | [] => .error (.invalid (.unknownNode name))
      | _ => .error (.invalid (.ambiguousAlias name)) := by
  have hperm := perm_bearers hnodes name
  unfold resolvePeer
  rw [hnone]
  match hb : g.bearers name with
  | [] =>
      rw [hb] at hperm
      rw [hperm.eq_nil]
  | [e] =>
      rw [hb] at hperm
      rw [List.perm_singleton.mp hperm]
  | e :: e' :: rest =>
      have hlength := hperm.length_eq
      rw [hb] at hlength
      cases hfilter : nodes.filter (·.goesBy name) with
      | nil =>
          rw [hfilter] at hlength
          cases hlength
      | cons n more =>
          cases more with
          | nil =>
              rw [hfilter] at hlength
              cases hlength
          | cons n' more => rfl

/-- A name stands for a node, or there is a reason why it does not. -/
theorem resolvePeer_spec (hnodes : nodes.Perm g.nodes.values) (name : String) :
    (∃ id, g.resolvePeer nodes name = .ok id ∧ g.Names name id) ∨
      ∃ x, g.resolvePeer nodes name = .error (.invalid x) ∧ g.Misnames name x := by
  cases hname : g.nodes[name]? with
  | some n =>
      refine Or.inl ⟨n.id, ?_, Or.inl ⟨n, hname, rfl⟩⟩
      unfold resolvePeer
      rw [hname]
  | none =>
      rw [resolvePeer_of_none hnodes hname]
      have hpair := pairwise_bearers g name
      have hmem : ∀ e, e ∈ g.bearers name ↔ g.Bears name e.1 e.2 := fun e => mem_bearers_iff
      match hb : g.bearers name with
      | [] =>
          rw [hb] at hmem
          exact Or.inr ⟨_, rfl, .unknown hname fun key n hn =>
            List.not_mem_nil ((hmem (key, n)).mpr hn)⟩
      | [e] =>
          rw [hb] at hmem
          refine Or.inl ⟨_, rfl, Or.inr ⟨hname, e.1, e.2, (hmem e).mp (List.mem_singleton_self e),
            rfl, fun key n hn => ?_⟩⟩
          exact congrArg Prod.fst (List.mem_singleton.mp ((hmem (key, n)).mpr hn))
      | e :: e' :: rest =>
          rw [hb] at hmem hpair
          exact Or.inr ⟨_, rfl, .ambiguous hname ((hmem e).mp List.mem_cons_self)
            ((hmem e').mp (List.mem_cons_of_mem e List.mem_cons_self))
            ((List.pairwise_cons.mp hpair).1 e' List.mem_cons_self)⟩

/-! A name stands for one node at most, and for none if there is a reason, of which there is only
one. -/

theorem Names.functional {id id' : String} (h : g.Names name id) (h' : g.Names name id') :
    id = id' := by
  rcases h with ⟨n, hn, rfl⟩ | ⟨hnone, key, n, hn, rfl, hsole⟩
  · rcases h' with ⟨n', hn', rfl⟩ | ⟨hnone, -⟩
    · rw [Option.some.inj (hn.symm.trans hn')]
    · cases hn.symm.trans hnone
  · rcases h' with ⟨n', hn', rfl⟩ | ⟨-, key', n', hn', rfl, -⟩
    · cases hnone.symm.trans hn'
    · obtain rfl := hsole key' n' hn'
      rw [Option.some.inj (hn.1.symm.trans hn'.1)]

theorem Misnames.not_names {x : Refusal} (h : g.Misnames name x) (id : String) :
    ¬ g.Names name id := by
  rintro (⟨n, hn, -⟩ | ⟨-, key, n, hn, -, hsole⟩)
  · cases h with
    | unknown no_id no_alias => cases no_id.symm.trans hn
    | ambiguous no_id first second two => cases no_id.symm.trans hn
  · cases h with
    | unknown no_id no_alias => exact no_alias key n hn
    | ambiguous no_id first second two =>
        exact two ((hsole _ _ first).trans (hsole _ _ second).symm)

theorem Misnames.functional {x x' : Refusal} (h : g.Misnames name x) (h' : g.Misnames name x') :
    x = x' := by
  cases h with
  | unknown no_id no_alias =>
      cases h' with
      | unknown => rfl
      | ambiguous _ first => exact absurd first (no_alias _ _)
  | ambiguous no_id first =>
      cases h' with
      | unknown _ no_alias => exact absurd first (no_alias _ _)
      | ambiguous => rfl

theorem resolvePeer_eq_ok_iff (hnodes : nodes.Perm g.nodes.values) {id : String} :
    g.resolvePeer nodes name = .ok id ↔ g.Names name id := by
  rcases resolvePeer_spec hnodes name with ⟨id', hok, hnames⟩ | ⟨x, herror, hmis⟩
  · rw [hok]
    exact ⟨fun h => Except.ok.inj h ▸ hnames, fun h => congrArg _ (hnames.functional h)⟩
  · rw [herror]
    exact iff_of_false nofun (hmis.not_names id)

theorem resolvePeer_eq_error_iff (hnodes : nodes.Perm g.nodes.values) {f : Failure} :
    g.resolvePeer nodes name = .error f ↔ ∃ x, g.Misnames name x ∧ f = .invalid x := by
  rcases resolvePeer_spec hnodes name with ⟨id, hok, hnames⟩ | ⟨x, herror, hmis⟩
  · rw [hok]
    exact iff_of_false nofun fun ⟨x, hmis, _⟩ => hmis.not_names id hnames
  · rw [herror]
    constructor
    · intro h
      exact ⟨x, hmis, (Except.error.inj h).symm⟩
    · rintro ⟨x', hmis', rfl⟩
      rw [hmis.functional hmis']

/-! ## The ends -/

/-- The channel `scid` is an own one with `peer` that can carry payments now. -/
structure UsableWith (g : Graph) (peer scid : String) (c : OwnChannel) : Prop where
  own : c ∈ g.own.values
  scid_eq : c.scid = some scid
  peer_eq : c.peer = peer
  connected : c.connected = true
  normal : c.isNormal = true

theorem mem_usableWith_iff (hchannels : channels.Perm g.own.values) {peer scid : String}
    {c : OwnChannel} :
    (scid, c) ∈ usableWith channels peer ↔ g.UsableWith peer scid c := by
  rw [usableWith, List.mem_filterMap]
  constructor
  · rintro ⟨c', hc', heq⟩
    obtain ⟨scid', hscid, heq⟩ := Option.map_eq_some_iff.mp heq
    cases heq
    obtain ⟨hmem, hboth⟩ := List.mem_filter.mp hc'
    obtain ⟨hpeer, husable⟩ := Bool.and_eq_true_iff.mp hboth
    obtain ⟨hconnected, hnormal⟩ := Bool.and_eq_true_iff.mp husable
    exact ⟨hchannels.mem_iff.mp hmem, hscid, beq_iff_eq.mp hpeer, hconnected, hnormal⟩
  · intro h
    refine ⟨c, List.mem_filter.mpr ⟨hchannels.mem_iff.mpr h.own, ?_⟩, by rw [h.scid_eq]; rfl⟩
    rw [OwnChannel.usable, h.peer_eq, h.connected, h.normal, beq_self_eq_true]
    rfl

/-- The channel with `peer` by which most can be sent. -/
def IsExitTo (g : Graph) (peer exit : String) : Prop :=
  IsFullest (·.spendable) (g.UsableWith peer) exit

/-- The channel with `peer` by which most can be received, the exit left aside. -/
def IsEntryFrom (g : Graph) (peer exit entry : String) : Prop :=
  IsFullest (·.receivable) (fun scid c => g.UsableWith peer scid c ∧ scid ≠ exit) entry

/-- Why there are no ends for two names: one of them stands for no node, or there is no channel to
choose from. -/
inductive NoEnds (g : Graph) (outNode inNode : String) : Refusal → Prop
  | misnamedOut {x : Refusal} (misnamed : g.Misnames outNode x) : NoEnds g outNode inNode x
  | misnamedIn {outPeer : String} {x : Refusal} (out : g.Names outNode outPeer)
      (misnamed : g.Misnames inNode x) : NoEnds g outNode inNode x
  | noExit {outPeer inPeer : String} (out : g.Names outNode outPeer) (back : g.Names inNode inPeer)
      (none_usable : ∀ scid c, ¬ g.UsableWith outPeer scid c) :
      NoEnds g outNode inNode (.noUsableChannel outNode)
  | noEntry {outPeer inPeer exit : String} (out : g.Names outNode outPeer)
      (back : g.Names inNode inPeer) (exits : g.IsExitTo outPeer exit)
      (none_else : ∀ scid c, ¬ (g.UsableWith inPeer scid c ∧ scid ≠ exit)) :
      NoEnds g outNode inNode (.noUsableChannel inNode)

theorem mem_usableWith_filter_iff (hchannels : channels.Perm g.own.values) {peer scid : String}
    {c : OwnChannel} :
    (scid, c) ∈ (usableWith channels peer).filter (·.1 != exit) ↔
      g.UsableWith peer scid c ∧ scid ≠ exit := by
  rw [List.mem_filter, mem_usableWith_iff hchannels, bne_iff_ne]

theorem exists_exit_iff (hchannels : channels.Perm g.own.values) {peer : String} :
    (∃ c, fullest (·.spendable) (usableWith channels peer) = some (exit, c)) ↔
      g.IsExitTo peer exit :=
  exists_fullest_iff fun _ _ => mem_usableWith_iff hchannels

theorem exists_entry_iff (hchannels : channels.Perm g.own.values) {peer : String} :
    (∃ c, fullest (·.receivable) ((usableWith channels peer).filter (·.1 != exit)) =
      some (entry, c)) ↔ g.IsEntryFrom peer exit entry :=
  exists_fullest_iff fun _ _ => mem_usableWith_filter_iff hchannels

theorem chooseEnds_eq_ok_iff (hchannels : channels.Perm g.own.values) {outPeer inPeer : String} :
    chooseEnds channels outPeer inPeer outNode inNode = .ok (exit, entry) ↔
      g.IsExitTo outPeer exit ∧ g.IsEntryFrom inPeer exit entry := by
  rw [← exists_exit_iff hchannels, ← exists_entry_iff hchannels]
  unfold chooseEnds
  constructor
  · intro h
    split at h
    · cases h
    · rename_i out hexit
      split at h
      · cases h
      · rename_i back hentry
        cases h
        exact ⟨⟨out.2, hexit⟩, back.2, hentry⟩
  · rintro ⟨⟨c, hexit⟩, c', hentry⟩
    rw [hexit]
    dsimp only
    rw [hentry]

theorem chooseEnds_eq_error_iff (hchannels : channels.Perm g.own.values) {outPeer inPeer : String}
    {f : Failure} :
    chooseEnds channels outPeer inPeer outNode inNode = .error f ↔
      (∀ scid c, ¬ g.UsableWith outPeer scid c) ∧ f = .invalid (.noUsableChannel outNode) ∨
        ∃ exit, g.IsExitTo outPeer exit ∧ (∀ scid c, ¬ (g.UsableWith inPeer scid c ∧ scid ≠ exit)) ∧
          f = .invalid (.noUsableChannel inNode) := by
  have hout := @fullest_eq_none_iff_forall (·.spendable) (usableWith channels outPeer)
    (g.UsableWith outPeer) fun _ _ => mem_usableWith_iff hchannels
  have hback := fun exit => @fullest_eq_none_iff_forall (·.receivable)
    ((usableWith channels inPeer).filter (·.1 != exit))
    (fun scid c => g.UsableWith inPeer scid c ∧ scid ≠ exit)
    fun _ _ => mem_usableWith_filter_iff hchannels
  unfold chooseEnds
  constructor
  · intro h
    split at h
    · rename_i hnone
      exact Or.inl ⟨hout.mp hnone, (Except.error.inj h).symm⟩
    · rename_i out hexit
      split at h
      · rename_i hnone
        exact Or.inr ⟨out.1, (exists_exit_iff hchannels).mp ⟨out.2, hexit⟩,
          (hback out.1).mp hnone, (Except.error.inj h).symm⟩
      · cases h
  · rintro (⟨hnone, rfl⟩ | ⟨exit, hexit, hnone, rfl⟩)
    · rw [hout.mpr hnone]
    · obtain ⟨c, hc⟩ := (exists_exit_iff hchannels).mpr hexit
      rw [hc]
      dsimp only
      rw [(hback exit).mpr hnone]

theorem resolveEndsAmong_eq_ok_iff (hnodes : nodes.Perm g.nodes.values)
    (hchannels : channels.Perm g.own.values) :
    g.resolveEndsAmong nodes channels outNode inNode = .ok (exit, entry) ↔
      ∃ outPeer inPeer, g.Names outNode outPeer ∧ g.Names inNode inPeer ∧
        g.IsExitTo outPeer exit ∧ g.IsEntryFrom inPeer exit entry := by
  simp only [resolveEndsAmong, except_bind_eq_ok_iff, resolvePeer_eq_ok_iff hnodes,
    chooseEnds_eq_ok_iff hchannels, exists_and_left]

theorem resolveEndsAmong_eq_error_iff (hnodes : nodes.Perm g.nodes.values)
    (hchannels : channels.Perm g.own.values) {f : Failure} :
    g.resolveEndsAmong nodes channels outNode inNode = .error f ↔
      ∃ x, g.NoEnds outNode inNode x ∧ f = .invalid x := by
  unfold resolveEndsAmong
  simp only [except_bind_eq_error_iff, resolvePeer_eq_ok_iff hnodes,
    resolvePeer_eq_error_iff hnodes, chooseEnds_eq_error_iff hchannels]
  constructor
  · rintro (⟨x, hmis, rfl⟩ | ⟨outPeer, hout, ⟨x, hmis, rfl⟩ | ⟨inPeer, hin, h⟩⟩)
    · exact ⟨x, .misnamedOut hmis, rfl⟩
    · exact ⟨x, .misnamedIn hout hmis, rfl⟩
    · rcases h with ⟨hnone, rfl⟩ | ⟨exit, hexit, hnone, rfl⟩
      · exact ⟨_, .noExit hout hin hnone, rfl⟩
      · exact ⟨_, .noEntry hout hin hexit hnone, rfl⟩
  · rintro ⟨x, hx, rfl⟩
    cases hx with
    | misnamedOut misnamed => exact Or.inl ⟨x, misnamed, rfl⟩
    | misnamedIn out misnamed => exact Or.inr ⟨_, out, Or.inl ⟨x, misnamed, rfl⟩⟩
    | noExit out back none_usable =>
        exact Or.inr ⟨_, out, Or.inr ⟨_, back, Or.inl ⟨none_usable, rfl⟩⟩⟩
    | noEntry out back exits none_else =>
        exact Or.inr ⟨_, out, Or.inr ⟨_, back, Or.inr ⟨_, exits, none_else, rfl⟩⟩⟩

/-! ## Ids of own channels -/

/-- The records of the own channels stand under their ids. -/
def OwnKeyed (g : Graph) : Prop :=
  ∀ (scid : String) (c : OwnChannel), g.own[scid]? = some c → c.scid = some scid

theorem OwnKeyed.of_own_eq {g' : Graph} (hg : g.OwnKeyed) (hown : g'.own = g.own) :
    g'.OwnKeyed := fun scid c hc => hg scid c (hown ▸ hc)

theorem ownKeyed_applyOwn (g : Graph) (channels : List OwnChannel) (now : Time) :
    (g.applyOwn channels now).OwnKeyed := by
  intro scid c hc
  rw [own_applyOwn] at hc
  obtain ⟨c', -, hkey⟩ := List.mem_filterMap.mp (mem_of_getElem?_ofList hc)
  obtain ⟨scid', hscid, heq⟩ := Option.map_eq_some_iff.mp hkey
  cases heq
  exact hscid

/-- A change of a record that keeps the id in it leaves it under its id. -/
theorem OwnKeyed.modifyOwn (hg : g.OwnKeyed) (scid : Option String) {f : OwnChannel → OwnChannel}
    (hf : ∀ c, (f c).scid = c.scid) : (g.modifyOwn scid f).OwnKeyed := by
  intro scid' c hc
  have hsame := map_own_modifyOwn g scid hf scid'
  rw [hc] at hsame
  obtain ⟨c', hc', heq⟩ := Option.map_eq_some_iff.mp hsame.symm
  exact heq.symm.trans (hg scid' c' hc')

theorem OwnKeyed.after (hg : g.OwnKeyed) (change : Change) : (g.after change).OwnKeyed := by
  cases change with
  | restore halves nodes => exact hg.of_own_eq (own_restore g halves nodes)
  | gossip gossip nodes now reset => exact hg.of_own_eq (own_applyGossip g gossip nodes now reset)
  | own channels now => exact ownKeyed_applyOwn g channels now
  | payment route amount now =>
      exact (hg.modifyOwn route.exit? (f := (debited · amount)) fun _ => rfl).modifyOwn route.entry?
        (f := (credited · amount)) fun _ => rfl
  | failure id amount now =>
      show ((g.applyFailure id amount now).getD g).OwnKeyed
      cases hf : g.applyFailure id amount now with
      | none => exact hg
      | some g' => exact hg.of_own_eq (own_applyFailure hf).1

theorem Reachable.ownKeyed (hg : g.Reachable) : g.OwnKeyed :=
  hg.induct (motive := OwnKeyed) (fun selfId scid c hc => by simp [empty] at hc)
    fun _ change ih => ih.after change

theorem UsableWith.isOwn {peer scid : String} {c : OwnChannel} (h : g.UsableWith peer scid c)
    (hg : g.Reachable) : g.isOwn scid = true := by
  obtain ⟨key, hkey⟩ := mem_values_iff.mp h.own
  obtain rfl : key = scid := Option.some.inj ((hg.ownKeyed key c hkey).symm.trans h.scid_eq)
  exact TreeMap.contains_eq_isSome_getElem?.trans (Option.isSome_iff_exists.mpr ⟨c, hkey⟩)

/-- In whatever order the nodes and channels of a graph are gone through, two names have the same
ends. There are ends if both names stand for a node, one of the channels with the one peer can be
used, and another one of those with the other peer: then the exit is the channel that can send most
and the entry, among the others, the one that can receive most, each with the least id of several.
Else there is an invalid request. The two ends are different channels, and own ones. -/
theorem ends_in_any_order (hnodes : nodes.Perm g.nodes.values)
    (hchannels : channels.Perm g.own.values) (outNode inNode : String) :
    g.resolveEndsAmong nodes channels outNode inNode = g.resolveEnds outNode inNode ∧
      (∀ exit entry, g.resolveEnds outNode inNode = .ok (exit, entry) ↔
        ∃ outPeer inPeer, g.Names outNode outPeer ∧ g.Names inNode inPeer ∧
          g.IsExitTo outPeer exit ∧ g.IsEntryFrom inPeer exit entry) ∧
      (∀ f, g.resolveEnds outNode inNode = .error f ↔
        ∃ x, g.NoEnds outNode inNode x ∧ f = .invalid x) ∧
      ∀ exit entry, g.resolveEnds outNode inNode = .ok (exit, entry) →
        exit ≠ entry ∧ (∃ c ∈ g.own.values, c.scid = some exit) ∧
          (∃ c ∈ g.own.values, c.scid = some entry) ∧
          (g.Reachable → g.isOwn exit = true ∧ g.isOwn entry = true) := by
  have hok := fun exit entry => @resolveEndsAmong_eq_ok_iff g outNode inNode exit entry _ _
    (.refl g.nodes.values) (.refl g.own.values)
  have herror := fun f => @resolveEndsAmong_eq_error_iff g outNode inNode _ _
    (.refl g.nodes.values) (.refl g.own.values) f
  refine ⟨?_, hok, herror, fun exit entry hends => ?_⟩
  · cases hends : g.resolveEnds outNode inNode with
    | ok ends =>
        exact (resolveEndsAmong_eq_ok_iff hnodes hchannels).mpr ((hok ends.1 ends.2).mp hends)
    | error f => exact (resolveEndsAmong_eq_error_iff hnodes hchannels).mpr ((herror f).mp hends)
  · obtain ⟨_, _, -, -, ⟨c, hexit, -⟩, c', ⟨hentry, hne⟩, -⟩ := (hok exit entry).mp hends
    exact ⟨hne.symm, ⟨c, hexit.own, hexit.scid_eq⟩, ⟨c', hentry.own, hentry.scid_eq⟩,
      fun hg => ⟨hexit.isOwn hg, hentry.isOwn hg⟩⟩

/-! ## Three channels -/

/-- A local node with three channels to one peer, which differ in nothing but their ids. -/
def threeAlike : Graph :=
  ((empty "a").applyOwn (["3x1", "1x1", "2x1"].map (channelWith "b" · 600000 400000)) 0).applyGossip
    [] [⟨"b", some "bob"⟩] 0 1000000

theorem ends_in_any_order_threeAlike :
    threeAlike.nodes.values.reverse.Perm threeAlike.nodes.values ∧
      threeAlike.own.values.reverse.Perm threeAlike.own.values ∧
      threeAlike.resolveEndsAmong threeAlike.nodes.values.reverse threeAlike.own.values.reverse
        "bob" "b" = .ok ("1x1", "2x1") ∧
      ∃ outPeer inPeer, threeAlike.Names "bob" outPeer ∧ threeAlike.Names "b" inPeer ∧
        threeAlike.IsExitTo outPeer "1x1" ∧ threeAlike.IsEntryFrom inPeer "1x1" "2x1" := by
  have hnodes := List.reverse_perm threeAlike.nodes.values
  have hchannels := List.reverse_perm threeAlike.own.values
  obtain ⟨hsame, hok, -, -⟩ := ends_in_any_order hnodes hchannels "bob" "b"
  have hends : threeAlike.resolveEnds "bob" "b" = .ok ("1x1", "2x1") := by decide +kernel
  exact ⟨hnodes, hchannels, hsame.trans hends, (hok "1x1" "2x1").mp hends⟩

end Rebalancer.Graph
