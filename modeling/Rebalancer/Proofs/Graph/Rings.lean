import Rebalancer.Graph.Ring
import Rebalancer.Proofs.Graph.Paths

set_option autoImplicit false

/-! # Rings that are found

A ring is put together from the half of the exit, a path and the half of the entry
(`ring_eq_ok_iff`). Its amounts are computed once by the search, from the end, and once more when
the route is built; the two agree hop by hop, so each half can carry just what its hop says. On a
graph whose own halves join the local node and the peer of their record, the hops are a closed walk
that meets no other node twice (`Reachable.isRing_of_ring`).
-/

namespace Rebalancer

/-! ## Hops -/

/-- The hop over `h` when `rest` is still ahead. -/
def hopOver (amount : Msat) (h : Half) (rest : List Half) : Hop where
  half := h.id
  source := h.source
  destination := h.destination
  amount := amountInto amount rest
  delay := delayInto rest

namespace Route

theorem hopsOver_cons (amount : Msat) (h : Half) (rest : List Half) :
    hopsOver amount (h :: rest) = hopOver amount h rest :: hopsOver amount rest := rfl

theorem length_hopsOver (amount : Msat) (halves : List Half) :
    (hopsOver amount halves).length = halves.length := by
  induction halves with
  | nil => rfl
  | cons h rest ih => rw [hopsOver_cons, List.length_cons, List.length_cons, ih]

theorem getLast?_hopsOver (amount : Msat) (l : List Half) (h : Half) :
    (hopsOver amount (l ++ [h])).getLast? = some (hopOver amount h []) := by
  induction l with
  | nil => rfl
  | cons k rest ih =>
      rw [List.cons_append, hopsOver_cons, List.getLast?_cons, ih]
      rfl

theorem getLast?_build (amount : Msat) (out : Half) (path : List Half) (back : Half) :
    (build (out :: (path ++ [back])) amount).hops.getLast? = some (hopOver amount back []) :=
  getLast?_hopsOver amount (out :: path) back

/-- Halves that can carry an amount carry it over the hops of the route. -/
theorem canCarry_of_mem_hopsOver {amount : Msat} {halves : List Half}
    (hc : Carries amount halves) {hop : Hop} (hh : hop ∈ hopsOver amount halves) :
    ∃ h ∈ halves, hop.half = h.id ∧ hop.source = h.source ∧ hop.destination = h.destination ∧
      h.canCarry hop.amount = true := by
  induction halves with
  | nil => cases hh
  | cons h rest ih =>
      rcases List.mem_cons.mp hh with rfl | hh
      · exact ⟨h, by simp, rfl, rfl, rfl, hc.1⟩
      · obtain ⟨k, hk, hk'⟩ := ih hc.2 hh
        exact ⟨k, by simp [hk], hk'⟩

end Route

/-- A result is drawn through two steps that both give one. -/
theorem except_bind_eq_ok_iff {ε α β : Type} {x : Except ε α} {f : α → Except ε β} {b : β} :
    x >>= f = .ok b ↔ ∃ a, x = .ok a ∧ f a = .ok b := by
  cases x with
  | error e => simp [bind, Except.bind]
  | ok a => simp [bind, Except.bind]

/-- A failure is drawn from the first step that fails. -/
theorem except_bind_eq_error_iff {ε α β : Type} {x : Except ε α} {f : α → Except ε β} {e : ε} :
    x >>= f = .error e ↔ x = .error e ∨ ∃ a, x = .ok a ∧ f a = .error e := by
  cases x with
  | error e => simp [bind, Except.bind]
  | ok a => simp [bind, Except.bind]

/-- After a check there is a result if the check is passed and what follows gives one. -/
theorem except_check_eq_ok_iff {ε α : Type} {p : Prop} [Decidable p] {e : ε} {x : Except ε α}
    {a : α} :
    (if p then (do (throw e : Except ε PUnit); x) else x) = .ok a ↔ ¬ p ∧ x = .ok a := by
  by_cases hp : p
  · rw [if_pos hp]
    exact iff_of_false nofun fun h => h.1 hp
  · rw [if_neg hp]
    exact (and_iff_right hp).symm

theorem except_toOption_eq_some_iff {ε α : Type} {x : Except ε α} {a : α} :
    x.toOption = some a ↔ x = .ok a := by
  cases x with
  | error e => simp [Except.toOption]
  | ok a => simp [Except.toOption]

namespace Graph

theorem own_eq_none_of_not_isOwn {g : Graph} {scid : String} (h : g.isOwn scid = false) :
    g.own[scid]? = none := by
  rw [isOwn, Std.TreeMap.contains_eq_isSome_getElem?, Option.isSome_eq_false_iff] at h
  exact Option.isNone_iff_eq_none.mp h

theorem exitHalf_eq_ok_iff {g : Graph} {scid : String} {h : Half} :
    g.exitHalf scid = .ok h ↔ g.outHalf? scid = some h := by
  unfold exitHalf
  by_cases hown : g.isOwn scid = true
  · rw [hown]
    cases g.outHalf? scid with
    | none => simp
    | some k => simp
  · rw [Bool.not_eq_true] at hown
    rw [hown, outHalf?, own_eq_none_of_not_isOwn hown]
    simp

theorem entryHalf_eq_ok_iff {g : Graph} {scid : String} {h : Half} :
    g.entryHalf scid = .ok h ↔ g.inHalf? scid = some h := by
  unfold entryHalf
  by_cases hown : g.isOwn scid = true
  · rw [hown]
    cases g.inHalf? scid with
    | none => simp
    | some k => simp
  · rw [Bool.not_eq_true] at hown
    rw [hown, inHalf?, own_eq_none_of_not_isOwn hown]
    simp

theorem active_of_canCarry {h : Half} {amount : Msat} (hc : h.canCarry amount = true) :
    h.active = true := by
  simp only [Half.canCarry, Bool.and_eq_true] at hc
  exact hc.1.1.1

theorem le_liquidity_of_canCarry {h : Half} {amount : Msat} (hc : h.canCarry amount = true) :
    amount ≤ h.liquidity := by
  simp only [Half.canCarry, Bool.and_eq_true, decide_eq_true_eq] at hc
  exact hc.1.1.2

theorem checkEnds_eq_ok_iff {exit entry : String} {out back : Half} {amount : Msat} :
    checkEnds exit entry out back amount = .ok () ↔
      out.canCarry amount = true ∧ back.canCarry amount = true := by
  unfold checkEnds
  constructor
  · intro h
    split at h
    · cases h
    · split at h
      · cases h
      · split at h
        · cases h
        · rename_i hout
          split at h
          · cases h
          · rename_i hback
            simp only [Bool.not_eq_true', Bool.not_eq_false] at hout hback
            exact ⟨hout, hback⟩
  · rintro ⟨hout, hback⟩
    -- A half that can carry the amount passes the two checks for a better message as well.
    simp [hout, hback, active_of_canCarry hout, active_of_canCarry hback]

/-- What has to be so for a ring to be found, and which one it is. -/
theorem ring_eq_ok_iff {g : Graph} {exit entry : String} {amount : Msat} {maxHops : Nat}
    {route : Route} :
    g.ring exit entry amount maxHops = .ok route ↔
      exit ≠ entry ∧ ∃ out back path,
        g.outHalf? exit = some out ∧ g.inHalf? entry = some back ∧
        out.canCarry amount = true ∧ back.canCarry amount = true ∧
        g.findPath out.destination back.source (amountInto amount [back]) (maxHops - 2) =
          some path ∧
        out.canCarry (amountInto amount (path ++ [back])) = true ∧
        route = .build (out :: (path ++ [back])) amount := by
  unfold ring
  simp only [except_check_eq_ok_iff, except_bind_eq_ok_iff, exitHalf_eq_ok_iff,
    entryHalf_eq_ok_iff, beq_iff_eq]
  refine and_congr_right fun _ => ?_
  -- Each bind is one condition by now; what is left is the match on the path.
  constructor
  · rintro ⟨out, ho, back, hb, _, hends, hroute⟩
    obtain ⟨hc, hc'⟩ := checkEnds_eq_ok_iff.mp hends
    split at hroute
    · cases hroute
    · rename_i path hpath
      split at hroute
      · rename_i hfirst
        cases hroute
        exact ⟨out, back, path, ho, hb, hc, hc', hpath, hfirst, rfl⟩
      · cases hroute
  · rintro ⟨out, back, path, ho, hb, hc, hc', hpath, hfirst, rfl⟩
    refine ⟨out, ho, back, hb, (), checkEnds_eq_ok_iff.mpr ⟨hc, hc'⟩, ?_⟩
    rw [hpath]
    show (if _ then _ else _) = _
    rw [if_pos hfirst]
    rfl

/-- The exit, the path and the entry of which a ring is put together. -/
structure IsRound (g : Graph) (exit entry : String) (amount : Msat) (maxHops : Nat)
    (out back : Half) (path : List Half) : Prop where
  ne : exit ≠ entry
  out_eq : g.outHalf? exit = some out
  back_eq : g.inHalf? entry = some back
  out_carries : out.canCarry amount = true
  exit_away : out.destination ≠ g.selfId
  entry_away : back.source ≠ g.selfId
  isPath : g.IsPath out.destination back.source (amountInto amount [back]) (maxHops - 2) path
  carries : Carries amount (out :: (path ++ [back]))

/-- Every ring that is found is the route over a round of halves. -/
theorem Keyed.isRound_of_ring {g : Graph} (hg : g.Keyed) {exit entry : String} {amount : Msat}
    {maxHops : Nat} {route : Route} (h : g.ring exit entry amount maxHops = .ok route) :
    ∃ out back path, g.IsRound exit entry amount maxHops out back path ∧
      route = .build (out :: (path ++ [back])) amount := by
  obtain ⟨hne, out, back, path, ho, hb, hc, hc', hpath, hfirst, rfl⟩ := ring_eq_ok_iff.mp h
  obtain ⟨hexit, hentry, hp⟩ := hg.isPath_of_findPath hpath
  -- The path carries what the entry takes for `amount`, the entry carries `amount` itself.
  have hcarries : Carries amount (path ++ [back]) :=
    carries_append.mpr ⟨hp.carries, hc', trivial⟩
  exact ⟨out, back, path, ⟨hne, ho, hb, hc, hexit, hentry, hp, hfirst, hcarries⟩, rfl⟩

theorem exists_own_of_outHalf? {g : Graph} (hg : g.Keyed) {scid : String} {h : Half}
    (hh : g.outHalf? scid = some h) :
    ∃ c, g.own[scid]? = some c ∧ h.id = g.outId scid c ∧ g.halves[h.id]? = some h := by
  obtain ⟨c, hc, hk⟩ := Option.bind_eq_some_iff.mp hh
  have hid := hg.id_eq hk
  exact ⟨c, hc, hid, hid ▸ hk⟩

theorem exists_own_of_inHalf? {g : Graph} (hg : g.Keyed) {scid : String} {h : Half}
    (hh : g.inHalf? scid = some h) :
    ∃ c, g.own[scid]? = some c ∧ h.id = g.inId scid c ∧ g.halves[h.id]? = some h := by
  obtain ⟨c, hc, hk⟩ := Option.bind_eq_some_iff.mp hh
  have hid := hg.id_eq hk
  exact ⟨c, hc, hid, hid ▸ hk⟩

/-! ## Routes over a round -/

section Round

variable {g : Graph} {exit entry : String} {amount : Msat} {maxHops : Nat} {out back : Half}
  {path : List Half}

theorem IsRound.exit? (hg : g.Keyed) (h : g.IsRound exit entry amount maxHops out back path) :
    Route.exit? (.build (out :: (path ++ [back])) amount) = some exit := by
  obtain ⟨c, -, hid, -⟩ := exists_own_of_outHalf? hg h.out_eq
  show some out.id.scid = some exit
  rw [hid]
  rfl

theorem IsRound.entry? (hg : g.Keyed) (h : g.IsRound exit entry amount maxHops out back path) :
    Route.entry? (.build (out :: (path ++ [back])) amount) = some entry := by
  obtain ⟨c, -, hid, -⟩ := exists_own_of_inHalf? hg h.back_eq
  rw [Route.entry?, Route.getLast?_build]
  show some back.id.scid = some entry
  rw [hid]
  rfl

theorem IsRound.length_le (h : g.IsRound exit entry amount maxHops out back path)
    (hops : 2 ≤ maxHops) :
    (Route.build (out :: (path ++ [back])) amount).hops.length ≤ maxHops := by
  have := h.isPath.length_le
  show (Route.hopsOver amount _).length ≤ maxHops
  rw [Route.length_hopsOver, List.length_cons, List.length_append, List.length_singleton]
  omega

end Round

/-! ## Two channels -/

/-- Two channels with one peer make a ring by themselves. -/
theorem ring_of_same_peer {g : Graph} {exit entry : String} {out back : Half} {amount : Msat}
    (he : exit ≠ entry) (ho : g.outHalf? exit = some out) (hb : g.inHalf? entry = some back)
    (hpeer : out.destination = back.source) (haway : back.source ≠ g.selfId)
    (hout : out.canCarry amount = true) (hback : back.canCarry amount = true)
    (hfirst : out.canCarry (amountInto amount [back]) = true) (maxHops : Nat) :
    g.ring exit entry amount maxHops = .ok (.build [out, back] amount) := by
  refine ring_eq_ok_iff.mpr ⟨he, out, back, [], ho, hb, hout, hback, ?_, hfirst, rfl⟩
  rw [hpeer]
  exact findPath_self haway _ _

/-- The half of `1x1` by which `twoChannels` can send. -/
def halfToB : Half where
  id := ⟨"1x1", 0⟩
  source := "a"
  destination := "b"
  capacity := 1000000
  baseFee := 0
  rate := 0
  delay := 0
  htlcMin := 0
  htlcMax := 1000000
  active := true
  liquidity := 1000000
  liquidityAt := 0

/-- The half of `2x1` by which `twoChannels` can receive. -/
def halfFromB : Half :=
  { halfToB with id := ⟨"2x1", 1⟩, source := "b", destination := "a", baseFee := 1 }

theorem ring_twoChannels :
    twoChannels.ring "1x1" "2x1" 1000 2 = .ok (.build [halfToB, halfFromB] 1000) :=
  ring_of_same_peer (by decide) (by decide +kernel) (by decide +kernel) rfl (by decide)
    (by decide) (by decide) (by decide) 2

/-! ## Walks -/

/-- The halves of own channels join the local node and the peer of the channel's record. -/
def JoinsOwn (g : Graph) : Prop :=
  ∀ (scid : String) (c : OwnChannel), g.own[scid]? = some c →
    (∀ h : Half, g.halves[g.outId scid c]? = some h →
      h.source = g.selfId ∧ h.destination = c.peer) ∧
    (∀ h : Half, g.halves[g.inId scid c]? = some h →
      h.source = c.peer ∧ h.destination = g.selfId)

instance (g : Graph) : Decidable g.JoinsOwn :=
  decidable_of_iff
    (∀ e ∈ g.own.toList,
      (∀ h ∈ g.halves[g.outId e.1 e.2]?, h.source = g.selfId ∧ h.destination = e.2.peer) ∧
      (∀ h ∈ g.halves[g.inId e.1 e.2]?, h.source = e.2.peer ∧ h.destination = g.selfId))
    (by
      simp only [Prod.forall, Std.TreeMap.mem_toList_iff_getElem?_eq_some, Option.mem_def]
      exact Iff.rfl)

/-- A closed walk from the local node that leaves by `exit`, comes back by `entry` with `amount`
and meets no other node twice. What a hop delivers, the half of the graph can carry. -/
structure IsRing (g : Graph) (exit entry : String) (amount : Msat) (maxHops : Nat)
    (route : Route) : Prop where
  leaves : ∃ (c : OwnChannel) (hop : Hop), g.own[exit]? = some c ∧ route.hops.head? = some hop ∧
    hop.half = g.outId exit c ∧ hop.source = g.selfId ∧ hop.destination = c.peer
  returns : ∃ (c : OwnChannel) (hop : Hop), g.own[entry]? = some c ∧
    route.hops.getLast? = some hop ∧ hop.half = g.inId entry c ∧ hop.source = c.peer ∧
    hop.destination = g.selfId ∧ hop.amount = amount
  chain : route.hops.IsChain fun hop next => hop.destination = next.source
  away : ∀ hop ∈ route.hops.dropLast, hop.destination ≠ g.selfId
  simple : (route.hops.dropLast.map (·.destination)).Nodup
  length_le : route.hops.length ≤ maxHops
  carries : ∀ hop ∈ route.hops, ∃ h : Half, g.halves[hop.half]? = some h ∧
    hop.source = h.source ∧ hop.destination = h.destination ∧ h.canCarry hop.amount = true

end Graph

theorem Joins.isChain {a b : String} {l : List Half} (h : Joins a l b) (amount : Msat) :
    (Route.hopsOver amount l).IsChain fun hop next => hop.destination = next.source := by
  induction l generalizing a with
  | nil => exact .nil
  | cons k rest ih =>
      cases rest with
      | nil => exact .singleton _
      | cons k' rest => exact .cons_cons h.2.1.symm (ih h.2)

/-- Each half of a chain ends where the chain ends or where another half starts. -/
theorem Joins.destination_mem {a b : String} {l : List Half} (h : Joins a l b) {k : Half}
    (hk : k ∈ l) : k.destination = b ∨ ∃ k' ∈ l, k.destination = k'.source := by
  induction l generalizing a with
  | nil => cases hk
  | cons k' rest ih =>
      -- The half after `k` starts where `k` ends; after the last one there is only the end.
      rcases List.mem_cons.mp hk with rfl | hk
      · cases rest with
        | nil => exact Or.inl h.2
        | cons k'' rest => exact Or.inr ⟨k'', by simp, h.2.1.symm⟩
      · rcases ih h.2 hk with hb | ⟨k'', hk'', hs⟩
        · exact Or.inl hb
        · exact Or.inr ⟨k'', by simp [hk''], hs⟩

/-- What each hop has from its half alone, the hops have from the halves. -/
theorem Route.map_hopsOver {α : Type} {amount : Msat} {f : Hop → α} {k : Half → α}
    (hf : ∀ h rest, f (hopOver amount h rest) = k h) (l : List Half) :
    (hopsOver amount l).map f = l.map k := by
  induction l with
  | nil => rfl
  | cons h rest ih => rw [hopsOver_cons, List.map_cons, List.map_cons, ih, hf]

theorem Route.map_destination_hopsOver (amount : Msat) (l : List Half) :
    (hopsOver amount l).map (·.destination) = l.map (·.destination) :=
  map_hopsOver (fun _ _ => rfl) l

namespace Graph

/-- The halves of a round are those that the graph has under their names. -/
theorem IsRound.known {g : Graph} (hg : g.Keyed) {exit entry : String} {amount : Msat}
    {maxHops : Nat} {out back : Half} {path : List Half}
    (h : g.IsRound exit entry amount maxHops out back path) :
    ∀ k ∈ out :: (path ++ [back]), g.halves[k.id]? = some k := by
  obtain ⟨_, -, -, hout⟩ := exists_own_of_outHalf? hg h.out_eq
  obtain ⟨_, -, -, hback⟩ := exists_own_of_inHalf? hg h.back_eq
  intro k hk
  rcases List.mem_cons.mp hk with rfl | hk
  · exact hout
  · rcases List.mem_append.mp hk with hk | hk
    · exact h.isPath.known k hk
    · rwa [List.mem_singleton.mp hk]

/-- No node between the two ends is the local node. -/
theorem IsRound.away {g : Graph} {exit entry : String} {amount : Msat} {maxHops : Nat}
    {out back : Half} {path : List Half} (h : g.IsRound exit entry amount maxHops out back path)
    {node : String} (hn : node ∈ out.destination :: path.map (·.destination)) :
    node ≠ g.selfId := by
  rcases List.mem_cons.mp hn with rfl | hn
  · exact h.exit_away
  · obtain ⟨k, hk, rfl⟩ := List.mem_map.mp hn
    -- A half of the path ends at the entry's peer, or where another half of the path starts.
    rcases h.isPath.joins.destination_mem hk with hd | ⟨k', hk', hd⟩
    · rw [hd]
      exact h.entry_away
    · rw [hd]
      exact h.isPath.away k' hk'

/-- A ring that is found on a reachable graph is a closed walk, and each hop of it can be carried.
-/
theorem Reachable.isRing_of_ring {g : Graph} (hg : g.Reachable) (hj : g.JoinsOwn)
    {exit entry : String} {amount : Msat} {maxHops : Nat} (hops : 2 ≤ maxHops) {route : Route}
    (h : g.ring exit entry amount maxHops = .ok route) :
    g.IsRing exit entry amount maxHops route := by
  obtain ⟨out, back, path, hr, rfl⟩ := hg.keyed.isRound_of_ring h
  obtain ⟨c, hc, hid, hout⟩ := exists_own_of_outHalf? hg.keyed hr.out_eq
  obtain ⟨c', hc', hid', hback⟩ := exists_own_of_inHalf? hg.keyed hr.back_eq
  obtain ⟨hos, hod⟩ := (hj exit c hc).1 out (hid ▸ hout)
  obtain ⟨hbs, hbd⟩ := (hj entry c' hc').2 back (hid' ▸ hback)
  -- The nodes between the ends are the destinations of all hops but the last.
  have hinner : (Route.hopsOver amount (out :: (path ++ [back]))).dropLast.map (·.destination) =
      out.destination :: path.map (·.destination) := by
    rw [List.map_dropLast, Route.map_destination_hopsOver, ← List.cons_append, ← List.map_dropLast,
      List.dropLast_concat, List.map_cons]
  have hjoin : Joins out.source (out :: (path ++ [back])) back.destination :=
    ⟨rfl, joins_append.mpr ⟨back.source, hr.isPath.joins, rfl, rfl⟩⟩
  constructor
  · exact ⟨c, hopOver amount out _, hc, rfl, hid, hos, hod⟩
  · exact ⟨c', hopOver amount back [], hc', Route.getLast?_build amount out path back, hid',
      hbs, hbd, rfl⟩
  · exact hjoin.isChain amount
  · intro hop hhop hself
    have hmem : hop.destination ∈ out.destination :: path.map (·.destination) :=
      hinner ▸ List.mem_map.mpr ⟨hop, hhop, rfl⟩
    exact hr.away hmem hself
  · show ((Route.hopsOver amount _).dropLast.map _).Nodup
    rw [hinner]
    exact hr.isPath.simple
  · exact hr.length_le hops
  · intro hop hhop
    obtain ⟨k, hk, hhalf, hs, hd, hcarry⟩ := Route.canCarry_of_mem_hopsOver hr.carries hhop
    exact ⟨k, hhalf ▸ hr.known hg.keyed k hk, hs, hd, hcarry⟩

theorem isRing_twoChannels :
    twoChannels.Reachable ∧ twoChannels.JoinsOwn ∧ 2 ≤ 2 ∧
      twoChannels.ring "1x1" "2x1" 1000 2 = .ok (.build [halfToB, halfFromB] 1000) ∧
      twoChannels.IsRing "1x1" "2x1" 1000 2 (.build [halfToB, halfFromB] 1000) := by
  have hj : twoChannels.JoinsOwn := by decide +kernel
  exact ⟨reachable_twoChannels, hj, le_refl 2, ring_twoChannels,
    reachable_twoChannels.isRing_of_ring hj (le_refl 2) ring_twoChannels⟩

end Graph

end Rebalancer
