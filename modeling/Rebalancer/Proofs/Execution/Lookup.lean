import Rebalancer.Execution
import Rebalancer.Proofs.Graph.Candidates

set_option autoImplicit false

/-! # The route of a chunk

Whatever a request pins, the route that is looked up for a chunk is a ring through the pinned
channels that delivers the chunk.
-/

namespace Rebalancer

/-- The bounds that a request keeps to which is accepted. -/
theorem Request.bounds_of_accepted {r : Request} (h : r.flaw? = none) :
    r.amount ≠ 0 ∧ r.split ≠ 0 ∧ r.split ≤ r.amount ∧ r.attempts ≠ 0 ∧ 2 ≤ r.maxHops := by
  unfold flaw? at h
  split at h
  · cases h
  · rename_i hamount
    split at h
    · cases h
    · rename_i hsplit
      split at h
      · cases h
      · rename_i hle
        split at h
        · cases h
        · rename_i hattempts
          split at h
          · cases h
          · rename_i hhops
            exact ⟨hamount, hsplit, UInt64.not_lt.mp hle, hattempts, Nat.le_of_not_lt hhops⟩

theorem Request.two_le_maxHops {r : Request} (h : r.flaw? = none) : 2 ≤ r.maxHops :=
  (bounds_of_accepted h).2.2.2.2

namespace Execution

variable {order : OwnOrder} {g : Graph} {r : Request} {amount : Msat} {route : Route}

/-- Where the exit is open, the one that is chosen can afford the chunk. -/
theorem exists_exit_of_lookup {entry : String} {rate : Ppm} {list : Option (List String)}
    {percent : UInt64} {floor : Msat} (ht : r.target = .pull entry rate list percent floor)
    (h : lookup order g r amount = .ok route) :
    ∃ exit c, g.ring exit entry amount r.maxHops = .ok route ∧ g.own[exit]? = some c ∧
      (ExitFilter.mk rate list percent floor).affords c amount = true := by
  unfold lookup at h
  rw [ht] at h
  obtain ⟨candidates, hc, hfirst⟩ := except_bind_eq_ok_iff.mp h
  match candidates, hc, hfirst with
  | found :: rest, hc, hfirst =>
      cases hfirst
      obtain ⟨c, hown, hafford, hring⟩ :=
        Graph.exists_own_of_mem_exitsAmong (order.perm g) hc List.mem_cons_self
      exact ⟨found.scid, c, hring, hown, hafford⟩

/-- Where the entry is open, the one that is chosen can afford the chunk. -/
theorem exists_entry_of_lookup {exit : String} {rate : Ppm} {list : Option (List String)}
    {percent : UInt64} {ceiling : Msat} (ht : r.target = .push exit rate list percent ceiling)
    (h : lookup order g r amount = .ok route) :
    ∃ entry c, g.ring exit entry amount r.maxHops = .ok route ∧ g.own[entry]? = some c ∧
      (EntryFilter.mk rate list percent ceiling).affords c amount = true := by
  unfold lookup at h
  rw [ht] at h
  obtain ⟨candidates, hc, hfirst⟩ := except_bind_eq_ok_iff.mp h
  match candidates, hc, hfirst with
  | found :: rest, hc, hfirst =>
      cases hfirst
      obtain ⟨c, hown, hafford, hring⟩ :=
        Graph.exists_own_of_mem_entriesAmong (order.perm g) hc List.mem_cons_self
      exact ⟨found.scid, c, hring, hown, hafford⟩

/-- A route that is looked up is a ring through the ends that the request pins. -/
theorem exists_ring_of_lookup (h : lookup order g r amount = .ok route) :
    ∃ exit entry, g.ring exit entry amount r.maxHops = .ok route ∧
      (∀ scid ∈ r.target.exit?, scid = exit) ∧ (∀ scid ∈ r.target.entry?, scid = entry) := by
  cases ht : r.target with
  | circular exit entry =>
      unfold lookup at h
      rw [ht] at h
      exact ⟨exit, entry, h, by simp [Target.exit?], by simp [Target.entry?]⟩
  | pull entry rate list percent floor =>
      obtain ⟨exit, _, hring, -⟩ := exists_exit_of_lookup ht h
      exact ⟨exit, entry, hring, by simp [Target.exit?], by simp [Target.entry?]⟩
  | push exit rate list percent ceiling =>
      obtain ⟨entry, _, hring, -⟩ := exists_entry_of_lookup ht h
      exact ⟨exit, entry, hring, by simp [Target.exit?], by simp [Target.entry?]⟩

/-- The route of a chunk delivers just the chunk. -/
theorem getLast?_of_lookup (h : lookup order g r amount = .ok route) :
    route.amount = amount ∧ route.hops.getLast?.map (·.amount) = some amount := by
  obtain ⟨_, _, hring, -⟩ := exists_ring_of_lookup h
  obtain ⟨-, out, back, path, -, -, -, -, -, -, rfl⟩ := Graph.ring_eq_ok_iff.mp hring
  refine ⟨rfl, ?_⟩
  rw [Route.getLast?_build]
  rfl

theorem hops_of_lookup (h : lookup order g r amount = .ok route) : route.hops ≠ [] := by
  intro hnil
  have hlast := (getLast?_of_lookup h).2
  rw [hnil] at hlast
  cases hlast

/-- The route of a chunk runs over a round of halves through the ends that the request pins. -/
theorem exists_isRound_of_lookup (hg : g.Keyed) (h : lookup order g r amount = .ok route) :
    ∃ exit entry out back path, g.IsRound exit entry amount r.maxHops out back path ∧
      route = .build (out :: (path ++ [back])) amount ∧
      (∀ scid ∈ r.target.exit?, scid = exit) ∧ (∀ scid ∈ r.target.entry?, scid = entry) := by
  obtain ⟨exit, entry, hring, hexit, hentry⟩ := exists_ring_of_lookup h
  obtain ⟨out, back, path, hround, rfl⟩ := hg.isRound_of_ring hring
  exact ⟨exit, entry, out, back, path, hround, rfl, hexit, hentry⟩

end Execution

/-! ## One chunk over two channels -/

/-- Books that have nothing but a graph. -/
def Books.ofGraph (g : Graph) : Books where
  graph := g
  ledger := .new 4
  history := ⟨4, 0, []⟩
  store := {}

/-- The request to move one chunk from the full to the empty channel of `Graph.twoChannels`. -/
def moveOver (attempts : Nat) : Request where
  id := "r"
  target := .circular "1x1" "2x1"
  amount := 1000
  split := 1000
  maxRate := 1000
  attempts := attempts
  maxHops := 2

/-- The route of this chunk, over which `b` takes one millisatoshi. -/
def routeOver : Route := .build [Graph.halfToB, Graph.halfFromB] 1000

/-- When the chunk is moved, the channels can move another one. -/
theorem Graph.ring_twoChannels_paid :
    (twoChannels.applyPayment routeOver 1000 0).ring "1x1" "2x1" 1000 2 = .ok routeOver := by
  have hout : (twoChannels.applyPayment routeOver 1000 0).outHalf? "1x1" =
      some { halfToB with liquidity := 999000 } := by decide +kernel
  have hback : (twoChannels.applyPayment routeOver 1000 0).inHalf? "2x1" =
      some { halfFromB with liquidity := 999000 } := by decide +kernel
  exact ring_of_same_peer (by decide) hout hback rfl (by decide) (by decide) (by decide)
    (by decide) 2

theorem Execution.lookup_moveOver {order : OwnOrder} (attempts : Nat) :
    lookup order Graph.twoChannels (moveOver attempts) 1000 = .ok routeOver :=
  Graph.ring_twoChannels

end Rebalancer
