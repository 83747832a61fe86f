import Rebalancer.Proofs.Execution.Effects
import Rebalancer.Proofs.Graph.Transfers
import Rebalancer.Proofs.Summary

set_option autoImplicit false

/-! # Bounds on the balance of chosen channels

A pull chooses the exit of each chunk and must not empty it below a floor, a push chooses the entry
and must not fill it above a ceiling. The bound is tested by the search, on the records as all
chunks before have left them, and the booking of a chunk comes to the balance that was tested. The
pinned end moves away from the bound of the other one. So a channel once chosen stays within its
bound, however often it is chosen again (`keepsBound_of_runs`).
-/

namespace Rebalancer

open Rebalancer.Graph (debited credited)

/-! ## Bounds on a record -/

/-- The balance of an exit is not below its floor. For every percentage that an accepted request can
ask for, the floor is the share in exact numbers; a larger one may be cut to a word. -/
structure ExitFilter.Keeps (f : ExitFilter) (c : OwnChannel) : Prop where
  floor_le : f.floor c ≤ c.toUs
  min_le : f.depletePercent ≤ 100 →
    min f.depleteAmount.toNat (c.total.toNat * f.depletePercent.toNat / 100) ≤ c.toUs.toNat

/-- The balance of an entry is not above its ceiling, nor above the share in exact numbers. -/
structure EntryFilter.Keeps (f : EntryFilter) (c : OwnChannel) : Prop where
  le_ceiling : c.toUs ≤ f.ceiling c
  le_min : c.toUs.toNat ≤ min f.fillAmount.toNat (c.total.toNat * f.fillPercent.toNat / 100)

theorem ExitFilter.keeps_iff {f : ExitFilter} {c : OwnChannel} :
    f.Keeps c ↔ f.floor c ≤ c.toUs := by
  refine ⟨Keeps.floor_le, fun h => ⟨h, fun hpercent => ?_⟩⟩
  have hfloor : (f.floor c).toNat ≤ c.toUs.toNat := UInt64.le_iff_toNat_le.mp h
  rw [floor, toNat_min_word, toNat_percentOf hpercent] at hfloor
  exact hfloor

theorem EntryFilter.keeps_iff {f : EntryFilter} {c : OwnChannel} :
    f.Keeps c ↔ c.toUs ≤ f.ceiling c := by
  refine ⟨Keeps.le_ceiling, fun h => ⟨h, ?_⟩⟩
  have hceiling : c.toUs.toNat ≤ (f.ceiling c).toNat := UInt64.le_iff_toNat_le.mp h
  have hshare := toNat_percentOf_le c.total f.fillPercent
  rw [ceiling, toNat_min_word] at hceiling
  omega

/-! ## One payment -/

section Records

variable {c : OwnChannel} {amount : Msat}

/-- The balance that the search tested is the one that is booked. -/
theorem ExitFilter.keeps_debited {f : ExitFilter} (h : f.affords c amount = true) :
    f.Keeps (debited c amount) := by
  have hfloor := affords_iff.mp h
  have hsame : f.floor (debited c amount) = f.floor c := rfl
  have hleft : (debited c amount).toUs.toNat = c.toUs.toNat - amount.toNat :=
    toNat_subClamped c.toUs amount
  rw [keeps_iff, hsame, UInt64.le_iff_toNat_le, hleft]
  omega

theorem ExitFilter.keeps_credited {f : ExitFilter} (h : f.Keeps c) :
    f.Keeps (credited c amount) := by
  have hfloor : (f.floor c).toNat ≤ c.toUs.toNat := UInt64.le_iff_toNat_le.mp h.floor_le
  have hword := toNat_le_maxWord c.toUs
  have hsame : f.floor (credited c amount) = f.floor c := rfl
  have hcame : (credited c amount).toUs.toNat = min (c.toUs.toNat + amount.toNat) maxWord :=
    toNat_addClamped c.toUs amount
  rw [keeps_iff, hsame, UInt64.le_iff_toNat_le, hcame]
  omega

theorem EntryFilter.keeps_credited {f : EntryFilter} (h : f.affords c amount = true) :
    f.Keeps (credited c amount) := by
  have hceiling : addClamped c.toUs amount ≤ f.ceiling c := by simpa [affords] using h
  exact keeps_iff.mpr hceiling

theorem EntryFilter.keeps_debited {f : EntryFilter} (h : f.Keeps c) :
    f.Keeps (debited c amount) := by
  have hceiling : c.toUs.toNat ≤ (f.ceiling c).toNat := UInt64.le_iff_toNat_le.mp h.le_ceiling
  have hsame : f.ceiling (debited c amount) = f.ceiling c := rfl
  have hleft : (debited c amount).toUs.toNat = c.toUs.toNat - amount.toNat :=
    toNat_subClamped c.toUs amount
  rw [keeps_iff, hsame, UInt64.le_iff_toNat_le, hleft]
  omega

end Records

namespace Graph

variable {g : Graph} {route : Route} {exit entry : String}

/-- Some channel has a record with a property, and still has after a payment that keeps the property
of the two records it changes. -/
theorem exists_own_applyPayment {P : OwnChannel → Prop} {amount : Msat} (now : Time)
    (hexit : route.exit? = some exit) (hentry : route.entry? = some entry) (hne : exit ≠ entry)
    (out : ∀ c, g.own[exit]? = some c → P c → P (debited c amount))
    (back : ∀ c, g.own[entry]? = some c → P c → P (credited c amount)) {scid : String}
    (h : ∃ c, g.own[scid]? = some c ∧ P c) :
    ∃ c, (g.applyPayment route amount now).own[scid]? = some c ∧ P c := by
  obtain ⟨c, hc, hp⟩ := h
  rw [getElem?_own_applyPayment_of_ne g amount now hexit hentry hne]
  by_cases hout : scid = exit
  · subst hout
    rw [if_pos rfl, hc]
    exact ⟨debited c amount, rfl, out c hc hp⟩
  · rw [if_neg hout]
    by_cases hback : scid = entry
    · subst hback
      rw [if_pos rfl, hc]
      exact ⟨credited c amount, rfl, back c hc hp⟩
    · rw [if_neg hback]
      exact ⟨c, hc, hp⟩

/-- The channel that an attempt chose has a record whose balance keeps to the bound of the target.
-/
def KeepsBound (g : Graph) (t : Target) (a : Attempt) : Prop :=
  match t with
  | .circular _ _ => True
  | .pull _ rate list percent amount => ∃ exit c, a.exit = some exit ∧ g.own[exit]? = some c ∧
      (ExitFilter.mk rate list percent amount).Keeps c
  | .push _ rate list percent amount => ∃ entry c, a.entry = some entry ∧ g.own[entry]? = some c ∧
      (EntryFilter.mk rate list percent amount).Keeps c

/-- The bound depends on the records only. -/
theorem KeepsBound.congr {g' : Graph} {t : Target} {a : Attempt} (h : g.KeepsBound t a)
    (hown : g'.own = g.own) : g'.KeepsBound t a := by
  cases t with
  | circular => trivial
  | pull entry rate list percent amount =>
      obtain ⟨exit, c, hexit, hc, hkeeps⟩ := h
      exact ⟨exit, c, hexit, by rw [hown, hc], hkeeps⟩
  | push exit rate list percent amount =>
      obtain ⟨entry, c, hentry, hc, hkeeps⟩ := h
      exact ⟨entry, c, hentry, by rw [hown, hc], hkeeps⟩

end Graph

namespace Execution

variable {timeout : UInt64} {r : Request} {amount : Msat} {route : Route} {order : OwnOrder}
  {g : Graph}

/-- A payment over the route that was looked up leaves the channel it chose within its bound, and
those chosen before it as well. -/
theorem keepsBound_applyPayment (hg : g.Keyed) (found : lookup order g r amount = .ok route)
    (now : Time) (a : Attempt)
    (h : g.KeepsBound r.target a ∨ a.exit = route.exit? ∧ a.entry = route.entry?) :
    (g.applyPayment route route.amount now).KeepsBound r.target a := by
  cases ht : r.target with
  | circular exit entry => trivial
  | pull entry rate list percent floor =>
      obtain ⟨exit, c, hring, hc, hafford⟩ := exists_exit_of_lookup ht found
      obtain ⟨out, back, path, hround, rfl⟩ := hg.isRound_of_ring hring
      have hexit := hround.exit? hg
      -- The exit is tested again, whatever its balance was; the entry only gains.
      have hdebited : ∀ d, g.own[exit]? = some d →
          (ExitFilter.mk rate list percent floor).Keeps (Graph.debited d amount) := by
        intro d hd
        obtain rfl : c = d := Option.some.inj (hc.symm.trans hd)
        exact ExitFilter.keeps_debited hafford
      rcases h with h | ⟨hout, -⟩
      · rw [ht] at h
        obtain ⟨before, d, hbefore, hd⟩ := h
        obtain ⟨d', hd', hkeeps⟩ := Graph.exists_own_applyPayment now hexit
          (hround.entry? hg) hround.ne (fun d hd _ => hdebited d hd)
          (fun _ _ => ExitFilter.keeps_credited) ⟨d, hd⟩
        exact ⟨before, d', hbefore, hd', hkeeps⟩
      · refine ⟨exit, Graph.debited c amount, hout.trans hexit, ?_, hdebited c hc⟩
        show (g.applyPayment _ amount now).own[exit]? = _
        rw [Graph.getElem?_own_applyPayment_of_ne g amount now hexit (hround.entry? hg) hround.ne,
          if_pos rfl, hc]
        rfl
  | push exit rate list percent ceiling =>
      obtain ⟨entry, c, hring, hc, hafford⟩ := exists_entry_of_lookup ht found
      obtain ⟨out, back, path, hround, rfl⟩ := hg.isRound_of_ring hring
      have hentry := hround.entry? hg
      have hcredited : ∀ d, g.own[entry]? = some d →
          (EntryFilter.mk rate list percent ceiling).Keeps (Graph.credited d amount) := by
        intro d hd
        obtain rfl : c = d := Option.some.inj (hc.symm.trans hd)
        exact EntryFilter.keeps_credited hafford
      rcases h with h | ⟨-, hback⟩
      · rw [ht] at h
        obtain ⟨before, d, hbefore, hd⟩ := h
        obtain ⟨d', hd', hkeeps⟩ := Graph.exists_own_applyPayment now (hround.exit? hg)
          hentry hround.ne (fun _ _ => EntryFilter.keeps_debited)
          (fun d hd _ => hcredited d hd) ⟨d, hd⟩
        exact ⟨before, d', hbefore, hd', hkeeps⟩
      · refine ⟨entry, Graph.credited c amount, hback.trans hentry, ?_, hcredited c hc⟩
        show (g.applyPayment _ amount now).own[entry]? = _
        rw [Graph.getElem?_own_applyPayment_of_ne g amount now (hround.exit? hg) hentry hround.ne,
          if_neg (Ne.symm hround.ne), if_pos rfl, hc]
        rfl

/-! ## The whole run -/

variable {index : Nat} {chunks : List Msat} {b b' : Books} {attempt : Attempt}
  {attempts : List Attempt} {record : Exchanges}

theorem ChunkOutcome.keyed (h : ChunkOutcome r index amount b attempt b') (hb : b.graph.Keyed) :
    b'.graph.Keyed := by
  cases h with
  | @moved b₁ _ route fee tries day now before found cheap settles =>
      rw [settles.graph]
      exact (Graph.evolves_applyPayment _ _ _ _).preserves.keyed (before.graph.keyed hb)
  | failed unmoved => exact unmoved.graph.keyed hb

theorem ChunkOutcome.keepsBound (h : ChunkOutcome r index amount b attempt b')
    (hb : b.graph.Keyed) {a : Attempt}
    (ha : b.graph.KeepsBound r.target a ∨ a = attempt ∧ a.success = true) :
    b'.graph.KeepsBound r.target a := by
  cases h with
  | @moved b₁ _ route fee tries day now before found cheap settles =>
      rw [settles.graph]
      refine keepsBound_applyPayment (before.graph.keyed hb) found day a ?_
      rcases ha with ha | ⟨rfl, -⟩
      · exact Or.inl (ha.congr before.graph.own)
      · exact Or.inr ⟨rfl, rfl⟩
  | failed unmoved =>
      rcases ha with ha | ⟨rfl, hsuccess⟩
      · exact ha.congr unmoved.graph.own
      · cases hsuccess

theorem ChunksRun.keepsBound (h : ChunksRun timeout r index chunks b record (some (attempts, b')))
    (hb : b.graph.Keyed) :
    b'.graph.Keyed ∧ ∀ a, (b.graph.KeepsBound r.target a ∨ a ∈ attempts ∧ a.success = true) →
      b'.graph.KeepsBound r.target a := by
  -- What was chosen by earlier chunks is within its bound when the rest starts.
  induction h using ChunksRun.ended_induction with
  | nil =>
      refine ⟨hb, fun a ha => ?_⟩
      rcases ha with ha | ⟨ha, -⟩
      · exact ha
      · cases ha
  | cons chunk kept next ih =>
      have hgraph := graph_recordAttempt kept
      obtain ⟨hkeyed, hrest⟩ := ih (hgraph ▸ chunk.outcome.keyed hb)
      refine ⟨hkeyed, fun a ha => ?_⟩
      rw [hgraph] at hrest
      rcases ha with ha | ⟨ha, hsuccess⟩
      · exact hrest a (Or.inl (chunk.outcome.keepsBound hb (Or.inl ha)))
      · rcases List.mem_cons.mp ha with rfl | ha
        · exact hrest a (Or.inl (chunk.outcome.keepsBound hb (Or.inr ⟨rfl, hsuccess⟩)))
        · exact hrest a (Or.inr ⟨ha, hsuccess⟩)

/-- Whenever a chunk has ended, and at the end of the run, every channel that was chosen for a chunk
that moved is within its bound. -/
theorem keepsBound_of_runs (hb : b.graph.Keyed) :
    (∀ (n : Nat) (amount : Msat) (first second : Exchanges) (attempts : List Attempt)
      (attempt : Attempt) (b₁ b₂ : Books), r.chunks[n]? = some amount →
      (runChunks timeout r 0 (r.chunks.take n) b).Runs first (some (attempts, b₁)) →
      (runChunk timeout r n amount b₁).Runs second (some (attempt, b₂)) →
      ∀ a ∈ attempts ++ [attempt], a.success = true → b₂.graph.KeepsBound r.target a) ∧
    ∀ (record : Exchanges) (summary : Summary) (b' : Books),
      (execute timeout r b).Runs record (some (summary, b')) →
      ∀ a ∈ summary.attempts, a.success = true → b'.graph.KeepsBound r.target a := by
  constructor
  · intro n amount first second attempts attempt b₁ b₂ _ hfirst hsecond a ha hsuccess
    obtain ⟨hkeyed, hearlier⟩ := (runs_runChunks_iff.mp hfirst).keepsBound hb
    have houtcome := (runs_runTries_iff.mp hsecond).outcome
    rcases List.mem_append.mp ha with ha | ha
    · exact houtcome.keepsBound hkeyed (Or.inl (hearlier a (Or.inr ⟨ha, hsuccess⟩)))
    · exact houtcome.keepsBound hkeyed (Or.inr ⟨List.mem_singleton.mp ha, hsuccess⟩)
  · intro record summary b' hrun a ha hsuccess
    generalize hr : some (summary, b') = result at hrun
    cases runs_execute_iff.mp hrun with
    | broken start chunks => cases hr
    | @finished start stop _ attempts b'' chunks =>
        obtain ⟨summary', hsummary, heq⟩ := Option.map_eq_some_iff.mp hr.symm
        cases heq
        rw [(Summary.eq_of_ofAttempts? hsummary).1] at ha
        exact (chunks.keepsBound hb).2 a (Or.inr ⟨ha, hsuccess⟩)

/-! ## A pull that is paid at once -/

/-- The request to pull one chunk into the empty channel of `Graph.twoChannels`, from any exit that
keeps a fifth of its capacity. -/
def pullOver : Request :=
  { moveOver 1 with target := .pull "2x1" 1000 none 20 1000000000 }

theorem lookup_pullOver {order : OwnOrder} :
    lookup order Graph.twoChannels pullOver 1000 = .ok routeOver := by
  have hpull : Graph.twoChannels.exitsAmong (order.records Graph.twoChannels) "2x1" 1000 2
      ⟨1000, none, 20, 1000000000⟩ = .ok [⟨"1x1", 0, routeOver⟩] :=
    Graph.exitsAmong_twoChannels (order.perm _) rfl (by decide)
  show Graph.twoChannels.exitsAmong _ "2x1" 1000 2 _ >>= _ = _
  rw [hpull]
  rfl

/-- The summary of `pullOver` when its chunk is paid at once. -/
def summaryPulled : Summary :=
  { summaryOver with mode := .pull, attempts := [.succeeded pullOver 0 routeOver 1 1 0] }

theorem keepsBound_pullOver :
    Graph.twoChannels.Keyed ∧
      ∃ b', (execute 60 pullOver (.ofGraph Graph.twoChannels)).Runs
          (paidAtOnce 60 pullOver routeOver ⟨"h", "s"⟩ 1001 0 5) (some (summaryPulled, b')) ∧
        ∀ a ∈ summaryPulled.attempts, a.success = true →
          b'.graph.KeepsBound pullOver.target a := by
  have hkeyed := Graph.reachable_twoChannels.keyed
  obtain ⟨b', hrun, -⟩ := @runs_paidAtOnce 60 pullOver 1000 (.ofGraph Graph.twoChannels) routeOver
    ⟨"h", "s"⟩ 1001 0 0 5 _ summaryPulled rfl lookup_pullOver (by decide) rfl rfl rfl
  exact ⟨hkeyed, b', hrun, (keepsBound_of_runs hkeyed).2 _ _ _ hrun⟩

end Execution

end Rebalancer
