import Mathlib.Algebra.Order.Floor.Div
import Mathlib.Data.List.Nodup
import Rebalancer.Proofs.Execution.Effects
import Rebalancer.Proofs.Store.Attempts
import Rebalancer.Proofs.Summary
import Std.Data.String.ToNat

set_option autoImplicit false

/-! # One attempt for each chunk

A request is cut into as many chunks as it takes to reach its amount, and the chunks come to just
that amount. However the node replies, each chunk gets one attempt, with the number and the amount
of the chunk (`Summary.Covers`). So what was moved tells whether all, some or none of the attempts
succeeded. The history takes up the same attempts and keeps the newest.
-/

namespace Rebalancer

/-! ## Chunks -/

namespace Request

variable {r : Request}

theorem toNat_split_pos (hs : r.split ≠ 0) : 0 < r.split.toNat :=
  Nat.pos_of_ne_zero fun h => hs (UInt64.toNat_inj.mp h)

/-- The chunks are full but for a last one, if the amount is not a multiple of a full one. -/
theorem chunks_of_split (hs : r.split ≠ 0) :
    (r.amount.toNat % r.split.toNat = 0 ∧
      r.chunks = List.replicate (r.amount.toNat / r.split.toNat) r.split) ∨
    (0 < r.amount.toNat % r.split.toNat ∧
      r.chunks = List.replicate (r.amount.toNat / r.split.toNat) r.split ++
        [r.amount % r.split]) := by
  unfold chunks
  rw [if_neg hs, UInt64.toNat_div, ← UInt64.toNat_mod]
  split
  · rename_i hmod
    exact Or.inl ⟨by rw [hmod]; rfl, List.append_nil _⟩
  · rename_i hmod
    exact Or.inr ⟨Nat.pos_of_ne_zero fun h => hmod (UInt64.toNat_inj.mp h), rfl⟩

/-- There are as many chunks as it takes to reach the amount. -/
theorem length_chunks (hs : r.split ≠ 0) :
    r.chunks.length = r.amount.toNat ⌈/⌉ r.split.toNat := by
  have hpos := toNat_split_pos hs
  have hdiv := Nat.div_add_mod r.amount.toNat r.split.toNat
  have hlt := Nat.mod_lt r.amount.toNat hpos
  rw [Nat.ceilDiv_eq_add_pred_div]
  rcases chunks_of_split hs with ⟨hmod, hchunks⟩ | ⟨hmod, hchunks⟩
  · have hsum : r.amount.toNat + r.split.toNat - 1 =
        r.split.toNat * (r.amount.toNat / r.split.toNat) + (r.split.toNat - 1) := by omega
    rw [hchunks, List.length_replicate, hsum, Nat.mul_add_div hpos,
      Nat.div_eq_of_lt (Nat.sub_one_lt_of_lt hpos), Nat.add_zero]
  · have hsum : r.amount.toNat + r.split.toNat - 1 =
        r.split.toNat * (r.amount.toNat / r.split.toNat + 1) +
          (r.amount.toNat % r.split.toNat - 1) := by
      rw [Nat.mul_add_one]
      omega
    have hrest : (r.amount.toNat % r.split.toNat - 1) / r.split.toNat = 0 :=
      Nat.div_eq_of_lt (by omega)
    rw [hchunks, List.length_append, List.length_replicate, List.length_singleton, hsum,
      Nat.mul_add_div hpos, hrest, Nat.add_zero]

/-- The chunks come to the amount. -/
theorem sum_chunks (hs : r.split ≠ 0) : (r.chunks.map (·.toNat)).sum = r.amount.toNat := by
  have hdiv := Nat.div_add_mod' r.amount.toNat r.split.toNat
  rcases chunks_of_split hs with ⟨hmod, hchunks⟩ | ⟨hmod, hchunks⟩
  · rw [hchunks, List.map_replicate, List.sum_replicate_nat]
    omega
  · rw [hchunks, List.map_append, List.map_replicate, List.sum_append_nat, List.sum_replicate_nat,
      List.map_singleton, List.sum_singleton, UInt64.toNat_mod]
    exact hdiv

/-- All chunks but the last are full. -/
theorem dropLast_chunks (hs : r.split ≠ 0) : ∀ amount ∈ r.chunks.dropLast, amount = r.split := by
  intro amount hmem
  rcases chunks_of_split hs with ⟨hmod, hchunks⟩ | ⟨hmod, hchunks⟩
  · rw [hchunks] at hmem
    exact List.eq_of_mem_replicate (List.mem_of_mem_dropLast hmem)
  · rw [hchunks, List.dropLast_concat] at hmem
    exact List.eq_of_mem_replicate hmem

/-- No chunk is empty or more than full. -/
theorem bounds_of_mem_chunks (hs : r.split ≠ 0) {amount : Msat} (h : amount ∈ r.chunks) :
    1 ≤ amount.toNat ∧ amount.toNat ≤ r.split.toNat := by
  have hpos := toNat_split_pos hs
  have full : ∀ {n : Nat}, amount ∈ List.replicate n r.split →
      1 ≤ amount.toNat ∧ amount.toNat ≤ r.split.toNat := by
    intro n hmem
    rw [List.eq_of_mem_replicate hmem]
    exact ⟨hpos, Nat.le_refl _⟩
  rcases chunks_of_split hs with ⟨hmod, hchunks⟩ | ⟨hmod, hchunks⟩
  · rw [hchunks] at h
    exact full h
  · rw [hchunks] at h
    rcases List.mem_append.mp h with h | h
    · exact full h
    · rw [List.mem_singleton.mp h, UInt64.toNat_mod]
      exact ⟨hmod, Nat.le_of_lt (Nat.mod_lt _ hpos)⟩

end Request

/-- The number of a chunk can be read off the identifier of its attempt. -/
theorem Attempt.idOf_inj {r : Request} {index index' : Nat} :
    idOf r index = idOf r index' ↔ index = index' := by
  constructor
  · intro h
    simp only [idOf, toString, String.append_assoc, String.append_right_inj] at h
    have hlist : index.repr.toList = index'.repr.toList := by
      simpa using congrArg String.toList h
    exact Nat.repr_injective (String.toList_injective hlist)
  · rintro rfl
    rfl

/-- The summary has one attempt for each chunk of the request, and its totals and its status are
those of the attempts. -/
structure Summary.Covers (s : Summary) (r : Request) : Prop where
  target_eq : s.target = r.amount
  length_eq : s.attempts.length = r.amount.toNat ⌈/⌉ r.split.toNat
  amounts_eq : s.attempts.map (·.amount) = r.chunks
  full : ∀ a ∈ s.attempts.dropLast, a.amount = r.split
  last : ∀ a ∈ s.attempts.getLast?, 1 ≤ a.amount ∧ a.amount ≤ r.split
  sum_eq : (s.attempts.map (·.amount.toNat)).sum = s.target.toNat
  ids_eq : s.attempts.map (·.id) = (List.range s.attempts.length).map (Attempt.idOf r)
  nodup_ids : (s.attempts.map (·.id)).Nodup
  tries : ∀ a ∈ s.attempts, 1 ≤ a.tries ∧ a.tries ≤ r.attempts
  moved_eq : s.moved.toNat = ((s.attempts.filter (·.success)).map (·.amount.toNat)).sum
  moved_le : s.moved ≤ s.target
  success_iff : s.status = .success ↔ s.moved = s.target
  failure_iff : s.status = .failure ↔ s.moved = 0
  partly_iff : s.status = .partly ↔ s.moved ≠ s.target ∧ s.moved ≠ 0

namespace Execution

variable {timeout : UInt64} {r : Request} {index tries more : Nat} {amount : Msat} {b b' : Books}
  {last : Option Route} {record : Exchanges} {attempt : Attempt} {attempts : List Attempt}

/-! ## Attempts -/

theorem TryRun.attempt_eq {again : Option Route}
    (h : TryRun timeout r index amount tries last b record (some (attempt, again, b'))) :
    attempt.id = Attempt.idOf r index ∧ attempt.amount = amount ∧ attempt.tries = tries := by
  cases h with
  | noRoute failure now found => exact ⟨rfl, rfl, rfl⟩
  | tooDear route now found dear => exact ⟨rfl, rfl, rfl⟩
  | moved route found cheap paid now => exact ⟨rfl, (getLast?_of_lookup found).1, rfl⟩
  | failed route found cheap paid now => exact ⟨rfl, rfl, rfl⟩

theorem TriesRun.attempt_bounds
    (h : TriesRun timeout r index amount more tries last b record (some (attempt, b'))) :
    attempt.id = Attempt.idOf r index ∧ attempt.amount = amount ∧ tries ≤ attempt.tries ∧
      attempt.tries ≤ tries + more := by
  induction h using TriesRun.ended_induction with
  | stopped step final =>
      obtain ⟨hid, hamount, rfl⟩ := step.attempt_eq
      exact ⟨hid, hamount, Nat.le_refl _, Nat.le_add_right _ _⟩
  | again step next ih =>
      obtain ⟨hid, hamount, hlow, hhigh⟩ := ih
      exact ⟨hid, hamount, by omega, by omega⟩

/-- The attempts at some chunks have their numbers and amounts, and keep to the bound on tries. -/
theorem ChunksRun.attempts_match {chunks : List Msat} (enough : r.attempts ≠ 0)
    (h : ChunksRun timeout r index chunks b record (some (attempts, b'))) :
    attempts.map (·.amount) = chunks ∧
      attempts.map (·.id) = (List.range' index chunks.length).map (Attempt.idOf r) ∧
      ∀ a ∈ attempts, 1 ≤ a.tries ∧ a.tries ≤ r.attempts := by
  induction h using ChunksRun.ended_induction with
  | nil => exact ⟨rfl, rfl, nofun⟩
  | cons chunk kept next ih =>
      obtain ⟨hid, hamount, hlow, hhigh⟩ := chunk.attempt_bounds
      obtain ⟨hamounts, hids, htries⟩ := ih
      refine ⟨?_, ?_, ?_⟩
      · rw [List.map_cons, hamount, hamounts]
      · rw [List.map_cons, hid, hids, List.length_cons, List.range'_succ, List.map_cons]
      · intro a ha
        rcases List.mem_cons.mp ha with rfl | ha
        · omega
        · exact htries a ha

/-- The history takes up the attempts in order. It is cut when it takes one up, so it is compared
up to a cut. -/
theorem ChunksRun.history {chunks : List Msat}
    (h : ChunksRun timeout r index chunks b record (some (attempts, b'))) :
    b'.history.recent.rtake b.history.capacity =
        (b.history.recent ++ attempts).rtake b.history.capacity ∧
      (b.history.recent.length ≤ b.history.capacity ∨ attempts ≠ [] →
        b'.history.recent.length ≤ b.history.capacity) := by
  induction h using ChunksRun.ended_induction with
  | nil => exact ⟨by rw [List.append_nil], fun hlength => hlength.resolve_right (absurd rfl)⟩
  | @cons _ _ _ _ _ _ _ _ _ _ rest chunk kept next ih =>
      obtain ⟨hrecent, hlength⟩ := ih
      have hkept := history_recordAttempt kept
      rw [chunk.outcome.history] at hkept
      rw [hkept] at hrecent hlength
      constructor
      · refine hrecent.trans ?_
        show ((_ ++ [_]).rtake _ ++ rest).rtake _ = _
        rw [rtake_rtake_append, List.append_assoc]
        rfl
      · exact fun _ => hlength (Or.inl (length_rtake_le _ _))

/-! ## The summary -/

theorem sum_of_chunksRun (accepted : r.flaw? = none)
    (h : ChunksRun timeout r 0 r.chunks b record (some (attempts, b'))) :
    (attempts.map (·.amount.toNat)).sum = r.amount.toNat := by
  obtain ⟨-, hsplit, -, hattempts, -⟩ := Request.bounds_of_accepted accepted
  rw [← Request.sum_chunks hsplit, ← (h.attempts_match hattempts).1, List.map_map]
  rfl

theorem covers_of_chunksRun {summary : Summary} {elapsed : UInt64} (accepted : r.flaw? = none)
    (h : ChunksRun timeout r 0 r.chunks b record (some (attempts, b')))
    (hs : Summary.ofAttempts? r attempts elapsed = some summary) :
    summary.Covers r ∧ attempts ≠ [] := by
  obtain ⟨hamount, hsplit, -, hattempts, -⟩ := Request.bounds_of_accepted accepted
  obtain ⟨hamounts, hids, htries⟩ := h.attempts_match hattempts
  obtain ⟨rfl, hmoved, -⟩ := Summary.eq_of_ofAttempts? hs
  obtain ⟨htarget, hstatus⟩ := Summary.target_of_ofAttempts? hs
  have hlength : summary.attempts.length = r.chunks.length := by rw [← hamounts, List.length_map]
  have hids : summary.attempts.map (·.id) =
      (List.range summary.attempts.length).map (Attempt.idOf r) := by
    rw [hids, hlength, List.range_eq_range']
  have hsum : (summary.attempts.map (·.amount.toNat)).sum = summary.target.toNat := by
    rw [htarget]
    exact sum_of_chunksRun accepted h
  have hbounds : ∀ a ∈ summary.attempts, 1 ≤ a.amount.toNat ∧ a.amount.toNat ≤ r.split.toNat :=
    fun a ha => Request.bounds_of_mem_chunks hsplit (hamounts ▸ List.mem_map_of_mem ha)
  have hsome : summary.attempts ≠ [] := by
    intro hnone
    rw [hnone, htarget] at hsum
    exact hamount (UInt64.toNat_inj.mp hsum.symm)
  obtain ⟨hsuccess, hfailure⟩ := Summary.statusOf_iff_movedBy hsome fun a ha => (hbounds a ha).1
  rw [← hstatus, ← hmoved, hsum, UInt64.toNat_inj] at hsuccess
  rw [← hstatus, ← hmoved, ← UInt64.toNat_zero, UInt64.toNat_inj] at hfailure
  have hpartly : summary.status = .partly ↔ summary.moved ≠ summary.target ∧ summary.moved ≠ 0 := by
    rw [Ne, Ne, ← hsuccess, ← hfailure]
    cases summary.status <;> simp
  have hle : summary.moved ≤ summary.target := by
    rw [UInt64.le_iff_toNat_le, ← hsum, hmoved]
    exact movedBy_le summary.attempts
  refine ⟨⟨htarget, ?_, hamounts, ?_, ?_, hsum, hids, ?_, htries, ?_, hle, hsuccess, hfailure,
    hpartly⟩, hsome⟩
  · rw [hlength, Request.length_chunks hsplit]
  · intro a ha
    refine Request.dropLast_chunks hsplit _ ?_
    rw [← hamounts, ← List.map_dropLast]
    exact List.mem_map_of_mem ha
  · intro a ha
    exact hbounds a (List.mem_of_getLast? ha)
  · rw [hids]
    exact List.nodup_range.map fun _ _ heq => Attempt.idOf_inj.mp heq
  · rw [hmoved, movedBy, tally_eq_sum]

/-- However the node replies, a request that returns a summary has made one attempt for each of its
chunks, and the history has taken up these attempts in order. -/
theorem one_attempt_for_each_chunk {summary : Summary} (accepted : r.flaw? = none)
    (h : (execute timeout r b).Runs record (some (summary, b'))) :
    summary.Covers r ∧
      b'.history.recent =
        (b.history.recent ++ summary.attempts).rtake b.history.capacity := by
  generalize hr : some (summary, b') = result at h
  cases runs_execute_iff.mp h with
  | broken start chunks => cases hr
  | @finished start stop record attempts b' chunks =>
      obtain ⟨summary', hs, heq⟩ := Option.map_eq_some_iff.mp hr.symm
      cases heq
      obtain ⟨hcovers, hsome⟩ := covers_of_chunksRun accepted chunks hs
      obtain ⟨hrecent, hlength⟩ := chunks.history
      refine ⟨hcovers, ?_⟩
      rw [(Summary.eq_of_ofAttempts? hs).1, ← hrecent, List.rtake,
        Nat.sub_eq_zero_of_le (hlength (Or.inr hsome)), List.drop_zero]

/-! ## Two chunks -/

/-- The request to move two chunks over the two channels. -/
def moveTwice : Request := { moveOver 1 with amount := 2000 }

/-- What is exchanged when both chunks are paid with these amounts. -/
def paidTwice (delivered sent : Msat) : Exchanges :=
  paidChunk 60 moveTwice 0 routeOver ⟨"h", "s"⟩ delivered sent 0 ++
    (paidChunk 60 moveTwice 1 routeOver ⟨"i", "t"⟩ delivered sent 0 ++ [])

/-- The attempts of both chunks, if they cost `fee` each. -/
def attemptsTwice (fee : Msat) : List Attempt :=
  [.succeeded moveTwice 0 routeOver fee 1 0, .succeeded moveTwice 1 routeOver fee 1 0]

theorem chunksRun_moveTwice (delivered sent : Msat) :
    ∃ b', ChunksRun 60 moveTwice 0 moveTwice.chunks (.ofGraph Graph.twoChannels)
      (paidTwice delivered sent) (some (attemptsTwice (subClamped sent delivered), b')) := by
  have hday : dayStart? 0 = some 0 := rfl
  have booked : ∀ s : Store, ∃ s',
      s.recordCost routeOver (subClamped sent delivered) 0 = some s' := by
    intro s
    cases hs : s.recordCost routeOver (subClamped sent delivered) 0 with
    | some s' => exact ⟨s', rfl⟩
    | none => cases hday.symm.trans (dayStart?_of_recordCost hs)
  obtain ⟨store, hbooked⟩ := booked (Books.ofGraph Graph.twoChannels).store
  obtain ⟨b₁, b₂, hchunk, hkept, hgraph, hretention⟩ :=
    @exists_paidChunk 60 moveTwice 0 1000 (.ofGraph Graph.twoChannels) routeOver ⟨"h", "s"⟩
      delivered sent 0 0 store Graph.ring_twoChannels (by decide) hbooked rfl
  obtain ⟨store', hbooked'⟩ := booked b₂.store
  obtain ⟨b₃, b₄, hchunk', hkept', -⟩ :=
    @exists_paidChunk 60 moveTwice 1 1000 b₂ routeOver ⟨"i", "t"⟩ delivered sent 0 0 store'
      (by rw [hgraph]; exact Graph.ring_twoChannels_paid) (by decide) hbooked'
      (by rw [History.cutoff?, hretention]; rfl)
  exact ⟨b₄, .cons hchunk hkept (.cons hchunk' hkept' .nil)⟩

/-- The summary of `moveTwice` when both chunks are paid and cost one millisatoshi each. -/
def summaryTwice : Summary where
  requestId := "r"
  mode := .circular
  status := .success
  target := 2000
  moved := 2000
  chunksAttempted := 2
  chunksSucceeded := 2
  fee := 2
  rate := 1000
  elapsedMs := 5
  attempts := attemptsTwice 1

theorem one_attempt_for_each_chunk_moveTwice :
    moveTwice.flaw? = none ∧
      ∃ b', (execute 60 moveTwice (.ofGraph Graph.twoChannels)).Runs
          (Query.stopwatch.answered 0 :: (paidTwice 1000 1001 ++ [Query.stopwatch.answered 5]))
          (some (summaryTwice, b')) ∧
        summaryTwice.Covers moveTwice ∧ b'.history.recent = attemptsTwice 1 := by
  have accepted : moveTwice.flaw? = none := by decide +kernel
  obtain ⟨b', hchunks⟩ := chunksRun_moveTwice 1000 1001
  have hrun := runs_execute_iff.mpr (ExecuteRun.finished 0 5 hchunks)
  obtain ⟨hcovers, hrecent⟩ := one_attempt_for_each_chunk accepted hrun
  exact ⟨accepted, b', hrun, hcovers, hrecent⟩

end Execution

end Rebalancer
