import Rebalancer.Proofs.Execution.Attempts
import Rebalancer.Proofs.Execution.Payments

set_option autoImplicit false

/-! # When a request returns

A request ends without a summary for two reasons. A time may not fit its word, which only the clock
can bring about. And the fees that the node reports may come to more than a word holds, which takes
two chunks. What is moved never does, for the chunks come to the amount of the request. If the node
reports what was sent, the fees keep to the rate of the request, so they fit as well.
-/

namespace Rebalancer

/-- Each time that the clock gave lies in a day that begins at a time, and retention reaches back
from it to a time. -/
def Timely (retention : Int) (record : Exchanges) : Prop :=
  ∀ now, Query.clock.answered now ∈ record →
    dayStart? now ≠ none ∧ fitSigned? (now - retention) ≠ none

variable {retention : Int} {first second record : Exchanges}

theorem Timely.left (h : Timely retention (first ++ second)) : Timely retention first :=
  fun now hmem => h now (List.mem_append_left second hmem)

theorem Timely.right (h : Timely retention (first ++ second)) : Timely retention second :=
  fun now hmem => h now (List.mem_append_right first hmem)

/-- How a request ends when its chunks are through, with these attempts and books: without a summary
if the fees do not fit a word, and else with one that has the sums. -/
structure EndsWith (r : Request) (attempts : List Attempt) (b : Books)
    (result : Option (Summary × Books)) : Prop where
  tries : ∀ a ∈ attempts, 1 ≤ a.tries ∧ a.tries ≤ r.attempts
  moved_le : movedBy attempts ≤ r.amount.toNat
  eq_none_iff : result = none ↔ maxWord < feesBy attempts
  eq_some : ∀ summary b', result = some (summary, b') → b' = b ∧ summary.attempts = attempts ∧
    summary.moved.toNat = movedBy attempts ∧ summary.fee.toNat = feesBy attempts

namespace Execution

variable {timeout : UInt64} {r : Request} {index tries more : Nat} {amount fee : Msat}
  {b b' : Books} {route : Route} {last : Option Route} {label hash : String} {attempt : Attempt}

/-! ## Times -/

theorem settled_ne_none {now : Time} (timely : dayStart? now ≠ none) :
    settled b route hash fee now ≠ none := by
  intro h
  have hsettle := Option.map_eq_none_iff.mp h
  exact timely (dayStart?_of_recordCost (Option.map_eq_none_iff.mp hsettle))

theorem AwaitRun.returns {result : Option (TryResult × Books)}
    (h : AwaitRun timeout b route label hash record result) (timely : Timely retention record) :
    result ≠ none := by
  cases h with
  | completed delivered sent now => exact settled_ne_none (timely now (by simp)).1
  | failed failure => exact nofun
  | foundPaid answer reason now stop => exact settled_ne_none (timely now (by simp)).1
  | givenUp answer reason removal stop unpaid => exact nofun

theorem PayRun.returns {result : Option (TryResult × Books)}
    (h : PayRun timeout b route label record result) (timely : Timely retention record) :
    result ≠ none := by
  cases h with
  | noInvoice e => exact nofun
  | notSent invoice e => exact nofun
  | sent invoice wait => exact wait.returns (@Timely.right retention [_, _] _ timely)

theorem TryRun.returns {result : Option (Attempt × Option Route × Books)}
    (h : TryRun timeout r index amount tries last b record result)
    (timely : Timely retention record) : result ≠ none := by
  cases h with
  | broken route found cheap paid => exact absurd rfl (paid.returns timely)
  | noRoute => exact nofun
  | tooDear => exact nofun
  | moved => exact nofun
  | failed => exact nofun

theorem TriesRun.returns {result : Option (Attempt × Books)}
    (h : TriesRun timeout r index amount more tries last b record result)
    (timely : Timely retention record) : result ≠ none := by
  induction h with
  | broken step => exact absurd rfl (step.returns timely)
  | stopped step final => exact nofun
  | again step next ih => exact ih timely.right

/-- An attempt has the time of the clock. -/
theorem TryRun.createdAt {again : Option Route}
    (h : TryRun timeout r index amount tries last b record (some (attempt, again, b'))) :
    Query.clock.answered attempt.createdAt ∈ record := by
  cases h with
  | noRoute failure now found => exact List.mem_singleton_self _
  | tooDear route now found dear => exact List.mem_singleton_self _
  | moved route found cheap paid now => exact List.mem_append_right _ (List.mem_singleton_self _)
  | failed route found cheap paid now => exact List.mem_append_right _ (List.mem_singleton_self _)

theorem TriesRun.createdAt
    (h : TriesRun timeout r index amount more tries last b record (some (attempt, b'))) :
    Query.clock.answered attempt.createdAt ∈ record := by
  induction h using TriesRun.ended_induction with
  | stopped step final => exact step.createdAt
  | again step next ih => exact List.mem_append_right _ ih

/-- As long as times fit, the chunks end with attempts. -/
theorem ChunksRun.returns {chunks : List Msat} {result : Option (List Attempt × Books)}
    (h : ChunksRun timeout r index chunks b record result)
    (timely : Timely b.history.retention record) : result ≠ none := by
  induction h with
  | nil => exact nofun
  | broken chunk => exact absurd rfl (chunk.returns timely)
  | unrecorded chunk lost =>
      -- The attempt has a time of the clock, so it was recorded.
      have hcutoff := (timely _ chunk.createdAt).2
      rw [← chunk.outcome.history] at hcutoff
      obtain ⟨cutoff, hcutoff⟩ := Option.ne_none_iff_exists'.mp hcutoff
      obtain ⟨b'', hkept⟩ := exists_recordAttempt hcutoff
      rw [hkept] at lost
      cases lost
  | cons chunk kept next ih =>
      have hretention := retention_recordAttempt kept
      rw [chunk.outcome.history] at hretention
      have hnext := ih (hretention ▸ timely.right)
      exact fun heq => hnext (Option.map_eq_none_iff.mp heq)

/-! ## Sums -/

variable {attempts : List Attempt}

theorem endsWith_of_chunksRun (accepted : r.flaw? = none)
    (h : ChunksRun timeout r 0 r.chunks b record (some (attempts, b'))) (elapsed : UInt64) :
    EndsWith r attempts b' ((Summary.ofAttempts? r attempts elapsed).map (·, b')) := by
  obtain ⟨-, -, -, hattempts, -⟩ := Request.bounds_of_accepted accepted
  have hmoved : movedBy attempts ≤ r.amount.toNat :=
    sum_of_chunksRun accepted h ▸ movedBy_le attempts
  refine ⟨(h.attempts_match hattempts).2.2, hmoved, ?_, ?_⟩
  · rw [Option.map_eq_none_iff, Summary.ofAttempts?_eq_none_iff]
    exact or_iff_right (Nat.not_lt.mpr (hmoved.trans (toNat_le_maxWord r.amount)))
  · intro summary b'' heq
    obtain ⟨_, hs, heq⟩ := Option.map_eq_some_iff.mp heq
    cases heq
    obtain ⟨hsame, hmoved, hfee, -⟩ := Summary.eq_of_ofAttempts? hs
    exact ⟨rfl, hsame, hmoved, hfee⟩

/-- The fee of one attempt fits a word. -/
theorem feesBy_le_of_length (h : attempts.length ≤ 1) : feesBy attempts ≤ maxWord := by
  match attempts, h with
  | [], _ => exact Nat.zero_le _
  | [a], _ =>
      unfold feesBy tally
      split
      · exact toNat_le_maxWord a.fee
      · exact Nat.zero_le _

/-- Fees that are at most as much as what is moved fit a word. -/
theorem feesBy_le_of_reports (accepted : r.flaw? = none) (cheap : r.maxRate ≤ 1000000)
    (h : ChunksRun timeout r 0 r.chunks b record (some (attempts, b')))
    (reports : ReportsSent record) : feesBy attempts ≤ maxWord := by
  have hfees : feesBy attempts * 1000000 ≤ r.maxRate.toNat * movedBy attempts :=
    feesBy_le (h.keepsRate reports)
  have hmoved : movedBy attempts ≤ r.amount.toNat :=
    sum_of_chunksRun accepted h ▸ movedBy_le attempts
  have hrate : r.maxRate.toNat ≤ 1000000 := UInt64.le_iff_toNat_le.mp cheap
  have hle : feesBy attempts * 1000000 ≤ r.amount.toNat * 1000000 :=
    calc feesBy attempts * 1000000
        ≤ r.maxRate.toNat * movedBy attempts := hfees
      _ ≤ 1000000 * r.amount.toNat := Nat.mul_le_mul hrate hmoved
      _ = r.amount.toNat * 1000000 := Nat.mul_comm _ _
  exact (Nat.le_of_mul_le_mul_right hle (by decide)).trans (toNat_le_maxWord r.amount)

/-- Unless a time does not fit, every chunk of an accepted request is carried out, however the node
replies. Then there is a summary with the sums just if the fees fit a word. They fit if there is
only one chunk, or if the node reports what was sent and the fees are at most as high as the
amounts. -/
theorem returns_iff_fees_fit {result : Option (Summary × Books)} (accepted : r.flaw? = none)
    (h : (execute timeout r b).Runs record result) :
    (result = none ∧ ¬ Timely b.history.retention record) ∨
      ∃ start inner stop attempts b',
        record = Query.stopwatch.answered start :: (inner ++ [Query.stopwatch.answered stop]) ∧
        (runChunks timeout r 0 r.chunks b).Runs inner (some (attempts, b')) ∧
        EndsWith r attempts b' result ∧
        (r.chunks.length ≤ 1 ∨ (ReportsSent record ∧ r.maxRate ≤ 1000000) → result ≠ none) := by
  cases runs_execute_iff.mp h with
  | broken start chunks =>
      exact Or.inl ⟨rfl, fun timely =>
        chunks.returns (@Timely.right _ [_] _ timely) rfl⟩
  | @finished start stop inner attempts b' chunks =>
      have hends := endsWith_of_chunksRun accepted chunks (subClamped stop start)
      refine Or.inr ⟨start, inner, stop, attempts, b', rfl, runs_runChunks_iff.mpr chunks, hends,
        ?_⟩
      intro hfit hnone
      have hover := hends.eq_none_iff.mp hnone
      refine Nat.not_le.mpr hover ?_
      rcases hfit with hlength | ⟨reports, cheap⟩
      · refine feesBy_le_of_length ?_
        obtain ⟨-, -, -, hattempts, -⟩ := Request.bounds_of_accepted accepted
        rw [← (chunks.attempts_match hattempts).1, List.length_map] at hlength
        exact hlength
      · exact feesBy_le_of_reports accepted cheap chunks (@ReportsSent.right [_] _ reports).left

theorem returns_iff_fees_fit_moveTwice :
    moveTwice.flaw? = none ∧
      ∃ b', (execute 60 moveTwice (.ofGraph Graph.twoChannels)).Runs
          (Query.stopwatch.answered 0 :: (paidTwice 1000 1001 ++ [Query.stopwatch.answered 5]))
          (some (summaryTwice, b')) ∧
        EndsWith moveTwice summaryTwice.attempts b' (some (summaryTwice, b')) := by
  have accepted : moveTwice.flaw? = none := by decide +kernel
  obtain ⟨b', hchunks⟩ := chunksRun_moveTwice 1000 1001
  have hrun := runs_execute_iff.mpr (ExecuteRun.finished 0 5 hchunks)
  rcases returns_iff_fees_fit accepted hrun with
    ⟨hnone, -⟩ | ⟨_, _, _, attempts, b'', -, -, hends, -⟩
  · cases hnone
  · obtain ⟨rfl, hattempts, -⟩ := hends.eq_some summaryTwice b' rfl
    exact ⟨accepted, b', hrun, hattempts ▸ hends⟩

/-- If the node reports the largest word as sent for each of two chunks, there is no summary. -/
theorem fees_overflow_moveTwice :
    moveTwice.flaw? = none ∧
      ∃ b', (runChunks 60 moveTwice 0 moveTwice.chunks (.ofGraph Graph.twoChannels)).Runs
          (paidTwice 0 0xFFFFFFFFFFFFFFFF) (some (attemptsTwice 0xFFFFFFFFFFFFFFFF, b')) ∧
        feesBy (attemptsTwice 0xFFFFFFFFFFFFFFFF) = 2 * maxWord ∧
        (execute 60 moveTwice (.ofGraph Graph.twoChannels)).Runs
          (Query.stopwatch.answered 0 ::
            (paidTwice 0 0xFFFFFFFFFFFFFFFF ++ [Query.stopwatch.answered 5])) none := by
  obtain ⟨b', hchunks⟩ := chunksRun_moveTwice 0 0xFFFFFFFFFFFFFFFF
  have hfees : feesBy (attemptsTwice 0xFFFFFFFFFFFFFFFF) = 2 * maxWord := rfl
  have hnone : Summary.ofAttempts? moveTwice (attemptsTwice 0xFFFFFFFFFFFFFFFF) (subClamped 5 0) =
      none := Summary.ofAttempts?_eq_none_iff.mpr (Or.inr (by rw [hfees]; decide))
  have hrun := ExecuteRun.finished 0 5 hchunks
  rw [show subClamped 0xFFFFFFFFFFFFFFFF (0 : UInt64) = 0xFFFFFFFFFFFFFFFF from rfl, hnone] at hrun
  exact ⟨by decide +kernel, b', runs_runChunks_iff.mpr hchunks, hfees, runs_execute_iff.mpr hrun⟩

end Execution

end Rebalancer
