import Rebalancer.Attempt
import Rebalancer.Graph.Stats
import Rebalancer.Store

set_option autoImplicit false

/-! # The history of attempts

The newest attempts in memory, as many as the capacity allows, oldest first. Every attempt is also
written to the store, which keeps as many and none that is past retention.
-/

namespace Rebalancer

/-- The attempts in memory and the bounds on what is kept. -/
structure History where
  capacity : Nat
  /-- How many seconds an attempt is kept. -/
  retention : Int
  recent : List Attempt
deriving DecidableEq, Repr

/-- How much a deletion removed. -/
structure Deleted where
  successes : Nat
  failures : Nat
  costs : Nat
deriving DecidableEq, Repr

/-- What the operator is shown. -/
structure StatsReport where
  graph : GraphStats
  successes : List Attempt
  failures : List Attempt
  costs : List (String × ChannelCosts)
deriving DecidableEq, Repr

namespace History

/-- The seconds of a number of days, which counts as a signed word. -/
def retentionOf (days : UInt64) : Int := clampSigned (signedOfWord days * daySeconds)

/-- Takes up the history from the store, after dropping from there what is not to be kept, unless
retention reaches back before all times. -/
def start (s : Store) (capacity : Nat) (days : UInt64) (now : Time) : Option (History × Store) := do
  let capacity := max capacity 1
  let retention := retentionOf days
  let kept := s.attempts.prune capacity (← fitSigned? (now - retention))
  return (⟨capacity, retention, (kept.newest capacity).map AttemptRow.attempt⟩,
    { s with attempts := kept })

/-- The time from which on attempts and costs count at `now`, if it is a time. -/
def cutoff? (h : History) (now : Time) : Option Time := fitSigned? (now - h.retention)

/-- Appends an attempt in memory and in the store, unless retention reaches back before all
times. -/
def record (h : History) (s : Store) (a : Attempt) : Option (History × Store) := do
  let recent := h.recent ++ [a]
  return ({ h with recent := recent.drop (recent.length - h.capacity) },
    s.recordAttempt a h.capacity (← h.cutoff? a.createdAt))

/-- The attempts that moved something. -/
def successes (h : History) : List Attempt := h.recent.filter (·.success)

/-- The attempts that moved nothing. -/
def failures (h : History) : List Attempt := h.recent.filter (!·.success)

/-- The totals of those channels that moved anything since the day that begins at `day`, by
channel. -/
def costsSince (s : Store) (scids : List String) (day : Time) : List (String × ChannelCosts) :=
  let found := scids.filterMap fun scid =>
    match s.costs.since? scid day with
    | some c => if c = {} then none else some (scid, c)
    | none => none
  (Std.TreeMap.ofList found).toList

/-- The totals within retention of those channels that moved anything, by channel, unless retention
reaches back before all times. -/
def channelCosts (h : History) (s : Store) (scids : List String) (now : Time) :
    Option (List (String × ChannelCosts)) := do
  let cutoff ← h.cutoff? now
  if scids.isEmpty then some [] else (dayStart? cutoff).map (costsSince s scids)

/-- What the operator is shown, unless retention reaches back before all times. -/
def report (h : History) (s : Store) (graph : GraphStats) (scids : List String) (now : Time) :
    Option StatsReport :=
  (h.channelCosts s scids now).map (⟨graph, h.successes, h.failures, ·⟩)

/-- Drops all attempts and costs, and tells how many there were in the store. -/
def delete (h : History) (s : Store) : Deleted × History × Store :=
  (⟨s.attempts.countP (·.success), s.attempts.countP (!·.success), s.costs.size⟩,
    { h with recent := [] }, { s with attempts := [], costs := ∅ })

end History

end Rebalancer
