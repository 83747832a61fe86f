import Rebalancer.Store.Attempts
import Rebalancer.Store.Costs
import Rebalancer.Store.Snapshot

set_option autoImplicit false

/-! # What is kept on disk -/

namespace Rebalancer

/-- The tables that outlive a run. -/
structure Store where
  attempts : AttemptRows := []
  costs : Costs := ∅
  snapshot : Snapshot := {}

namespace Store

/-- Saves a graph in the place of the last snapshot. A graph that the tables do not admit leaves
them as they are. -/
def save (s : Store) (g : Graph) : Store :=
  match Snapshot.ofGraph? g with
  | some snapshot => { s with snapshot := snapshot }
  | none => s

/-- Writes an attempt and drops what is too old or too much. -/
def recordAttempt (s : Store) (a : Attempt) (capacity : Nat) (cutoff : Time) : Store :=
  { s with attempts := (s.attempts.put (.ofAttempt a)).prune capacity cutoff }

/-- Books a settled payment, unless its day begins before all times. -/
def recordCost (s : Store) (route : Route) (fee : Msat) (now : Time) : Option Store :=
  (s.costs.record route fee now).map fun costs => { s with costs := costs }

end Store

end Rebalancer
