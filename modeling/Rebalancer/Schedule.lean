import Rebalancer.Engine

set_option autoImplicit false

/-! # The schedule

Three tasks are repeated, each at its own period: the full refresh, the refresh of the own
channels, which also asks after payments that were given up, and the logging of the counts. The
first run of a task is one period after the start.
-/

namespace Rebalancer

/-- A repeated task. -/
inductive Job
  | graph
  | peers
  | statsLog
deriving DecidableEq, Repr

/-- A task with its period in seconds and the time it counts from. -/
structure Timer where
  job : Job
  period : Nat
  since : Time
deriving DecidableEq, Repr

namespace Timer

/-- The number of periods that have passed at `t`. -/
def periods (timer : Timer) (t : Time) : Nat := (t - timer.since).toNat / timer.period

/-- The times after `start` and up to `stop` at which the task is due. -/
def ticks (timer : Timer) (start stop : Time) : List (Time × Job) :=
  let first := timer.periods start + 1
  (List.range (timer.periods stop + 1 - first)).map fun i =>
    (timer.since + ((first + i) * timer.period : Nat), timer.job)

end Timer

/-- The tasks in the order in which they run when they are due together. -/
abbrev Schedule := List Timer

namespace Schedule

/-- The schedule of an engine that starts now. -/
def start (s : EngineSettings) (now : Time) : Schedule :=
  [⟨.graph, max s.graphRefresh.toNat 1, now⟩,
   ⟨.peers, max s.peerRefresh.toNat 1, now⟩,
   ⟨.statsLog, max s.statsLogInterval.toNat 1, now⟩]

/-- All tasks due after `start` and up to `stop`, in the order of time. -/
def ticks (schedule : Schedule) (start stop : Time) : List (Time × Job) :=
  (schedule.flatMap fun timer => timer.ticks start stop).mergeSort fun a b => a.1 ≤ b.1

end Schedule

/-- Runs a task. Its failures are passed over; the next run may go better. -/
def Engine.runJob (e : Engine) : Job → NodeDialogue Engine
  | .graph => do return (← e.refresh).2
  | .peers => do
    let (_, e) ← e.refreshOwn
    return (← e.reconcile).2
  | .statsLog => do
    let _ ← e.stats
    return e

end Rebalancer
