import Rebalancer.CommandLine
import Rebalancer.Engine
import Rebalancer.Report

set_option autoImplicit false

/-! # Commands of the operator

A command runs once, on a graph that was refreshed for it, and gives a document to be shown.
-/

namespace Rebalancer

/-- Why a command has nothing to show. -/
inductive CommandError
  | failure (f : Failure)
  /-- The command never ends. -/
  | unending
deriving DecidableEq, Repr

/-- The error in words. -/
def CommandError.message : CommandError → String
  | failure f => f.message
  | unending => "daemon is not a one-shot command"

namespace Engine

/-- The full refresh, and after it once more that of the own channels. -/
def refreshTwice (e : Engine) : NodeDialogue (Except Failure Unit × Engine) := do
  match ← e.refresh with
  | (.error failure, e) => return (.error failure, e)
  | (.ok _, e) => e.refreshOwn

/-- Refreshes and rebalances. -/
def rebalanceFresh (e : Engine)
    (rebalance : Engine → NodeDialogue (Except Failure Summary × Engine)) :
    NodeDialogue (Except CommandError Json × Engine) := do
  match ← e.refreshTwice with
  | (.error failure, e) => return (.error (.failure failure), e)
  | (.ok (), e) =>
    match ← rebalance e with
    | (.error failure, e) => return (.error (.failure failure), e)
    | (.ok summary, e) => return (.ok summary.toJson, e)

/-- Refreshes and shows the statistics. -/
def statsFresh (e : Engine) : NodeDialogue (Except CommandError Json × Engine) := do
  match ← e.refresh with
  | (.error failure, e) => return (.error (.failure failure), e)
  | (.ok _, e) => return (.ok (← e.stats).toJson, e)

/-- Runs a command once. -/
def runCommand (e : Engine) : Command → NodeDialogue (Except CommandError Json × Engine)
  | .daemon => return (.error .unending, e)
  | .circular p => e.rebalanceFresh (·.circular p)
  | .pull p => e.rebalanceFresh (·.pull p)
  | .push p => e.rebalanceFresh (·.push p)
  | .betweenNodes p => e.rebalanceFresh (·.betweenNodes p)
  | .stats => e.statsFresh
  | .deleteStats =>
    let (deleted, e) := e.deleteStats
    return (.ok deleted.toJson, e)

end Engine

end Rebalancer
