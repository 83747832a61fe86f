import Rebalancer.Request
import Rebalancer.Route

set_option autoImplicit false

/-! # Attempts and their summary

An attempt is the outcome of one chunk, a summary that of a whole request.
-/

namespace Rebalancer

/-- A failure as it is kept with an attempt. -/
structure AttemptError where
  kind : String
  message : String
deriving DecidableEq, Repr

/-- The record of a failure. -/
def Failure.record (f : Failure) : AttemptError := ⟨f.kind, f.message⟩

/-- The outcome of one chunk. -/
structure Attempt where
  id : String
  requestId : String
  mode : Mode
  amount : Msat
  exit : Option String
  entry : Option String
  route : List HalfId
  fee : Msat
  tries : Nat
  success : Bool
  error : Option AttemptError
  createdAt : Time
deriving DecidableEq, Repr

namespace Attempt

/-- The identifier of the attempt at chunk `index`. -/
def idOf (r : Request) (index : Nat) : String := s!"{r.id}-{index}"

/-- A chunk that was moved over `route`. -/
def succeeded (r : Request) (index : Nat) (route : Route) (fee : Msat) (tries : Nat)
    (now : Time) : Attempt where
  id := idOf r index
  requestId := r.id
  mode := r.target.mode
  amount := route.amount
  exit := route.exit?
  entry := route.entry?
  route := route.halfIds
  fee := fee
  tries := tries
  success := true
  error := none
  createdAt := now

/-- A chunk that was not moved. Without a route, the ends are those that the request pins. -/
def failed (r : Request) (index : Nat) (amount : Msat) (route : Option Route) (tries : Nat)
    (failure : Failure) (now : Time) : Attempt where
  id := idOf r index
  requestId := r.id
  mode := r.target.mode
  amount := amount
  exit := match route with
    | some route => route.exit?
    | none => r.target.exit?
  entry := match route with
    | some route => route.entry?
    | none => r.target.entry?
  route := (route.map Route.halfIds).getD []
  fee := 0
  tries := tries
  success := false
  error := some failure.record
  createdAt := now

end Attempt

/-- How much of a request was done. -/
inductive SummaryStatus
  | success
  | partly
  | failure
deriving DecidableEq, Repr

/-- The name of a status. -/
def SummaryStatus.name : SummaryStatus → String
  | success => "success"
  | partly => "partial"
  | failure => "failure"

/-- The outcome of a request. -/
structure Summary where
  requestId : String
  mode : Mode
  status : SummaryStatus
  target : Msat
  moved : Msat
  chunksAttempted : Nat
  chunksSucceeded : Nat
  fee : Msat
  rate : Ppm
  elapsedMs : UInt64
  attempts : List Attempt
deriving DecidableEq, Repr

namespace Summary

/-- The sum of amounts, if it fits a word. -/
def total? (amounts : List Msat) : Option Msat :=
  let sum := amounts.foldr (fun a n => a.toNat + n) 0
  if sum ≤ maxWord then some (UInt64.ofNat sum) else none

/-- Success if every chunk was moved and there is one, failure if none was. -/
def statusOf (attempts : List Attempt) : SummaryStatus :=
  if attempts.all (·.success) && !attempts.isEmpty then .success
  else if !attempts.any (·.success) then .failure
  else .partly

/-- The summary of a request's attempts; `none` if a total does not fit a word. -/
def ofAttempts? (r : Request) (attempts : List Attempt) (elapsedMs : UInt64) : Option Summary := do
  let done := attempts.filter (·.success)
  let moved ← total? (done.map (·.amount))
  let fee ← total? (done.map (·.fee))
  return {
    requestId := r.id
    mode := r.target.mode
    status := statusOf attempts
    target := r.amount
    moved := moved
    chunksAttempted := attempts.length
    chunksSucceeded := done.length
    fee := fee
    rate := rateOf fee moved
    elapsedMs := elapsedMs
    attempts := attempts }

end Summary

end Rebalancer
