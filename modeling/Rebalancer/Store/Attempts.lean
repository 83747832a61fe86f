import Rebalancer.Attempt
import Rebalancer.Route.Text

set_option autoImplicit false

/-! # The attempt table

Attempts as they are kept on disk: amounts as signed words, the route in its written form. Rows
stand in the order in which they were written.
-/

namespace Rebalancer

/-- An attempt as it is kept on disk. -/
structure AttemptRow where
  id : String
  requestId : String
  mode : String
  amount : Int
  exit : Option String
  entry : Option String
  route : String
  fee : Int
  tries : Nat
  success : Bool
  errorKind : Option String
  errorMessage : Option String
  createdAt : Time
deriving DecidableEq, Repr

/-- The row of an attempt. -/
def AttemptRow.ofAttempt (a : Attempt) : AttemptRow where
  id := a.id
  requestId := a.requestId
  mode := a.mode.name
  amount := signedOfWord a.amount
  exit := a.exit
  entry := a.entry
  route := describeHalves a.route
  fee := signedOfWord a.fee
  tries := a.tries
  success := a.success
  errorKind := a.error.map (·.kind)
  errorMessage := a.error.map (·.message)
  createdAt := a.createdAt

/-- The attempt of a row. -/
def AttemptRow.attempt (r : AttemptRow) : Attempt where
  id := r.id
  requestId := r.requestId
  mode := (Mode.ofName? r.mode).getD .circular
  amount := wordOfSigned r.amount
  exit := r.exit
  entry := r.entry
  route := parseHalves r.route
  fee := wordOfSigned r.fee
  tries := r.tries
  success := r.success
  error := r.errorKind.map fun kind => ⟨kind, r.errorMessage.getD ""⟩
  createdAt := r.createdAt

/-- The attempt table. -/
abbrev AttemptRows := List AttemptRow

namespace AttemptRows

/-- Writes a row, in the place of an earlier one of the same id. -/
def put (rows : AttemptRows) (row : AttemptRow) : AttemptRows :=
  rows.filter (·.id != row.id) ++ [row]

/-- The rows by time; rows of one time stay in the order in which they were written. -/
def byTime (rows : AttemptRows) : AttemptRows :=
  rows.mergeSort fun a b => a.createdAt ≤ b.createdAt

/-- The newest `capacity` rows by time. -/
def newest (rows : AttemptRows) (capacity : Nat) : AttemptRows :=
  rows.byTime.drop (rows.length - capacity)

/-- Drops the rows older than `cutoff`, and then all but the newest `capacity`. -/
def prune (rows : AttemptRows) (capacity : Nat) (cutoff : Time) : AttemptRows :=
  let recent : AttemptRows := rows.filter (cutoff ≤ ·.createdAt)
  let kept := (recent.newest capacity).map (·.id)
  recent.filter (kept.contains ·.id)

end AttemptRows

end Rebalancer
