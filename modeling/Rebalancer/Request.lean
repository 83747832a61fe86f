import Rebalancer.Failure
import Rebalancer.Settings
import Rebalancer.Text.Blank
import Rebalancer.Text.Numeral

set_option autoImplicit false

/-! # Requests

A request moves an amount into, out of or between own channels, in chunks of equal size. It is
made from the parameters of a command and the defaults, and refused if they make no sense.
-/

namespace Rebalancer

/-- Which ends of the ring a request pins. -/
inductive Mode
  | circular
  | pull
  | push
deriving DecidableEq, Repr

namespace Mode

/-- The name of a mode. -/
def name : Mode → String
  | circular => "circular"
  | pull => "pull"
  | push => "push"

/-- The mode of a name. -/
def ofName? (s : String) : Option Mode :=
  if s = "circular" then some circular
  else if s = "pull" then some pull
  else if s = "push" then some push
  else none

theorem ofName?_name (m : Mode) : ofName? m.name = some m := by cases m <;> decide

end Mode

/-- The pinned ends, and how an open end is chosen: from the list if there is one, else by our
fee rate there, and within the bound on its balance. -/
inductive Target
  | circular (exit entry : String)
  | pull (entry : String) (maxOutRate : Ppm) (outList : Option (List String))
      (depletePercent : UInt64) (depleteAmount : Msat)
  | push (exit : String) (minOutRate : Ppm) (inList : Option (List String))
      (fillPercent : UInt64) (fillAmount : Msat)
deriving DecidableEq, Repr

namespace Target

/-- The mode of a target. -/
def mode : Target → Mode
  | circular .. => .circular
  | pull .. => .pull
  | push .. => .push

/-- The pinned exit. -/
def exit? : Target → Option String
  | circular exit _ => some exit
  | pull .. => none
  | push exit .. => some exit

/-- The pinned entry. -/
def entry? : Target → Option String
  | circular _ entry => some entry
  | pull entry .. => some entry
  | push .. => none

end Target

/-- An accepted command. -/
structure Request where
  id : String
  target : Target
  amount : Msat
  split : Msat
  maxRate : Ppm
  attempts : Nat
  maxHops : Nat
deriving DecidableEq, Repr

namespace Request

/-- The sizes of the chunks: `split` each, and the rest last. -/
def chunks (r : Request) : List Msat :=
  if r.split = 0 then []
  else
    List.replicate (r.amount / r.split).toNat r.split ++
      (if r.amount % r.split = 0 then [] else [r.amount % r.split])

/-- The identifier made from a random word. -/
def idOf (seed : UInt64) : String := String.ofList (Text.hexDigits seed.toNat 16)

/-- What is wrong with the ends of a request. -/
def targetFlaw? : Target → Option Refusal
  | .circular exit entry =>
    if Text.trim exit = "" then some (.missing "outscid")
    else if Text.trim entry = "" then some (.missing "inscid")
    else if exit = entry then some .sameChannel
    else none
  | .pull entry _ _ percent _ =>
    if Text.trim entry = "" then some (.missing "inscid")
    else if 100 < percent then some (.notPercent "depleteuptopercent" percent)
    else none
  | .push exit _ _ percent _ =>
    if Text.trim exit = "" then some (.missing "outscid")
    else if 100 < percent then some (.notPercent "filluptopercent" percent)
    else none

/-- What is wrong with a request. -/
def flaw? (r : Request) : Option Refusal :=
  if r.amount = 0 then some .zeroAmount
  else if r.split = 0 then some .zeroSplit
  else if r.amount < r.split then some .amountBelowSplit
  else if r.attempts = 0 then some .noAttempts
  else if r.maxHops < minHops then some (.fewHops r.maxHops)
  else targetFlaw? r.target

end Request

/-! ## Parameters -/

/-- The parameters of every rebalance command. Amounts are in satoshi. -/
structure ChunkParams where
  amount : Option UInt64 := none
  splitAmount : Option UInt64 := none
  maxRate : Option Ppm := none
  attempts : Option Nat := none
  maxHops : Option Nat := none
deriving DecidableEq, Repr

/-- Both ends given. -/
structure CircularParams where
  exit : String
  entry : String
  chunk : ChunkParams := {}
deriving DecidableEq, Repr

/-- The entry given. -/
structure PullParams where
  entry : String
  maxOutRate : Option Ppm := none
  outList : Option (List String) := none
  depletePercent : Option UInt64 := none
  depleteAmount : Option UInt64 := none
  chunk : ChunkParams := {}
deriving DecidableEq, Repr

/-- The exit given. -/
structure PushParams where
  exit : String
  minOutRate : Option Ppm := none
  inList : Option (List String) := none
  fillPercent : Option UInt64 := none
  fillAmount : Option UInt64 := none
  chunk : ChunkParams := {}
deriving DecidableEq, Repr

/-- Two peers given, by id or alias. -/
structure NodeParams where
  outNode : String
  inNode : String
  chunk : ChunkParams := {}
deriving DecidableEq, Repr

/-- A list without its blank entries; a list of blanks alone is no list. -/
def cleanList (list : Option (List String)) : Option (List String) :=
  (list.map fun l => (l.map Text.trim).filter (· != "")).filter fun l => !l.isEmpty

namespace ChunkParams

/-- The request that the parameters make for a target, if there is nothing wrong with it. -/
def request (p : ChunkParams) (target : Target) (d : Defaults) (seed : UInt64) :
    Except Failure Request :=
  let r : Request :=
    { id := Request.idOf seed
      target := target
      amount := satoshi (p.amount.getD d.amount)
      split := satoshi (p.splitAmount.getD d.splitAmount)
      maxRate := p.maxRate.getD d.maxRate
      attempts := p.attempts.getD d.attempts
      maxHops := p.maxHops.getD d.maxHops }
  match r.flaw? with
  | none => .ok r
  | some refusal => .error (.invalid refusal)

end ChunkParams

/-- The request of a circular command. -/
def CircularParams.request (p : CircularParams) (d : Defaults) (seed : UInt64) :
    Except Failure Request :=
  p.chunk.request (.circular p.exit p.entry) d seed

/-- The request of a pull command. -/
def PullParams.request (p : PullParams) (d : Defaults) (seed : UInt64) : Except Failure Request :=
  p.chunk.request
    (.pull p.entry (p.maxOutRate.getD d.maxOutRate) (cleanList p.outList)
      (p.depletePercent.getD d.depletePercent) (satoshi (p.depleteAmount.getD d.depleteAmount)))
    d seed

/-- The request of a push command. -/
def PushParams.request (p : PushParams) (d : Defaults) (seed : UInt64) : Except Failure Request :=
  p.chunk.request
    (.push p.exit (p.minOutRate.getD d.minOutRate) (cleanList p.inList)
      (p.fillPercent.getD d.fillPercent) (satoshi (p.fillAmount.getD d.fillAmount)))
    d seed

/-- The circular command between two channels found for the peers. -/
def NodeParams.circular (p : NodeParams) (exit entry : String) : CircularParams :=
  ⟨exit, entry, p.chunk⟩

end Rebalancer
