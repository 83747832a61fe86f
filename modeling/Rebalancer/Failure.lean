import Rebalancer.Word

set_option autoImplicit false

/-! # Failures

Why a rebalance, or one chunk of it, comes to nothing. The causes are data; `Failure.kind` and
`Failure.message` are the only places that put them into words.
-/

namespace Rebalancer

/-- Why there is no route. -/
inductive RouteGap
  /-- The exit cannot send the amount. -/
  | cannotSend (exit : String) (amount spendable htlcMax : Msat)
  /-- The entry cannot take the amount. -/
  | cannotReceive (entry : String) (amount receivable htlcMax : Msat)
  /-- No path joins the ends. -/
  | noPath (maxHops : Nat) (exit entry : String)
  /-- The exit cannot send the amount and the fees on it. -/
  | cannotCover (exit : String) (amount : Msat)
  /-- No channel serves as exit. -/
  | noExit (amount : Msat) (entry : String)
  /-- No channel serves as entry. -/
  | noEntry (amount : Msat) (exit : String)
  /-- The candidates are none. -/
  | noCandidate (amount : Msat)
  /-- A reason given in words. -/
  | stated (reason : String)
deriving DecidableEq, Repr

/-- Why a request is refused. -/
inductive Refusal
  | zeroAmount
  | zeroSplit
  | amountBelowSplit
  | noAttempts
  | fewHops (maxHops : Nat)
  /-- The parameter `name` is missing or blank. -/
  | missing (name : String)
  /-- The parameter `name` is no percentage. -/
  | notPercent (name : String) (value : UInt64)
  | sameChannel
  | notOwn (scid : String)
  | noOutgoingHalf (scid : String)
  | noIncomingHalf (scid : String)
  | ambiguousAlias (nickname : String)
  | unknownNode (name : String)
  | noUsableChannel (name : String)
  /-- A reason given in words. -/
  | stated (reason : String)
deriving DecidableEq, Repr

/-- What can go wrong with a rebalance. -/
inductive Failure
  | noRoute (gap : RouteGap)
  | feeExceeded (rate ceiling : Ppm)
  | inactive (scid : String)
  | payment (reason : String)
  | refresh (reason : String)
  | invalid (refusal : Refusal)
deriving DecidableEq, Repr

/-! ## Wording -/

/-- A gap in words. -/
def RouteGap.message : RouteGap → String
  | cannotSend exit amount spendable htlcMax =>
    s!"outgoing channel {exit} cannot send {amount} msat " ++
      s!"(spendable {spendable}, max_htlc {htlcMax})"
  | cannotReceive entry amount receivable htlcMax =>
    s!"incoming channel {entry} cannot receive {amount} msat " ++
      s!"(receivable {receivable}, max_htlc {htlcMax})"
  | noPath maxHops exit entry =>
    s!"no path of at most {maxHops} hops from {exit} back through {entry}"
  | cannotCover exit amount => s!"outgoing channel {exit} cannot cover {amount} msat including fees"
  | noExit amount entry => s!"no exit channel can route {amount} msat into {entry}"
  | noEntry amount exit => s!"no entry channel can take {amount} msat from {exit}"
  | noCandidate amount => s!"no candidate for {amount} msat"
  | stated reason => reason

/-- A refusal in words. -/
def Refusal.message : Refusal → String
  | zeroAmount => "amount must be positive"
  | zeroSplit => "splitamount must be positive"
  | amountBelowSplit => "amount is less than split amount"
  | noAttempts => "attempts must be at least 1"
  | fewHops maxHops => s!"maxhops must be at least 2, got {maxHops}"
  | missing name => s!"{name} is required"
  | notPercent name value => s!"{name} must be between 0 and 100, got {value}"
  | sameChannel => "outscid and inscid must differ"
  | notOwn scid => s!"{scid} is not one of our channels"
  | noOutgoingHalf scid => s!"no outgoing half known for {scid}"
  | noIncomingHalf scid => s!"no incoming half known for {scid}"
  | ambiguousAlias nickname => s!"alias {nickname} is ambiguous"
  | unknownNode name => s!"unknown node {name}"
  | noUsableChannel name => s!"no usable channel with {name}"
  | stated reason => reason

namespace Failure

/-- The name under which a failure is recorded. -/
def kind : Failure → String
  | noRoute _ => "no_route_found"
  | feeExceeded _ _ => "fee_exceeded"
  | inactive _ => "channel_inactive"
  | payment _ => "payment_failed"
  | refresh _ => "refresh_failed"
  | invalid _ => "invalid_request"

/-- A failure in words. -/
def message : Failure → String
  | noRoute gap => s!"no route found: {gap.message}"
  | feeExceeded rate ceiling =>
    s!"route too expensive: cheapest route found was {rate} ppm, but maxppm is {ceiling}"
  | inactive scid => s!"channel {scid} is inactive"
  | payment reason => s!"payment failed: {reason}"
  | refresh reason => s!"refresh failed: {reason}"
  | invalid refusal => s!"invalid request: {refusal.message}"

end Failure

end Rebalancer
