import Rebalancer.Word

set_option autoImplicit false

/-! # Channel halves

A channel joins two nodes and is named by its short channel id. Each way through it is a *half*
with a policy and a liquidity estimate of its own. A half is identified by the short channel id
and a direction, which is 0 from the lesser node id to the greater and 1 the other way.
-/

namespace Rebalancer

/-- The direction of a half from `source` to `destination`. -/
def directionOf (source destination : String) : UInt8 :=
  if source < destination then 0 else 1

/-- The fee for forwarding `amount`, rounded down and clamped to the largest word. -/
def forwardingFee (base : Msat) (rate : Ppm) (amount : Msat) : Msat :=
  clampWord (base.toNat + amount.toNat * rate.toNat / 1000000)

/-! ## Names of halves -/

/-- The name of a half. -/
structure HalfId where
  scid : String
  direction : UInt8
deriving DecidableEq, Repr

namespace HalfId

instance : Ord HalfId := ⟨compareLex (compareOn HalfId.scid) (compareOn HalfId.direction)⟩

instance : Std.TransOrd HalfId :=
  inferInstanceAs (Std.TransCmp (compareLex (compareOn HalfId.scid) (compareOn HalfId.direction)))

instance : Std.LawfulEqOrd HalfId where
  eq_of_compare := by
    rintro ⟨s, d⟩ ⟨t, e⟩ h
    obtain ⟨hs, hd⟩ := compareLex_eq_eq.mp h
    obtain rfl : s = t := Std.LawfulEqCmp.eq_of_compare hs
    obtain rfl : d = e := Std.LawfulEqCmp.eq_of_compare hd
    rfl

/-- The half the other way through the same channel. -/
def opposite (id : HalfId) : HalfId := { id with direction := id.direction ^^^ 1 }

/-- The written form `scid/direction`. -/
def text (id : HalfId) : String := id.scid ++ "/" ++ toString id.direction.toNat

@[simp] theorem scid_opposite (id : HalfId) : id.opposite.scid = id.scid := rfl

theorem opposite_opposite (id : HalfId) : id.opposite.opposite = id := by
  simp only [opposite, UInt8.xor_assoc, UInt8.xor_self, UInt8.xor_zero]

end HalfId

/-! ## What the network and the node report -/

/-- One half as the gossip lists it. -/
structure Announcement where
  source : String
  destination : String
  scid : String
  capacity : Msat
  active : Bool
  baseFee : Msat
  rate : Ppm
  delay : UInt32
  htlcMin : Msat
  htlcMax : Option Msat
deriving DecidableEq, Repr

/-- The name of the announced half. -/
def Announcement.id (a : Announcement) : HalfId := ⟨a.scid, directionOf a.source a.destination⟩

/-- A node as the gossip lists it. -/
structure NodeAnnouncement where
  id : String
  nickname : Option String
deriving DecidableEq, Repr

/-- The policy one side of a channel advertises. -/
structure Policy where
  htlcMin : Msat := 0
  htlcMax : Msat := 0
  delay : UInt32 := 0
  baseFee : Msat := 0
  rate : Ppm := 0
deriving DecidableEq, Repr

/-- The policies of both sides of an own channel, as far as they are known. -/
structure Policies where
  own : Option Policy := none
  remote : Option Policy := none
deriving DecidableEq, Repr

/-- One of the local node's own channels. A channel that is not yet confirmed has no short
channel id. -/
structure OwnChannel where
  peer : String
  connected : Bool
  state : String
  scid : Option String
  total : Msat
  toUs : Msat
  spendable : Msat
  receivable : Msat
  policies : Option Policies
deriving DecidableEq, Repr

/-- The state of a channel that can carry payments. -/
def normalState : String := "CHANNELD_NORMAL"

namespace OwnChannel

/-- Whether the channel is in the state that carries payments. -/
def isNormal (c : OwnChannel) : Bool := c.state == normalState

/-- Whether a payment can pass the channel now. -/
def usable (c : OwnChannel) : Bool := c.connected && c.isNormal

/-- The policy of our side. -/
def ownPolicy (c : OwnChannel) : Option Policy := c.policies.bind Policies.own

/-- The policy of the peer's side. -/
def remotePolicy (c : OwnChannel) : Option Policy := c.policies.bind Policies.remote

end OwnChannel

/-! ## Halves -/

/-- One way through a channel. -/
structure Half where
  id : HalfId
  source : String
  destination : String
  capacity : Msat
  baseFee : Msat
  rate : Ppm
  delay : UInt32
  htlcMin : Msat
  htlcMax : Msat
  active : Bool
  /-- The amount that `source` can probably send to `destination`. -/
  liquidity : Msat
  /-- When `liquidity` was last set. -/
  liquidityAt : Time
deriving DecidableEq, Repr

namespace Half

/-- A half first seen in the gossip: half of the capacity is assumed to lie at its source. -/
def ofAnnouncement (a : Announcement) (now : Time) : Half where
  id := a.id
  source := a.source
  destination := a.destination
  capacity := a.capacity
  baseFee := a.baseFee
  rate := a.rate
  delay := a.delay
  htlcMin := a.htlcMin
  htlcMax := a.htlcMax.getD a.capacity
  active := a.active
  liquidity := a.capacity / 2
  liquidityAt := now

/-- A half of an own channel that the gossip does not list. An advertised maximum of zero
stands for the capacity. -/
def ofPolicy (scid source destination : String) (capacity : Msat) (policy : Option Policy)
    (now : Time) : Half :=
  let p := policy.getD {}
  { id := ⟨scid, directionOf source destination⟩
    source := source
    destination := destination
    capacity := capacity
    baseFee := p.baseFee
    rate := p.rate
    delay := p.delay
    htlcMin := p.htlcMin
    htlcMax := if p.htlcMax = 0 then capacity else p.htlcMax
    active := false
    liquidity := 0
    liquidityAt := now }

/-- Takes over what the gossip says and clamps the estimate to the listed capacity. -/
def announced (h : Half) (a : Announcement) : Half :=
  { h with
    capacity := a.capacity
    baseFee := a.baseFee
    rate := a.rate
    delay := a.delay
    htlcMin := a.htlcMin
    htlcMax := a.htlcMax.getD a.capacity
    active := a.active
    liquidity := min h.liquidity a.capacity }

/-- Sets the estimate and its time. -/
def withLiquidity (h : Half) (liquidity : Msat) (now : Time) : Half :=
  { h with liquidity := liquidity, liquidityAt := now }

/-- The fee this half charges for forwarding `amount`. -/
def fee (h : Half) (amount : Msat) : Msat := forwardingFee h.baseFee h.rate amount

/-- Whether the half can forward `amount` in one piece. -/
def canCarry (h : Half) (amount : Msat) : Bool :=
  h.active && amount ≤ h.liquidity && h.htlcMin ≤ amount && amount ≤ h.htlcMax

@[simp] theorem id_announced (h : Half) (a : Announcement) : (h.announced a).id = h.id := rfl

@[simp] theorem id_withLiquidity (h : Half) (l : Msat) (now : Time) :
    (h.withLiquidity l now).id = h.id := rfl

end Half

end Rebalancer
