import Rebalancer.Node.Script
import Rebalancer.Report.Graph
import Rebalancer.Request

set_option autoImplicit false

/-! # Gossip, payments and requests in JSON -/

namespace Rebalancer

open Json

/-- A policy. -/
def Policy.toJson (p : Policy) : Json :=
  arr [ofWord p.htlcMin, ofWord p.htlcMax, ofNat p.delay.toNat, ofWord p.baseFee, ofWord p.rate]

/-- The policies of both sides. -/
def Policies.toJson (p : Policies) : Json :=
  arr [ofOption Policy.toJson p.own, ofOption Policy.toJson p.remote]

/-- The announcement of a half. -/
def Announcement.toJson (a : Announcement) : Json :=
  arr [str a.source, str a.destination, str a.scid, ofWord a.capacity, bool a.active,
    ofWord a.baseFee, ofWord a.rate, ofNat a.delay.toNat, ofWord a.htlcMin,
    ofOption ofWord a.htlcMax]

/-- The announcement of a node. -/
def NodeAnnouncement.toJson (a : NodeAnnouncement) : Json := arr [str a.id, ofOption str a.nickname]

/-- The record of an own channel with the policies of its sides. -/
def OwnChannel.toJson (c : OwnChannel) : Json :=
  obj (c.toFields ++
    [("scid", ofOption str c.scid), ("updates", ofOption Policies.toJson c.policies)])

/-- The failure of a payment. -/
def PaymentFailure.toJson (f : PaymentFailure) : Json :=
  obj [("code", int f.code), ("message", str f.message), ("failcodename", ofOption str f.codeName),
    ("erring_node", ofOption str f.erringNode), ("erring_channel", ofOption str f.erringChannel),
    ("erring_direction", ofOption (fun d : UInt8 => ofNat d.toNat) f.erringDirection),
    ("is_temporary", bool f.isTemporary), ("reason", str f.reason)]

/-- The end of a payment. -/
def PaymentOutcome.toJson : PaymentOutcome → Json
  | timedOut => str "timeout"
  | complete amount sent => obj [("complete", arr [ofWord amount, ofWord sent])]
  | failed failure => obj [("failed", failure.toJson)]

/-- A hop as the node takes it. -/
def PaymentHop.toJson (h : PaymentHop) : Json :=
  obj [("id", str h.id), ("channel", str h.channel), ("direction", ofNat h.direction.toNat),
    ("amount_msat", ofWord h.amount), ("delay", ofNat h.delay.toNat)]

/-- The arguments of a call. -/
def Query.arguments : Query → List Json
  | createInvoice amount label description => [ofWord amount, str label, str description]
  | sendPay route hash secret => [ofList PaymentHop.toJson route, str hash, str secret]
  | waitPay hash seconds => [str hash, ofWord seconds]
  | deleteInvoice label => [str label]
  | info | gossip | nodes | channels | clock | random | stopwatch => []

/-- A call. -/
def Query.toJson (q : Query) : Json := arr (str q.name :: q.arguments)

/-- What a request moves liquidity between. -/
def Target.toJson (t : Target) : Json :=
  obj (("mode", str t.mode.name) :: match t with
    | .circular exit entry => [("out_scid", str exit), ("in_scid", str entry)]
    | .pull entry rate list percent amount =>
      [("in_scid", str entry), ("max_out_ppm", ofWord rate),
        ("out_list", ofOption (ofList str) list), ("deplete_percent", ofWord percent),
        ("deplete_amount_msat", ofWord amount)]
    | .push exit rate list percent amount =>
      [("out_scid", str exit), ("min_out_ppm", ofWord rate),
        ("in_list", ofOption (ofList str) list), ("fill_percent", ofWord percent),
        ("fill_amount_msat", ofWord amount)])

/-- A request. -/
def Request.toJson (r : Request) : Json :=
  obj [("id", str r.id), ("target", r.target.toJson), ("amount_msat", ofWord r.amount),
    ("split_msat", ofWord r.split), ("max_ppm", ofWord r.maxRate),
    ("attempts", ofNat r.attempts), ("max_hops", ofNat r.maxHops)]

end Rebalancer
