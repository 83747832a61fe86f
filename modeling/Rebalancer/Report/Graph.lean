import Rebalancer.Graph.Stats
import Rebalancer.Report
import Rebalancer.Route.Text
import Rebalancer.Store.Costs

set_option autoImplicit false

/-! # The graph in JSON

The form in which halves, routes and whole graphs are shown to those who look into a run.
-/

namespace Rebalancer

open Json

/-- All that is known of a half. -/
def Half.toJson (h : Half) : Json :=
  obj [("id", str h.id.text), ("source", str h.source), ("destination", str h.destination),
    ("capacity_msat", ofWord h.capacity), ("base_fee_msat", ofWord h.baseFee),
    ("fee_ppm", ofWord h.rate), ("delay", ofNat h.delay.toNat),
    ("htlc_minimum_msat", ofWord h.htlcMin), ("htlc_maximum_msat", ofWord h.htlcMax),
    ("active", bool h.active), ("liquidity_msat", ofWord h.liquidity),
    ("liquidity_updated_at", int h.liquidityAt)]

/-- A hop. -/
def Hop.toJson (h : Hop) : Json :=
  obj [("channel", h.half.toJson), ("source", str h.source), ("destination", str h.destination),
    ("amount_msat", ofWord h.amount), ("delay", ofNat h.delay.toNat)]

/-- A route with its fee and its text. -/
def Route.toJson (r : Route) : Json :=
  obj [("hops", ofList Hop.toJson r.hops), ("amount_msat", ofWord r.amount),
    ("fee_msat", ofWord r.fee), ("fee_ppm", ofWord r.rate), ("describe", str r.describe)]

/-- The record of an own channel, by fields. -/
def OwnChannel.toFields (c : OwnChannel) : List (String × Json) :=
  [("peer_id", str c.peer), ("peer_connected", bool c.connected), ("state", str c.state),
    ("is_normal", bool c.isNormal), ("total_msat", ofWord c.total), ("to_us_msat", ofWord c.toUs),
    ("spendable_msat", ofWord c.spendable), ("receivable_msat", ofWord c.receivable)]

/-- The whole graph. -/
def Graph.toJson (g : Graph) : Json :=
  obj [("stats", g.stats.toJson),
    ("nodes", obj (g.nodes.toList.map fun n => (n.1, arr [str n.2.nickname, bool n.2.connected]))),
    ("halves", ofList Half.toJson g.halves.values),
    ("peers", obj (g.own.toList.map fun c => (c.1, obj c.2.toFields)))]

/-- What changes from payment to payment: the estimates of the halves, and the balances of the own
channels. -/
def Graph.balancesToJson (g : Graph) : Json :=
  obj [("halves", obj (g.halves.toList.map fun h =>
      (h.1.text, arr [bool h.2.active, ofWord h.2.liquidity, int h.2.liquidityAt]))),
    ("peers", obj (g.own.toList.map fun c =>
      (c.1, arr [ofWord c.2.toUs, ofWord c.2.spendable, ofWord c.2.receivable])))]

/-- A sum as it stands in the store. -/
def Cell.toJson (c : Cell) : Json :=
  match c.integer? with
  | some n => int n
  | none => str "overflow"

/-- The rows of the costs. -/
def Costs.toJson (c : Costs) : Json :=
  ofList (fun e : CostKey × CostRow => arr [str e.1.channel, str e.2.peer, int e.1.day,
    e.2.fee.toJson, e.2.amount.toJson, str e.1.side.name]) c.toList

end Rebalancer
