import Rebalancer.History
import Rebalancer.Json.Value

set_option autoImplicit false

/-! # Reports in JSON

The form in which the operator gets summaries, statistics and deletions.
-/

namespace Rebalancer

namespace Json

/-- A number that counts. -/
def ofNat (n : Nat) : Json := int n

/-- An amount. -/
def ofWord (w : UInt64) : Json := int w.toNat

/-- A value that may be missing. -/
def ofOption {α : Type} (encode : α → Json) : Option α → Json
  | none => null
  | some a => encode a

/-- A list of values. -/
def ofList {α : Type} (encode : α → Json) (items : List α) : Json := arr (items.map encode)

end Json

open Json

/-- A half by its name. -/
def HalfId.toJson (id : HalfId) : Json :=
  obj [("scid", str id.scid), ("direction", ofNat id.direction.toNat)]

/-- The failure of an attempt. -/
def AttemptError.toJson (e : AttemptError) : Json :=
  obj [("kind", str e.kind), ("message", str e.message)]

/-- An attempt; the failure is left out if there is none. -/
def Attempt.toJson (a : Attempt) : Json :=
  obj ([("id", str a.id), ("request_id", str a.requestId), ("mode", str a.mode.name),
    ("amount_msat", ofWord a.amount), ("out_scid", ofOption str a.exit),
    ("in_scid", ofOption str a.entry), ("route", ofList HalfId.toJson a.route),
    ("fee_msat", ofWord a.fee), ("tries", ofNat a.tries), ("success", bool a.success)] ++
    (match a.error with
      | none => []
      | some e => [("error", e.toJson)]) ++
    [("created_at", int a.createdAt)])

/-- A summary. -/
def Summary.toJson (s : Summary) : Json :=
  obj [("request_id", str s.requestId), ("mode", str s.mode.name), ("status", str s.status.name),
    ("target_msat", ofWord s.target), ("moved_msat", ofWord s.moved),
    ("chunks_attempted", ofNat s.chunksAttempted), ("chunks_succeeded", ofNat s.chunksSucceeded),
    ("fee_msat", ofWord s.fee), ("fee_ppm", ofWord s.rate), ("elapsed_ms", ofWord s.elapsedMs),
    ("attempts", ofList Attempt.toJson s.attempts)]

/-- The counts of a graph. -/
def GraphStats.toJson (s : GraphStats) : Json :=
  obj [("nodes", ofNat s.nodes), ("channels", ofNat s.channels),
    ("active_channels", ofNat s.activeChannels), ("liquid_channels", ofNat s.liquidChannels),
    ("max_htlc_channels", ofNat s.maxHtlcChannels)]

/-- The totals of a channel. -/
def ChannelCosts.toJson (c : ChannelCosts) : Json :=
  obj [("fee_spent_msat", int c.fee), ("amount_in_msat", int c.amountIn),
    ("amount_out_msat", int c.amountOut)]

/-- What the operator is shown. -/
def StatsReport.toJson (r : StatsReport) : Json :=
  obj [("graph_stats", r.graph.toJson), ("successes", ofList Attempt.toJson r.successes),
    ("failures", ofList Attempt.toJson r.failures),
    ("channel_costs", obj (r.costs.map fun c => (c.1, c.2.toJson)))]

/-- How much a deletion removed. -/
def Deleted.toJson (d : Deleted) : Json :=
  obj [("successes", ofNat d.successes), ("failures", ofNat d.failures), ("costs", ofNat d.costs)]

end Rebalancer
