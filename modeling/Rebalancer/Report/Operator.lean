import Rebalancer.CommandLine
import Rebalancer.Report
import Rebalancer.Settings

set_option autoImplicit false

/-! # Commands and settings in JSON

The form in which it is shown what was understood of a command line and of the settings.
-/

namespace Rebalancer

open Json

/-- The parameters of every rebalance command. -/
def ChunkParams.toJson (c : ChunkParams) : Json :=
  obj [("amount", ofOption ofWord c.amount), ("splitamount", ofOption ofWord c.splitAmount),
    ("maxppm", ofOption ofWord c.maxRate), ("attempts", ofOption ofNat c.attempts),
    ("maxhops", ofOption ofNat c.maxHops)]

/-- A command, by its name alone or with its parameters. -/
def Command.toJson : Command → Json
  | daemon => str "daemon"
  | stats => str "circular-stats"
  | deleteStats => str "circular-delete-stats"
  | circular p =>
    obj [("circular", obj [("outscid", str p.exit), ("inscid", str p.entry),
      ("chunk", p.chunk.toJson)])]
  | pull p =>
    obj [("circular-pull", obj [("inscid", str p.entry),
      ("maxoutppm", ofOption ofWord p.maxOutRate), ("outlist", ofOption (ofList str) p.outList),
      ("depleteuptopercent", ofOption ofWord p.depletePercent),
      ("depleteuptoamount", ofOption ofWord p.depleteAmount), ("chunk", p.chunk.toJson)])]
  | push p =>
    obj [("circular-push", obj [("outscid", str p.exit),
      ("minoutppm", ofOption ofWord p.minOutRate), ("inlist", ofOption (ofList str) p.inList),
      ("filluptopercent", ofOption ofWord p.fillPercent),
      ("filluptoamount", ofOption ofWord p.fillAmount), ("chunk", p.chunk.toJson)])]
  | betweenNodes p =>
    obj [("circular-node", obj [("outnode", str p.outNode), ("innode", str p.inNode),
      ("chunk", p.chunk.toJson)])]

/-- A command line. -/
def CommandLine.toJson (line : CommandLine) : Json :=
  obj [("config", str line.config), ("graph_refresh", ofOption ofWord line.graphRefresh),
    ("peer_refresh", ofOption ofWord line.peerRefresh),
    ("command", ofOption Command.toJson line.command)]

/-- Periods and bounds. -/
def EngineSettings.toJson (e : EngineSettings) : Json :=
  obj [("graph_refresh_secs", ofWord e.graphRefresh), ("peer_refresh_secs", ofWord e.peerRefresh),
    ("liquidity_reset_secs", ofWord e.liquidityReset),
    ("stats_log_interval_secs", ofWord e.statsLogInterval),
    ("payment_timeout_secs", ofWord e.paymentTimeout),
    ("max_stored_attempts", ofWord e.maxStoredAttempts),
    ("stats_retention_days", ofWord e.statsRetentionDays)]

/-- The stand-ins for parameters. -/
def Defaults.toJson (d : Defaults) : Json :=
  obj [("amount", ofWord d.amount), ("splitamount", ofWord d.splitAmount),
    ("maxppm", ofWord d.maxRate), ("attempts", ofNat d.attempts), ("maxhops", ofNat d.maxHops),
    ("maxoutppm", ofWord d.maxOutRate), ("minoutppm", ofWord d.minOutRate),
    ("depleteuptopercent", ofWord d.depletePercent), ("depleteuptoamount", ofWord d.depleteAmount),
    ("filluptopercent", ofWord d.fillPercent), ("filluptoamount", ofWord d.fillAmount)]

/-- All settings. -/
def Settings.toJson (s : Settings) : Json :=
  obj [("server", ofList str [s.server.baseUrl, s.server.rune, s.server.certPath]),
    ("general", ofList str [s.general.databasePath, s.general.logLevel]),
    ("engine", s.engine.toJson), ("defaults", s.defaults.toJson)]

end Rebalancer
