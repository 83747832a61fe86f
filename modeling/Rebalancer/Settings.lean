import Rebalancer.Word

set_option autoImplicit false

/-! # Settings

What the operator sets once: how to reach the node, how often to refresh, and the values that
stand in for parameters that a command leaves out.
-/

namespace Rebalancer

/-- How to reach the node. -/
structure ServerSettings where
  baseUrl : String
  rune : String
  certPath : String
deriving DecidableEq, Repr

/-- Where the history is kept and how much is logged. -/
structure GeneralSettings where
  databasePath : String := "circular.db"
  logLevel : String := "info"
deriving DecidableEq, Repr

/-- Periods in seconds and the bounds of the history. -/
structure EngineSettings where
  graphRefresh : UInt64 := 600
  peerRefresh : UInt64 := 30
  /-- The age at which a learned estimate is forgotten. -/
  liquidityReset : UInt64 := 18000
  statsLogInterval : UInt64 := 600
  paymentTimeout : UInt64 := 120
  maxStoredAttempts : UInt64 := 1000
  statsRetentionDays : UInt64 := 14
deriving DecidableEq, Repr

/-- Stand-ins for parameters that a command leaves out. Amounts are in satoshi. -/
structure Defaults where
  amount : UInt64 := 400000
  splitAmount : UInt64 := 100000
  maxRate : Ppm := 10
  attempts : Nat := 1
  maxHops : Nat := 8
  maxOutRate : Ppm := 50
  minOutRate : Ppm := 50
  depletePercent : UInt64 := 20
  depleteAmount : UInt64 := 1000000
  fillPercent : UInt64 := 80
  fillAmount : UInt64 := 10000000
deriving DecidableEq, Repr

/-- All settings. -/
structure Settings where
  server : ServerSettings
  general : GeneralSettings := {}
  engine : EngineSettings := {}
  defaults : Defaults := {}
deriving DecidableEq, Repr

/-- The least number of hops a ring can have: its two ends. -/
def minHops : Nat := 2

/-- What is wrong with a value of the settings. -/
inductive SettingsFlaw
  | zeroGraphRefresh
  | zeroPeerRefresh
  | zeroStatsLogInterval
  | zeroPaymentTimeout
  | zeroStoredAttempts
  | zeroSplitAmount
  | fewHops (maxHops : Nat)
  | depletePercent
  | fillPercent
  | noCert (path : String)
deriving DecidableEq, Repr

/-- A flaw in words. -/
def SettingsFlaw.message : SettingsFlaw → String
  | zeroGraphRefresh => "circular-graph-refresh must be at least 1 second"
  | zeroPeerRefresh => "circular-peer-refresh must be at least 1 second"
  | zeroStatsLogInterval => "stats_log_interval_secs must be at least 1 second"
  | zeroPaymentTimeout => "payment_timeout_secs must be at least 1 second"
  | zeroStoredAttempts => "max_stored_attempts must be at least 1"
  | zeroSplitAmount => "splitamount must be at least 1 sat"
  | fewHops maxHops => s!"maxhops ({maxHops}) below minimum ({minHops})"
  | depletePercent => "depleteuptopercent must be between 0 and 100"
  | fillPercent => "filluptopercent must be between 0 and 100"
  | noCert path => s!"TLS cert not found at: {path}"

/-- The first flaw of the settings, where `exists_` tells which files there are. -/
def Settings.flaw? (s : Settings) (exists_ : String → Bool) : Option SettingsFlaw :=
  if s.engine.graphRefresh = 0 then some .zeroGraphRefresh
  else if s.engine.peerRefresh = 0 then some .zeroPeerRefresh
  else if s.engine.statsLogInterval = 0 then some .zeroStatsLogInterval
  else if s.engine.paymentTimeout = 0 then some .zeroPaymentTimeout
  else if s.engine.maxStoredAttempts = 0 then some .zeroStoredAttempts
  else if s.defaults.splitAmount = 0 then some .zeroSplitAmount
  else if s.defaults.maxHops < minHops then some (.fewHops s.defaults.maxHops)
  else if 100 < s.defaults.depletePercent then some .depletePercent
  else if 100 < s.defaults.fillPercent then some .fillPercent
  else if !exists_ s.server.certPath then some (.noCert s.server.certPath)
  else none

end Rebalancer
