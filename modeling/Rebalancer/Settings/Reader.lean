import Rebalancer.Settings
import Rebalancer.Toml.Document

set_option autoImplicit false

/-! # Reading settings

The settings are a TOML document with the tables `server`, `general`, `engine` and `defaults`, of
which only the first must be there. Unknown fields are passed over.
-/

namespace Rebalancer

open Toml

/-- The fields of a part of the settings with the field names `names`: a table, or an array of the
values in the order of the names. A date or time counts as a table without fields. -/
def Toml.record? (names : List String) : Toml → Option Fields
  | .table _ fields => some fields
  | .array items => some (names.zip items)
  | .tables newest older => some (names.zip ((newest :: older).reverse.map (.table .header)))
  | .moment => some []
  | _ => none

/-- The value of a text. -/
def Toml.text? : Toml → Option String
  | .text s => some s
  | _ => none

/-- The value of an integer from zero to `limit`. -/
def Toml.nat? (limit : Nat) : Toml → Option Nat
  | .integer n => if 0 ≤ n && n.toNat ≤ limit then some n.toNat else none
  | _ => none

/-- The value of an integer that is not negative. -/
def Toml.word? (v : Toml) : Option UInt64 := (v.nat? maxWord).map UInt64.ofNat

/-- The value of a field that may be missing. -/
def Toml.Fields.getD? {α : Type} (f : Fields) (name : String) (default : α)
    (decode : Toml → Option α) : Option α :=
  match f.get? name with
  | none => some default
  | some v => decode v

/-- Reads how to reach the node. -/
def ServerSettings.ofToml? (v : Toml) : Option ServerSettings := do
  let f ← v.record? ["base_url", "rune", "tls_cert_path"]
  return {
    baseUrl := ← (f.get? "base_url").bind text?
    rune := ← (f.get? "rune").bind text?
    certPath := ← (f.get? "tls_cert_path").bind text? }

/-- Reads the general settings. -/
def GeneralSettings.ofToml? (v : Toml) : Option GeneralSettings := do
  let f ← v.record? ["database_path", "log_level"]
  let d : GeneralSettings := {}
  return {
    databasePath := ← f.getD? "database_path" d.databasePath text?
    logLevel := ← f.getD? "log_level" d.logLevel text? }

/-- Reads periods and bounds. -/
def EngineSettings.ofToml? (v : Toml) : Option EngineSettings := do
  let f ← v.record? ["circular-graph-refresh", "circular-peer-refresh", "liquidity_reset_secs",
    "stats_log_interval_secs", "payment_timeout_secs", "max_stored_attempts",
    "stats_retention_days"]
  let d : EngineSettings := {}
  return {
    graphRefresh := ← f.getD? "circular-graph-refresh" d.graphRefresh word?
    peerRefresh := ← f.getD? "circular-peer-refresh" d.peerRefresh word?
    liquidityReset := ← f.getD? "liquidity_reset_secs" d.liquidityReset word?
    statsLogInterval := ← f.getD? "stats_log_interval_secs" d.statsLogInterval word?
    paymentTimeout := ← f.getD? "payment_timeout_secs" d.paymentTimeout word?
    maxStoredAttempts := ← f.getD? "max_stored_attempts" d.maxStoredAttempts word?
    statsRetentionDays := ← f.getD? "stats_retention_days" d.statsRetentionDays word? }

/-- Reads the stand-ins for parameters. -/
def Defaults.ofToml? (v : Toml) : Option Defaults := do
  let f ← v.record? ["amount", "splitamount", "maxppm", "attempts", "maxhops", "maxoutppm",
    "minoutppm", "depleteuptopercent", "depleteuptoamount", "filluptopercent", "filluptoamount"]
  let d : Defaults := {}
  return {
    amount := ← f.getD? "amount" d.amount word?
    splitAmount := ← f.getD? "splitamount" d.splitAmount word?
    maxRate := ← f.getD? "maxppm" d.maxRate word?
    attempts := ← f.getD? "attempts" d.attempts (nat? maxHalfWord)
    maxHops := ← f.getD? "maxhops" d.maxHops (nat? maxWord)
    maxOutRate := ← f.getD? "maxoutppm" d.maxOutRate word?
    minOutRate := ← f.getD? "minoutppm" d.minOutRate word?
    depletePercent := ← f.getD? "depleteuptopercent" d.depletePercent word?
    depleteAmount := ← f.getD? "depleteuptoamount" d.depleteAmount word?
    fillPercent := ← f.getD? "filluptopercent" d.fillPercent word?
    fillAmount := ← f.getD? "filluptoamount" d.fillAmount word? }

/-- Reads all settings. -/
def Settings.ofText? (text : String) : Option Settings := do
  let f ← Toml.parse? text
  return {
    server := ← (f.get? "server").bind ServerSettings.ofToml?
    general := ← f.getD? "general" {} GeneralSettings.ofToml?
    engine := ← f.getD? "engine" {} EngineSettings.ofToml?
    defaults := ← f.getD? "defaults" {} Defaults.ofToml? }

/-- Why there are no settings. -/
inductive SettingsError
  | unreadable (path : String)
  | unparsable (path : String)
  | invalid (flaw : SettingsFlaw)
deriving DecidableEq, Repr

/-- The error in words. -/
def SettingsError.message : SettingsError → String
  | unreadable path => s!"Failed to read config at {path}"
  | unparsable path => s!"Failed to parse config at {path}"
  | invalid flaw => flaw.message

/-- The settings, unless they have a flaw. -/
def Settings.checked (s : Settings) (exists_ : String → Bool) : Except SettingsError Settings :=
  match s.flaw? exists_ with
  | none => .ok s
  | some flaw => .error (.invalid flaw)

/-- The settings of a file, of which `content` is the text if it can be read. -/
def Settings.load (path : String) (content : Option String) (exists_ : String → Bool) :
    Except SettingsError Settings :=
  match content with
  | none => .error (.unreadable path)
  | some written =>
    match Settings.ofText? written with
    | none => .error (.unparsable path)
    | some s => s.checked exists_

end Rebalancer
