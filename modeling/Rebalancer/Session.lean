import Rebalancer.Machine
import Rebalancer.Operator
import Rebalancer.Rest
import Rebalancer.Settings.Reader

set_option autoImplicit false

/-! # One run of the program

First the settings are read, the options of the command line replace some of them, and the store is
opened. Then the command is carried out against the node of the settings.
-/

namespace Rebalancer

/-- Why a run does not come to its command. -/
inductive StartError
  | settings (e : SettingsError)
  | unreadableCert (path : String)
  | store (name : String) (e : StoreError)
deriving DecidableEq, Repr

/-- The error in words. -/
def StartError.message : StartError → String
  | settings e => e.message
  | unreadableCert path => s!"Failed to read TLS cert at {path}"
  | store name .absent => s!"Failed to open database at {name}"
  | store _ .foreign =>
    "file is not a database: Error code 26: File opened that is not a database file"
  | store _ .readOnly =>
    "attempt to write a readonly database: Error code 8: Attempt to write a readonly database"
  | store _ .noJournal =>
    "unable to open database file: Error code 14: Unable to open the database file"
  | store _ .unfit => "Failed to apply database schema"

/-- The settings with the values that the command line gives. -/
def CommandLine.override (line : CommandLine) (s : Settings) : Settings :=
  { s with engine := { s.engine with
      graphRefresh := line.graphRefresh.getD s.engine.graphRefresh
      peerRefresh := line.peerRefresh.getD s.engine.peerRefresh } }

/-- A run that can begin. -/
structure Session where
  settings : Settings
  store : Store
  command : Command

/-- How a run ended. -/
inductive Outcome
  /-- There is a document to be shown. -/
  | shown (document : Json)
  | failed (e : CommandError)
  /-- The node did not tell who it is. -/
  | noNode (e : CallError)
  /-- The graph is fresh, and is to be kept so until the program is stopped. -/
  | watching (engine : Engine)

namespace Session

/-- Reads settings and store. Settings that have a flaw are refused also if the command line would
mend it. -/
def prepare (m : Machine) (line : CommandLine) : Except StartError Session := do
  let path := line.config
  let s ← (Settings.load path (m.text? path) m.exists_).mapError .settings
  let s ← ((line.override s).checked m.exists_).mapError .settings
  if !m.readable s.server.certPath then throw (.unreadableCert s.server.certPath)
  let name := s.general.databasePath
  return ⟨s, ← (m.openStore name).mapError (.store name), line.command.getD .daemon⟩

/-- The first refresh of a daemon. -/
def watch (e : Engine) : NodeDialogue (Outcome × Store) := do
  match ← e.refresh with
  | (.error failure, e) => return (.failed (.failure failure), e.books.store)
  | (.ok _, e) => return (.watching e, e.books.store)

/-- Carries out the command, and gives the store after it. -/
def converse (s : Session) : NodeDialogue (Outcome × Store) := do
  match ← Engine.start s.settings.engine s.settings.defaults s.store with
  | .error e => return (.noNode e, s.store)
  | .ok e =>
    if s.command = .daemon then watch e
    else
      match ← e.runCommand s.command with
      | (.error failure, e) => return (.failed failure, e.books.store)
      | (.ok document, e) => return (.shown document, e.books.store)

/-- Carries out the command over HTTP. -/
def run (s : Session) : Http.Exchange (Outcome × Store) :=
  (Rest.ofSettings s.settings.server).run s.converse

end Session

end Rebalancer
