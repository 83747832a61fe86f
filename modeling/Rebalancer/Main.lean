import Rebalancer.Http.Relay
import Rebalancer.Json.Parser
import Rebalancer.Json.Printer
import Rebalancer.Schedule
import Rebalancer.Session
import Rebalancer.Store.Document
import Std.Time.DateTime.Timestamp

set_option autoImplicit false

/-! # The program

Reads the command line and the settings, carries the command out, and writes the store back. The
node is reached through a relay at the other end of the standard streams: every document to be
posted is a line of the output, and the next line of the input is the reply to it. The result of a
command follows as the last document.
-/

namespace Rebalancer.Program

/-! ## Files -/

/-- What a file holds. -/
def entryOf (bytes : List UInt8) : Entry :=
  match Text.utf8? bytes with
  | none => .data
  | some content =>
    match (Json.parse? content).bind Store.ofJson? with
    | some s => .store s
    | none => .text content

/-- What there is at a path. What cannot be read counts as a directory. -/
def entry? (path : String) : IO (Option Entry) := do
  try
    return some (entryOf (← IO.FS.readBinFile path).toList)
  catch
    | .noFileOrDirectory .. => return none
    | _ => return some .directory

/-- The paths that a run looks at. -/
def paths (working : Place) (config : String) (s : Option Settings) : List String :=
  let location := s.bind fun s => Location.ofName? s.general.databasePath
  let path := (location.bind (·.path?)).getD ""
  let stations := Path.stations (Path.start working path) (Path.names path)
  [config, (s.map (·.server.certPath)).getD "", (location.bind (·.model?)).getD ""] ++
    (stations ++ stations.map List.dropLast).map Path.ofPlace

/-- The machine, as far as a run looks at it. -/
def machine (config : String) : IO Machine := do
  let working := Path.names (← IO.currentDir).toString
  let settings := ((← entry? config).bind Entry.text?).bind Settings.ofText?
  let entries ← (paths working config settings).mapM fun path => do return (path, ← entry? path)
  return ⟨working, fun path => (entries.lookup path).join⟩

/-- Writes the store of a name back, unless it is in memory. -/
def closeStore (name : String) (s : Store) : IO Unit := do
  let working := Path.names (← IO.currentDir).toString
  if let some place := Location.storePlace? working name then
    IO.FS.writeFile (Path.ofPlace place) s.toJson.compact

/-! ## The world -/

/-- The time in seconds. -/
def clock : IO Time := do
  return (← Std.Time.Timestamp.now).toSecondsSinceUnixEpoch.val

/-- A random word. -/
def random : IO UInt64 := do
  return (← IO.getRandomBytes 8).toList.foldl (fun w b => w * 256 + b.toUInt64) 0

/-- Has a document posted by the relay. -/
def post (p : Http.Post) : IO Http.Reply := do
  let output ← IO.getStdout
  output.putStrLn p.toJson.compact
  output.flush
  let line ← (← IO.getStdin).getLine
  return ((Json.parse? line).bind Http.Reply.ofJson?).getD (.lost "no reply")

/-- Answers a question. -/
def answer : (q : Http.Question) → IO q.Answer
  | .post p => post p
  | .pause ms => IO.sleep (UInt32.ofNat ms)
  | .clock => clock
  | .random => random
  | .stopwatch => return UInt64.ofNat (← IO.monoMsNow)

/-- Holds an exchange, with no result if it breaks off. -/
def converse {α : Type} (d : Http.Exchange α) : IO (Option α) := Dialogue.run answer d

/-! ## Running -/

/-- Runs tasks when they are due, and writes the store back after each. -/
partial def watch (s : Session) (schedule : Schedule) (last : Time) (e : Engine) : IO Unit := do
  IO.sleep 1000
  let now ← clock
  let mut e := e
  for (_, job) in schedule.ticks last now do
    e := (← converse ((Rest.ofSettings s.settings.server).run (e.runJob job))).getD e
    closeStore s.settings.general.databasePath e.books.store
  watch s schedule now e

/-- Carries out a command and tells the status to exit with. -/
def run (s : Session) : IO UInt32 := do
  let some (outcome, store) ← converse s.run
    | IO.eprintln "Error: a time or a total does not fit its word"
      return 101
  closeStore s.settings.general.databasePath store
  match outcome with
  | .shown document =>
    IO.println document.pretty
    return 0
  | .failed e =>
    IO.eprintln s!"Error: {e.message}"
    return 1
  | .noNode e =>
    IO.eprintln s!"Error: {e.message}"
    return 1
  | .watching e =>
    let now ← clock
    watch s (.start s.settings.engine now) now e
    return 0

end Rebalancer.Program

open Rebalancer in
/-- Understands the command line and runs the command. -/
def main (args : List String) : IO UInt32 := do
  match CommandLine.parse args with
  | .error .help =>
    IO.println CommandLine.helpText
    return 0
  | .error .usage =>
    IO.eprintln CommandLine.helpText
    return 2
  | .ok line =>
    match Session.prepare (← Program.machine line.config) line with
    | .error e =>
      IO.eprintln s!"Error: {e.message}"
      return 1
    | .ok session => Program.run session
