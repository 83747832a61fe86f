import Rebalancer.CommandLine.Grammar
import Rebalancer.Request

set_option autoImplicit false

/-! # The command line

A subcommand with its parameters, after or between options that replace settings.
-/

namespace Rebalancer

/-- What the operator asks for. -/
inductive Command
  | daemon
  | circular (p : CircularParams)
  | pull (p : PullParams)
  | push (p : PushParams)
  | betweenNodes (p : NodeParams)
  | stats
  | deleteStats
deriving DecidableEq, Repr

/-- A command line that was understood. -/
structure CommandLine where
  config : String
  graphRefresh : Option UInt64
  peerRefresh : Option UInt64
  command : Option Command
deriving DecidableEq, Repr

namespace CommandLine

/-- The settings file that is read when none is named. -/
def defaultConfig : String := "circular.toml"

/-- The option for the period of the full refresh. -/
def graphRefreshName : String := "circular-graph-refresh"

/-- The option for the period of the refresh of the own channels. -/
def peerRefreshName : String := "circular-peer-refresh"

/-- The options that may stand on either side of the subcommand. -/
def sharedOptions : List Opt := [⟨graphRefreshName, .word, none⟩, ⟨peerRefreshName, .word, none⟩]

/-- The options before the subcommand. -/
def mainOptions : List Opt := ⟨"config", .path, some 'c'⟩ :: sharedOptions

/-- The options of every rebalance command. -/
def chunkOptions : List Opt :=
  [⟨"amount", .word, none⟩, ⟨"splitamount", .word, none⟩, ⟨"maxppm", .word, none⟩,
   ⟨"attempts", .half, none⟩, ⟨"maxhops", .word, none⟩]

/-- The options of each subcommand that must be given, and those that may be. -/
def subcommands : List (String × List Opt × List Opt) :=
  [("daemon", [], []),
   ("circular", [⟨"outscid", .text, none⟩, ⟨"inscid", .text, none⟩], chunkOptions),
   ("circular-pull", [⟨"inscid", .text, none⟩],
     [⟨"maxoutppm", .word, none⟩, ⟨"outlist", .texts, none⟩, ⟨"depleteuptopercent", .word, none⟩,
      ⟨"depleteuptoamount", .word, none⟩] ++ chunkOptions),
   ("circular-push", [⟨"outscid", .text, none⟩],
     [⟨"minoutppm", .word, none⟩, ⟨"inlist", .texts, none⟩, ⟨"filluptopercent", .word, none⟩,
      ⟨"filluptoamount", .word, none⟩] ++ chunkOptions),
   ("circular-node", [⟨"outnode", .text, none⟩, ⟨"innode", .text, none⟩], chunkOptions),
   ("circular-stats", [], []),
   ("circular-delete-stats", [], [])]

/-- The name under which help on a subcommand is asked for. -/
def helpName : String := "help"

/-- The names that may stand where a subcommand may. -/
def names : List String := subcommands.map (·.1) ++ [helpName]

/-! ## Values of a level -/

/-- The text given for an option, empty if there is none. -/
def textOf (l : Level) (name : String) : String :=
  match l.value? name with
  | some (.text s) => s
  | _ => ""

/-- The number given for an option. -/
def natOf? (l : Level) (name : String) : Option Nat :=
  match l.value? name with
  | some (.number n) => some n
  | _ => none

/-- The word given for an option. -/
def wordOf? (l : Level) (name : String) : Option UInt64 := (natOf? l name).map UInt64.ofNat

/-- The list given for an option. -/
def textsOf? (l : Level) (name : String) : Option (List String) :=
  match l.value? name with
  | some (.texts list) => some list
  | _ => none

/-- The parameters of every rebalance command. -/
def chunkOf (l : Level) : ChunkParams where
  amount := wordOf? l "amount"
  splitAmount := wordOf? l "splitamount"
  maxRate := wordOf? l "maxppm"
  attempts := natOf? l "attempts"
  maxHops := natOf? l "maxhops"

/-- The command of a subcommand and its options. -/
def commandOf (name : String) (l : Level) : Command :=
  match name with
  | "circular" => .circular ⟨textOf l "outscid", textOf l "inscid", chunkOf l⟩
  | "circular-pull" =>
    .pull
      { entry := textOf l "inscid"
        maxOutRate := wordOf? l "maxoutppm"
        outList := textsOf? l "outlist"
        depletePercent := wordOf? l "depleteuptopercent"
        depleteAmount := wordOf? l "depleteuptoamount"
        chunk := chunkOf l }
  | "circular-push" =>
    .push
      { exit := textOf l "outscid"
        minOutRate := wordOf? l "minoutppm"
        inList := textsOf? l "inlist"
        fillPercent := wordOf? l "filluptopercent"
        fillAmount := wordOf? l "filluptoamount"
        chunk := chunkOf l }
  | "circular-node" => .betweenNodes ⟨textOf l "outnode", textOf l "innode", chunkOf l⟩
  | "circular-stats" => .stats
  | "circular-delete-stats" => .deleteStats
  | _ => .daemon

/-! ## Reading -/

/-- Reads the words after a subcommand. -/
def readSubcommand (name : String) (required optional : List Opt) (words : List String) :
    Except Stop (Command × Level) := do
  let (l, _) ← Level.read (required ++ optional ++ sharedOptions) [] words {}
  let l ← l.settle
  if required.all fun o => (l.value? o.name).isSome then return (commandOf name l, l)
  else throw .usage

/-- Answers the request for help on a subcommand. -/
def helpOn : List String → Stop
  | [] => .help
  | [name] => if names.contains name then .help else .usage
  | _ => .usage

/-- Reads the words of a command line. An option given on both sides of the subcommand has the
value that stands after it. -/
def parse (words : List String) : Except Stop CommandLine := do
  let (l, rest) ← Level.read mainOptions names words {}
  let sub ← match rest with
    | none => pure none
    | some (name, words) =>
      match subcommands.find? (·.1 == name) with
      | none => throw (helpOn words)
      | some (_, required, optional) =>
        (readSubcommand name required optional words).map some
  let l ← l.settle
  let shared (name : String) : Option UInt64 :=
    (sub.bind fun s => wordOf? s.2 name).or (wordOf? l name)
  let config := textOf l "config"
  return {
    config := if config = "" then defaultConfig else config
    graphRefresh := shared graphRefreshName
    peerRefresh := shared peerRefreshName
    command := sub.map (·.1) }

/-! ## Help -/

/-- An option as help shows it. -/
def shownOption (o : Opt) : String := s!"--{o.name} <value>"

/-- A subcommand with its options as help shows it; those that may be left out are in brackets. -/
def shownSubcommand (name : String) (required optional : List Opt) : String :=
  String.intercalate " " (name :: required.map shownOption ++
    optional.map fun o => s!"[{shownOption o}]")

/-- What can be written on a command line, one subcommand a line. -/
def helpText : String :=
  String.intercalate "\n" (
    ("Options: " ++ String.intercalate ", " (mainOptions.map shownOption)) :: "Commands:" ::
    subcommands.map fun c => "  " ++ shownSubcommand c.1 c.2.1 c.2.2)

end CommandLine

end Rebalancer
