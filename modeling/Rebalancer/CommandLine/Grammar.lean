import Rebalancer.Text.Numeral
import Rebalancer.Text.Split
import Rebalancer.Word

set_option autoImplicit false

/-! # Options and values

A level of a command line is a list of words, each an option, the value of an option, or the name
of a subcommand, after which a level of its own begins. An option is written `--name value` or
`--name=value`, one with a letter also `-x value`, `-xvalue` or `-x=value`. A word that starts with
a dash is a value only in a joined form. Every option takes a value, except `--help` and `-h`,
which stop the reading.
-/

namespace Rebalancer.CommandLine

/-- Why a command line is not carried out. -/
inductive Stop
  /-- It asks for help. -/
  | help
  /-- It is not understood. -/
  | usage
deriving DecidableEq, Repr

/-- What kind of value an option takes. -/
inductive Kind
  | text
  /-- A text that is not empty. -/
  | path
  /-- A number of 64 bits without sign. -/
  | word
  /-- A number of 32 bits without sign, except that zero may bear a minus sign. -/
  | half
  /-- Texts separated by commas. The option may be given several times. -/
  | texts
deriving DecidableEq, Repr

/-- An option that takes a value. -/
structure Opt where
  name : String
  kind : Kind
  letter : Option Char := none
deriving DecidableEq, Repr

/-- The value of an option. -/
inductive Value
  | text (s : String)
  | number (n : Nat)
  | texts (l : List String)
deriving DecidableEq, Repr

/-- Reads a number up to `limit`; zero may bear a minus sign. -/
def signedNat? (limit : Nat) (s : List Char) : Option Nat :=
  match s with
  | '-' :: rest => (Text.readDigits? rest).filter (· = 0)
  | _ => Text.readNat? limit s

/-- Reads a value. -/
def Kind.read? : Kind → String → Option Value
  | text, s => some (.text s)
  | path, s => if s = "" then none else some (.text s)
  | word, s => (Text.readNat? maxWord s.toList).map .number
  | half, s => (signedNat? maxHalfWord s.toList).map .number
  | texts, s => some (.texts (Text.split ',' s))

/-! ## One level -/

/-- What has been read of a level. -/
structure Level where
  /-- The values of the options, in the order in which they were first given. -/
  values : List (String × Value) := []
  /-- The last option, if its value was not joined to it, with the value once that is read. -/
  pending : Option (Opt × Option String) := none
  /-- Whether `--` was read, after which no option and no subcommand may follow. -/
  closed : Bool := false

namespace Level

/-- The value of an option. -/
def value? (l : Level) (name : String) : Option Value :=
  (l.values.find? (·.1 == name)).map (·.2)

/-- Takes over a value. Only lists may be given more than once. -/
def give (l : Level) (o : Opt) (s : String) : Except Stop Level :=
  match o.kind.read? s, l.value? o.name with
  | some v, none => .ok { l with values := l.values ++ [(o.name, v)] }
  | some (.texts new), some (.texts old) =>
    .ok { l with values := l.values.map fun e =>
      if e.1 == o.name then (e.1, .texts (old ++ new)) else e }
  | _, _ => .error .usage

/-- Takes over the pending option, which must have got its value. -/
def settle (l : Level) : Except Stop Level :=
  match l.pending with
  | none => .ok l
  | some (o, some s) => give { l with pending := none } o s
  | some (_, none) => .error .usage

/-- Whether the next word is the value of an option, unless it starts with a dash. -/
def awaits (l : Level) : Bool :=
  match l.pending with
  | some (_, none) => true
  | _ => false

/-- Reads an option with the value joined to it, or else leaves it pending. -/
def take (l : Level) (o : Option Opt) (joined : Option String) : Except Stop Level :=
  match o, joined with
  | none, _ => .error .usage
  | some o, some s => do (← l.settle).give o s
  | some o, none => do return { (← l.settle) with pending := some (o, none) }

/-- Stops for help, unless what came before is not understood. -/
def askHelp (l : Level) : Except Stop Level := do
  let _ ← l.settle
  throw .help

/-- Reads a word after `--`. -/
def long (options : List Opt) (l : Level) (word : List Char) : Except Stop Level :=
  let (name, joined) := match Text.splitFirst '=' word with
    | some (name, value) => (String.ofList name, some (String.ofList value))
    | none => (String.ofList word, none)
  if name == "help" then
    if joined.isSome then .error .usage else l.askHelp
  else l.take (options.find? (·.name == name)) joined

/-- Reads a word after a single dash. -/
def short (options : List Opt) (l : Level) (letter : Char) (rest : List Char) :
    Except Stop Level :=
  if letter == 'h' then l.askHelp
  else
    let joined := match rest with
      | [] => none
      | '=' :: value => some (String.ofList value)
      | value => some (String.ofList value)
    l.take (options.find? (·.letter == some letter)) joined

/-- Reads one word that names no subcommand. -/
def word (options : List Opt) (l : Level) (w : String) : Except Stop Level :=
  if l.closed then .error .usage
  else
    match w.toList, l.pending with
    | ['-', '-'], _ => .ok { l with closed := true }
    | '-' :: '-' :: rest, _ => l.long options rest
    | '-' :: letter :: rest, _ => l.short options letter rest
    | _, some (o, none) => .ok { l with pending := some (o, some w) }
    | _, _ => .error .usage

/-- Reads words up to the name of a subcommand. Gives that name and the words after it. -/
def read (options : List Opt) (subcommands : List String) :
    List String → Level → Except Stop (Level × Option (String × List String))
  | [], l => .ok (l, none)
  | w :: rest, l =>
    if !l.closed && !l.awaits && subcommands.contains w then .ok (l, some (w, rest))
    else do read options subcommands rest (← l.word options w)

end Level

end Rebalancer.CommandLine
