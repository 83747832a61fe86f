import Rebalancer.Path
import Rebalancer.Text.Numeral
import Rebalancer.Text.Percent
import Rebalancer.Text.Split

set_option autoImplicit false

/-! # Where a store is kept

A store is named by the path of its file, or by an address: `file:`, perhaps the local host between
two slashes and a third, the path, and after a question mark options of the form `name=value`,
between which `&` stands. Nothing after `#` counts. Without a path, or with the path `:memory:`, the
store is in memory and ends with the run.
-/

namespace Rebalancer

open Text

/-- What may be done to a store. -/
inductive StoreMode
  | read
  | change
  /-- To make it if there is none, and to change it. -/
  | create
  /-- To have it in memory. -/
  | memory
deriving DecidableEq, Repr

namespace StoreMode

/-- The mode of a name. -/
def ofName? (name : String) : Option StoreMode :=
  [("ro", read), ("rw", change), ("rwc", create), ("memory", memory)].lookup name

/-- How much a mode asks for. -/
def demand : StoreMode → Nat
  | memory => 0
  | read => 1
  | change => 2
  | create => 3

/-- How much may be asked for where a mode is set already. -/
def bound : StoreMode → Nat
  | read => 1
  | change => 2
  | create | memory => 3

/-- The mode after an option that asks for another, which must not ask for more. -/
def restrict? (mode next : StoreMode) : Option StoreMode :=
  if next.demand ≤ mode.bound then some next else none

end StoreMode

/-- Where a store is kept, and what may be done to it. -/
structure Location where
  /-- The path of its file; there is none for a store in memory. -/
  path? : Option String
  /-- Whether it is made if there is none. -/
  created : Bool := true
  /-- Whether it must not be changed. -/
  fixed : Bool := false
  /-- Whether its changes go to a log first. -/
  logged : Bool := true
  /-- The path of a file that must be there, because a new store takes its rights from it. -/
  model? : Option String := none
deriving DecidableEq, Repr

namespace Location

/-- Whether a path stands for a store in memory. -/
def isMemory (path : String) : Bool := path == "" || path == ":memory:"

/-- The location that a path names. -/
def ofPath (path : String) : Location where path? := if isMemory path then none else some path

/-! ## Addresses -/

/-- An option of an address. -/
abbrev Setting := String × String

/-- Reads an option. One without a name does not count, and one without a value has an empty one. -/
def setting? (s : List Char) : Option Setting :=
  let (name, value) := (splitFirst '=' s).getD (s, [])
  if unescape name = [] then none else some (unescaped name, unescaped value)

/-- Drops the host of an address, which must be the local one. -/
def localPath? : List Char → Option (List Char)
  | '/' :: '/' :: rest =>
    let host := String.ofList (rest.takeWhile (· != '/'))
    if host = "" || host = "localhost" then some (rest.dropWhile (· != '/')) else none
  | rest => some rest

/-- The number that a text begins with, in hexadecimal digits after `0x`. One that does not fit a
signed word of 32 bits counts as zero. -/
def leadingNumber (s : List Char) : Nat :=
  let hex := match s with
    | '0' :: 'x' :: rest | '0' :: 'X' :: rest => rest.takeWhile fun c => (hexValue? c).isSome
    | _ => []
  let n := if hex.isEmpty then decimalValue (s.takeWhile isDigit) else valueOf 16 hex
  if n ≤ 0x7FFFFFFF then n else 0

/-- Whether the value of an option means yes: a number by its low eight bits, a word by itself. -/
def isYes (value : String) : Bool :=
  if value.toList.head?.any isDigit then leadingNumber value.toList % 256 != 0
  else ["on", "yes", "true"].contains (value.map Char.toLower)

/-- Whether the first option of a name says yes. -/
def flag (settings : List Setting) (name : String) : Bool := (settings.lookup name).any isYes

/-- The mode that the options ask for. Each may only take away from what those before it leave. -/
def mode? (settings : List Setting) : Option StoreMode :=
  settings.foldlM (fun mode s =>
    if s.1 = "mode" then (StoreMode.ofName? s.2).bind mode.restrict? else some mode) .create

/-- The systems that keep stores in files, and whether they can keep logs. -/
def fileSystems : List (String × Bool) :=
  [("unix", true), ("unix-none", false), ("unix-dotfile", false), ("unix-excl", true)]

/-- The system that keeps stores in memory. -/
def memorySystem : String := "memdb"

/-- The greatest number of bytes of the name of a store in that system. -/
def maxMemoryName : Nat := 1016

/-- Reads what follows the `file:` of an address. -/
def ofAddress? (s : List Char) : Option Location := do
  let s := (← localPath? s).takeWhile (· != '#')
  let (path, query) := (splitFirst '?' s).getD (s, [])
  let path := unescaped path
  let settings := (splitChars '&' query).filterMap setting?
  let mode ← mode? settings
  if settings.any fun s => s.1 == "cache" && s.2 != "shared" && s.2 != "private" then none
  let system := (settings.reverse.lookup "vfs").getD "unix"
  let passing := isMemory path || mode = .memory
  let unchanging := flag settings "immutable"
  let keepsLogs ←
    if system = memorySystem then
      if !passing && maxMemoryName < path.utf8ByteSize then none else some false
    else fileSystems.lookup system
  return {
    path? := if passing || system = memorySystem then none else some path
    created := mode = .create
    fixed := mode = .read || (!passing && unchanging)
    logged := keepsLogs && !unchanging && !flag settings "nolock"
    model? := settings.lookup "modeof" }

/-- Reads the name of a store, which holds no NUL. -/
def ofName? (name : String) : Option Location :=
  if name.toList.contains '\x00' then none
  else match name.toList with
    | 'f' :: 'i' :: 'l' :: 'e' :: ':' :: rest => ofAddress? rest
    | _ => some (ofPath name)

/-- The place of the file of the store of a name, unless the store is in memory. -/
def storePlace? (working : Place) (name : String) : Option Place :=
  ((ofName? name).bind (·.path?)).map (Path.place working)

end Location

end Rebalancer
