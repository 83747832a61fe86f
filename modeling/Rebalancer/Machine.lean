import Rebalancer.Store
import Rebalancer.Store.Location

set_option autoImplicit false

/-! # The machine

What a run needs of the machine that it runs on: the files that the settings name, and among them
the store.
-/

namespace Rebalancer

/-- What there can be at a place. -/
inductive Entry
  | directory
  /-- A directory in which no file can be made. -/
  | closed
  | text (content : String)
  /-- A file that holds no text. -/
  | data
  /-- A device that takes everything and gives nothing back. -/
  | device
  | store (content : Store)

/-- Whether the entry is a directory. -/
def Entry.isDirectory : Entry → Bool
  | directory | closed => true
  | text _ | data | device | store _ => false

/-- The text of a file that can be read. -/
def Entry.text? : Entry → Option String
  | text content => some content
  | device => some ""
  | directory | closed | data | store _ => none

/-- Why a store cannot be opened. -/
inductive StoreError
  /-- There is none, and none can be made. -/
  | absent
  /-- The file is something else. -/
  | foreign
  /-- It must not be changed, not even to set up its log. -/
  | readOnly
  /-- No file can bear the name of its journal. -/
  | noJournal
  /-- It cannot take up its tables. -/
  | unfit
deriving DecidableEq, Repr

/-- The machine as a run sees it. -/
structure Machine where
  working : Place
  /-- What there is at a path. -/
  entry? : String → Option Entry

namespace Machine

/-- Whether there is a file or directory at a path. -/
def exists_ (m : Machine) (path : String) : Bool := (m.entry? path).isSome

/-- The text of a file, if it can be read. -/
def text? (m : Machine) (path : String) : Option String := (m.entry? path).bind Entry.text?

/-- Whether the content of a file can be read, whatever it is. -/
def readable (m : Machine) (path : String) : Bool := (m.entry? path).any (!·.isDirectory)

/-! ## The place of a store

The path of a store is followed by what is written, so that the directories in it need not be there.
Only files must not stand where directories should, and names and paths must not be too long. -/

/-- The greatest number of bytes of the path of a journal. -/
def maxStorePath : Nat := 512

/-- What is added to the name of a store to name its journal. -/
def journalMark : String := "-journal"

/-- Whether one can come through a place on the way to a store. -/
def admits (m : Machine) (place : Place) : Bool :=
  match place.getLast? with
  | none => true
  | some name =>
    Path.size place < maxStorePath &&
      match m.entry? (Path.ofPlace place.dropLast) with
      | some entry => entry.isDirectory && Path.isName name
      | none => true

/-- The place of the store at a path, if one can come there. -/
def storePlace? (m : Machine) (path : String) : Option Place :=
  let place := Path.place m.working path
  if (Path.stations (Path.start m.working path) (Path.names path)).all m.admits &&
      Path.size place + journalMark.utf8ByteSize ≤ maxStorePath then some place
  else none

/-- Whether a file can be made at a place. -/
def hasRoom (m : Machine) (place : Place) : Bool :=
  match m.entry? (Path.ofPlace place.dropLast) with
  | some .directory => true
  | _ => false

/-- Whether there can be a journal beside the store at a place. -/
def hasJournal (place : Place) : Bool :=
  (place.getLast?.map fun name => Path.isName (name ++ journalMark)).getD false

/-! ## Opening -/

/-- Opens the store in a file, where a file without content is an empty store. The log of a store
that has one is set up first. -/
def openFile (m : Machine) (l : Location) (place : Place) : Except StoreError Store := do
  let entry := m.entry? (Path.ofPlace place)
  let content ← match entry with
    | none => if l.created && m.hasRoom place then pure {} else throw .absent
    | some .directory | some .closed => throw .absent
    | some .data => throw .foreign
    | some (.text content) => if content = "" then pure {} else throw .foreign
    | some .device => pure {}
    | some (.store s) => pure s
  if l.fixed then throw (if l.logged then .readOnly else .unfit)
  else if !hasJournal place then throw (if l.logged then .noJournal else .unfit)
  else
    match entry with
    | some .device => throw .unfit
    | _ => return content

/-- Opens the store of a name. -/
def openStore (m : Machine) (name : String) : Except StoreError Store :=
  match Location.ofName? name with
  | none => .error .absent
  | some l =>
    match l.path? with
    | none => if l.fixed then .error .unfit else .ok {}
    | some path =>
      match m.storePlace? path with
      | none => .error .absent
      | some place =>
        if (l.model?.map m.exists_).getD true then m.openFile l place else .error .absent

end Machine

end Rebalancer
