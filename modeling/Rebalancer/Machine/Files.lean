import Rebalancer.Machine

set_option autoImplicit false

/-! # A machine with a few files

For rehearsing runs without touching real files. The tree holds what there is at each place. A path
is followed name by name, each from a directory that is there.
-/

namespace Rebalancer

/-- The files of a machine. -/
structure FileTree where
  working : Place
  entries : List (Place × Entry)

namespace FileTree

/-- What there is at a place. -/
def at? (t : FileTree) (place : Place) : Option Entry := t.entries.lookup place

/-- Whether there is a directory at a place. -/
def isDirectory (t : FileTree) (place : Place) : Bool := (t.at? place).any (·.isDirectory)

/-- Follows names from a place. -/
def follow? (t : FileTree) : Place → List String → Option Place
  | place, [] => some place
  | place, name :: rest =>
    let next := Path.step place name
    if t.isDirectory place && (t.at? next).isSome then t.follow? next rest else none

/-- What there is at a path. One with a slash at its end leads to a directory. -/
def find? (t : FileTree) (path : String) : Option Entry := do
  if !Path.isPath path then none
  let place ← t.follow? (Path.start t.working path) (Path.names path)
  if path.endsWith "/" && !t.isDirectory place then none
  t.at? place

/-- Puts something at a place. -/
def put (t : FileTree) (place : Place) (entry : Entry) : FileTree :=
  { t with entries := (place, entry) :: t.entries }

/-- The machine with these files. -/
def machine (t : FileTree) : Machine := ⟨t.working, t.find?⟩

/-- Keeps the store of a name, unless it is in memory. -/
def keep (t : FileTree) (name : String) (s : Store) : FileTree :=
  match Location.storePlace? t.working name with
  | none => t
  | some place => t.put place (.store s)

/-- The directories that every machine has. -/
def directories : List Place :=
  [[], ["bin"], ["dev"], ["dev", "shm"], ["etc"], ["home"], ["lib"], ["mnt"], ["opt"], ["root"],
   ["run"], ["sbin"], ["srv"], ["tmp"], ["usr"], ["usr", "bin"], ["usr", "lib"], ["usr", "local"],
   ["usr", "share"], ["var"], ["var", "lib"], ["var", "log"], ["var", "tmp"]]

/-- The directories of every machine in which no file can be made. -/
def closedDirectories : List Place := [["proc"], ["sys"]]

/-- The devices that every machine has. -/
def devices : List Place :=
  [["dev", "full"], ["dev", "null"], ["dev", "random"], ["dev", "urandom"], ["dev", "zero"]]

/-- The files that every machine has. -/
def files : List (Place × Entry) :=
  [(["etc", "hostname"], .text "localhost\n"), (["etc", "hosts"], .text "127.0.0.1 localhost\n"),
   (["etc", "passwd"], .text "root:x:0:0:root:/root:/bin/sh\n"), (["bin", "sh"], .data),
   (["usr", "bin", "env"], .data)]

/-- The working directory. -/
def workingPlace : Place := ["tmp", "rebalancer"]

/-- The tree that every machine has, with an empty working directory. -/
def plain : FileTree :=
  ⟨workingPlace, (workingPlace, .directory) :: files ++ directories.map ((·, .directory)) ++
    closedDirectories.map ((·, .closed)) ++ devices.map ((·, .device))⟩

end FileTree

end Rebalancer
