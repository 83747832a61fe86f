import Rebalancer.Text.Split

set_option autoImplicit false

/-! # Paths

A path is a text of names between slashes. Of these, `.` stands for where one is and `..` for the
directory around it. A path that does not begin with a slash starts from the working directory.
-/

namespace Rebalancer

/-- A place in the tree of files: the names on the way to it from the root. -/
abbrev Place := List String

namespace Path

/-- The names in a path. -/
def names (path : String) : List String := (Text.split '/' path).filter (· != "")

/-- Where a path starts. -/
def start (working : Place) (path : String) : Place := if path.startsWith "/" then [] else working

/-- Goes on by a name as it is written, without a look at what is there. -/
def step (place : Place) (name : String) : Place :=
  if name = "." then place else if name = ".." then place.dropLast else place ++ [name]

/-- The place that a path names if `..` takes back the name before it, be there a directory of that
name or not. -/
def place (working : Place) (path : String) : Place := (names path).foldl step (start working path)

/-- The places that one comes through by the names from a place, with the first and the last. -/
def stations : Place → List String → List Place
  | place, [] => [place]
  | place, name :: rest => place :: stations (step place name) rest

/-- The path of a place. -/
def ofPlace (place : Place) : String := "/" ++ String.intercalate "/" place

/-! ## Sizes -/

/-- The greatest number of bytes of a name. -/
def maxName : Nat := 255

/-- Whether there can be a file of this name. -/
def isName (name : String) : Bool := name.utf8ByteSize ≤ maxName

/-- The greatest number of bytes of a path. -/
def maxPath : Nat := 4095

/-- Whether the path is neither empty nor too long to be followed. -/
def isPath (path : String) : Bool := path != "" && path.utf8ByteSize ≤ maxPath

/-- The number of bytes of the path of a place that is not the root. -/
def size (place : Place) : Nat := (place.map (·.utf8ByteSize + 1)).foldl (· + ·) 0

end Path

end Rebalancer
