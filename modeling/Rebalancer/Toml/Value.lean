set_option autoImplicit false

/-! # TOML values

The values of a settings file. Only texts and integers are kept; of other scalars it matters only
that they stand where they do.
-/

namespace Rebalancer

/-- How a table came to be, which decides how it may grow. -/
inductive Toml.Origin
  /-- By its own header. -/
  | header
  /-- By a header below it. -/
  | implied
  /-- By a dotted key. -/
  | dotted
  /-- Between braces. -/
  | inline
deriving DecidableEq, Repr

/-- A TOML value. -/
inductive Toml
  | text (s : String)
  | integer (n : Int)
  /-- A truth value or a number that is no integer. -/
  | scalar
  /-- A date, a time, or both. -/
  | moment
  | array (items : List Toml)
  | table (origin : Toml.Origin) (fields : List (String × Toml))
  /-- The tables under a header in double brackets, the newest first. -/
  | tables (newest : List (String × Toml)) (older : List (List (String × Toml)))

namespace Toml

/-- The fields of a table. -/
abbrev Fields := List (String × Toml)

/-- A field. -/
def Fields.get? (fields : Fields) (name : String) : Option Toml :=
  (fields.find? (·.1 == name)).map (·.2)

/-- Replaces a field or adds it. -/
def Fields.put (fields : Fields) (name : String) (v : Toml) : Fields :=
  if fields.any (·.1 == name) then fields.map fun f => if f.1 == name then (name, v) else f
  else fields ++ [(name, v)]

/-! ## Growth

A document grows by headers and by keys. Either may pass through tables that are there already, but
no table is defined twice. -/

/-- Changes the table that a header path leads to, with `change`. Tables on the way are made if they
are not there; of tables in double brackets the newest is meant. -/
def Fields.underHeader (change : Fields → Option Fields) : List String → Fields → Option Fields
  | [], fields => change fields
  | name :: path, fields => do
    match fields.get? name with
    | none => return fields.put name (.table .implied (← underHeader change path []))
    | some (.table .inline _) => none
    | some (.table origin inner) =>
      return fields.put name (.table origin (← underHeader change path inner))
    | some (.tables newest older) =>
      return fields.put name (.tables (← underHeader change path newest) older)
    | some _ => none

/-- Opens the table of a header. -/
def Fields.open? (name : String) (fields : Fields) : Option Fields :=
  match fields.get? name with
  | none => some (fields.put name (.table .header []))
  | some (.table .implied inner) => some (fields.put name (.table .header inner))
  | some _ => none

/-- Opens a further table of a header in double brackets. -/
def Fields.openNext? (name : String) (fields : Fields) : Option Fields :=
  match fields.get? name with
  | none => some (fields.put name (.tables [] []))
  | some (.tables newest older) => some (fields.put name (.tables [] (newest :: older)))
  | some _ => none

/-- Adds a field that is not there yet. -/
def Fields.add? (name : String) (v : Toml) (fields : Fields) : Option Fields :=
  if (fields.get? name).isSome then none else some (fields.put name v)

/-- Adds a field under a dotted key, of which `path` stands before the last dot. The table that
the field belongs to must itself come from a dotted key. -/
def Fields.addDotted? (name : String) (v : Toml) : List String → Fields → Option Fields
  | [], fields => fields.add? name v
  | step :: path, fields => do
    match fields.get? step with
    | none => return fields.put step (.table .dotted (← addDotted? name v path []))
    | some (.table .dotted inner) =>
      return fields.put step (.table .dotted (← addDotted? name v path inner))
    | some (.table .implied inner) =>
      if path.isEmpty then none
      else return fields.put step (.table .implied (← addDotted? name v path inner))
    | some (.tables newest older) =>
      if path.isEmpty then none
      else return fields.put step (.tables (← addDotted? name v path newest) older)
    | some _ => none

end Toml

end Rebalancer
