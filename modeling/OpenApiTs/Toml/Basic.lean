/-
  OpenApiTs.Toml.Basic

  Values of a TOML document, and entries at the end of a path of keys. A table may be written only
  once, so every table knows how it came about.
-/
import OpenApiTs.Entries

namespace OpenApiTs

/-- How a table came about. -/
inductive Toml.Origin where
  /-- Opened by a header of its own. -/
  | header
  /-- Made on the way to the table of another header. -/
  | path
  /-- Made by a key with points. -/
  | dotted
  /-- Written between braces. -/
  | inline
deriving DecidableEq, Repr, Inhabited

/-- A TOML value. Of a number only its text is kept. -/
inductive Toml where
  | text (value : String)
  | flag (value : Bool)
  | number (literal : String)
  | list (items : List Toml)
  | table (origin : Toml.Origin) (entries : List (String × Toml))
  /-- A list of tables, each with a header of its own. -/
  | tables (all : List (List (String × Toml)))
deriving Repr, Inhabited

namespace Toml

/-! ## Assignments -/

/-- A new entry. A key that is there already is refused. -/
def addNew (key : String) (value : Toml) (entries : Entries Toml) : Option (Entries Toml) :=
  if Entries.has entries key then none else some (entries ++ [(key, value)])

/-- A value at the end of a dotted key. Tables that are missing on the way are made. A table with a
    header of its own or braces around it is closed to dotted keys, and the table that takes the
    value was itself made by one. -/
def assign (value : Toml) : List String → Entries Toml → Option (Entries Toml)
  | [], _ => none
  | [key], entries => addNew key value entries
  | key :: next :: path, entries =>
    match entries.lookup key with
    | none => (assign value (next :: path) []).map fun inner =>
        Entries.put entries key (.table .dotted inner)
    | some (.table .dotted inner) => (assign value (next :: path) inner).map fun inner =>
        Entries.put entries key (.table .dotted inner)
    | some (.table .path inner) =>
      if path.isEmpty then none
      else (assign value (next :: path) inner).map fun inner =>
        Entries.put entries key (.table .path inner)
    | some (.tables all) =>
      match all.getLast? with
      | none => none
      | some last =>
        if path.isEmpty then none
        else (assign value (next :: path) last).map fun last =>
          Entries.put entries key (.tables (all.dropLast ++ [last]))
    | some _ => none

/-! ## Headers -/

/-- The entries with `change` applied to the table that the keys of a header lead to. Tables that
    are missing on the way are made; of a list of tables the last one is meant. -/
def within (change : Entries Toml → Option (Entries Toml)) :
    List String → Entries Toml → Option (Entries Toml)
  | [], entries => change entries
  | key :: path, entries =>
    match entries.lookup key with
    | none => (within change path []).map fun inner =>
        Entries.put entries key (.table .path inner)
    | some (.table .inline _) => none
    | some (.table origin inner) => (within change path inner).map fun inner =>
        Entries.put entries key (.table origin inner)
    | some (.tables all) =>
      match all.getLast? with
      | none => none
      | some last => (within change path last).map fun last =>
          Entries.put entries key (.tables (all.dropLast ++ [last]))
    | some _ => none

/-- The table of a header. One that was made on the way to another header may still be opened. -/
def openHere (key : String) (entries : Entries Toml) : Option (Entries Toml) :=
  match entries.lookup key with
  | none => some (entries ++ [(key, .table .header [])])
  | some (.table .path inner) => some (Entries.put entries key (.table .header inner))
  | some _ => none

/-- One more table in a list of tables. -/
def appendHere (key : String) (entries : Entries Toml) : Option (Entries Toml) :=
  match entries.lookup key with
  | none => some (entries ++ [(key, .tables [[]])])
  | some (.tables all) => some (Entries.put entries key (.tables (all ++ [[]])))
  | some _ => none

/-- A header taken in: `change` is what it does under its last key. -/
def takeHeader (change : String → Entries Toml → Option (Entries Toml)) (keys : List String)
    (entries : Entries Toml) : Option (Entries Toml) :=
  match keys.getLast? with
  | none => none
  | some key => within (change key) keys.dropLast entries

end Toml

end OpenApiTs
