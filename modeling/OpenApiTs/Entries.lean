/-
  OpenApiTs.Entries

  Named entries in order: the fields of an object, the definitions of a document, the responses of
  an operation. Reading is `List.lookup`; what is here writes. A list of entries whose names are
  all different keeps that property under every operation.
-/

namespace OpenApiTs

/-- Values under names, in order. -/
abbrev Entries (α : Type) := List (String × α)

namespace Entries

variable {α : Type}

/-- The names, in order. -/
def names (entries : Entries α) : List String := entries.map Prod.fst

/-- Whether there is an entry of this name. -/
def has (entries : Entries α) (name : String) : Bool := (entries.lookup name).isSome

/-- The entries with `value` under `name`: an entry of that name keeps its place, a new one goes to
    the end. -/
def put (entries : Entries α) (name : String) (value : α) : Entries α :=
  match entries with
  | [] => [(name, value)]
  | entry :: others =>
    if entry.1 = name then (name, value) :: others else entry :: put others name value

/-- The pairs as entries: a name that comes again keeps its first place and takes the last value. -/
def ofPairs (pairs : List (String × α)) : Entries α :=
  pairs.foldl (fun entries pair => entries.put pair.1 pair.2) []

/-- The entries with those of `pairs` put over them, in order. -/
def putAll (entries : Entries α) (pairs : List (String × α)) : Entries α :=
  pairs.foldl (fun entries pair => entries.put pair.1 pair.2) entries

/-- The entries without the one called `name`. The last entry moves into the place that is freed. -/
def remove (entries : Entries α) (name : String) : Entries α :=
  match entries with
  | [] => []
  | entry :: others =>
    if entry.1 = name then
      match others.getLast? with
      | none => []
      | some last => last :: others.dropLast
    else entry :: remove others name

end Entries

end OpenApiTs
