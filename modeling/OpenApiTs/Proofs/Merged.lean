/-
  OpenApiTs.Proofs.Merged

  What putting pairs one after the other comes to: every name stands once, where it was first put,
  over the value that was put last. `Merged` says this without the order of the steps.
-/
import OpenApiTs.Proofs.Entries
import OpenApiTs.Proofs.FirstSeen

namespace OpenApiTs.Entries

variable {α : Type} {entries : Entries α} {pairs : List (String × α)} {name : String}

/-- Whether `merged` has each name of the pairs once, in its first place and over its last value. -/
structure Merged (pairs : List (String × α)) (merged : Entries α) : Prop where
  names : FirstSeen (Entries.names pairs) (Entries.names merged)
  values (name : String) : merged.lookup name = pairs.reverse.lookup name

theorem names_put (entries : Entries α) (name : String) (value : α) :
    names (entries.put name value) =
      if name ∈ names entries then names entries else names entries ++ [name] := by
  split
  · next h_held => rw [names_put_of_mem h_held]
  · next h_new =>
    rw [put_of_not_mem h_new, names, List.map_append]
    rfl

theorem ofPairs_concat (pairs : List (String × α)) (pair : String × α) :
    ofPairs (pairs ++ [pair]) = (ofPairs pairs).put pair.1 pair.2 := by
  rw [ofPairs, List.foldl_append]
  rfl

/-- The names stand in the order in which they are first seen. -/
theorem names_ofPairs (pairs : List (String × α)) :
    names (ofPairs pairs) = (names pairs).eraseDups := by
  induction pairs using List.reverseRecOn with
  | nil => rfl
  | append_singleton pairs pair ih =>
    have h_names : names (pairs ++ [pair]) = names pairs ++ [pair.1] := List.map_append
    -- a name that was put before keeps its place, a new one goes to the end
    rw [ofPairs_concat, names_put, ih, h_names, eraseDups_concat]
    simp only [List.mem_eraseDups]

theorem mem_names_ofPairs_iff : name ∈ names (ofPairs pairs) ↔ name ∈ names pairs := by
  rw [names_ofPairs, List.mem_eraseDups]

/-- The last pair with a name has its value. -/
theorem lookup_ofPairs (pairs : List (String × α)) (name : String) :
    (ofPairs pairs).lookup name = pairs.reverse.lookup name := by
  have h_all := lookup_putAll [] pairs name
  rwa [List.lookup_nil, Option.or_none] at h_all

/-- Entries that are made of pairs are those pairs merged. -/
theorem merged_ofPairs (pairs : List (String × α)) : Merged pairs (ofPairs pairs) where
  names := by
    rw [names_ofPairs]
    exact firstSeen_eraseDups (names pairs)
  values := lookup_ofPairs pairs

end OpenApiTs.Entries
