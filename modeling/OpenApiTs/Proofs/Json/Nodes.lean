/-
  OpenApiTs.Proofs.Json.Nodes

  The nodes of a value: every object in it, at any depth, in document order. Nodes of nodes are
  nodes, so whatever is reached by going from node to node stays among finitely many.
-/
import OpenApiTs.Proofs.Json.Equality

namespace OpenApiTs.Json

mutual

/-- The objects in a value, itself included. -/
def nodes : Json → List Json
  | object fields => object fields :: nodesInFields fields
  | array items => nodesInItems items
  | _ => []

/-- The objects in items. -/
def nodesInItems : List Json → List Json
  | [] => []
  | item :: items => nodes item ++ nodesInItems items

/-- The objects in the values of fields. -/
def nodesInFields : List (String × Json) → List Json
  | [] => []
  | (_, value) :: fields => nodes value ++ nodesInFields fields

end

theorem mem_nodesInItems_iff {items : List Json} {node : Json} :
    node ∈ nodesInItems items ↔ ∃ item ∈ items, node ∈ nodes item := by
  induction items with
  | nil => simp [nodesInItems]
  | cons item items ih => simp [nodesInItems, ih]

theorem mem_nodesInFields_iff {fields : List (String × Json)} {node : Json} :
    node ∈ nodesInFields fields ↔ ∃ entry ∈ fields, node ∈ nodes entry.2 := by
  induction fields with
  | nil => simp [nodesInFields]
  | cons entry fields ih => simp [nodesInFields, ih]

@[simp] theorem mem_nodes_array_iff {items : List Json} {node : Json} :
    node ∈ nodes (array items) ↔ ∃ item ∈ items, node ∈ nodes item := by
  rw [nodes, mem_nodesInItems_iff]

@[simp] theorem mem_nodes_object_iff {fields : List (String × Json)} {node : Json} :
    node ∈ nodes (object fields) ↔
      node = object fields ∨ ∃ entry ∈ fields, node ∈ nodes entry.2 := by
  rw [nodes, List.mem_cons, mem_nodesInFields_iff]

/-- A value of an object has no nodes but those of the object. -/
theorem nodes_subset_of_lookup {fields : List (String × Json)} {name : String} {value : Json}
    (h_found : fields.lookup name = some value) : nodes value ⊆ nodes (object fields) := by
  intro node h_node
  exact mem_nodes_object_iff.mpr (.inr ⟨(name, value), Entries.mem_of_lookup h_found, h_node⟩)

theorem nodes_subset_of_mem_items {items : List Json} {item : Json} (h_item : item ∈ items) :
    nodes item ⊆ nodes (array items) := by
  intro node h_node
  exact mem_nodes_array_iff.mpr ⟨item, h_item, h_node⟩

/-- The nodes of a node are nodes of the whole. -/
theorem nodes_subset_of_mem_nodes {value node : Json} (h_node : node ∈ nodes value) :
    nodes node ⊆ nodes value := by
  induction value using byParts with
  | array items ih =>
    obtain ⟨item, h_item, h_inside⟩ := mem_nodes_array_iff.mp h_node
    exact List.Subset.trans (ih item h_item h_inside) (nodes_subset_of_mem_items h_item)
  | object fields ih =>
    rcases mem_nodes_object_iff.mp h_node with rfl | ⟨entry, h_entry, h_inside⟩
    · exact List.Subset.refl _
    · intro inner h_inner
      exact mem_nodes_object_iff.mpr (.inr ⟨entry, h_entry, ih entry h_entry h_inside h_inner⟩)
  | _ => simp [nodes] at h_node

/-- What is well-formed is so in every node. -/
theorem wellFormed_of_mem_nodes {value node : Json} (h_value : WellFormed value)
    (h_node : node ∈ nodes value) : WellFormed node := by
  induction value using byParts with
  | array items ih =>
    obtain ⟨item, h_item, h_inside⟩ := mem_nodes_array_iff.mp h_node
    exact ih item h_item (wellFormed_array_iff.mp h_value item h_item) h_inside
  | object fields ih =>
    -- the object itself is a node, a list is not
    rcases mem_nodes_object_iff.mp h_node with rfl | ⟨entry, h_entry, h_inside⟩
    · exact h_value
    · exact ih entry h_entry ((wellFormed_object_iff.mp h_value).2 entry h_entry) h_inside
  | _ => simp [nodes] at h_node

theorem wellFormed_of_field? {value held : Json} {name : String} (h_value : WellFormed value)
    (h_held : value.field? name = some held) : WellFormed held := by
  cases value with
  | object fields =>
    exact (wellFormed_object_iff.mp h_value).2 (name, held) (Entries.mem_of_lookup h_held)
  | _ => cases h_held

/-- A well-formed value in a field leaves the object well-formed. -/
theorem wellFormed_put {fields : Entries Json} {name : String} {value : Json}
    (h_fields : WellFormed (object fields)) (h_value : WellFormed value) :
    WellFormed (object (fields.put name value)) := by
  rw [wellFormed_object_iff] at h_fields ⊢
  refine ⟨Entries.nodup_names_put h_fields.1 name value, ?_⟩
  intro entry h_entry
  rcases Entries.mem_put h_entry with rfl | h_entry
  · exact h_value
  · exact h_fields.2 entry h_entry

theorem wellFormed_remove {fields : Entries Json} (h_fields : WellFormed (object fields))
    (name : String) : WellFormed (object (fields.remove name)) := by
  rw [wellFormed_object_iff] at h_fields ⊢
  refine ⟨Entries.nodup_names_remove h_fields.1 name, ?_⟩
  intro entry h_entry
  -- removing changes the order of the fields, which does not matter here
  rw [(Entries.remove_perm h_fields.1 name).mem_iff, List.mem_filter] at h_entry
  exact h_fields.2 entry h_entry.1

/-- Only an object has words under a name, so a value with some is one of its own nodes. -/
theorem mem_nodes_of_wordsAt? {value : Json} {name words : String}
    (h_words : value.wordsAt? name = some words) : value ∈ nodes value := by
  cases value with
  | object fields => simp
  | _ => simp [wordsAt?, textAt?, field?] at h_words

end OpenApiTs.Json
