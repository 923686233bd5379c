/-
  OpenApiTs.Proofs.Definitions.Placeholders

  Where the marker of placeholders stands. A document in whose texts and keys the marker does not
  occur, nor in their identifiers, gives definitions in which it occurs in the titles of
  placeholders and nowhere else.
-/
import OpenApiTs.Name.Identifier
import OpenApiTs.Proofs.Definitions.Gather
import OpenApiTs.Proofs.Definitions.Neutralize
import OpenApiTs.Proofs.Reference.Document

namespace OpenApiTs

variable {own name text : String} {fields : Entries Json} {value schema node document : Json}

/-! ## Strings of parts -/

namespace Json

theorem strings_of_field? {held : Json} (h_held : value.field? name = some held) :
    name ∈ value.strings ∧ held.strings ⊆ value.strings := by
  cases value with
  | object fields =>
    have h_entry : (name, held) ∈ fields := Entries.mem_of_lookup h_held
    exact ⟨mem_strings_object_iff.mpr ⟨_, h_entry, .inl rfl⟩,
      fun text h_text => mem_strings_object_iff.mpr ⟨_, h_entry, .inr h_text⟩⟩
  | _ => cases h_held

theorem mem_strings_put {held : Json}
    (h_text : text ∈ strings (.object (Entries.put fields name held))) :
    text = name ∨ text ∈ held.strings ∨ text ∈ strings (.object fields) := by
  obtain ⟨entry, h_entry, h_text⟩ := mem_strings_object_iff.mp h_text
  rcases Entries.mem_put h_entry with rfl | h_entry
  · exact h_text.imp_right .inl
  · exact .inr (.inr (mem_strings_object_iff.mpr ⟨entry, h_entry, h_text⟩))

theorem mem_strings_remove (h_text : text ∈ strings (.object (Entries.remove fields name))) :
    text ∈ strings (.object fields) := by
  obtain ⟨entry, h_entry, h_text⟩ := mem_strings_object_iff.mp h_text
  exact mem_strings_object_iff.mpr ⟨entry, Entries.mem_of_mem_remove h_entry, h_text⟩

end Json

namespace Definitions

/-! ## Strings of definitions -/

theorem strings_components {kind : String} {entry : String × Json}
    (h_entry : entry ∈ components document kind) :
    entry.1 ∈ document.strings ∧ entry.2.strings ⊆ document.strings := by
  unfold components at h_entry
  split at h_entry
  · next entries h_entries =>
    split at h_entry
    · cases h_entry
    · obtain ⟨all, h_all, h_fields⟩ := Option.bind_eq_some_iff.mp h_entries
      obtain ⟨held, h_held, h_object⟩ := Option.bind_eq_some_iff.mp h_fields
      have h_inside : held.strings ⊆ document.strings :=
        List.Subset.trans (Json.strings_of_field? h_held).2 (Json.strings_of_field? h_all).2
      cases held with
      | object fields =>
        cases h_object
        exact ⟨h_inside (Json.mem_strings_object_iff.mpr ⟨entry, h_entry, .inl rfl⟩),
          fun text h_text => h_inside (Json.mem_strings_object_iff.mpr ⟨entry, h_entry, .inr h_text⟩)⟩
      | _ => cases h_object
  · cases h_entry

theorem strings_ofBody? {body : Json} (h_schema : ofBody? body = some schema) :
    schema.strings ⊆ body.strings := by
  unfold ofBody? at h_schema
  split at h_schema
  · next fields h_json =>
    have h_fields : Json.strings (.object fields) ⊆ body.strings := by
      obtain ⟨content, h_content, h_json⟩ := Option.bind_eq_some_iff.mp h_json
      obtain ⟨media, h_media, h_found⟩ := Option.bind_eq_some_iff.mp h_json
      exact List.Subset.trans (Json.strings_of_field? h_found).2
        (List.Subset.trans (Json.strings_of_field? h_media).2 (Json.strings_of_field? h_content).2)
    -- the schema loses its description, or gets that of the body
    split at h_schema
    · cases h_schema
    · split at h_schema
      · cases h_schema
        exact fun text h_text => h_fields (Json.mem_strings_remove h_text)
      · cases h_schema
        exact fun text h_text => h_fields (Json.mem_strings_remove h_text)
      · next description _ h_description =>
        cases h_schema
        have h_described := Json.strings_of_field? h_description
        intro text h_text
        rcases Json.mem_strings_put h_text with rfl | h_text | h_text
        · exact h_described.1
        · exact h_described.2 h_text
        · exact h_fields h_text
  · cases h_schema

/-- The names of gathered definitions, and all that is in them, stand in the document. -/
theorem strings_gather {entry : String × Json} (h_entry : entry ∈ gather document) :
    entry.1 ∈ document.strings ∧ entry.2.strings ⊆ document.strings := by
  rcases Entries.mem_putAll h_entry with h_body | h_schema
  · obtain ⟨own, h_own, h_made⟩ := List.mem_filterMap.mp (Entries.mem_of_mem_ofPairs h_body)
    obtain ⟨schema, h_schema, rfl⟩ := Option.map_eq_some_iff.mp h_made
    obtain ⟨h_name, h_strings⟩ := strings_components h_own
    exact ⟨h_name, List.Subset.trans (strings_ofBody? h_schema) h_strings⟩
  · exact strings_components h_schema

/-! ## Texts without the marker -/

/-- Whether the marker does not occur in a text, nor in the identifier for it. -/
structure Inert (text : String) : Prop where
  unmarked : Text.contains marker text = false
  identifier : Text.contains marker (Name.identifier text) = false

theorem inert_iff : Inert text ↔
    Text.contains marker text = false ∧ Text.contains marker (Name.identifier text) = false :=
  ⟨fun h_inert => ⟨h_inert.unmarked, h_inert.identifier⟩, fun h_both => ⟨h_both.1, h_both.2⟩⟩

instance (text : String) : Decidable (Inert text) := decidable_of_iff _ inert_iff.symm

/-- Whether all texts and keys of a value are inert. -/
def AllInert (value : Json) : Prop := ∀ text ∈ value.strings, Inert text

instance (value : Json) : Decidable (AllInert value) :=
  inferInstanceAs (Decidable (∀ text ∈ value.strings, Inert text))

/-! ## Values with planted titles -/

/-- Whether all texts and keys of a value are inert but for planted titles; what a title of an object
    with these fields is to be for that, `planted` says. -/
inductive Tidy (planted : String → Entries Json → Prop) : Json → Prop where
  | null : Tidy planted .null
  | bool (value : Bool) : Tidy planted (.bool value)
  | number (value : Number.Value) : Tidy planted (.number value)
  | text {words : String} (h_words : Inert words) : Tidy planted (.text words)
  | array {items : List Json} (h_items : ∀ item ∈ items, Tidy planted item) :
      Tidy planted (.array items)
  | object {fields : Entries Json} (h_keys : ∀ entry ∈ fields, Inert entry.1)
      (h_values : ∀ entry ∈ fields,
        (¬ ∃ title, entry = ("title", .text title) ∧ planted title fields) →
          Tidy planted entry.2) :
      Tidy planted (.object fields)

variable {planted : String → Entries Json → Prop}

/-- A value whose texts are all inert has no placeholder to be told apart. -/
theorem tidy_of_allInert (h_value : AllInert value) : Tidy planted value := by
  induction value using Json.byParts with
  | null => exact .null
  | bool value => exact .bool value
  | number value => exact .number value
  | text words => exact .text (h_value words (List.mem_singleton_self words))
  | array items ih =>
    refine .array fun item h_item => ih item h_item fun text h_text => h_value text ?_
    exact Json.mem_strings_array_iff.mpr ⟨item, h_item, h_text⟩
  | object fields ih =>
    refine .object (fun entry h_entry => h_value entry.1 ?_) fun entry h_entry _ =>
      ih entry h_entry fun text h_text => h_value text ?_
    · exact Json.mem_strings_object_iff.mpr ⟨entry, h_entry, .inl rfl⟩
    · exact Json.mem_strings_object_iff.mpr ⟨entry, h_entry, .inr h_text⟩

namespace Tidy

theorem of_mem_array {items : List Json} {item : Json} (h_tidy : Tidy planted (.array items))
    (h_item : item ∈ items) : Tidy planted item := by
  cases h_tidy with
  | array h_items => exact h_items item h_item

theorem inert (h_tidy : Tidy planted (.text text)) : Inert text := by
  cases h_tidy with
  | text h_words => exact h_words

theorem keys (h_tidy : Tidy planted (.object fields)) : ∀ entry ∈ fields, Inert entry.1 := by
  cases h_tidy with
  | object h_keys _ => exact h_keys

/-- The value of a field is tidy, or it is a planted title. -/
theorem of_mem_object {entry : String × Json} (h_tidy : Tidy planted (.object fields))
    (h_entry : entry ∈ fields) :
    Tidy planted entry.2 ∨ ∃ title, entry = ("title", .text title) ∧ planted title fields := by
  cases h_tidy with
  | object _ h_values =>
    by_cases h_planted : ∃ title, entry = ("title", .text title) ∧ planted title fields
    · exact .inr h_planted
    · exact .inl (h_values entry h_entry h_planted)

theorem of_lookup (h_tidy : Tidy planted (.object fields)) (h_name : name ≠ "title")
    (h_found : fields.lookup name = some value) : Tidy planted value := by
  rcases h_tidy.of_mem_object (Entries.mem_of_lookup h_found) with h_value | ⟨title, h_eq, -⟩
  · exact h_value
  · exact absurd (congrArg Prod.fst h_eq) h_name

/-- A title is inert or planted. -/
theorem title {title : String} (h_tidy : Tidy planted (.object fields))
    (h_found : fields.lookup "title" = some (.text title)) :
    Inert title ∨ planted title fields := by
  rcases h_tidy.of_mem_object (Entries.mem_of_lookup h_found) with h_value | ⟨_, h_eq, h_planted⟩
  · exact .inl h_value.inert
  · cases h_eq
    exact .inr h_planted

theorem mono {planted' : String → Entries Json → Prop} (h_tidy : Tidy planted value)
    (h_planted : ∀ title fields, planted title fields → planted' title fields) :
    Tidy planted' value := by
  induction h_tidy with
  | null => exact .null
  | bool value => exact .bool value
  | number value => exact .number value
  | text h_words => exact .text h_words
  | array _ ih => exact .array ih
  | object h_keys _ ih =>
    refine .object h_keys fun entry h_entry h_other => ih entry h_entry ?_
    rintro ⟨title, h_title, h_own⟩
    exact h_other ⟨title, h_title, h_planted title _ h_own⟩

end Tidy

/-! ## Where placeholders are planted -/

/-- The nodes that are searched for references to `own`: a schema itself and, unless it is such a
    reference, what is searched in the schemas that its fields hold. -/
inductive Searched (own : String) : Json → Json → Prop where
  | self (schema : Json) : Searched own schema schema
  | held {fields : Entries Json} {entry : String × Json} {part node : Json}
      (h_refers : refersTo own fields = false) (h_entry : entry ∈ fields)
      (h_part : part ∈ heldParts (holding fields entry.1) entry.2)
      (h_node : Searched own part node) : Searched own (.object fields) node

/-- A reference that is searched is counted. -/
theorem selfReferences_ne_zero (h_searched : Searched own schema (.object fields))
    (h_refers : refersTo own fields = true) : selfReferences own schema ≠ 0 := by
  -- the index of the search has to be a variable for the induction
  generalize h_node : Json.object fields = node at h_searched
  induction h_searched with
  | self schema =>
    subst h_node
    rw [selfReferences, if_pos h_refers]
    exact Nat.one_ne_zero
  | held h_outer h_entry h_part _ ih =>
    rw [selfReferences, h_outer, if_neg Bool.false_ne_true, ne_eq,
      selfReferencesInFields_eq_zero_iff]
    exact fun h_none => ih h_node (h_none _ h_entry _ h_part)

theorem strings_of_mem_heldParts {held : Holding} {part : Json}
    (h_part : part ∈ heldParts held value) : part.strings ⊆ value.strings := by
  rcases heldParts_cases h_part with rfl | ⟨items, rfl, h_item⟩ | ⟨properties, rfl, h_mem⟩
  · exact List.Subset.refl _
  · exact fun text h_text => Json.mem_strings_array_iff.mpr ⟨part, h_item, h_text⟩
  · obtain ⟨entry, h_entry, rfl⟩ := List.mem_map.mp h_mem
    exact fun text h_text => Json.mem_strings_object_iff.mpr ⟨entry, h_entry, .inr h_text⟩

theorem nodes_of_mem_heldParts {held : Holding} {part : Json}
    (h_part : part ∈ heldParts held value) : part.nodes ⊆ value.nodes := by
  rcases heldParts_cases h_part with rfl | ⟨items, rfl, h_item⟩ | ⟨properties, rfl, h_mem⟩
  · exact List.Subset.refl _
  · exact Json.nodes_subset_of_mem_items h_item
  · obtain ⟨entry, h_entry, rfl⟩ := List.mem_map.mp h_mem
    exact fun node h_node => Json.mem_nodes_object_iff.mpr (.inr ⟨entry, h_entry, h_node⟩)

/-- What is searched stands in the schema. -/
theorem Searched.mem_nodes (h_searched : Searched own schema (.object fields)) :
    .object fields ∈ schema.nodes := by
  -- the index of the search has to be a variable for the induction
  generalize h_node : Json.object fields = node at h_searched ⊢
  induction h_searched with
  | self schema =>
    subst h_node
    exact Json.mem_nodes_object_iff.mpr (.inl rfl)
  | held _ h_entry h_part _ ih =>
    exact Json.mem_nodes_object_iff.mpr
      (.inr ⟨_, h_entry, nodes_of_mem_heldParts h_part (ih h_node)⟩)

theorem tidy_neutralizeHeld {held : Holding} (h_value : AllInert value)
    (h_parts : ∀ part ∈ heldParts held value, Tidy planted (neutralize own part)) :
    Tidy planted (neutralizeHeld own held value) := by
  have h_items (items : List Json) (h_each : ∀ item ∈ items, Tidy planted (neutralize own item)) :
      Tidy planted (.array (items.map (neutralize own))) := by
    refine .array fun item h_item => ?_
    obtain ⟨before, h_before, rfl⟩ := List.mem_map.mp h_item
    exact h_each before h_before
  cases held with
  | nothing => exact tidy_of_allInert h_value
  | schema => exact h_parts value (List.mem_singleton_self value)
  | items =>
    cases value with
    | array items => exact h_items items h_parts
    | _ => exact h_parts _ (List.mem_singleton_self _)
  | members =>
    cases value with
    | array items => exact h_items items h_parts
    | _ => exact tidy_of_allInert h_value
  | properties =>
    cases value with
    | object properties =>
      refine .object (fun entry h_entry => ?_) fun entry h_entry _ => ?_
      · obtain ⟨before, h_before, rfl⟩ := List.mem_map.mp h_entry
        exact h_value before.1 (Json.mem_strings_object_iff.mpr ⟨before, h_before, .inl rfl⟩)
      · obtain ⟨before, h_before, rfl⟩ := List.mem_map.mp h_entry
        exact h_parts before.2 (List.mem_map_of_mem h_before)
    | _ => exact tidy_of_allInert h_value

/-- A placeholder carries its mark in the title and nowhere else. -/
theorem tidy_placeholder (h_fields : AllInert (.object fields))
    (h_planted : planted (own ++ marker) (placeholder own fields)) :
    Tidy planted (.object (placeholder own fields)) := by
  -- a field of a placeholder is the title, the type or one of the fields before
  have h_entries : ∀ entry ∈ placeholder own fields,
      entry = ("title", .text (own ++ marker)) ∨ entry = ("type", .text "any") ∨
        entry ∈ fields := by
    intro entry h_entry
    rcases Entries.mem_put h_entry with h_title | h_entry
    · exact .inl h_title
    · exact .inr ((Entries.mem_put h_entry).imp_right Entries.mem_of_mem_remove)
  refine .object (fun entry h_entry => ?_) fun entry h_entry h_plain => ?_
  · rcases h_entries entry h_entry with rfl | rfl | h_old
    · exact (by decide : Inert "title")
    · exact (by decide : Inert "type")
    · exact h_fields entry.1 (Json.mem_strings_object_iff.mpr ⟨entry, h_old, .inl rfl⟩)
  · rcases h_entries entry h_entry with rfl | rfl | h_old
    · exact absurd ⟨_, rfl, h_planted⟩ h_plain
    · exact .text (by decide)
    · refine tidy_of_allInert fun text h_text => h_fields text ?_
      exact Json.mem_strings_object_iff.mpr ⟨entry, h_old, .inr h_text⟩

/-- Replacing references plants titles in their places and leaves everything else tidy. -/
theorem tidy_neutralize (h_schema : AllInert schema)
    (h_planted : ∀ fields, Searched own schema (.object fields) → refersTo own fields = true →
      planted (own ++ marker) (placeholder own fields)) :
    Tidy planted (neutralize own schema) := by
  induction schema using byHeld with
  | other value h_object =>
    rw [neutralize_of_not_isObject h_object]
    exact tidy_of_allInert h_schema
  | object fields ih =>
    -- a reference is replaced here, or what the schema holds is searched
    rw [neutralize_object]
    split
    · next h_refers =>
      exact tidy_placeholder h_schema (h_planted fields (.self _) h_refers)
    · next h_refers =>
      refine .object (fun entry h_entry => ?_) fun entry h_entry _ => ?_
      · obtain ⟨before, h_before, rfl⟩ := List.mem_map.mp h_entry
        exact h_schema before.1 (Json.mem_strings_object_iff.mpr ⟨before, h_before, .inl rfl⟩)
      · obtain ⟨before, h_before, rfl⟩ := List.mem_map.mp h_entry
        have h_value : AllInert before.2 := fun text h_text =>
          h_schema text (Json.mem_strings_object_iff.mpr ⟨before, h_before, .inr h_text⟩)
        refine tidy_neutralizeHeld h_value fun part h_part => ?_
        refine ih before h_before part h_part
          (fun text h_text => h_value text (strings_of_mem_heldParts h_part h_text)) ?_
        intro inner h_inner
        exact h_planted inner (.held (Bool.eq_false_iff.mpr h_refers) h_before h_part h_inner)

end Definitions

end OpenApiTs
