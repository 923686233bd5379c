/-
  OpenApiTs.Proofs.Definitions.Rewritten

  What the replacement of self-references does to a schema, place by place. The nodes at the places
  where the search finds a reference become placeholders, which keep their other fields; every other
  node keeps its kind, its keys in order, its length or its scalar. There are as many places as
  references are counted, and the schema stays as it is exactly when there are none.
-/
import OpenApiTs.Proofs.Definitions.Neutralize
import OpenApiTs.Proofs.Json.Pointer

namespace OpenApiTs.Definitions

open OpenApiTs.Json (Step Pointer)

variable {own key : String} {fields : Entries Json} {before after value schema part : Json}
  {held : Holding} {places : List Pointer} {pointer place : Pointer} {step : Step} {words : String}

/-! ## Places -/

mutual

/-- Where `neutralize` replaces references to `own`. -/
def selfPlaces (own : String) : Json → List Pointer
  | .object fields =>
    if refersTo own fields then [[]] else selfPlacesInFields own (holding fields) fields
  | _ => []

/-- As `selfPlaces`, in items that are numbered from `start` on. -/
def selfPlacesInItems (own : String) : Nat → List Json → List Pointer
  | _, [] => []
  | start, item :: items =>
    (selfPlaces own item).map (.item start :: ·) ++ selfPlacesInItems own (start + 1) items

/-- As `selfPlaces`, in the schemas that fields hold. -/
def selfPlacesInFields (own : String) (holds : String → Holding) :
    List (String × Json) → List Pointer
  | [] => []
  | (key, value) :: fields =>
    (match holds key, value with
      | .nothing, _ => []
      | .schema, value => selfPlaces own value
      | .items, .array items => selfPlacesInItems own 0 items
      | .items, value => selfPlaces own value
      | .members, .array items => selfPlacesInItems own 0 items
      | .members, _ => []
      | .properties, .object properties =>
        selfPlacesInFields own (fun _ => .schema) properties
      | .properties, _ => []).map (.field key :: ·) ++ selfPlacesInFields own holds fields

end

mutual

/-- The references that are counted are those that are replaced. -/
theorem length_selfPlaces (own : String) (schema : Json) :
    (selfPlaces own schema).length = selfReferences own schema := by
  match schema with
  | .object fields =>
    rw [selfPlaces, selfReferences]
    split
    · rfl
    · exact length_selfPlacesInFields own (holding fields) fields
  | .null | .bool _ | .number _ | .text _ | .array _ => simp [selfPlaces, selfReferences]

theorem length_selfPlacesInItems (own : String) (start : Nat) (items : List Json) :
    (selfPlacesInItems own start items).length = selfReferencesInItems own items := by
  match items with
  | [] => rfl
  | item :: items =>
    rw [selfPlacesInItems, selfReferencesInItems, List.length_append, List.length_map,
      length_selfPlaces own item, length_selfPlacesInItems own (start + 1) items]

theorem length_selfPlacesInFields (own : String) (holds : String → Holding)
    (fields : List (String × Json)) :
    (selfPlacesInFields own holds fields).length = selfReferencesInFields own holds fields := by
  match fields with
  | [] => rfl
  | (key, value) :: fields =>
    have h_fields := length_selfPlacesInFields own holds fields
    have h_value := length_selfPlaces own value
    cases h_holds : holds key <;> cases value <;>
      simp [selfPlacesInFields, selfReferencesInFields, h_holds, h_fields, h_value,
        length_selfPlacesInItems own 0, length_selfPlacesInFields own (fun _ => .schema)]

end

/-- Where `neutralize` replaces references in the value of a field, by how it holds schemas. -/
def heldPlaces (own : String) : Holding → Json → List Pointer
  | .nothing, _ => []
  | .schema, value => selfPlaces own value
  | .items, .array items => Json.within (fun _ => selfPlaces own) (.array items)
  | .items, value => selfPlaces own value
  | .members, .array items => Json.within (fun _ => selfPlaces own) (.array items)
  | .members, _ => []
  | .properties, .object properties => Json.within (fun _ => selfPlaces own) (.object properties)
  | .properties, _ => []

/-- Where `neutralize` replaces references one step into an object. -/
def fieldPlaces (own : String) (holds : String → Holding) : Step → Json → List Pointer
  | .field key, value => heldPlaces own (holds key) value
  | .item _, _ => []

theorem selfPlacesInItems_eq (own : String) (start : Nat) (items : List Json) :
    selfPlacesInItems own start items =
      (items.zipIdx start).flatMap fun part => (selfPlaces own part.1).map (.item part.2 :: ·) := by
  induction items generalizing start with
  | nil => rfl
  | cons item items ih => rw [selfPlacesInItems, ih, List.zipIdx_cons, List.flatMap_cons]

theorem within_items (own : String) (items : List Json) :
    Json.within (fun _ => selfPlaces own) (.array items) = selfPlacesInItems own 0 items := by
  rw [selfPlacesInItems_eq, Json.within, Json.children, List.flatMap_map]

theorem within_properties (own : String) (properties : List (String × Json)) :
    Json.within (fun _ => selfPlaces own) (.object properties) =
      selfPlacesInFields own (fun _ => .schema) properties := by
  rw [Json.within, Json.children, List.flatMap_map]
  induction properties with
  | nil => rfl
  | cons entry properties ih =>
    rw [List.flatMap_cons, ih]
    simp [selfPlacesInFields]

/-- The places in fields are those below each key, as its value holds schemas. -/
theorem selfPlacesInFields_eq (own : String) (holds : String → Holding)
    (fields : List (String × Json)) :
    selfPlacesInFields own holds fields = Json.within (fieldPlaces own holds) (.object fields) := by
  rw [Json.within, Json.children, List.flatMap_map]
  induction fields with
  | nil => rfl
  | cons entry fields ih =>
    obtain ⟨key, value⟩ := entry
    rw [List.flatMap_cons, ← ih]
    cases h_holds : holds key <;> cases value <;>
      simp [selfPlacesInFields, fieldPlaces, h_holds, heldPlaces, within_items, within_properties]

theorem selfPlaces_object (own : String) (fields : Entries Json) :
    selfPlaces own (.object fields) =
      if refersTo own fields then [[]]
      else Json.within (fieldPlaces own (holding fields)) (.object fields) := by
  rw [selfPlaces, selfPlacesInFields_eq]

theorem selfPlaces_of_not_isObject (h_object : schema.isObject = false) :
    selfPlaces own schema = [] := by
  cases schema with
  | object fields => cases h_object
  | _ => simp [selfPlaces]

/-! ## Replaced nodes -/

/-- The keys of the entries that a replaced node does not keep. -/
def replacedKeys : List String := ["$ref", "type", "title"]

/-- Whether the fields `after` are those of a reference to `own` that was replaced: the reference is
    gone, the type and the marked title are set, and every other entry stays. -/
structure Replaced (own : String) (before after : Entries Json) : Prop where
  refers : before.lookup "$ref" = some (.text own) ∨
    before.lookup "$ref" = some (.text (Reference.definitionRoot ++ own))
  names_nodup : (Entries.names after).Nodup
  reference : after.lookup "$ref" = none
  kind : after.lookup "type" = some (.text "any")
  title : after.lookup "title" = some (.text (own ++ marker))
  others : ∀ key ∉ replacedKeys, after.lookup key = before.lookup key

/-- A node refers to `own` only by its bare name or by its path. -/
theorem reference_of_refersTo (h_refers : refersTo own fields = true) :
    fields.lookup "$ref" = some (.text own) ∨
      fields.lookup "$ref" = some (.text (Reference.definitionRoot ++ own)) := by
  unfold refersTo at h_refers
  split at h_refers
  case h_2 => cases h_refers
  case h_1 target h_target =>
    obtain ⟨reference, h_reference, h_text⟩ := Option.bind_eq_some_iff.mp h_target
    obtain rfl : reference = .text target := by
      cases reference <;> cases h_text
      rfl
    rw [beq_iff_eq] at h_refers
    -- the target is the bare name, or the name behind the root of definitions
    cases h_after : Text.after? Reference.definitionRoot target with
    | none =>
      rw [h_after, Option.getD_none] at h_refers
      exact .inl (h_refers ▸ h_reference)
    | some rest =>
      rw [h_after, Option.getD_some] at h_refers
      rw [Text.after?_eq_some_iff.mp h_after, h_refers] at h_reference
      exact .inr h_reference

theorem replaced_placeholder (h_fields : Json.WellFormed (.object fields))
    (h_refers : refersTo own fields = true) : Replaced own fields (placeholder own fields) := by
  have h_names := (Json.wellFormed_object_iff.mp h_fields).1
  refine ⟨reference_of_refersTo h_refers,
    (Json.wellFormed_object_iff.mp (wellFormed_placeholder h_fields)).1, ?_, ?_,
    lookup_title_placeholder own fields, fun key h_key => lookup_placeholder h_names h_key⟩
  · rw [placeholder, Entries.lookup_put, if_neg (by decide), Entries.lookup_put,
      if_neg (by decide), Entries.lookup_remove h_names]
  · rw [placeholder, Entries.lookup_put, if_neg (by decide), Entries.lookup_put, if_pos rfl]

/-! ## Rewritten values -/

/-- Whether `after` is `before` with the references to `own` at the given places replaced. The nodes
    there are replaced. A pointer to any other node, unless it goes through an entry that a replaced
    node does not keep, leads to a node of the same shell: the same keys in order, the same number
    of items or the same scalar. -/
structure Rewritten (own : String) (before after : Json) (places : List Pointer) : Prop where
  nodup : places.Nodup
  replaced : ∀ place ∈ places, ∃ fields fields', before.at? place = some (.object fields) ∧
    after.at? place = some (.object fields') ∧ Replaced own fields fields'
  kept : ∀ pointer ∉ places,
    (∀ place ∈ places, ∀ key ∈ replacedKeys, ¬ place ++ [.field key] <+: pointer) →
      (after.at? pointer).map Json.shell = (before.at? pointer).map Json.shell

namespace Rewritten

theorem refl (own : String) (value : Json) : Rewritten own value value [] :=
  ⟨List.nodup_nil, by simp, fun _ _ _ => rfl⟩

/-- Values of one shell, whose parts are rewritten, are rewritten. -/
theorem within {inside : Step → Json → List Pointer} {f : Step → Json → Json}
    (h_before : before.WellFormed) (h_shell : after.shell = before.shell)
    (h_child : ∀ step, after.child? step = (before.child? step).map (f step))
    (h_parts : ∀ step part, before.child? step = some part →
      Rewritten own part (f step part) (inside step part)) :
    Rewritten own before after (Json.within inside before) := by
  refine ⟨Json.nodup_within h_before fun step part h_part => (h_parts step part h_part).nodup,
    ?_, ?_⟩
  · intro place h_place
    obtain ⟨step, rest, part, rfl, h_part, h_rest⟩ := (Json.mem_within_iff h_before).mp h_place
    rw [Json.at?_cons, Json.at?_cons, h_child, h_part]
    exact (h_parts step part h_part).replaced rest h_rest
  · intro pointer h_other h_clear
    cases pointer with
    | nil => rw [Json.at?_nil, Json.at?_nil, Option.map_some, Option.map_some, h_shell]
    | cons step rest =>
      rw [Json.at?_cons, Json.at?_cons, h_child]
      cases h_part : before.child? step with
      | none => rfl
      | some part =>
        -- what holds of the pointer holds of its rest, inside the part
        refine (h_parts step part h_part).kept rest ?_ ?_
        · exact fun h_rest => h_other (Json.cons_mem_within h_before h_part h_rest)
        · intro place h_place key h_key h_leads
          exact h_clear (step :: place) (Json.cons_mem_within h_before h_part h_place) key h_key
            (List.cons_prefix_cons.mpr ⟨rfl, h_leads⟩)

/-- A text outside the entries that replaced nodes lose stays, and none comes up there. -/
theorem at?_text_iff (h_rewritten : Rewritten own before after places)
    (h_clear : ∀ place ∈ places, ∀ key ∈ replacedKeys, ¬ place ++ [.field key] <+: pointer) :
    after.at? pointer = some (.text words) ↔ before.at? pointer = some (.text words) := by
  by_cases h_place : pointer ∈ places
  · obtain ⟨fields, fields', h_before, h_after, -⟩ := h_rewritten.replaced pointer h_place
    simp [h_before, h_after]
  · rw [← Json.map_shell_eq_text_iff, h_rewritten.kept pointer h_place h_clear,
      Json.map_shell_eq_text_iff]

/-- A reference to another name stays unless it stands in the type or the title of a replaced
    node. -/
theorem reference_kept {target : String} (h_rewritten : Rewritten own before after places)
    (h_reference : before.at? (pointer ++ [.field "$ref"]) = some (.text target))
    (h_own : target ≠ own) (h_path : target ≠ Reference.definitionRoot ++ own)
    (h_clear : ∀ place ∈ places, ∀ key ∈ ["type", "title"], ¬ place ++ [.field key] <+: pointer) :
    after.at? (pointer ++ [.field "$ref"]) = some (.text target) := by
  refine (h_rewritten.at?_text_iff ?_).mpr h_reference
  intro place h_place key h_key h_leads
  obtain ⟨fields, fields', h_before, -, h_replaced⟩ := h_rewritten.replaced place h_place
  rcases List.mem_cons.mp h_key with rfl | h_key
  · -- what a replaced node has as its reference is a text, and refers to `own`
    obtain ⟨more, h_more⟩ := h_leads
    have h_words : ∃ words, fields.lookup "$ref" = some (.text words) ∧ target ≠ words := by
      rcases h_replaced.refers with h_refers | h_refers
      · exact ⟨_, h_refers, h_own⟩
      · exact ⟨_, h_refers, h_path⟩
    obtain ⟨words, h_refers, h_other⟩ := h_words
    rw [← h_more, Json.at?_append, Json.at?_concat_field h_before, h_refers,
      Option.bind_some] at h_reference
    rw [Json.eq_nil_of_at?_text h_reference, Json.at?_nil] at h_reference
    cases h_reference
    exact h_other rfl
  · rcases List.prefix_concat_iff.mp h_leads with h_eq | h_leads
    · -- the pointer ends in the reference, not in the type or the title
      have h_last := (List.append_inj' h_eq rfl).2
      simp only [List.cons.injEq, and_true, Step.field.injEq] at h_last
      subst h_last
      simp at h_key
    · exact h_clear place h_place key h_key h_leads

/-- A value that is rewritten somewhere is not equal to what it was. -/
theorem eq_nil_of_same (h_rewritten : Rewritten own before after places)
    (h_same : before.same after = true) : places = [] := by
  rw [List.eq_nil_iff_forall_not_mem]
  intro place h_place
  obtain ⟨fields, fields', h_before, h_after, h_replaced⟩ := h_rewritten.replaced place h_place
  obtain ⟨held, h_held, h_equal⟩ := Json.exists_of_same_at? h_same h_before
  obtain rfl : held = .object fields' := Option.some.inj (h_held.symm.trans h_after)
  -- the reference has no partner
  have h_refers : ∃ reference, fields.lookup "$ref" = some reference :=
    h_replaced.refers.elim (fun h_refers => ⟨_, h_refers⟩) (fun h_refers => ⟨_, h_refers⟩)
  obtain ⟨reference, h_refers⟩ := h_refers
  obtain ⟨partner, h_partner, -⟩ :=
    (Json.same_object_iff.mp h_equal).2 _ (Entries.mem_of_lookup h_refers)
  rw [h_replaced.reference] at h_partner
  cases h_partner

end Rewritten

theorem rewritten_placeholder (h_fields : Json.WellFormed (.object fields))
    (h_refers : refersTo own fields = true) :
    Rewritten own (.object fields) (.object (placeholder own fields)) [[]] := by
  have h_replaced := replaced_placeholder h_fields h_refers
  refine ⟨List.nodup_singleton _, ?_, ?_⟩
  · intro place h_place
    obtain rfl := List.mem_singleton.mp h_place
    exact ⟨fields, _, rfl, rfl, h_replaced⟩
  · intro pointer h_other h_clear
    cases pointer with
    | nil => exact absurd List.mem_cons_self h_other
    | cons step rest =>
      rw [Json.at?_cons, Json.at?_cons]
      cases step with
      | item place => rfl
      | field key =>
        -- the pointer starts with a key that is kept
        have h_key : key ∉ replacedKeys := fun h_key =>
          h_clear [] List.mem_cons_self key h_key
            (List.cons_prefix_cons.mpr ⟨rfl, List.nil_prefix⟩)
        rw [Json.child?, Json.child?, h_replaced.others key h_key]

/-- Replacing references in each item of a list rewrites it at their places in the items. -/
theorem rewritten_items {items : List Json} (h_array : Json.WellFormed (.array items))
    (h_each : ∀ item ∈ items, item.WellFormed →
      Rewritten own item (neutralize own item) (selfPlaces own item)) :
    Rewritten own (.array items) (.array (items.map (neutralize own)))
      (Json.within (fun _ => selfPlaces own) (.array items)) := by
  apply Rewritten.within (f := fun _ => neutralize own) h_array
  · rw [Json.shell, Json.shell, List.map_map]
    rfl
  · intro step
    cases step with
    | field key => rfl
    | item place => exact List.getElem?_map
  · intro step part h_part
    have h_whole := Json.wellFormed_of_child? h_array h_part
    cases step with
    | field key => cases h_part
    | item place => exact h_each part (List.mem_of_getElem? h_part) h_whole

/-- Replacing references in each property of an object rewrites it at their places in the
    properties. -/
theorem rewritten_properties {properties : Entries Json}
    (h_object : Json.WellFormed (.object properties))
    (h_each : ∀ part ∈ properties.map Prod.snd, part.WellFormed →
      Rewritten own part (neutralize own part) (selfPlaces own part)) :
    Rewritten own (.object properties)
      (.object (properties.map fun entry => (entry.1, neutralize own entry.2)))
      (Json.within (fun _ => selfPlaces own) (.object properties)) := by
  apply Rewritten.within (f := fun _ => neutralize own) h_object
  · rw [Json.shell, Json.shell, List.map_map]
    rfl
  · intro step
    cases step with
    | field key => exact Entries.lookup_map (fun _ => neutralize own) properties key
    | item place => rfl
  · intro step part h_part
    have h_whole := Json.wellFormed_of_child? h_object h_part
    cases step with
    | field key =>
      exact h_each part (List.mem_map_of_mem (Entries.mem_of_lookup h_part)) h_whole
    | item place => cases h_part

/-- What a keyword holds is rewritten at the places in its parts. -/
theorem rewritten_neutralizeHeld {held : Holding} (h_value : value.WellFormed)
    (h_parts : ∀ part ∈ heldParts held value, part.WellFormed →
      Rewritten own part (neutralize own part) (selfPlaces own part)) :
    Rewritten own value (neutralizeHeld own held value) (heldPlaces own held value) := by
  -- a value that holds no schemas in this way is left alone, a schema by itself is a part
  cases held with
  | nothing => exact .refl own value
  | schema => exact h_parts value (List.mem_singleton_self value) h_value
  | items =>
    cases value with
    | array items => exact rewritten_items h_value h_parts
    | _ => exact h_parts _ (List.mem_singleton_self _) h_value
  | members =>
    cases value with
    | array items => exact rewritten_items h_value h_parts
    | _ => exact .refl own _
  | properties =>
    cases value with
    | object properties => exact rewritten_properties h_value h_parts
    | _ => exact .refl own _

/-- What `neutralize` makes of a part one step into an object. -/
def neutralPart (own : String) (holds : String → Holding) : Step → Json → Json
  | .field key, value => neutralizeHeld own (holds key) value
  | .item _, value => value

/-- Replacing the references of a schema to `own` rewrites it at their places. -/
theorem rewritten_neutralize (own : String) (h_schema : schema.WellFormed) :
    Rewritten own schema (neutralize own schema) (selfPlaces own schema) := by
  induction schema using byHeld with
  | other value h_object =>
    rw [neutralize_of_not_isObject h_object, selfPlaces_of_not_isObject h_object]
    exact .refl own value
  | object fields ih =>
    rw [neutralize_object, selfPlaces_object]
    split
    · next h_refers => exact rewritten_placeholder h_schema h_refers
    · apply Rewritten.within (f := neutralPart own (holding fields)) h_schema
      · rw [neutralFields, Json.shell, Json.shell, List.map_map]
        rfl
      · intro step
        cases step with
        | field key => exact lookup_neutralFields own fields key
        | item place => rfl
      · intro step part h_part
        have h_whole := Json.wellFormed_of_child? h_schema h_part
        cases step with
        | field key =>
          exact rewritten_neutralizeHeld h_whole (ih _ (Entries.mem_of_lookup h_part))
        | item place => cases h_part

/-- A schema stays as it is, and even stays equal up to the order of fields, only when it has no
    references to `own` that are searched. -/
theorem selfReferences_eq_zero_of_same (h_schema : schema.WellFormed)
    (h_same : schema.same (neutralize own schema) = true) : selfReferences own schema = 0 := by
  rw [← length_selfPlaces, (rewritten_neutralize own h_schema).eq_nil_of_same h_same,
    List.length_nil]

theorem selfReferences_eq_zero_iff (h_schema : schema.WellFormed) :
    selfReferences own schema = 0 ↔ neutralize own schema = schema := by
  refine ⟨neutralize_of_none, fun h_eq => selfReferences_eq_zero_of_same h_schema ?_⟩
  rw [h_eq]
  exact Json.same_refl h_schema

/-! ## The frame of the replacement -/

/-- Replacing the references of a schema to a name changes the nodes at their places, which refer to
    that name, and no others. The number of references that are counted is the number of these
    nodes; it is zero exactly when the schema is unchanged, and exactly when it equals the result.
    References to other names stay wherever they do not stand in the type or the title of a changed
    node. -/
theorem neutralize_changes_self_references (own : String) (schema : Json)
    (h_schema : schema.WellFormed) :
    Rewritten own schema (neutralize own schema) (selfPlaces own schema) ∧
      selfReferences own schema = (selfPlaces own schema).length ∧
      (selfReferences own schema = 0 ↔ neutralize own schema = schema) ∧
      (selfReferences own schema = 0 ↔ schema.same (neutralize own schema) = true) ∧
      ∀ pointer target, schema.at? (pointer ++ [.field "$ref"]) = some (.text target) →
        target ≠ own → target ≠ Reference.definitionRoot ++ own →
        (∀ place ∈ selfPlaces own schema, ∀ key ∈ ["type", "title"],
          ¬ place ++ [.field key] <+: pointer) →
        (neutralize own schema).at? (pointer ++ [.field "$ref"]) = some (.text target) := by
  have h_rewritten := rewritten_neutralize own h_schema
  refine ⟨h_rewritten, (length_selfPlaces own schema).symm, selfReferences_eq_zero_iff h_schema,
    ⟨?_, selfReferences_eq_zero_of_same h_schema⟩, ?_⟩
  · intro h_none
    rw [neutralize_of_none h_none]
    exact Json.same_refl h_schema
  · intro pointer target h_reference h_own h_path h_clear
    exact h_rewritten.reference_kept h_reference h_own h_path h_clear

/-- A schema that refers to itself by its path and by its bare name, and to another one. -/
def branchSchema : Json :=
  .object [("type", .text "object"), ("properties", .object
    [("parent", .object [("$ref", .text "#/definitions/Branch"), ("description", .text "above")]),
     ("leaf", .object [("$ref", .text "#/definitions/Leaf")]),
     ("others", .object [("type", .text "array"), ("items", .object [("$ref", .text "Branch")])])])]

/-- Both references of the schema to itself are replaced, that to the other schema stays. -/
theorem branch_changes_self_references :
    branchSchema.WellFormed ∧
      Rewritten "Branch" branchSchema (neutralize "Branch" branchSchema)
        [[.field "properties", .field "parent"],
          [.field "properties", .field "others", .field "items"]] ∧
      selfReferences "Branch" branchSchema = 2 ∧
      neutralize "Branch" branchSchema ≠ branchSchema ∧
      (neutralize "Branch" branchSchema).at? [.field "properties", .field "leaf", .field "$ref"] =
        some (.text "#/definitions/Leaf") := by
  have h_schema : branchSchema.WellFormed := by
    simp [branchSchema, Json.WellFormed, Json.WellFormedFields]
  have h_places : selfPlaces "Branch" branchSchema =
      [[.field "properties", .field "parent"],
        [.field "properties", .field "others", .field "items"]] := by
    decide +kernel
  obtain ⟨h_rewritten, h_count, h_unchanged, -, h_kept⟩ :=
    neutralize_changes_self_references "Branch" branchSchema h_schema
  rw [h_places] at h_rewritten h_count h_kept
  refine ⟨h_schema, h_rewritten, h_count, fun h_eq => ?_, ?_⟩
  · rw [h_unchanged.mpr h_eq] at h_count
    cases h_count
  · exact h_kept [.field "properties", .field "leaf"] "#/definitions/Leaf" rfl
      (by decide) (by decide) (by decide)

end OpenApiTs.Definitions
