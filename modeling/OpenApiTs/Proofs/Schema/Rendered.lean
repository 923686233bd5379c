/-
  OpenApiTs.Proofs.Schema.Rendered

  The nodes that are rendered inside a declaration, and which of them are malformed. A node is
  rendered with its parts: the members of its combination, its items when it is an array, its
  properties and its index signature when it is an object. A titled part is not looked into, it is
  declared on its own.

  A shape fails only for a fault of the node or of one of its parts, and it fails whenever there is
  such a fault; so a schema is declared unless some node that is rendered in it is malformed.
-/
import OpenApiTs.Proofs.Schema.Neutral
import OpenApiTs.Proofs.Schema.Pulled

namespace OpenApiTs.Schema

open OpenApiTs.Outcome (bind_eq_error_iff exists_of_mapM_error mapM_fails)
open OpenApiTs.TypeScript

variable {fields : Entries Json} {schema own part : Json} {fault : Fault}

/-! ## Malformed nodes -/

/-- Whether the type of a node counts: it is no reference and no combination, and it has neither a
    list of values nor a single one. -/
structure TypeDecides (fields : Entries Json) : Prop where
  no_reference : fields.lookup "$ref" = none
  no_combination : combination? fields = none
  no_values : (fields.lookup "enum").bind Json.items? = none
  no_value : fields.lookup "const" = none

/-- What is wrong with a node itself, whatever its parts are. -/
inductive Faulty (fields : Entries Json) : Fault → Prop where
  | target {value : Json} (h_target : fields.lookup "$ref" = some value)
      (h_other : ∀ text, value ≠ .text text) : Faulty fields .targetNotText
  | members {combination : Combination} {members : Json} (h_target : fields.lookup "$ref" = none)
      (h_found : combination? fields = some (combination, members))
      (h_other : ∀ items, members ≠ .array items) : Faulty fields (.membersNotList combination)
  | entry {kinds : List Json} {kind : Json} (h_decides : TypeDecides fields)
      (h_kinds : fields.lookup "type" = some (.array kinds)) (h_kind : kind ∈ kinds)
      (h_other : ∀ text, kind ≠ .text text) : Faulty fields .kindNotText
  | kind {value : Json} (h_decides : TypeDecides fields)
      (h_kind : fields.lookup "type" = some value) (h_text : ∀ text, value ≠ .text text)
      (h_array : ∀ kinds, value ≠ .array kinds) : Faulty fields (.unknownKind value)

/-! ## Parts -/

/-- Whether a word is the type of a node or one of its types. -/
def HasKind (fields : Entries Json) (kind : String) : Prop :=
  fields.lookup "type" = some (.text kind) ∨
    ∃ kinds, fields.lookup "type" = some (.array kinds) ∧ .text kind ∈ kinds

/-- Whether a node is an object by its type or, without one, by its other keywords. -/
def IsRecord (fields : Entries Json) : Prop :=
  HasKind fields "object" ∨ fields.lookup "type" = none ∧ looksLikeObject fields = true

/-- Whether a node is an array by its type or, without one, by its other keywords. -/
def IsArray (fields : Entries Json) : Prop :=
  HasKind fields "array" ∨
    fields.lookup "type" = none ∧ looksLikeObject fields = false ∧
      Entries.has fields "items" = true

/-- The schemas for the items of an array. -/
def itemParts (fields : Entries Json) : List Json :=
  match fields.lookup "items" with
  | some (.array items) => items
  | some item => [item]
  | none => []

/-- The schemas of the listed properties. -/
def propertyParts (fields : Entries Json) : List Json :=
  match fields.lookup "properties" with
  | some (.object properties) => properties.map Prod.snd
  | _ => []

/-- The schema for other properties than the listed ones, if there is one. -/
def indexParts (fields : Entries Json) : List Json :=
  match fields.lookup "additionalProperties" with
  | none => []
  | some (.bool _) => []
  | some schema => [schema]

/-- What is rendered in the text of a node. -/
inductive Part (fields : Entries Json) : Json → Prop where
  | member {combination : Combination} {members : List Json} {part : Json}
      (h_target : fields.lookup "$ref" = none)
      (h_found : combination? fields = some (combination, .array members))
      (h_part : part ∈ members) : Part fields part
  | item {part : Json} (h_decides : TypeDecides fields) (h_array : IsArray fields)
      (h_part : part ∈ itemParts fields) : Part fields part
  | held {part : Json} (h_decides : TypeDecides fields) (h_record : IsRecord fields)
      (h_part : part ∈ propertyParts fields ++ indexParts fields) : Part fields part

/-- What is rendered in the declaration of a schema: the schema itself, whatever its title, and the
    parts of what is rendered that have no title. -/
inductive Rendered (schema : Json) : Json → Prop where
  | itself : Rendered schema schema
  | part {fields : Entries Json} {part : Json} (h_node : Rendered schema (.object fields))
      (h_part : Part fields part) (h_untitled : part.wordsAt? "title" = none) :
      Rendered schema part

/-- Whether a malformed node is rendered in the declaration of a schema. -/
def Flawed (schema : Json) : Prop :=
  ∃ fields fault, Rendered schema (.object fields) ∧ Faulty fields fault

/-- What is rendered in a rendered part is rendered in the whole. -/
theorem Rendered.trans {inner node : Json} (h_outer : Rendered schema inner)
    (h_inner : Rendered inner node) : Rendered schema node := by
  induction h_inner with
  | itself => exact h_outer
  | part _ h_part h_untitled ih => exact .part ih h_part h_untitled

theorem sizeOf_of_mem_itemParts (h_part : part ∈ itemParts fields) :
    sizeOf part < sizeOf fields := by
  unfold itemParts at h_part
  split at h_part
  · next items h_items =>
    have h_less := Json.sizeOf_of_lookup h_items
    have h_item := List.sizeOf_lt_of_mem h_part
    simp only [Json.array.sizeOf_spec] at h_less
    omega
  · next h_items =>
    rw [List.mem_singleton.mp h_part]
    exact Json.sizeOf_of_lookup h_items
  · simp at h_part

theorem sizeOf_of_mem_propertyParts (h_part : part ∈ propertyParts fields) :
    sizeOf part < sizeOf fields := by
  unfold propertyParts at h_part
  split at h_part
  · next properties h_listed =>
    -- a value is smaller than its entry, and the entry than the list
    obtain ⟨⟨key, value⟩, h_entry, rfl⟩ := List.mem_map.mp h_part
    have h_less := Json.sizeOf_of_lookup h_listed
    have h_held := List.sizeOf_lt_of_mem h_entry
    simp only [Json.object.sizeOf_spec, Prod.mk.sizeOf_spec] at h_less h_held ⊢
    omega
  · simp at h_part

theorem sizeOf_of_mem_indexParts (h_part : part ∈ indexParts fields) :
    sizeOf part < sizeOf fields := by
  unfold indexParts at h_part
  split at h_part
  · simp at h_part
  · simp at h_part
  · next h_index =>
    rw [List.mem_singleton.mp h_part]
    exact Json.sizeOf_of_lookup h_index

/-- Parts are smaller than what they are parts of, so a recursion over them ends. -/
theorem Part.sizeOf_lt (h_part : Part fields part) : sizeOf part < sizeOf fields := by
  cases h_part with
  | member _ h_found h_member =>
    have h_less := sizeOf_of_combination? h_found
    have h_item := List.sizeOf_lt_of_mem h_member
    simp only [Json.array.sizeOf_spec] at h_less
    omega
  | item _ _ h_item => exact sizeOf_of_mem_itemParts h_item
  | held _ _ h_held =>
    rcases List.mem_append.mp h_held with h_property | h_index
    · exact sizeOf_of_mem_propertyParts h_property
    · exact sizeOf_of_mem_indexParts h_index

/-! ## Shapes that rest on parts -/

/-- Whether something fails for the fault of a part, and only for one. -/
structure RestsOn {α : Type} (parts : List Json) (shaped : Shaped α) : Prop where
  exists_part : ∀ fault, shaped = .error fault → ∃ part ∈ parts, shape part = .error fault
  fails : ∀ part ∈ parts, (∃ fault, shape part = .error fault) → ∃ fault, shaped = .error fault

namespace RestsOn

variable {α β : Type} {parts more : List Json}

/-- A result rests on nothing. -/
theorem ok (result : α) : RestsOn [] (.ok result) := ⟨nofun, by simp⟩

/-- The shape of a part rests on that part. -/
theorem shape (part : Json) : RestsOn [part] (shape part) := by
  constructor
  · exact fun fault h_fault => ⟨part, List.mem_singleton.mpr rfl, h_fault⟩
  · intro other h_other h_fault
    rwa [List.mem_singleton.mp h_other] at h_fault

/-- One step after another rests on the parts of both: it fails with the fault of the first part
    that fails, and whenever one fails. -/
theorem bind {first : Shaped α} {next : α → Shaped β} (h_first : RestsOn parts first)
    (h_next : ∀ result, RestsOn more (next result)) : RestsOn (parts ++ more) (first >>= next) := by
  constructor
  · intro fault h_fault
    -- the fault comes from the first step or, when that has a result, from the second
    rcases bind_eq_error_iff.mp h_fault with h_fault | ⟨result, -, h_fault⟩
    · obtain ⟨part, h_part, h_shape⟩ := h_first.exists_part fault h_fault
      exact ⟨part, List.mem_append_left more h_part, h_shape⟩
    · obtain ⟨part, h_part, h_shape⟩ := (h_next result).exists_part fault h_fault
      exact ⟨part, List.mem_append_right parts h_part, h_shape⟩
  · intro part h_part h_shape
    -- where the first step fails, the whole does; otherwise it is the second step that has to
    cases first with
    | error fault => exact ⟨fault, rfl⟩
    | ok result =>
      rcases List.mem_append.mp h_part with h_part | h_part
      · obtain ⟨fault, h_fault⟩ := h_first.fails part h_part h_shape
        cases h_fault
      · exact (h_next result).fails part h_part h_shape

/-- What is made of a result cannot fail. -/
theorem map {first : Shaped α} (h_first : RestsOn parts first) (make : α → β) :
    RestsOn parts (first >>= fun result => .ok (make result)) := by
  have h_made : RestsOn (parts ++ []) (first >>= fun result => .ok (make result)) :=
    h_first.bind fun result => ok (make result)
  rwa [List.append_nil] at h_made

end RestsOn

/-- A list of shapes rests on every schema of it. -/
theorem restsOn_shapeAll (schemas : List Json) : RestsOn schemas (shapeAll schemas) := by
  induction schemas with
  | nil =>
    rw [shapeAll]
    exact .ok []
  | cons schema others ih =>
    rw [shapeAll]
    exact (RestsOn.shape schema).bind fun first => ih.map (first :: ·)

theorem restsOn_arrayShape (fields : Entries Json) :
    RestsOn (itemParts fields) (arrayShape fields) := by
  rw [arrayShape_eq, itemParts]
  cases fields.lookup "items" with
  | none => exact .ok _
  | some items =>
    cases items with
    | array items => exact (restsOn_shapeAll items).map _
    | _ => exact (RestsOn.shape _).map _

/-- Properties rest on their schemas, whichever of them are required. -/
theorem restsOn_propertiesShape (required : List String) (properties : List (String × Json)) :
    RestsOn (properties.map Prod.snd) (propertiesShape required properties) := by
  induction properties with
  | nil =>
    rw [propertiesShape]
    exact .ok []
  | cons entry others ih =>
    rw [propertiesShape]
    exact (RestsOn.shape entry.2).bind fun type => ih.map _

theorem restsOn_listedShape (fields : Entries Json) :
    RestsOn (propertyParts fields) (listedShape fields) := by
  rw [listedShape_eq, propertyParts]
  cases fields.lookup "properties" with
  | none => exact .ok _
  | some listed =>
    cases listed with
    | object properties => exact restsOn_propertiesShape _ properties
    | _ => exact .ok _

theorem restsOn_indexShape (fields : Entries Json) :
    RestsOn (indexParts fields) (indexShape fields) := by
  rw [indexShape_eq, indexParts]
  cases fields.lookup "additionalProperties" with
  | none => exact .ok _
  | some schema =>
    cases schema with
    | bool value => cases value <;> exact .ok _
    | _ => exact (RestsOn.shape _).map _

/-- A record rests on its properties and its index signature. -/
theorem restsOn_recordShape (fields : Entries Json) :
    RestsOn (propertyParts fields ++ indexParts fields) (recordShape fields) := by
  rw [recordShape]
  exact (restsOn_listedShape fields).bind fun properties => (restsOn_indexShape fields).map _

/-! ## Faults of nodes -/

/-- A kind fails only where it is an array or a record that fails. -/
theorem ofKind_eq_error_iff {kind : String} {asArray asRecord : Shaped (TypeExpr Mention)} :
    ofKind kind asArray asRecord = .error fault ↔
      kind = "array" ∧ asArray = .error fault ∨ kind = "object" ∧ asRecord = .error fault := by
  unfold ofKind
  split <;> simp_all

/-- The fault in one of the types of a node is a type that is no word, or comes from the node as an
    array or as an object. -/
theorem ofKindEntry_error {kind : Json} {asArray asRecord : Shaped (TypeExpr Mention)}
    (h_error : ofKindEntry asArray asRecord kind = .error fault) :
    ((∀ text, kind ≠ .text text) ∧ fault = .kindNotText) ∨
      (kind = .text "array" ∧ asArray = .error fault) ∨
      (kind = .text "object" ∧ asRecord = .error fault) := by
  unfold ofKindEntry at h_error
  split at h_error
  · rcases ofKind_eq_error_iff.mp h_error with ⟨rfl, h_array⟩ | ⟨rfl, h_record⟩
    · exact .inr (.inl ⟨rfl, h_array⟩)
    · exact .inr (.inr ⟨rfl, h_record⟩)
  · next h_other =>
    cases h_error
    exact .inl ⟨h_other, rfl⟩

/-- The shape of a node whose type counts. -/
theorem fieldsShape_of_typeDecides (h_decides : TypeDecides fields) :
    fieldsShape fields =
      match fields.lookup "type" with
      | some (.text kind) => ofKind kind (arrayShape fields) (recordShape fields)
      | some (.array kinds) => do
        let parts ← kinds.mapM (ofKindEntry (arrayShape fields) (recordShape fields))
        return .alternatives parts
      | some other => .error (.unknownKind other)
      | none =>
        if looksLikeObject fields then recordShape fields
        else if Entries.has fields "items" then arrayShape fields
        else .ok .any := by
  have h_shape := fieldsShape_eq fields
  rw [h_decides.no_reference, h_decides.no_combination] at h_shape
  simp only [combinedShape, plainShape, h_decides.no_values, h_decides.no_value] at h_shape
  exact h_shape

/-- The fault of a node whose type counts is its own or that of a part. -/
theorem fault_of_typeDecides (h_decides : TypeDecides fields)
    (h_error : fieldsShape fields = .error fault) :
    Faulty fields fault ∨ ∃ part, Part fields part ∧ shape part = .error fault := by
  -- an array fails with one of its items, a record with one of the values it holds
  have h_item (h_array : IsArray fields) (h_fault : arrayShape fields = .error fault) :
      Faulty fields fault ∨ ∃ part, Part fields part ∧ shape part = .error fault := by
    obtain ⟨part, h_part, h_shape⟩ := (restsOn_arrayShape fields).exists_part fault h_fault
    exact .inr ⟨part, .item h_decides h_array h_part, h_shape⟩
  have h_held (h_record : IsRecord fields) (h_fault : recordShape fields = .error fault) :
      Faulty fields fault ∨ ∃ part, Part fields part ∧ shape part = .error fault := by
    obtain ⟨part, h_part, h_shape⟩ := (restsOn_recordShape fields).exists_part fault h_fault
    exact .inr ⟨part, .held h_decides h_record h_part, h_shape⟩
  rw [fieldsShape_of_typeDecides h_decides] at h_error
  -- the type as a text, as a list, as something else, and not at all
  split at h_error
  case h_1 kind h_kind =>
    rcases ofKind_eq_error_iff.mp h_error with ⟨rfl, h_fault⟩ | ⟨rfl, h_fault⟩
    · exact h_item (.inl (.inl h_kind)) h_fault
    · exact h_held (.inl (.inl h_kind)) h_fault
  case h_2 kinds h_kinds =>
    rcases bind_eq_error_iff.mp h_error with h_error | ⟨_, -, h_error⟩
    · obtain ⟨kind, h_kind, h_fault⟩ := exists_of_mapM_error h_error
      rcases ofKindEntry_error h_fault with ⟨h_other, rfl⟩ | ⟨rfl, h_fault⟩ | ⟨rfl, h_fault⟩
      · exact .inl (.entry h_decides h_kinds h_kind h_other)
      · exact h_item (.inl (.inr ⟨kinds, h_kinds, h_kind⟩)) h_fault
      · exact h_held (.inl (.inr ⟨kinds, h_kinds, h_kind⟩)) h_fault
    · cases h_error
  case h_3 other h_text h_array h_kind =>
    cases h_error
    exact .inl (.kind h_decides h_kind h_text h_array)
  case h_4 h_kind =>
    split at h_error
    · next h_looks => exact h_held (.inr ⟨h_kind, h_looks⟩) h_error
    · next h_looks =>
      split at h_error
      · next h_items => exact h_item (.inr ⟨h_kind, by simpa using h_looks, h_items⟩) h_error
      · cases h_error

/-- The fault of a node is its own or that of a part. -/
theorem fault_of_fieldsShape (h_error : fieldsShape fields = .error fault) :
    Faulty fields fault ∨ ∃ part, Part fields part ∧ shape part = .error fault := by
  have h_decided := h_error
  rw [fieldsShape_eq] at h_error
  -- each keyword that may decide is followed to its fault; enumerations and constants have none
  split at h_error
  case h_1 => cases h_error
  case h_2 value h_other h_target =>
    cases h_error
    exact .inl (.target h_target h_other)
  case h_3 h_target =>
    cases h_found : combination? fields with
    | some found =>
      obtain ⟨combination, members⟩ := found
      rw [h_found] at h_error
      unfold combinedShape at h_error
      split at h_error
      case h_1 own members h_eq =>
        cases h_eq
        obtain ⟨part, h_part, h_shape⟩ :=
          ((restsOn_shapeAll members).map combination.join).exists_part fault h_error
        exact .inr ⟨part, .member h_target h_found h_part, h_shape⟩
      case h_2 own members h_other h_eq =>
        cases h_eq
        cases h_error
        exact .inl (.members h_target h_found fun items h_items => h_other items h_items)
      case h_3 h_eq => cases h_eq
    | none =>
      cases h_values : (fields.lookup "enum").bind Json.items? with
      | some values => simp [h_found, combinedShape, plainShape, h_values] at h_error
      | none =>
        cases h_value : fields.lookup "const" with
        | some value => simp [h_found, combinedShape, plainShape, h_values, h_value] at h_error
        | none => exact fault_of_typeDecides ⟨h_target, h_found, h_values, h_value⟩ h_decided

/-- A node with a fault of its own has no shape. -/
theorem Faulty.fieldsShape (h_faulty : Faulty fields fault) :
    ∃ fault', fieldsShape fields = .error fault' := by
  cases h_faulty with
  | @target value h_target h_other =>
    refine ⟨.targetNotText, ?_⟩
    rw [fieldsShape_eq, h_target]
    cases value with
    | text words => exact absurd rfl (h_other words)
    | _ => rfl
  | @members combination members h_target h_found h_other =>
    refine ⟨.membersNotList combination, ?_⟩
    rw [fieldsShape_eq, h_target]
    simp only [h_found]
    cases members with
    | array items => exact absurd rfl (h_other items)
    | _ => rfl
  | @entry kinds kind h_decides h_kinds h_kind h_other =>
    have h_entry : ofKindEntry (arrayShape fields) (recordShape fields) kind =
        .error .kindNotText := by
      cases kind with
      | text words => exact absurd rfl (h_other words)
      | _ => rfl
    -- an earlier entry may fail first, so only some fault is promised
    obtain ⟨fault, h_fault⟩ := mapM_fails h_kind ⟨_, h_entry⟩
    rw [fieldsShape_of_typeDecides h_decides, h_kinds]
    exact ⟨fault, bind_eq_error_iff.mpr (.inl h_fault)⟩
  | @kind value h_decides h_kind h_text h_array =>
    refine ⟨.unknownKind value, ?_⟩
    rw [fieldsShape_of_typeDecides h_decides, h_kind]
    cases value with
    | text words => exact absurd rfl (h_text words)
    | array kinds => exact absurd rfl (h_array kinds)
    | _ => rfl

/-- What fails as an array or as an object makes a node fail that has such a type. -/
theorem fieldsShape_of_hasKind {kind : String} (h_decides : TypeDecides fields)
    (h_kind : HasKind fields kind)
    (h_fails : ∃ fault, ofKind kind (arrayShape fields) (recordShape fields) = .error fault) :
    ∃ fault, fieldsShape fields = .error fault := by
  rw [fieldsShape_of_typeDecides h_decides]
  rcases h_kind with h_single | ⟨kinds, h_kinds, h_mem⟩
  · rw [h_single]
    exact h_fails
  · have h_entry : ∃ fault,
        ofKindEntry (arrayShape fields) (recordShape fields) (.text kind) = .error fault := h_fails
    obtain ⟨fault, h_fault⟩ := mapM_fails h_mem h_entry
    rw [h_kinds]
    exact ⟨fault, bind_eq_error_iff.mpr (.inl h_fault)⟩

/-- A node with a part that has no shape has none. -/
theorem Part.fieldsShape (h_part : Part fields part) (h_fails : ∃ fault, shape part = .error fault) :
    ∃ fault, fieldsShape fields = .error fault := by
  cases h_part with
  | @member combination members _ h_target h_found h_member =>
    rw [fieldsShape_eq, h_target]
    simp only [h_found]
    exact ((restsOn_shapeAll members).map combination.join).fails part h_member h_fails
  | item h_decides h_array h_item =>
    obtain ⟨fault, h_fault⟩ := (restsOn_arrayShape fields).fails part h_item h_fails
    -- an array by its type, or one that only looks like it
    rcases h_array with h_kind | ⟨h_none, h_looks, h_items⟩
    · exact fieldsShape_of_hasKind h_decides h_kind ⟨fault, h_fault⟩
    · rw [fieldsShape_of_typeDecides h_decides, h_none]
      exact ⟨fault, by simp [h_looks, h_items, h_fault]⟩
  | held h_decides h_record h_held =>
    obtain ⟨fault, h_fault⟩ := (restsOn_recordShape fields).fails part h_held h_fails
    rcases h_record with h_kind | ⟨h_none, h_looks⟩
    · exact fieldsShape_of_hasKind h_decides h_kind ⟨fault, h_fault⟩
    · rw [fieldsShape_of_typeDecides h_decides, h_none]
      exact ⟨fault, by simp [h_looks, h_fault]⟩

/-! ## Faults of schemas -/

/-- A schema without a shape has a malformed node that is rendered in it, with the same fault. -/
theorem exists_faulty_of_bodyShape {schema : Json} (h_error : bodyShape schema = .error fault) :
    ∃ fields, Rendered schema (.object fields) ∧ Faulty fields fault := by
  match schema with
  | .object fields =>
    rw [bodyShape_object] at h_error
    -- the fault is here, or in a part that is smaller and has no title
    rcases fault_of_fieldsShape h_error with h_faulty | ⟨part, h_part, h_shape⟩
    · exact ⟨fields, .itself, h_faulty⟩
    · cases h_title : part.wordsAt? "title" with
      | some title =>
        rw [shape_of_titled h_title] at h_shape
        cases h_shape
      | none =>
        rw [shape_of_untitled h_title] at h_shape
        have h_less := h_part.sizeOf_lt
        obtain ⟨inner, h_inner, h_faulty⟩ := exists_faulty_of_bodyShape h_shape
        exact ⟨inner, (Rendered.itself.part h_part h_title).trans h_inner, h_faulty⟩
  | .bool false =>
    rw [bodyShape] at h_error
    cases h_error
  | .null | .bool true | .number _ | .text _ | .array _ =>
    rw [bodyShape] at h_error
    · cases h_error
    all_goals simp
termination_by sizeOf schema
decreasing_by
  simp only [Json.object.sizeOf_spec]
  omega

/-- Whatever is rendered without a shape leaves the schema without one. -/
theorem Rendered.bodyShape {node : Json} (h_rendered : Rendered schema node)
    (h_fails : ∃ fault, bodyShape node = .error fault) : ∃ fault, bodyShape schema = .error fault := by
  induction h_rendered with
  | itself => exact h_fails
  | @part fields part _ h_part h_untitled ih =>
    rw [← shape_of_untitled h_untitled] at h_fails
    exact ih (by rw [bodyShape_object]; exact h_part.fieldsShape h_fails)

/-- A schema that is declared as an interface is an object by its type. -/
theorem recordShape_of_isInterface (h_interface : isInterface (.object fields) = true) :
    recordShape fields = fieldsShape fields := by
  simp only [isInterface] at h_interface
  split at h_interface
  · cases h_interface
  · next h_any =>
    -- none of the keywords that count before the type is there
    have h_none : ∀ keyword ∈ ["$ref", "allOf", "anyOf", "oneOf", "enum", "const"],
        fields.lookup keyword = none := by
      intro keyword h_keyword
      rw [Entries.lookup_eq_none_iff, ← Entries.has_iff_mem_names]
      intro h_has
      exact h_any (List.any_eq_true.mpr ⟨keyword, h_keyword, h_has⟩)
    have h_decides : TypeDecides fields := by
      refine ⟨h_none _ (by simp), ?_, ?_, h_none _ (by simp)⟩
      · simp [combination?, h_none]
      · simp [h_none]
    rw [fieldsShape_of_typeDecides h_decides]
    split at h_interface
    · next kind h_kind =>
      rw [h_kind, beq_iff_eq.mp h_interface]
      rfl
    · next h_kind =>
      rw [h_kind]
      simp [h_interface]
    · cases h_interface

/-- The type of an interface is the body of its schema as that of an alias is. -/
theorem outline_eq_bodyShape (schema : Json) : outline schema = bodyShape schema := by
  cases schema with
  | object fields =>
    rw [outline]
    split
    · next h_interface => rw [bodyShape_object, recordShape_of_isInterface h_interface]
    · rfl
  | _ => rfl

/-- A schema cannot be declared when a malformed node is rendered in it, and only then; what is
    wrong is wrong with such a node. -/
theorem declare_eq_error {name : String} (h_error : declare name own = .error fault) :
    ∃ fields, Rendered own (.object fields) ∧ Faulty fields fault := by
  rw [declare_eq, outline_eq_bodyShape] at h_error
  cases h_body : bodyShape own with
  | error fault' =>
    rw [h_body] at h_error
    cases h_error
    exact exists_faulty_of_bodyShape h_body
  | ok type =>
    rw [h_body] at h_error
    cases h_error

/-- A flaw in a schema makes its declaration fail. -/
theorem Flawed.declare (h_flawed : Flawed own) (name : String) :
    ∃ fault, declare name own = .error fault := by
  obtain ⟨fields, fault, h_rendered, h_faulty⟩ := h_flawed
  have h_node : ∃ fault, Schema.bodyShape (.object fields) = .error fault := by
    rw [bodyShape_object]
    exact h_faulty.fieldsShape
  obtain ⟨fault, h_fault⟩ := h_rendered.bodyShape h_node
  exact ⟨fault, by rw [declare_eq, outline_eq_bodyShape, h_fault]; rfl⟩

end OpenApiTs.Schema
