/-
  OpenApiTs.Proofs.Endpoint.Lists

  The declaration of a list of parameters. The list becomes an object schema, which is compiled to
  an interface: a property for each name, in the order in which the names are first met, as the last
  parameter of the name describes it. It may be left out when no parameter of the name is required.
-/
import OpenApiTs.Endpoint.Fragment
import OpenApiTs.Proofs.Merged
import OpenApiTs.Proofs.Output.SharedFile
import OpenApiTs.Proofs.Schema.Legible
import OpenApiTs.Proofs.Schema.Members

namespace OpenApiTs

open OpenApiTs.Definitions (Inert Tidy ofDocument)
open OpenApiTs.Schema
open OpenApiTs.TypeScript

variable {definitions : Definitions} {parameters : List Parameter} {parameter : Parameter}
  {name key : String} {fields properties : Entries Json} {required : List String}
  {members : List (MemberHead × TypeExpr Mention)}

/-! ## Where the marker stands -/

namespace Definitions

/-- Whether the marker occurs in a parameter in the titles of placeholders for recorded references
    only: in no other text or key, nor in the identifier for one. -/
structure MarksParameter (definitions : Definitions) (parameter : Parameter) : Prop where
  name : Inert parameter.name
  description : ∀ words ∈ parameter.description, Inert words
  schema : ∀ schema ∈ parameter.schema, Tidy definitions.PlaceholderTitle schema

/-- An object stays tidy when its fields are changed for others that are. -/
theorem tidy_object_of_mem {others : Entries Json}
    (h_tidy : Tidy definitions.PlaceholderTitle (.object fields))
    (h_others : ∀ entry ∈ others,
      entry ∈ fields ∨ Inert entry.1 ∧ Tidy definitions.PlaceholderTitle entry.2) :
    Tidy definitions.PlaceholderTitle (.object others) := by
  apply Tidy.object
  · intro entry h_entry
    rcases h_others entry h_entry with h_old | ⟨h_key, -⟩
    · exact h_tidy.keys entry h_old
    · exact h_key
  · intro entry h_entry h_plain
    rcases h_others entry h_entry with h_old | ⟨-, h_value⟩
    · rcases h_tidy.of_mem_object h_old with h_value | h_planted
      · exact h_value
      · exact absurd h_planted h_plain
    · exact h_value

end Definitions

namespace Endpoint

open OpenApiTs.Definitions (tidy_object_of_mem)

/-! ## Schemas of properties -/

/-- Whether a value is the schema of the property for a parameter: it has the keywords of the
    parameter's schema, and the description of the parameter in the place of any other. -/
structure IsPropertySchema (parameter : Parameter) (schema : Json) : Prop where
  isObject : schema.isObject = true
  keyword (key : String) : key ≠ "description" →
    schema.field? key = parameter.schema.bind fun own => own.field? key
  description : schema.field? "description" = parameter.description.map Json.text

/-- The fields of the schema of a parameter; none when it has no schema or one that is no object. -/
def schemaFields (parameter : Parameter) : Entries Json :=
  (parameter.schema.bind Json.fields?).getD []

theorem propertyOf_eq (parameter : Parameter) :
    propertyOf parameter =
      match parameter.description with
      | some words => .object (Entries.put (schemaFields parameter) "description" (.text words))
      | none => .object (Entries.remove (schemaFields parameter) "description") := by
  obtain ⟨name, location, required, description, schema⟩ := parameter
  cases description <;> rcases schema with _ | _ | _ | _ | _ | _ | _ <;> rfl

theorem lookup_schemaFields (parameter : Parameter) (key : String) :
    (schemaFields parameter).lookup key = parameter.schema.bind fun own => own.field? key := by
  rw [schemaFields]
  rcases parameter.schema with _ | _ | _ | _ | _ | _ | _ <;> rfl

theorem nodup_names_schemaFields (h_formed : ∀ schema ∈ parameter.schema, schema.WellFormed) :
    (Entries.names (schemaFields parameter)).Nodup := by
  rw [schemaFields]
  cases h_schema : parameter.schema with
  | none => exact List.nodup_nil
  | some schema =>
    cases schema with
    | object fields => exact (Json.wellFormed_object_iff.mp (h_formed _ h_schema)).1
    | _ => exact List.nodup_nil

/-- The property of a parameter is its schema, with the parameter's own description or none. -/
theorem isPropertySchema_propertyOf (h_formed : ∀ schema ∈ parameter.schema, schema.WellFormed) :
    IsPropertySchema parameter (propertyOf parameter) := by
  have h_names := nodup_names_schemaFields h_formed
  rw [propertyOf_eq]
  cases h_description : parameter.description with
  | some words =>
    refine ⟨rfl, ?_, ?_⟩
    · intro key h_key
      show (Entries.put _ _ _).lookup key = _
      rw [Entries.lookup_put, if_neg h_key, lookup_schemaFields]
    · show (Entries.put _ _ _).lookup "description" = _
      rw [Entries.lookup_put, if_pos rfl, h_description]
      rfl
  | none =>
    refine ⟨rfl, ?_, ?_⟩
    · intro key h_key
      show (Entries.remove _ _).lookup key = _
      rw [Entries.lookup_remove_of_ne h_names h_key, lookup_schemaFields]
    · show (Entries.remove _ _).lookup "description" = _
      rw [Entries.lookup_remove h_names, h_description]
      rfl

/-- The comment of a property is the description of its parameter, unless that is empty. -/
theorem IsPropertySchema.description?_eq {schema : Json} (h_schema : IsPropertySchema parameter schema) :
    description? schema = parameter.description.filter fun words => words ≠ "" := by
  rw [description?, Json.wordsAt?, Json.textAt?, h_schema.description]
  cases parameter.description <;> rfl

theorem tidy_schemaFields (h_marks : definitions.MarksParameter parameter) :
    Tidy definitions.PlaceholderTitle (.object (schemaFields parameter)) := by
  have h_none : Tidy definitions.PlaceholderTitle (.object []) :=
    .object (List.forall_mem_nil _) (List.forall_mem_nil _)
  rw [schemaFields]
  cases h_schema : parameter.schema with
  | none => exact h_none
  | some schema =>
    cases schema with
    | object fields => exact h_marks.schema _ h_schema
    | _ => exact h_none

theorem tidy_propertyOf (h_marks : definitions.MarksParameter parameter) :
    Tidy definitions.PlaceholderTitle (propertyOf parameter) := by
  have h_fields := tidy_schemaFields h_marks
  rw [propertyOf_eq]
  cases h_description : parameter.description with
  | some words =>
    apply tidy_object_of_mem h_fields
    intro entry h_entry
    have h_key : Inert "description" := by decide +kernel
    rcases Entries.mem_put h_entry with rfl | h_old
    · exact .inr ⟨h_key, .text (h_marks.description words h_description)⟩
    · exact .inl h_old
  | none =>
    apply tidy_object_of_mem h_fields
    intro entry h_entry
    exact .inl (Entries.mem_of_mem_remove h_entry)

/-! ## The schema of a list -/

/-- The parameters under their names, as properties. -/
def pairsOf (parameters : List Parameter) : List (String × Json) :=
  parameters.map fun parameter => (parameter.name, propertyOf parameter)

/-- The names of the parameters that are required. -/
def requiredOf (parameters : List Parameter) : List String :=
  (parameters.filter Parameter.required).map Parameter.name

/-- The fields of the schema for a list of parameters. -/
def listFields (parameters : List Parameter) (name : String) : Entries Json :=
  [("title", .text name), ("type", .text "object"),
    ("properties", .object (Entries.ofPairs (pairsOf parameters))),
    ("required", .array ((requiredOf parameters).map Json.text)),
    ("additionalProperties", .bool false)]

/-- It is an object of five keywords. -/
theorem listSchema_eq (parameters : List Parameter) (name : String) :
    listSchema parameters name = .object (listFields parameters name) := by
  rw [listFields, requiredOf, List.map_map]
  rfl

/-- The schema that a list of parameters is compiled as has no marks but those of their schemas. -/
theorem tidy_listSchema (h_name : Inert name)
    (h_parameters : ∀ parameter ∈ parameters, definitions.MarksParameter parameter) :
    Tidy definitions.PlaceholderTitle (listSchema parameters name) := by
  have h_properties : Tidy definitions.PlaceholderTitle
      (.object (Entries.ofPairs (pairsOf parameters))) := by
    have h_entry : ∀ entry ∈ Entries.ofPairs (pairsOf parameters),
        Inert entry.1 ∧ Tidy definitions.PlaceholderTitle entry.2 := by
      intro entry h_entry
      obtain ⟨own, h_own, rfl⟩ := List.mem_map.mp (Entries.mem_of_mem_ofPairs h_entry)
      exact ⟨(h_parameters own h_own).name, tidy_propertyOf (h_parameters own h_own)⟩
    exact .object (fun entry h_mem => (h_entry entry h_mem).1)
      fun entry h_mem _ => (h_entry entry h_mem).2
  have h_required : Tidy definitions.PlaceholderTitle
      (.array ((requiredOf parameters).map Json.text)) := by
    apply Tidy.array
    intro item h_item
    obtain ⟨own, h_own, rfl⟩ := List.mem_map.mp h_item
    obtain ⟨parameter, h_parameter, rfl⟩ := List.mem_map.mp h_own
    exact .text (h_parameters parameter (List.mem_of_mem_filter h_parameter)).name
  have h_keys : ∀ entry ∈ listFields parameters name, Inert entry.1 := by
    have h_fixed : ∀ key ∈ ["title", "type", "properties", "required", "additionalProperties"],
        Inert key := by decide +kernel
    intro entry h_entry
    exact h_fixed entry.1 (List.mem_map_of_mem h_entry)
  rw [listSchema_eq]
  refine .object h_keys ?_
  have h_object : Inert "object" := by decide +kernel
  simp only [listFields, List.forall_mem_cons]
  exact ⟨fun _ => .text h_name, fun _ => .text h_object, fun _ => h_properties,
    fun _ => h_required, fun _ => .bool false, nofun⟩

/-- The schema for a list is declared as an interface with a property for each name and no index
    signature. -/
theorem declare_listSchema {plain : Declaration Mention}
    (h_declare : declare key (listSchema parameters name) = .ok plain) :
    ∃ members, propertiesShape (requiredOf parameters) (Entries.ofPairs (pairsOf parameters)) =
        .ok members ∧ plain = ⟨key, none, .interface, .record members⟩ := by
  rw [listSchema_eq] at h_declare
  have h_required : requiredNames (listFields parameters name) = requiredOf parameters := by
    show ((requiredOf parameters).map Json.text).filterMap Json.text? = _
    rw [List.filterMap_map]
    exact List.filterMap_some
  have h_listed : listedShape (listFields parameters name) =
      propertiesShape (requiredOf parameters) (Entries.ofPairs (pairsOf parameters)) := by
    rw [listedShape_eq, ← h_required]
    rfl
  -- no further properties are allowed, so no index is written
  have h_index : indexShape (listFields parameters name) = .ok [] := by
    rw [indexShape_eq]
    rfl
  have h_body : declare key (.object (listFields parameters name)) =
      (do
        let type ← recordShape (listFields parameters name)
        return ⟨key, none, .interface, type⟩) := rfl
  rw [h_body] at h_declare
  obtain ⟨type, h_type, h_made⟩ := Outcome.bind_eq_ok_iff.mp h_declare
  obtain rfl := Except.ok.inj h_made
  rw [recordShape, h_listed, h_index] at h_type
  obtain ⟨members, h_members, h_record⟩ := Outcome.bind_eq_ok_iff.mp h_type
  obtain rfl := Except.ok.inj h_record
  rw [List.append_nil]
  exact ⟨members, h_members, rfl⟩

/-! ## Properties -/

/-- Whether a member is the property for a name in a list of parameters. The last parameter of the
    name gives its type and its comment; it may be left out when none of them is required. -/
def IsProperty (parameters : List Parameter) (name : String)
    (member : MemberHead × TypeExpr Mention) : Prop :=
  ∃ last schema optional,
    (parameters.filter fun parameter => parameter.name = name).getLast? = some last ∧
    IsPropertySchema last schema ∧
    member.1 = .property (last.description.filter fun words => words ≠ "") name optional ∧
    (optional = false ↔
      ∃ parameter ∈ parameters, parameter.name = name ∧ parameter.required = true) ∧
    shape schema = .ok member.2

/-- What was put last under a name is the property for the last parameter of the name. -/
theorem exists_last_of_lookup {schema : Json}
    (h_schema : (pairsOf parameters).reverse.lookup name = some schema) :
    ∃ last, (parameters.filter fun parameter => parameter.name = name).getLast? = some last ∧
      schema = propertyOf last := by
  -- from the last parameter to the first, as the search goes
  induction parameters using List.reverseRecOn with
  | nil => cases h_schema
  | append_singleton parameters parameter ih =>
    rw [pairsOf, List.map_append, List.reverse_append, List.map_singleton, List.reverse_singleton,
      List.singleton_append, Entries.lookup_cons] at h_schema
    rw [List.filter_append]
    by_cases h_name : parameter.name = name
    · rw [if_pos h_name.symm] at h_schema
      rw [List.filter_cons_of_pos (by simpa using h_name), List.filter_nil, List.getLast?_concat]
      exact ⟨parameter, rfl, (Option.some.inj h_schema).symm⟩
    · rw [if_neg (Ne.symm h_name)] at h_schema
      rw [List.filter_cons_of_neg (by simpa using h_name), List.filter_nil, List.append_nil]
      exact ih h_schema

theorem mem_requiredOf_iff : name ∈ requiredOf parameters ↔
    ∃ parameter ∈ parameters, parameter.name = name ∧ parameter.required = true := by
  simp only [requiredOf, List.mem_map, List.mem_filter]
  constructor
  · rintro ⟨parameter, ⟨h_parameter, h_required⟩, h_name⟩
    exact ⟨parameter, h_parameter, h_name, h_required⟩
  · rintro ⟨parameter, h_parameter, h_name, h_required⟩
    exact ⟨parameter, ⟨h_parameter, h_required⟩, h_name⟩

/-- The members for a list of parameters are the properties for its names, in the order in which
    these are first met. -/
theorem properties_of_propertiesShape
    (h_formed : ∀ parameter ∈ parameters, ∀ schema ∈ parameter.schema, schema.WellFormed)
    (h_shape : propertiesShape (requiredOf parameters) (Entries.ofPairs (pairsOf parameters)) =
      .ok members) :
    List.Forall₂ (IsProperty parameters) (parameters.map Parameter.name).eraseDups members := by
  have h_names : Entries.names (Entries.ofPairs (pairsOf parameters)) =
      (parameters.map Parameter.name).eraseDups := by
    rw [Entries.names_ofPairs, Entries.names, pairsOf, List.map_map]
    rfl
  have h_members := forall₂_of_propertiesShape h_shape
  rw [← h_names, Entries.names, List.forall₂_map_left_iff]
  apply List.Forall₂.imp _ ((List.forall₂_and_left _ _).mpr ⟨fun entry h_entry => h_entry, h_members⟩)
  rintro entry member ⟨h_entry, h_head, h_type⟩
  -- the entry is the one that its name finds, and so the last one that was put
  have h_found := Entries.lookup_of_mem (Entries.nodup_names_ofPairs _) h_entry
  rw [Entries.lookup_ofPairs] at h_found
  obtain ⟨last, h_last, h_schema⟩ := exists_last_of_lookup h_found
  have h_mem : last ∈ parameters := List.mem_of_mem_filter (List.mem_of_getLast? h_last)
  have h_own : IsPropertySchema last entry.2 :=
    h_schema ▸ isPropertySchema_propertyOf (h_formed last h_mem)
  refine ⟨last, entry.2, !(requiredOf parameters).contains entry.1, h_last, h_own, ?_, ?_, h_type⟩
  · rw [h_head, h_own.description?_eq]
  · rw [Bool.not_eq_false', List.contains_iff_mem]
    exact mem_requiredOf_iff

/-! ## Declarations -/

/-- The names under which lists of parameters are declared. -/
def listNames : List String := ["Query", "Header", "Cookie"]

theorem inert_of_mem_listNames (h_name : name ∈ listNames) :
    Inert name ∧ Name.identifier name = name := by
  have h_names : ∀ name ∈ listNames, Inert name ∧ Name.identifier name = name := by decide +kernel
  exact h_names name h_name

/-- Where the marker stands in placeholders only, nothing is scrubbed from the declaration of a
    list. -/
theorem listDeclaration?_eq (h_some : parameters ≠ []) (h_name : name ∈ listNames)
    (h_definitions : definitions.MarksPlaceholders)
    (h_parameters : ∀ parameter ∈ parameters, definitions.MarksParameter parameter) :
    listDeclaration? typeScript definitions parameters name =
      (typeScript (listSchema parameters name) name definitions).map some := by
  have h_inert := (inert_of_mem_listNames h_name).1
  have h_tidy := tidy_listSchema h_inert h_parameters
  rw [listDeclaration?, if_neg (by simpa using h_some),
    (typeScript_unmarked h_definitions.putsBack h_inert h_tidy).2]

/-- A list of parameters is declared as an interface. It has one property for each name, in the order
    in which the names are first met, and no index signature; the names in the types of the
    properties are chosen in that order, with no more claimed before than the declaration itself.
    What else is declared comes after it. -/
theorem list_declared (h_some : parameters ≠ []) (h_name : name ∈ listNames)
    (h_definitions : definitions.MarksPlaceholders)
    (h_parameters : ∀ parameter ∈ parameters, definitions.MarksParameter parameter)
    (h_formed : ∀ parameter ∈ parameters, ∀ schema ∈ parameter.schema, schema.WellFormed)
    {fragment : Option String}
    (h_made : listDeclaration? typeScript definitions parameters name = .ok fragment) :
    ∃ (properties : List (MemberHead × TypeExpr Mention))
      (members : List (MemberHead × TypeExpr String)) (others : List (Declaration String)),
      fragment = some ((Declaration.mk name none .interface (.record members)).render ++
        String.join (others.map Declaration.render)) ∧
      List.Forall₂ (IsProperty parameters) (parameters.map Parameter.name).eraseDups properties ∧
      members = (TypeExpr.renameMembers (Roster.choose definitions name) properties
        [(name, listSchema parameters name)]).1 ∧
      members.map Prod.fst = properties.map Prod.fst := by
  have h_identifier := (inert_of_mem_listNames h_name).2
  rw [listDeclaration?_eq h_some h_name h_definitions h_parameters] at h_made
  obtain ⟨text, h_text, rfl⟩ := Outcome.map_eq_ok_iff.mp h_made
  obtain ⟨compilation, h_compile, rfl⟩ := typeScript_eq_ok_iff.mp h_text
  -- the first declaration is the list itself, under the name that it was asked for
  obtain ⟨plain, others, h_declare, h_compiled⟩ := exists_made_root h_compile
  rw [h_identifier] at h_declare h_compiled
  obtain ⟨properties, h_shape, rfl⟩ := declare_listSchema h_declare
  refine ⟨properties, _, others, ?_, properties_of_propertiesShape h_formed h_shape, rfl,
    map_fst_renameMembers _ properties _⟩
  rw [Compilation.render, h_compiled, List.map_cons, String.join_cons]
  rfl

/-- Parameters of a search. The first and the last one have the same name. -/
def searchParameters : List Parameter :=
  [⟨"limit", .query, true, some "How many.", some (.object [("type", .text "string")])⟩,
    ⟨"after", .query, false, none, some nodeReference⟩,
    ⟨"limit", .query, false, none,
      some (.object [("type", .text "integer"), ("description", .text "How many nodes.")])⟩]

/-- The parameters as they are declared, and the nodes that one of them refers to. -/
def searchText : String :=
  "export interface Query \x7b\nlimit: number\nafter?: Node\n\x7d\n" ++
    "export interface Node \x7b\n/**\n * what is shown\n */\nlabel?: string\nnext?: Node\n" ++
    "[k: string]: any\n\x7d\n"

theorem search_declared :
    searchParameters ≠ [] ∧ "Query" ∈ listNames ∧ (ofDocument nodeDocument).MarksPlaceholders ∧
      (∀ parameter ∈ searchParameters, (ofDocument nodeDocument).MarksParameter parameter) ∧
      (∀ parameter ∈ searchParameters, ∀ schema ∈ parameter.schema, schema.WellFormed) ∧
      listDeclaration? typeScript (ofDocument nodeDocument) searchParameters "Query" =
        .ok (some searchText) ∧
      ∃ (properties : List (MemberHead × TypeExpr Mention))
        (members : List (MemberHead × TypeExpr String)) (others : List (Declaration String)),
        some searchText = some ((Declaration.mk "Query" none .interface (.record members)).render ++
          String.join (others.map Declaration.render)) ∧
        List.Forall₂ (IsProperty searchParameters) ["limit", "after"] properties ∧
        members.map Prod.fst = properties.map Prod.fst := by
  have h_name : "Query" ∈ listNames := by decide
  have h_definitions : (ofDocument nodeDocument).MarksPlaceholders :=
    Definitions.marksPlaceholders_ofDocument (by decide +kernel)
  have h_parameters : ∀ parameter ∈ searchParameters,
      (ofDocument nodeDocument).MarksParameter parameter := by
    have h_inert : ∀ parameter ∈ searchParameters, Inert parameter.name ∧
        (∀ words ∈ parameter.description, Inert words) ∧
        ∀ schema ∈ parameter.schema, Definitions.AllInert schema := by decide +kernel
    intro parameter h_parameter
    obtain ⟨h_own, h_words, h_schema⟩ := h_inert parameter h_parameter
    exact ⟨h_own, h_words, fun schema h_held => Definitions.tidy_of_allInert (h_schema schema h_held)⟩
  have h_formed : ∀ parameter ∈ searchParameters, ∀ schema ∈ parameter.schema,
      schema.WellFormed := by
    simp [searchParameters, nodeReference, Json.WellFormed, Json.WellFormedFields]
  have h_some : searchParameters ≠ [] := by simp [searchParameters]
  have h_text : typeScript (listSchema searchParameters "Query") "Query" (ofDocument nodeDocument) =
      .ok searchText := Outcome.eq_ok_of_toOption (by decide +kernel)
  have h_made : listDeclaration? typeScript (ofDocument nodeDocument) searchParameters "Query" =
      .ok (some searchText) := by
    rw [listDeclaration?_eq h_some h_name h_definitions h_parameters, h_text]
    rfl
  obtain ⟨properties, members, others, h_first, h_properties, -, h_heads⟩ :=
    list_declared h_some h_name h_definitions h_parameters h_formed h_made
  exact ⟨h_some, h_name, h_definitions, h_parameters, h_formed, h_made, properties, members, others,
    h_first, h_properties, h_heads⟩

end Endpoint

end OpenApiTs
