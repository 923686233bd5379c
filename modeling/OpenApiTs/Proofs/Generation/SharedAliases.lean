/-
  OpenApiTs.Proofs.Generation.SharedAliases

  Aliases of shared types. The types of an operation call a shared type by the last part of its
  reference, the shared file declares it under the identifier for its name, so the two meet exactly
  when the name is its own identifier.
-/
import OpenApiTs.Proofs.Generation.Success
import OpenApiTs.Proofs.Output.SharedNames

namespace OpenApiTs.Generation

open OpenApiTs.Endpoint (declaration? itemsOf lineComment payloadSchema? sharedAlias)
open OpenApiTs.Output
open OpenApiTs.Schema (Compilation Compiler coined_of_compile description? root_declared
  typeScript)

variable {definitions : Definitions} {compilations : List Compilation} {document : Json}
  {generation : Generation} {options : Options} {cwd shared name : String} {schema : Json}
  {operation : Operation} {field : Field}

/-! ## Aliases of a payload -/

/-- The shared type that is written for a schema: that of a reference, or of a reference under the
    items of an array. -/
def aliasOf? (schema : Json) : Option String :=
  Reference.name? (if schema.textAt? "type" = some "array" then itemsOf schema else schema)

/-- The schema that is declared for a field of an operation. -/
def payload? (operation : Operation) : Field → Option Json
  | .body => operation.body
  | .response =>
    (Resolver.mainResponse? operation).bind fun response =>
      payloadSchema? (Resolver.responseNode response) "Data"
  | _ => none

/-- The shared types that are written for an operation: for its body and for its response. -/
def aliases (operation : Operation) : List String :=
  [Field.body, .response].filterMap fun field => (payload? operation field).bind aliasOf?

theorem mem_aliases_iff : shared ∈ aliases operation ↔
    ∃ field, (field = .body ∨ field = .response) ∧
      ∃ schema, payload? operation field = some schema ∧ aliasOf? schema = some shared := by
  simp [aliases, Option.bind_eq_some_iff]

/-- The declaration of an array whose items refer to a shared type. -/
theorem declaration?_array (h_array : schema.textAt? "type" = some "array")
    (h_items : Reference.name? (itemsOf schema) = some shared) (compiler : Compiler)
    (definitions : Definitions) (name : String) :
    declaration? compiler definitions (some schema) name =
      .ok (some (sharedAlias (Name.pascal (name ++ "Item")) shared ++ "\n" ++
        ((description? schema).map lineComment).getD "" ++ "\n" ++
        ("export type " ++ name ++ " = " ++ Name.pascal (name ++ "Item") ++ "[]"))) := by
  cases schema with
  | null => cases h_array
  | _ =>
    simp only [declaration?]
    rw [if_pos h_array, h_items]
    rfl

/-- The declaration of a reference to a shared type. -/
theorem declaration?_reference (h_array : schema.textAt? "type" ≠ some "array")
    (h_name : Reference.name? schema = some shared) (compiler : Compiler)
    (definitions : Definitions) (name : String) :
    declaration? compiler definitions (some schema) name =
      .ok (some (((description? schema).map fun words => lineComment words ++ "\n").getD "" ++
        sharedAlias name shared)) := by
  cases schema with
  | null => cases h_name
  | _ =>
    simp only [declaration?]
    rw [if_neg h_array, h_name]

/-- A schema with a shared type is declared by an alias of it, whatever the compiler does. -/
theorem declaration?_of_alias (h_alias : aliasOf? schema = some shared) (compiler : Compiler)
    (definitions : Definitions) (name : String) :
    ∃ text own, declaration? compiler definitions (some schema) name = .ok (some text) ∧
      Text.contains (sharedAlias own shared) text = true := by
  unfold aliasOf? at h_alias
  by_cases h_array : schema.textAt? "type" = some "array"
  · rw [if_pos h_array] at h_alias
    refine ⟨_, Name.pascal (name ++ "Item"), declaration?_array h_array h_alias _ _ _, ?_⟩
    exact Text.contains_append_left (Text.contains_append_left (Text.contains_append_left
      (Text.contains_append_left (Text.contains_self _) _) _) _) _
  · rw [if_neg h_array] at h_alias
    exact ⟨_, name, declaration?_reference h_array h_alias _ _ _,
      Text.contains_append_right _ (Text.contains_self _)⟩

/-- The default rules for bodies and responses declare the payload. -/
theorem standard_eq (h_field : field = .body ∨ field = .response) (compiler : Compiler)
    (definitions : Definitions) (operation : Operation) :
    ∃ name, Resolver.standard compiler definitions field operation =
      declaration? compiler definitions (payload? operation field) name := by
  rcases h_field with rfl | rfl
  · exact ⟨"Body", rfl⟩
  · refine ⟨"Data", ?_⟩
    simp only [Resolver.standard, payload?]
    cases Resolver.mainResponse? operation with
    | none => rfl
    | some response => rfl

/-- Whether the types of some group have an alias of a shared type. -/
def IsAliased (generation : Generation) (shared : String) : Prop :=
  ∃ group own, ∃ file ∈ generation.files, file.path = typesPath group ∧
    Text.contains (sharedAlias own shared) file.content = true

/-- Whether the shared file declares a name. -/
def IsDeclared (generation : Generation) (name : String) : Prop :=
  name ∈ sharedNames (sharedIn? generation.files)

/-- The alias of a shared type stands in the types of the operation's group. -/
theorem isAliased_of_mem_aliases (h_plain : options.IsPlain)
    (h_generate : ofDocument typeScript cwd document options = .ok generation)
    (h_operation : operation ∈ operationsOf document) (h_shared : shared ∈ aliases operation) :
    IsAliased generation shared := by
  obtain ⟨endpoints, h_settings, h_endpoints, h_files⟩ := exists_endpoints h_generate
  obtain ⟨field, h_field, schema, h_payload, h_alias⟩ := mem_aliases_iff.mp h_shared
  obtain ⟨endpoint, h_endpoint, h_fields⟩ := Resolver.exists_endpoint h_endpoints h_operation
  obtain ⟨name, h_rule⟩ := standard_eq h_field typeScript (definitionsOf document) operation
  obtain ⟨text, own, h_text, h_inside⟩ :=
    declaration?_of_alias h_alias typeScript (definitionsOf document) name
  have h_get : endpoint.get field = some text := by
    have h_own := h_fields field
    rw [h_plain.resolver_eq h_settings, h_rule, h_payload, h_text] at h_own
    exact (Except.ok.inj h_own).symm
  -- empty declarations are left out of a file, and this one holds an alias
  have h_some : text ≠ "" := by
    rintro rfl
    have h_alias : sharedAlias own shared = "export type " ++ own ++ " = Types." ++ shared := rfl
    rw [Text.contains_iff, h_alias] at h_inside
    simp at h_inside
  exact ⟨groupOf endpoint, own, _, (sharedIn?_files h_files).2 endpoint h_endpoint, rfl,
    contains_typesFile h_endpoint h_field h_get h_some h_inside⟩

/-! ## Names of definitions -/

/-- Whether some compilation has a declaration of a name. -/
def Makes (compilations : List Compilation) (name : String) : Prop :=
  ∃ declaration ∈ declarationsOf compilations, declaration.name = name

/-- A definition whose name is its own identifier is declared under it. -/
theorem makes_of_get? (h_compile : compileAll definitions = .ok compilations)
    (h_known : definitions.get? name ≠ none) (h_own : Name.identifier name = name) :
    Makes compilations name := by
  obtain ⟨schema, h_schema⟩ := Option.ne_none_iff_exists'.mp h_known
  have h_entry : (name, schema) ∈ definitions.schemas := Entries.mem_of_lookup h_schema
  obtain ⟨compilation, h_mem, h_run⟩ := Outcome.exists_mem_of_mapM h_compile h_entry
  obtain ⟨declaration, h_made, h_name⟩ := root_declared h_run
  exact ⟨declaration, List.mem_flatMap.mpr ⟨compilation, h_mem, h_made⟩, h_name.trans h_own⟩

/-- A name that is declared is its own identifier, unless it begins with a digit. -/
theorem identifier_eq_of_makes (h_compile : compileAll definitions = .ok compilations)
    (h_makes : Makes compilations name) (h_digit : Name.beginsWithDigit name = false) :
    Name.identifier name = name := by
  obtain ⟨declaration, h_mem, rfl⟩ := h_makes
  obtain ⟨compilation, h_compilation, h_made⟩ := List.mem_flatMap.mp h_mem
  obtain ⟨entry, -, h_run⟩ := Outcome.exists_item_of_mapM h_compile h_compilation
  exact (coined_of_compile h_run declaration h_made).identifier_eq h_digit

/-! ## Aliases of a document -/

/-- The shared file of a generation declares what the compilations of the definitions do. -/
theorem isDeclared_iff
    (h_generate : ofDocument typeScript cwd document options = .ok generation)
    (h_compile : compileAll (definitionsOf document) = .ok compilations)
    (h_unmarked : Unmarked compilations) :
    IsDeclared generation name ↔ Makes compilations name := by
  obtain ⟨endpoints, -, -, h_files⟩ := exists_endpoints h_generate
  have h_file := (sharedIn?_files h_files).1
  -- both sides are about the one file that the compilations make
  rw [sharedFile?_eq h_compile h_unmarked] at h_file
  rw [IsDeclared, ← Except.ok.inj h_file]
  exact mem_sharedNames_iff h_compile

/-- When a generation succeeds, every alias of a shared type stands in the types of its group, and
    the shared file declares the type exactly when some compilation of a definition does. For the
    alias of a definition this means that the name is its own identifier. -/
theorem shared_aliases_declared_iff (cwd : String) (document : Json) (options : Options)
    (generation : Generation) (h_plain : options.IsPlain)
    (h_generate : ofDocument typeScript cwd document options = .ok generation) :
    ∃ compilations, compileAll (definitionsOf document) = .ok compilations ∧
      (Unmarked compilations →
        ∀ operation ∈ operationsOf document, ∀ shared ∈ aliases operation,
          IsAliased generation shared ∧
          (IsDeclared generation shared ↔ Makes compilations shared) ∧
          ((definitionsOf document).get? shared ≠ none → Name.beginsWithDigit shared = false →
            (IsDeclared generation shared ↔ Name.identifier shared = shared))) := by
  obtain ⟨endpoints, -, -, h_files⟩ := exists_endpoints h_generate
  obtain ⟨compilations, h_compile⟩ := exists_compileAll (sharedIn?_files h_files).1
  refine ⟨compilations, h_compile, ?_⟩
  intro h_unmarked operation h_operation shared h_shared
  have h_declared : IsDeclared generation shared ↔ Makes compilations shared :=
    isDeclared_iff h_generate h_compile h_unmarked
  refine ⟨isAliased_of_mem_aliases h_plain h_generate h_operation h_shared, h_declared, ?_⟩
  intro h_known h_digit
  rw [h_declared]
  constructor
  · intro h_makes
    exact identifier_eq_of_makes h_compile h_makes h_digit
  · intro h_own
    exact makes_of_get? h_compile h_known h_own

/-- A document with one operation, which answers with a reference to its one schema. -/
def oneSchemaDocument (name : String) : Json :=
  let response := Json.object [("content", .object [("application/json", .object
    [("schema", .object [("$ref", .text ("#/components/schemas/" ++ name))])])])]
  .object
    [("paths", .object [("/pets", .object [("get", .object
      [("responses", .object [("200", response)])])])]),
     ("components", .object [("schemas", .object [(name, .object [("type", .text "string")])])])]

/-- Options that give an output directory and nothing else. -/
def plainOptions : Options :=
  { source := none
    outputDir := some "out"
    axiosFilePath := none
    requestTemplate := none
    successResponseTemplate := none
    bannerComment := none
    prettierConfig := none
    convention := .plain
    header := false
    cookie := false
    overrides := Overrides.none }

/-- Whether the document with one schema generates, and its operation has the alias of a name. -/
def generates (name : String) : Bool :=
  (ofDocument typeScript "/work" (oneSchemaDocument name) plainOptions).isOk &&
    (operationsOf (oneSchemaDocument name)).any fun operation => aliases operation == [name]

theorem exists_of_generates (h_generates : generates name = true) :
    ∃ generation operation,
      ofDocument typeScript "/work" (oneSchemaDocument name) plainOptions = .ok generation ∧
      operation ∈ operationsOf (oneSchemaDocument name) ∧ name ∈ aliases operation := by
  obtain ⟨h_ok, h_any⟩ := Bool.and_eq_true_iff.mp h_generates
  obtain ⟨operation, h_operation, h_aliases⟩ := List.any_eq_true.mp h_any
  cases h_generate : ofDocument typeScript "/work" (oneSchemaDocument name) plainOptions with
  | error failure =>
    rw [h_generate] at h_ok
    cases h_ok
  | ok generation =>
    refine ⟨generation, operation, rfl, h_operation, ?_⟩
    rw [beq_iff_eq.mp h_aliases]
    exact List.mem_singleton_self name

/-- The alias of `Pet` has its declaration. -/
theorem shared_alias_of_pet_declared :
    ∃ generation,
      ofDocument typeScript "/work" (oneSchemaDocument "Pet") plainOptions = .ok generation ∧
      ∃ operation ∈ operationsOf (oneSchemaDocument "Pet"), "Pet" ∈ aliases operation ∧
        IsAliased generation "Pet" ∧ IsDeclared generation "Pet" := by
  obtain ⟨generation, operation, h_generate, h_operation, h_shared⟩ :=
    @exists_of_generates "Pet" (by decide +kernel)
  obtain ⟨compilations, h_compile, h_aliases⟩ :=
    shared_aliases_declared_iff "/work" _ plainOptions generation ⟨rfl, rfl⟩ h_generate
  obtain ⟨others, h_others, h_unmarked, -⟩ :=
    @exists_of_checks (definitionsOf (oneSchemaDocument "Pet")) (fun _ => true) (by decide +kernel)
  -- the definitions compile one way only, so these are the compilations above
  obtain rfl := Except.ok.inj (h_compile.symm.trans h_others)
  obtain ⟨h_aliased, -, h_declared⟩ :=
    h_aliases h_unmarked operation h_operation "Pet" h_shared
  have h_known : (definitionsOf (oneSchemaDocument "Pet")).get? "Pet" ≠ none := by
    rw [← Option.isSome_iff_ne_none]
    decide +kernel
  exact ⟨generation, h_generate, operation, h_operation, h_shared, h_aliased,
    (h_declared h_known (by decide)).mpr (by decide +kernel)⟩

/-- The alias of `pet` has none: the schema is declared as `Pet`. -/
theorem shared_alias_not_declared :
    Entries.has (Definitions.components (oneSchemaDocument "pet") "schemas") "pet" = true ∧
      ∃ generation,
        ofDocument typeScript "/work" (oneSchemaDocument "pet") plainOptions = .ok generation ∧
        ∃ operation ∈ operationsOf (oneSchemaDocument "pet"), "pet" ∈ aliases operation ∧
          IsAliased generation "pet" ∧ ¬ IsDeclared generation "pet" := by
  refine ⟨by decide +kernel, ?_⟩
  obtain ⟨generation, operation, h_generate, h_operation, h_shared⟩ :=
    @exists_of_generates "pet" (by decide +kernel)
  have h_aliased := isAliased_of_mem_aliases ⟨rfl, rfl⟩ h_generate h_operation h_shared
  refine ⟨generation, h_generate, operation, h_operation, h_shared, h_aliased, ?_⟩
  obtain ⟨compilations, h_compile, h_unmarked, h_names⟩ :=
    @exists_of_checks (definitionsOf (oneSchemaDocument "pet"))
      (fun declarations => declarations.all fun declaration => declaration.name != "pet")
      (by decide +kernel)
  rw [isDeclared_iff h_generate h_compile h_unmarked]
  rintro ⟨declaration, h_mem, h_name⟩
  simpa [h_name] using List.all_eq_true.mp h_names declaration h_mem

end OpenApiTs.Generation
