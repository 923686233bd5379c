/-
  OpenApiTs.Proofs.Generation.Success

  What a generation that succeeds went through: settings were made, every field of every operation
  was resolved by its rule, and the files are the shared declarations with the types and the request
  functions of each group.
-/
import OpenApiTs.Generation.Basic
import OpenApiTs.Proofs.Outcome
import OpenApiTs.Proofs.Text.Contains

namespace OpenApiTs

variable {compiler : Schema.Compiler} {definitions : Definitions} {cwd : String} {options : Options}
  {settings : Settings} {resolver : Resolver} {operation : Operation} {operations : List Operation}
  {endpoint : Endpoint} {endpoints : List Endpoint} {made : List OutputFile}

/-! ## Fields -/

/-- An endpoint has in each field what the rule of the field gives. -/
theorem Resolver.resolve_get (h_resolve : resolver.resolve operation = .ok endpoint)
    (field : Field) : resolver field operation = .ok (endpoint.get field) := by
  unfold Resolver.resolve at h_resolve
  simp only [Outcome.bind_eq_ok_iff] at h_resolve
  obtain ⟨fileName, h_fileName, url, h_url, method, h_method, fnName, h_fnName, fnComment,
    h_fnComment, params, h_params, query, h_query, cookie, h_cookie, header, h_header, body,
    h_body, response, h_response, h_endpoint⟩ := h_resolve
  obtain rfl := Except.ok.inj h_endpoint
  cases field <;> assumption

theorem Endpoint.present?_eq_some_iff {field : Field} {text : String} :
    endpoint.present? field = some text ↔ endpoint.get field = some text ∧ text ≠ "" := by
  rw [Endpoint.present?, Option.filter_eq_some_iff, decide_eq_true_iff]

/-- A failure is only named after its operation, so what resolves under its name resolves. -/
theorem Resolver.resolve_of_named (h_named : resolver.resolveNamed operation = .ok endpoint) :
    resolver.resolve operation = .ok endpoint := by
  unfold Resolver.resolveNamed at h_named
  cases h_own : resolver.resolve operation with
  | error failure =>
    rw [h_own] at h_named
    cases h_named
  | ok own =>
    rw [h_own] at h_named
    exact h_named

/-- Every operation has its endpoint among the resolved ones. -/
theorem Resolver.exists_endpoint (h_resolve : resolver.resolveAll operations = .ok endpoints)
    (h_operation : operation ∈ operations) :
    ∃ endpoint ∈ endpoints, ∀ field, resolver field operation = .ok (endpoint.get field) := by
  obtain ⟨endpoint, h_mem, h_named⟩ := Outcome.exists_mem_of_mapM h_resolve h_operation
  exact ⟨endpoint, h_mem, Resolver.resolve_get (Resolver.resolve_of_named h_named)⟩

/-! ## Settings -/

/-- Options that leave every rule as it is. -/
structure Options.IsPlain (options : Options) : Prop where
  convention : options.convention = .plain
  overrides : options.overrides = Overrides.none

/-- The rules of a run are the default ones with those of the options over them. -/
theorem Options.resolver_eq_merge
    (h_settings : options.settings compiler definitions cwd = .ok settings) :
    settings.resolver = (Resolver.standard compiler definitions).merge options.allOverrides := by
  unfold Options.settings at h_settings
  split at h_settings
  · cases h_settings
  · obtain rfl := Except.ok.inj h_settings
    rfl

theorem Options.IsPlain.resolver_eq (h_plain : options.IsPlain)
    (h_settings : options.settings compiler definitions cwd = .ok settings) :
    settings.resolver = Resolver.standard compiler definitions := by
  -- plain options override nothing
  have h_none : options.allOverrides = Overrides.none := by
    simp only [Options.allOverrides, h_plain.convention, h_plain.overrides]
    rfl
  rw [Options.resolver_eq_merge h_settings, h_none]
  rfl

/-! ## Files -/

namespace Output

/-- The file of shared declarations among files. -/
def sharedIn? (files : List OutputFile) : Option OutputFile :=
  files.find? fun file => file.path == sharedPath

theorem typesPath_ne (group : String) : typesPath group ≠ sharedPath := by
  intro h_eq
  -- the first letters differ, whatever the group is called
  have h_head := congrArg (fun path => path.toList.head?) h_eq
  simp [typesPath, sharedPath] at h_head

theorem requestsPath_ne (group : String) : requestsPath group ≠ sharedPath := by
  intro h_eq
  have h_head := congrArg (fun path => path.toList.head?) h_eq
  simp [requestsPath, sharedPath] at h_head

theorem path_ne_of_mem_typesFiles {file : OutputFile}
    (h_file : file ∈ typesFiles settings endpoints) : file.path ≠ sharedPath := by
  rcases List.mem_cons.mp h_file with rfl | h_file
  · exact (by decide : typesIndexPath ≠ sharedPath)
  · obtain ⟨group, -, rfl⟩ := List.mem_map.mp h_file
    exact typesPath_ne group

theorem path_ne_of_mem_requestsFiles {file : OutputFile}
    (h_file : file ∈ requestsFiles settings endpoints) : file.path ≠ sharedPath := by
  obtain ⟨group, -, rfl⟩ := List.mem_map.mp h_file
  exact requestsPath_ne group

theorem path_of_sharedFile? {shared : Option OutputFile}
    (h_shared : sharedFile? compiler definitions = .ok shared) :
    ∀ file ∈ shared, file.path = sharedPath := by
  obtain ⟨compiled, -, h_rest⟩ := Outcome.bind_eq_ok_iff.mp h_shared
  intro file h_file
  split at h_rest
  · cases h_rest
  · split at h_rest
    · obtain rfl := Except.ok.inj h_rest
      cases h_file
    · obtain rfl := Except.ok.inj h_rest
      obtain rfl := Option.some.inj h_file
      rfl

/-- What the files of a run are. -/
theorem mem_files_iff (h_files : files compiler definitions settings endpoints = .ok made) :
    ∃ shared, sharedFile? compiler definitions = .ok shared ∧
      ∀ file, file ∈ made ↔ file ∈ shared ∨ file = typesIndex endpoints ∨
        (∃ group ∈ groups endpoints, typesFile settings endpoints group = file) ∨
        ∃ group ∈ groups endpoints, requestsFile settings endpoints group = file := by
  obtain ⟨shared, h_shared, h_made⟩ := Outcome.bind_eq_ok_iff.mp h_files
  obtain rfl := Except.ok.inj h_made
  refine ⟨shared, h_shared, fun file => ?_⟩
  rw [List.mem_append, List.mem_append, Option.mem_toList, typesFiles, List.mem_cons, requestsFiles,
    List.mem_map, List.mem_map, or_assoc, or_assoc, Option.mem_def]

/-- The files of a run are the shared one, if there is one, and files of other paths. -/
theorem sharedIn?_files (h_files : files compiler definitions settings endpoints = .ok made) :
    sharedFile? compiler definitions = .ok (sharedIn? made) ∧
      ∀ endpoint ∈ endpoints, typesFile settings endpoints (groupOf endpoint) ∈ made := by
  obtain ⟨shared, h_shared, h_made⟩ := Outcome.bind_eq_ok_iff.mp h_files
  obtain rfl := Except.ok.inj h_made
  constructor
  · have h_own : shared.toList.find? (fun file => file.path == sharedPath) = shared := by
      cases shared with
      | none => rfl
      | some file => simp [path_of_sharedFile? h_shared file rfl]
    have h_types : (typesFiles settings endpoints).find? (fun file => file.path == sharedPath) =
        none := by
      rw [List.find?_eq_none]
      intro file h_file
      simpa using path_ne_of_mem_typesFiles h_file
    have h_requests : (requestsFiles settings endpoints).find?
        (fun file => file.path == sharedPath) = none := by
      rw [List.find?_eq_none]
      intro file h_file
      simpa using path_ne_of_mem_requestsFiles h_file
    -- only the shared file is found, since no other file has its path
    rw [h_shared, sharedIn?, List.find?_append, List.find?_append, h_own, h_types, h_requests,
      Option.or_none, Option.or_none]
  · intro endpoint h_endpoint
    have h_group : groupOf endpoint ∈ groups endpoints :=
      List.mem_eraseDups.mpr (List.mem_map_of_mem h_endpoint)
    refine List.mem_append_left _ (List.mem_append_right _ (List.mem_cons_of_mem _ ?_))
    exact List.mem_map_of_mem h_group

/-- What stands in the text of a body or a response stands in the types of its group. -/
theorem contains_typesFile {needle text : String} {field : Field} (h_endpoint : endpoint ∈ endpoints)
    (h_field : field = .body ∨ field = .response) (h_text : endpoint.get field = some text)
    (h_some : text ≠ "") (h_inside : Text.contains needle text = true) :
    Text.contains needle (typesFile settings endpoints (groupOf endpoint)).content = true := by
  have h_present : endpoint.present? field = some text :=
    Endpoint.present?_eq_some_iff.mpr ⟨h_text, h_some⟩
  -- a body is one of the things sent, a response stands by itself
  have h_block : Text.contains needle (typeBlock settings endpoint) = true := by
    rcases h_field with rfl | rfl
    · have h_sent : text ∈ [Field.query, .body, .header, .cookie].filterMap endpoint.present? :=
        List.mem_filterMap.mpr ⟨.body, by decide, h_present⟩
      have h_list := Text.contains_intercalate "\n  " h_sent h_inside
      unfold typeBlock
      refine Text.contains_append_left (Text.contains_append_left (Text.contains_append_left
        (Text.contains_append_left (Text.contains_append_left ?_ _) _) _) _) _
      exact Text.contains_append_right _ h_list
    · have h_data : Text.contains needle
          ((endpoint.present? .response).getD "export type Data = any") = true := by
        rwa [h_present]
      unfold typeBlock
      refine Text.contains_append_left (Text.contains_append_left (Text.contains_append_left
        ?_ _) _) _
      exact Text.contains_append_right _ h_data
  have h_member : endpoint ∈ members endpoints (groupOf endpoint) :=
    List.mem_filter.mpr ⟨h_endpoint, beq_self_eq_true _⟩
  have h_blocks : Text.contains needle
      (typeBlocks settings (members endpoints (groupOf endpoint))) = true :=
    Text.contains_join (List.mem_map_of_mem h_member) h_block
  refine Text.contains_append_left (Text.contains_append_left ?_ _) _
  exact Text.contains_append_right _ h_blocks

end Output

/-! ## Generations -/

namespace Generation

/-- The definitions that a document has in normal form. -/
def definitionsOf (document : Json) : Definitions :=
  Definitions.ofDocument (Reference.normalize document)

/-- The operations that a document has in normal form. -/
def operationsOf (document : Json) : List Operation :=
  Operation.listOfDocument (Reference.normalize document)

/-- A generation has settings, endpoints and files, each made from the ones before. -/
theorem exists_endpoints {document : Json} {generation : Generation}
    (h_generate : ofDocument compiler cwd document options = .ok generation) :
    ∃ endpoints,
      options.settings compiler (definitionsOf document) cwd = .ok generation.settings ∧
      generation.settings.resolver.resolveAll (operationsOf document) = .ok endpoints ∧
      Output.files compiler (definitionsOf document) generation.settings endpoints =
        .ok generation.files := by
  obtain ⟨settings, h_settings, h_rest⟩ := Outcome.bind_eq_ok_iff.mp h_generate
  obtain ⟨endpoints, h_endpoints, h_rest⟩ := Outcome.bind_eq_ok_iff.mp h_rest
  obtain ⟨files, h_files, h_rest⟩ := Outcome.bind_eq_ok_iff.mp h_rest
  obtain rfl := Except.ok.inj h_rest
  exact ⟨endpoints, h_settings, h_endpoints, h_files⟩

end Generation

end OpenApiTs
