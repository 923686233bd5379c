/-
  OpenApiTs.Proofs.Generation.Places

  Where the files of a generation are written. The path of a file is made from the group of its
  endpoints, and so from the text of a tag, slashes and `..` included. The shared declarations and
  the index stand in the output directory itself; the types and the requests of a group stand below
  it exactly when the way that the group describes comes back from wherever it leaves the directory.
-/
import OpenApiTs.Proofs.Generation.Success
import OpenApiTs.Proofs.Path.Route

namespace OpenApiTs

variable {compiler : Schema.Compiler} {definitions : Definitions} {cwd : String} {options : Options}
  {settings : Settings} {operations : List Operation} {endpoints : List Endpoint}
  {made : List OutputFile}

/-! ## Groups -/

/-- The group that a naming convention puts an operation in. -/
def Convention.group (convention : Convention) (operation : Operation) : String :=
  match convention, operation.tags.bind List.head? with
  | .plain, some tag => if tag = "" then Resolver.anonymous else tag
  | .controller, some tag => Text.lower (Text.replaceFirst "Controller" "" tag)
  | _, none => Resolver.anonymous

/-- Without rules of the caller's own, files are named by the convention alone. -/
theorem Options.fileName_eq (h_own : options.overrides = Overrides.none)
    (h_settings : options.settings compiler definitions cwd = .ok settings) (operation : Operation) :
    settings.resolver .fileName operation = .ok (some (options.convention.group operation)) := by
  rw [Options.resolver_eq_merge h_settings, Resolver.merge, Options.allOverrides, h_own]
  -- either convention takes the first tag, or its own word when there is none
  cases options.convention with
  | plain =>
    cases h_tag : operation.tags.bind List.head? with
    | none => simp [Overrides.extend, Overrides.none, Resolver.standard, Convention.group, h_tag]
    | some tag =>
      by_cases h_empty : tag = ""
      all_goals simp [Overrides.extend, Overrides.none, Resolver.standard, Convention.group, h_tag,
        h_empty, Option.filter]
  | controller =>
    cases h_tag : operation.tags.bind List.head? with
    | none => simp [Overrides.extend, Overrides.none, Overrides.controller, Convention.group, h_tag]
    | some tag =>
      simp [Overrides.extend, Overrides.none, Overrides.controller, Convention.group, h_tag]

namespace Output

/-- The groups of the endpoints are those that the convention puts the operations in. -/
theorem mem_groups_iff {group : String} (h_own : options.overrides = Overrides.none)
    (h_settings : options.settings compiler definitions cwd = .ok settings)
    (h_resolve : settings.resolver.resolveAll operations = .ok endpoints) :
    group ∈ groups endpoints ↔
      ∃ operation ∈ operations, options.convention.group operation = group := by
  -- the group of an endpoint is what the rule for file names gives its operation
  have h_group : ∀ operation endpoint, settings.resolver.resolveNamed operation = .ok endpoint →
      groupOf endpoint = options.convention.group operation := by
    intro operation endpoint h_named
    have h_field := Resolver.resolve_get (Resolver.resolve_of_named h_named) .fileName
    rw [Options.fileName_eq h_own h_settings] at h_field
    rw [groupOf, ← Endpoint.get, ← Except.ok.inj h_field, Option.getD_some]
  rw [groups, List.mem_eraseDups, List.mem_map]
  constructor
  · rintro ⟨endpoint, h_endpoint, rfl⟩
    obtain ⟨operation, h_operation, h_named⟩ := Outcome.exists_item_of_mapM h_resolve h_endpoint
    exact ⟨operation, h_operation, (h_group _ _ h_named).symm⟩
  · rintro ⟨operation, h_operation, rfl⟩
    obtain ⟨endpoint, h_endpoint, h_named⟩ := Outcome.exists_mem_of_mapM h_resolve h_operation
    exact ⟨endpoint, h_endpoint, h_group _ _ h_named⟩

end Output

/-! ## Below the output directory -/

namespace Path

/-- Whether a path, seen from a directory, leads to a place strictly below it. -/
def IsBelow (directory path : String) : Prop :=
  ∃ names, names ≠ [] ∧ normal (join directory path) = normal directory ++ names

/-- A path is below a directory when its names begin with the directory's and go on. -/
theorem isBelow_iff (directory path : String) :
    IsBelow directory path ↔
      normal directory <+: normal (join directory path) ∧
        normal directory ≠ normal (join directory path) := by
  constructor
  · rintro ⟨names, h_names, h_place⟩
    rw [h_place]
    exact ⟨List.prefix_append _ _, fun h_eq => h_names (by simpa using h_eq)⟩
  · rintro ⟨⟨names, h_place⟩, h_ne⟩
    refine ⟨names, fun h_names => h_ne ?_, h_place.symm⟩
    rw [← h_place, h_names, List.append_nil]

instance (directory path : String) : Decidable (IsBelow directory path) :=
  decidable_of_iff' _ (isBelow_iff directory path)

/-- A file whose path is its name stands in the directory itself. -/
theorem isBelow_of_name {name : String} (h_name : parts name = [name]) (h_up : name ≠ "..")
    (h_root : isAbsolute name = false) (directory : String) : IsBelow directory name := by
  refine ⟨[name], List.cons_ne_nil _ _, ?_⟩
  rw [normal_join h_root, h_name, resolveParts, if_neg h_up, resolveParts]

/-- A file in a directory inside is below exactly when the way to it comes back. -/
theorem isBelow_inner_iff {inner group ending : String} (h_inner : parts inner = [inner])
    (h_up : inner ≠ "..") (h_root : isAbsolute (inner ++ "/" ++ (group ++ ending)) = false)
    (h_ending : IsEnding ending) (directory : String) :
    IsBelow directory (inner ++ "/" ++ (group ++ ending)) ↔
      (Route.ofParts (way group)).Returns (normal directory) := by
  rw [← Route.below_iff_returns _ _ inner (leaf group ++ ending),
    ← normal_join_inner h_inner h_up h_root h_ending]
  rfl

theorem isEnding_types : IsEnding ".d.ts" := ⟨by decide, by decide, by decide⟩

theorem isEnding_requests : IsEnding ".ts" := ⟨by decide, by decide, by decide⟩

end Path

namespace Output

theorem typesPath_eq (group : String) : typesPath group = "types" ++ "/" ++ (group ++ ".d.ts") := by
  rw [typesPath, String.append_assoc]
  rfl

theorem requestsPath_eq (group : String) :
    requestsPath group = "apis" ++ "/" ++ (group ++ ".ts") := by
  rw [requestsPath, String.append_assoc]
  rfl

theorem isAbsolute_typesPath (group : String) :
    Path.isAbsolute ("types" ++ "/" ++ (group ++ ".d.ts")) = false := by
  simp [Path.isAbsolute, Text.opensWith, List.isPrefixOf]

theorem isAbsolute_requestsPath (group : String) :
    Path.isAbsolute ("apis" ++ "/" ++ (group ++ ".ts")) = false := by
  simp [Path.isAbsolute, Text.opensWith, List.isPrefixOf]

/-- Whether the way that a group describes, from a directory inside the output directory, comes back
    from wherever it leaves that. -/
def Stays (directory group : String) : Prop :=
  (Path.Route.ofParts (Path.way group)).Returns (Path.normal directory)

theorem isBelow_typesPath_iff (directory group : String) :
    Path.IsBelow directory (typesPath group) ↔ Stays directory group := by
  rw [typesPath_eq]
  exact Path.isBelow_inner_iff (by decide) (by decide) (isAbsolute_typesPath group)
    Path.isEnding_types directory

theorem isBelow_requestsPath_iff (directory group : String) :
    Path.IsBelow directory (requestsPath group) ↔ Stays directory group := by
  rw [requestsPath_eq]
  exact Path.isBelow_inner_iff (by decide) (by decide) (isAbsolute_requestsPath group)
    Path.isEnding_requests directory

/-- The files of a run are below a directory exactly when the ways of all groups stay there. -/
theorem files_isBelow_iff (h_files : files compiler definitions settings endpoints = .ok made)
    (directory : String) :
    (∀ file ∈ made, Path.IsBelow directory file.path) ↔
      ∀ group ∈ groups endpoints, Stays directory group := by
  obtain ⟨shared, h_shared, h_mem⟩ := mem_files_iff h_files
  have h_sharedPath : Path.IsBelow directory sharedPath :=
    Path.isBelow_of_name (by decide) (by decide) (by decide) directory
  have h_index : Path.IsBelow directory typesIndexPath :=
    Path.isBelow_of_name (by decide) (by decide) (by decide) directory
  constructor
  · intro h_below group h_group
    rw [← isBelow_typesPath_iff]
    have h_types : typesFile settings endpoints group ∈ made :=
      (h_mem _).mpr (.inr (.inr (.inl ⟨group, h_group, rfl⟩)))
    exact h_below (typesFile settings endpoints group) h_types
  · intro h_stays file h_file
    -- the shared file and the index have fixed names; the files of a group go where the group leads
    rcases (h_mem file).mp h_file with h_own | rfl | ⟨group, h_group, rfl⟩ | ⟨group, h_group, rfl⟩
    · rwa [path_of_sharedFile? h_shared file h_own]
    · exact h_index
    · exact (isBelow_typesPath_iff directory group).mpr (h_stays group h_group)
    · exact (isBelow_requestsPath_iff directory group).mpr (h_stays group h_group)

end Output

/-! ## Generations -/

namespace Generation

/-- A generation without rules of the caller's own writes all its files strictly below its output
    directory exactly when the way that each operation's group describes comes back from wherever it
    leaves the directory. -/
theorem files_below_iff (compiler : Schema.Compiler) (cwd : String) (document : Json)
    (options : Options) (generation : Generation) (h_own : options.overrides = Overrides.none)
    (h_generate : ofDocument compiler cwd document options = .ok generation) :
    (∀ file ∈ generation.files, Path.IsBelow generation.settings.outputDir file.path) ↔
      ∀ operation ∈ operationsOf document,
        (Path.Route.ofParts (Path.way (options.convention.group operation))).Returns
          (Path.normal generation.settings.outputDir) := by
  obtain ⟨endpoints, h_settings, h_endpoints, h_files⟩ := exists_endpoints h_generate
  rw [Output.files_isBelow_iff h_files]
  constructor
  · intro h_groups operation h_operation
    refine h_groups _ ?_
    exact (Output.mem_groups_iff h_own h_settings h_endpoints).mpr ⟨operation, h_operation, rfl⟩
  · intro h_operations group h_group
    obtain ⟨operation, h_operation, rfl⟩ :=
      (Output.mem_groups_iff h_own h_settings h_endpoints).mp h_group
    exact h_operations operation h_operation

/-- A document with one operation of one tag. -/
def taggedDocument (tag : String) : Json :=
  .object [("paths", .object [("/pets", .object [("get", .object
    [("tags", .array [.text tag])])])])]

/-- Options that give an output directory and a naming convention. -/
def conventionOptions (convention : Convention) : Options :=
  { source := none
    outputDir := some "out"
    axiosFilePath := none
    requestTemplate := none
    successResponseTemplate := none
    bannerComment := none
    prettierConfig := none
    convention := convention
    header := false
    cookie := false
    overrides := Overrides.none }

/-- Whether the document with one tag generates something that passes a check. -/
def generatesWith (convention : Convention) (tag : String) (check : Generation → Bool) : Bool :=
  (ofDocument Schema.typeScript "/work" (taggedDocument tag)
    (conventionOptions convention)).toOption.any check

theorem exists_of_generatesWith {convention : Convention} {tag : String}
    {check : Generation → Bool} (h_generates : generatesWith convention tag check = true) :
    ∃ generation, ofDocument Schema.typeScript "/work" (taggedDocument tag)
      (conventionOptions convention) = .ok generation ∧ check generation = true :=
  Outcome.exists_ok_of_any h_generates

/-- A tag may lead out of the output directory and back. -/
theorem files_below_of_returning_tag :
    ∃ generation, ofDocument Schema.typeScript "/work" (taggedDocument "../../out/PetController")
        (conventionOptions .controller) = .ok generation ∧
      ∀ file ∈ generation.files, Path.IsBelow generation.settings.outputDir file.path := by
  obtain ⟨generation, h_generate, h_check⟩ :=
    @exists_of_generatesWith .controller "../../out/PetController"
      (fun generation => generation.settings.outputDir == "/work/out") (by decide +kernel)
  refine ⟨generation, h_generate, ?_⟩
  refine (files_below_iff _ _ _ _ generation rfl h_generate).mpr ?_
  rw [beq_iff_eq.mp h_check]
  decide +kernel

/-- A tag may lead out of the output directory for good: its requests are written beside it. -/
theorem files_not_below :
    ∃ generation, ofDocument Schema.typeScript "/work" (taggedDocument "../../evil")
        (conventionOptions .plain) = .ok generation ∧
      ∃ file ∈ generation.files, Path.normal (Path.join generation.settings.outputDir file.path) =
          ["work", "evil.ts"] ∧
        ¬ Path.IsBelow generation.settings.outputDir file.path := by
  obtain ⟨generation, h_generate, h_check⟩ :=
    @exists_of_generatesWith .plain "../../evil"
      (fun generation => generation.settings.outputDir == "/work/out" &&
        generation.files.any fun file => file.path == "apis/../../evil.ts") (by decide +kernel)
  obtain ⟨h_directory, h_any⟩ := Bool.and_eq_true_iff.mp h_check
  obtain ⟨file, h_file, h_path⟩ := List.any_eq_true.mp h_any
  refine ⟨generation, h_generate, file, h_file, ?_⟩
  rw [beq_iff_eq.mp h_directory, beq_iff_eq.mp h_path]
  decide +kernel

end Generation

end OpenApiTs
