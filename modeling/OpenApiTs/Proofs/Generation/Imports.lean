/-
  OpenApiTs.Proofs.Generation.Imports

  The modules that generated files import from each other: the index names the types of every group,
  the requests of a group name its types, and the types of a group the shared declarations. Where a
  module leads depends on the place of the file that names it, and the files of a group stand where
  the text of its tag leads. For groups without directories all is well but for the shared
  declarations, which are imported for the sake of a word and emitted for the sake of a definition.
-/
import Mathlib.Data.Set.Finite.Lemmas
import OpenApiTs.Proofs.Generation.Places

namespace OpenApiTs.Output

variable {compiler : Schema.Compiler} {definitions : Definitions} {settings : Settings}
  {endpoints : List Endpoint} {made : List OutputFile} {directory group : String}

open OpenApiTs.Path (IsName Route leaf normal way)

/-! ## Imports -/

/-- An import of a generated file: the path of the file, the module that it names there, and the
    path of the file that is meant. -/
structure Import where
  file : String
  module : String
  target : String
deriving DecidableEq, Repr

/-- The types of a group in the index of the types. -/
def indexImport (group : String) : Import :=
  ⟨typesIndexPath, "./types/" ++ group, typesPath group⟩

/-- The types of a group in its requests. -/
def requestsImport (group : String) : Import :=
  ⟨requestsPath group, "../types/" ++ group, typesPath group⟩

/-- The shared declarations in the types of a group. -/
def sharedImport (group : String) : Import := ⟨typesPath group, "../common", sharedPath⟩

/-- Whether the types of a group import the shared declarations. -/
def usesShared (settings : Settings) (endpoints : List Endpoint) (group : String) : Bool :=
  Text.contains "Types" (typeBlocks settings (members endpoints group))

/-- The imports of the files of a group, and of the group in the index. -/
def importsOf (settings : Settings) (endpoints : List Endpoint) (group : String) : List Import :=
  [indexImport group, requestsImport group] ++
    if usesShared settings endpoints group then [sharedImport group] else []

/-- The imports that the files of a run have from each other. -/
def imports (settings : Settings) (endpoints : List Endpoint) : List Import :=
  (groups endpoints).flatMap (importsOf settings endpoints)

namespace Import

/-- Whether an import is written in its file. -/
def IsWritten (files : List OutputFile) (own : Import) : Prop :=
  ∃ file ∈ files, file.path = own.file ∧
    Text.contains ("from '" ++ own.module ++ "'") file.content = true

/-- The place that the module of an import leads to from the directory of its file. -/
def place (directory : String) (own : Import) : List String :=
  Path.resolveParts (normal (Path.join directory own.file)).dropLast (Path.parts own.module)

/-- Whether a module leads to a file: to the place of the file without its ending. -/
def LeadsTo (directory : String) (own : Import) (path : String) : Prop :=
  own.place directory ≠ [] ∧
    normal (Path.join directory path) =
      (own.place directory).dropLast ++ [(own.place directory).getLastD "" ++ ".d.ts"]

instance (directory : String) (own : Import) (path : String) :
    Decidable (own.LeadsTo directory path) :=
  inferInstanceAs (Decidable (_ ∧ _))

/-- An import leads to the file with its last name and the ending of declarations. -/
theorem leadsTo_iff {own : Import} {front : List String} {last : String}
    (h_place : own.place directory = front ++ [last]) (path : String) :
    own.LeadsTo directory path ↔ normal (Path.join directory path) = front ++ [last ++ ".d.ts"] := by
  rw [LeadsTo, h_place, List.dropLast_concat, List.getLastD_concat]
  exact and_iff_right (List.append_ne_nil_of_right_ne_nil _ (List.cons_ne_nil _ _))

theorem LeadsTo.length_eq {own : Import} {path : String} (h_leads : own.LeadsTo directory path) :
    (normal (Path.join directory path)).length = (own.place directory).length := by
  have h_pos := List.length_pos_of_ne_nil h_leads.1
  rw [h_leads.2, List.length_append, List.length_dropLast, List.length_singleton]
  omega

end Import

theorem mem_imports_iff {own : Import} :
    own ∈ imports settings endpoints ↔ ∃ group ∈ groups endpoints,
      own = indexImport group ∨ own = requestsImport group ∨
        (own = sharedImport group ∧ usesShared settings endpoints group = true) := by
  rw [imports, List.mem_flatMap]
  refine exists_congr fun group => and_congr_right fun _ => ?_
  rw [importsOf, List.mem_append, List.mem_cons, List.mem_singleton, or_assoc]
  by_cases h_uses : usesShared settings endpoints group = true
  · rw [if_pos h_uses, List.mem_singleton, and_iff_left h_uses]
  · rw [if_neg h_uses]
    simp [h_uses]

/-! ## Written -/

theorem contains_from (opening module rest : String) :
    Text.contains ("from '" ++ module ++ "'") (opening ++ ("from '" ++ module ++ "'") ++ rest) =
      true :=
  Text.contains_append_left (Text.contains_append_right _ (Text.contains_self _)) _

/-- The imports of a run are written in its files. -/
theorem isWritten_of_mem_imports (h_files : files compiler definitions settings endpoints = .ok made)
    {own : Import} (h_import : own ∈ imports settings endpoints) : own.IsWritten made := by
  obtain ⟨shared, -, h_mem⟩ := mem_files_iff h_files
  obtain ⟨group, h_group, rfl | rfl | ⟨rfl, h_uses⟩⟩ := mem_imports_iff.mp h_import
  · refine ⟨typesIndex endpoints, (h_mem _).mpr (.inr (.inl rfl)), rfl, ?_⟩
    refine Text.contains_intercalate "\n" (List.mem_map_of_mem h_group) ?_
    have h_line : "export * from './types/" ++ group ++ "'" =
        "export * " ++ ("from '" ++ ("./types/" ++ group) ++ "'") ++ "" := by
      rw [← String.toList_inj]
      simp
    rw [h_line]
    exact contains_from _ _ _
  · refine ⟨requestsFile settings endpoints group,
      (h_mem _).mpr (.inr (.inr (.inr ⟨group, h_group, rfl⟩))), rfl, ?_⟩
    have h_content : (requestsFile settings endpoints group).content =
        requestImport settings ++ "\nimport Api " ++ ("from '" ++ ("../types/" ++ group) ++ "'") ++
          ("\n" ++ requestFunctions (members endpoints group)) := by
      rw [← String.toList_inj]
      simp [requestsFile]
    rw [h_content]
    exact contains_from _ _ _
  · refine ⟨typesFile settings endpoints group,
      (h_mem _).mpr (.inr (.inr (.inl ⟨group, h_group, rfl⟩))), rfl, ?_⟩
    unfold usesShared at h_uses
    have h_content : ∃ rest, (typesFile settings endpoints group).content =
        "import Types " ++ ("from '" ++ "../common" ++ "'") ++ rest := by
      refine ⟨";\n" ++ (envelope settings ++ "export namespace " ++ Name.pascal group ++ " \x7b\n " ++
        typeBlocks settings (members endpoints group) ++ "\n\x7d\nexport default " ++
        Name.pascal group), ?_⟩
      rw [← String.toList_inj]
      simp [typesFile, h_uses]
    obtain ⟨rest, h_content⟩ := h_content
    rw [h_content]
    exact contains_from _ _ _

/-! ## Places -/

theorem normal_index (directory : String) :
    normal (Path.join directory typesIndexPath) = normal directory ++ [typesIndexPath] := by
  rw [Path.normal_join (by decide), show Path.parts typesIndexPath = [typesIndexPath] by decide,
    Path.resolveParts, if_neg (by decide), Path.resolveParts]

theorem normal_shared (directory : String) :
    normal (Path.join directory sharedPath) = normal directory ++ [sharedPath] := by
  rw [Path.normal_join (by decide), show Path.parts sharedPath = [sharedPath] by decide,
    Path.resolveParts, if_neg (by decide), Path.resolveParts]

/-- The types of a group stand where its way leads from the directory of the types. -/
theorem normal_types (directory group : String) :
    normal (Path.join directory (typesPath group)) =
      (Route.ofParts (way group)).follow (normal directory ++ ["types"]) ++
        [leaf group ++ ".d.ts"] := by
  rw [typesPath_eq]
  exact Path.normal_join_inner (by decide) (by decide) (isAbsolute_typesPath group)
    Path.isEnding_types directory

/-- The requests of a group stand where its way leads from the directory of the requests. -/
theorem normal_requests (directory group : String) :
    normal (Path.join directory (requestsPath group)) =
      (Route.ofParts (way group)).follow (normal directory ++ ["apis"]) ++
        [leaf group ++ ".ts"] := by
  rw [requestsPath_eq]
  exact Path.normal_join_inner (by decide) (by decide) (isAbsolute_requestsPath group)
    Path.isEnding_requests directory

theorem parts_beside {front : String} {names : List String} (h_front : Path.parts front = names)
    (group : String) : Path.parts (front ++ "/" ++ group) = names ++ Path.parts group := by
  rw [Path.parts_append_slash, h_front]

theorem place_indexImport (directory group : String) :
    (indexImport group).place directory =
      Path.resolveParts (normal directory ++ ["types"]) (Path.parts group) := by
  have h_parts : Path.parts ("./types/" ++ group) = ["types"] ++ Path.parts group :=
    @parts_beside "./types" _ (by decide) group
  rw [Import.place, indexImport, normal_index, List.dropLast_concat, h_parts,
    Path.resolveParts_append, Path.resolveParts, if_neg (by decide), Path.resolveParts]

theorem place_requestsImport (directory group : String) :
    (requestsImport group).place directory =
      Path.resolveParts
        (((Route.ofParts (way group)).follow (normal directory ++ ["apis"])).dropLast ++ ["types"])
        (Path.parts group) := by
  have h_parts : Path.parts ("../types/" ++ group) = ["..", "types"] ++ Path.parts group :=
    @parts_beside "../types" _ (by decide) group
  rw [Import.place, requestsImport, normal_requests, List.dropLast_concat, h_parts,
    Path.resolveParts_append, Path.resolveParts, if_pos rfl, Path.resolveParts,
    if_neg (by decide), Path.resolveParts]

theorem place_sharedImport (directory group : String) :
    (sharedImport group).place directory =
      ((Route.ofParts (way group)).follow (normal directory ++ ["types"])).dropLast ++
        ["common"] := by
  rw [Import.place, sharedImport, normal_types, List.dropLast_concat,
    show Path.parts "../common" = ["..", "common"] by decide, Path.resolveParts, if_pos rfl,
    Path.resolveParts, if_neg (by decide), Path.resolveParts]

/-! ## Files that are meant -/

/-- The index names the types of a group exactly when the last piece of the group is a name. -/
theorem indexImport_leads_iff (directory group : String) :
    (indexImport group).LeadsTo directory (typesPath group) ↔ IsName (leaf group) := by
  constructor
  · intro h_leads
    by_contra h_leaf
    -- the module leads no further than to the directory of the types
    have h_length := h_leads.length_eq
    rw [place_indexImport, normal_types, List.length_append, List.length_singleton] at h_length
    have h_less := Path.length_resolveParts_of_not_isName h_leaf (normal directory ++ ["types"])
    omega
  · intro h_leaf
    rw [Import.leadsTo_iff ((place_indexImport _ _).trans (Path.resolveParts_of_isName h_leaf _)),
      normal_types]

/-- The requests of a group whose last piece is a name import its types exactly when the way of the
    group is level. -/
theorem requestsImport_leads_iff (h_leaf : IsName (leaf group)) (directory : String) :
    (requestsImport group).LeadsTo directory (typesPath group) ↔
      (Route.ofParts (way group)).IsLevel (normal directory) := by
  rw [Import.leadsTo_iff
      ((place_requestsImport _ _).trans (Path.resolveParts_of_isName h_leaf _)),
    normal_types, List.append_cancel_right_eq, eq_comm, Route.follow_aside_iff]

/-- The types of a group import what stands under the path of the shared declarations exactly when
    they stand in a directory inside the output directory. -/
theorem sharedImport_leads_iff (directory group : String) :
    (sharedImport group).LeadsTo directory sharedPath ↔
      (Route.ofParts (way group)).IsInside (normal directory) := by
  rw [Import.leadsTo_iff (place_sharedImport _ _), normal_shared,
    show "common" ++ ".d.ts" = sharedPath by decide, List.append_cancel_right_eq, eq_comm,
    Route.dropLast_follow_iff]

/-- Whether a file has a path. -/
def Emits (files : List OutputFile) (path : String) : Prop := ∃ file ∈ files, file.path = path

/-- Whether a group can be imported: its last piece is a name, its way is level, and where it uses
    the shared declarations there are some and it stands beside them. -/
structure Importable (settings : Settings) (endpoints : List Endpoint) (files : List OutputFile)
    (group : String) : Prop where
  named : IsName (leaf group)
  level : (Route.ofParts (way group)).IsLevel (normal settings.outputDir)
  shared : usesShared settings endpoints group = true →
    (Route.ofParts (way group)).IsInside (normal settings.outputDir) ∧ Emits files sharedPath

theorem emits_typesPath (h_files : files compiler definitions settings endpoints = .ok made)
    (h_group : group ∈ groups endpoints) : Emits made (typesPath group) := by
  obtain ⟨shared, -, h_mem⟩ := mem_files_iff h_files
  exact ⟨typesFile settings endpoints group, (h_mem _).mpr (.inr (.inr (.inl ⟨group, h_group, rfl⟩))),
    rfl⟩

/-- Every import leads to the file that it means, and this is among the files, exactly when all
    groups can be imported. -/
theorem imports_meet_iff (h_files : files compiler definitions settings endpoints = .ok made) :
    (∀ own ∈ imports settings endpoints,
        own.LeadsTo settings.outputDir own.target ∧ Emits made own.target) ↔
      ∀ group ∈ groups endpoints, Importable settings endpoints made group := by
  constructor
  · intro h_meet group h_group
    have h_index := h_meet (indexImport group) (mem_imports_iff.mpr ⟨group, h_group, .inl rfl⟩)
    have h_leaf : IsName (leaf group) := (indexImport_leads_iff _ _).mp h_index.1
    have h_requests :=
      h_meet (requestsImport group) (mem_imports_iff.mpr ⟨group, h_group, .inr (.inl rfl)⟩)
    refine ⟨h_leaf, (requestsImport_leads_iff h_leaf _).mp h_requests.1, fun h_uses => ?_⟩
    have h_shared := h_meet (sharedImport group)
      (mem_imports_iff.mpr ⟨group, h_group, .inr (.inr ⟨rfl, h_uses⟩)⟩)
    exact ⟨(sharedImport_leads_iff _ _).mp h_shared.1, h_shared.2⟩
  · intro h_importable own h_import
    -- an import is the index's, the requests' or the shared file's
    obtain ⟨group, h_group, rfl | rfl | ⟨rfl, h_uses⟩⟩ := mem_imports_iff.mp h_import
    · exact ⟨(indexImport_leads_iff _ _).mpr (h_importable group h_group).named,
        emits_typesPath h_files h_group⟩
    · obtain ⟨h_leaf, h_level, -⟩ := h_importable group h_group
      exact ⟨(requestsImport_leads_iff h_leaf _).mpr h_level, emits_typesPath h_files h_group⟩
    · obtain ⟨h_inside, h_emits⟩ := (h_importable group h_group).shared h_uses
      exact ⟨(sharedImport_leads_iff _ _).mpr h_inside, h_emits⟩

/-! ## Files of any kind -/

theorem follow_plain (h_plain : Path.IsPlain group) (place : List String) (name : String) :
    (Route.ofParts (way group)).follow (place ++ [name]) = place ++ name :: way group := by
  rw [h_plain.ofParts_way, Route.follow_concat_zero]

/-- Where a file of plain groups can stand. -/
theorem place_cases (h_files : files compiler definitions settings endpoints = .ok made)
    (h_plain : ∀ group ∈ groups endpoints, Path.IsPlain group) {file : OutputFile}
    (h_file : file ∈ made) (directory : String) :
    file.path = sharedPath ∨
      ∃ names, normal (Path.join directory file.path) = normal directory ++ names ∧
        (names = [typesIndexPath] ∨
          (∃ group ∈ groups endpoints, names = "types" :: way group ++ [leaf group ++ ".d.ts"]) ∨
          ∃ group ∈ groups endpoints, names = "apis" :: way group ++ [leaf group ++ ".ts"]) := by
  obtain ⟨shared, h_shared, h_mem⟩ := mem_files_iff h_files
  rcases (h_mem file).mp h_file with h_own | rfl | ⟨group, h_group, rfl⟩ | ⟨group, h_group, rfl⟩
  · exact .inl (path_of_sharedFile? h_shared file h_own)
  · exact .inr ⟨_, normal_index directory, .inl rfl⟩
  · refine .inr ⟨_, ?_, .inr (.inl ⟨group, h_group, rfl⟩)⟩
    exact (normal_types directory group).trans
      (by rw [follow_plain (h_plain group h_group), List.append_assoc])
  · refine .inr ⟨_, ?_, .inr (.inr ⟨group, h_group, rfl⟩)⟩
    exact (normal_requests directory group).trans
      (by rw [follow_plain (h_plain group h_group), List.append_assoc])

/-- When the requests of a plain group with a directory in it import some file, this is the file of
    a group with more directories. -/
theorem exists_longer (h_files : files compiler definitions settings endpoints = .ok made)
    (h_plain : ∀ group ∈ groups endpoints, Path.IsPlain group) (h_group : group ∈ groups endpoints)
    (h_way : way group ≠ []) {file : OutputFile} (h_file : file ∈ made)
    (h_leads : (requestsImport group).LeadsTo directory file.path) :
    ∃ other ∈ groups endpoints, (way group).length < (way other).length := by
  have h_own := h_plain group h_group
  have h_place := (place_requestsImport directory group).trans
    (Path.resolveParts_of_isName h_own.isName_leaf _)
  rw [follow_plain h_own, follow_plain h_own,
    List.dropLast_append_of_ne_nil (List.cons_ne_nil _ _), List.dropLast_cons_of_ne_nil h_way]
    at h_place
  rw [Import.leadsTo_iff h_place, List.append_assoc, List.append_assoc] at h_leads
  -- the first directory of the place tells which files can stand there
  rcases place_cases h_files h_plain h_file directory with h_shared | ⟨names, h_names, h_kinds⟩
  · rw [h_shared, normal_shared, List.append_cancel_left_eq] at h_leads
    exact absurd (List.head_eq_of_cons_eq h_leads) (by decide)
  · rw [h_names, List.append_cancel_left_eq] at h_leads
    rcases h_kinds with rfl | ⟨other, -, rfl⟩ | ⟨other, h_other, rfl⟩
    · exact absurd (List.head_eq_of_cons_eq h_leads) (by decide)
    · exact absurd (List.head_eq_of_cons_eq h_leads) (by decide)
    · refine ⟨other, h_other, ?_⟩
      have h_length := congrArg List.length h_leads
      have h_pos := List.length_pos_of_ne_nil h_way
      simp only [List.cons_append, List.length_cons, List.length_append, List.length_dropLast,
        List.length_nil] at h_length
      omega

/-- When the imports of plain groups all lead to some file, no group has a directory in it. -/
theorem way_eq_nil_of_leads (h_files : files compiler definitions settings endpoints = .ok made)
    (h_plain : ∀ group ∈ groups endpoints, Path.IsPlain group)
    (h_leads : ∀ own ∈ imports settings endpoints,
      ∃ file ∈ made, own.LeadsTo directory file.path) :
    ∀ group ∈ groups endpoints, way group = [] := by
  intro group h_group
  by_contra h_way
  -- the group with the most directories would have one with more
  obtain ⟨most, h_most, h_max⟩ := Set.exists_max_image {group | group ∈ groups endpoints}
    (fun group => (way group).length) (List.finite_toSet _) ⟨group, h_group⟩
  have h_some : way most ≠ [] := by
    intro h_none
    have h_less := h_max group h_group
    rw [h_none] at h_less
    exact h_way (List.length_eq_zero_iff.mp (Nat.le_zero.mp h_less))
  obtain ⟨file, h_file, h_own⟩ := h_leads (requestsImport most)
    (mem_imports_iff.mpr ⟨most, h_most, .inr (.inl rfl)⟩)
  obtain ⟨other, h_other, h_longer⟩ := exists_longer h_files h_plain h_most h_some h_file h_own
  exact absurd (h_max other h_other) (Nat.not_le.mpr h_longer)

/-- When the types of a group without directories import some file, there are shared declarations. -/
theorem emits_of_leads (h_files : files compiler definitions settings endpoints = .ok made)
    (h_plain : ∀ group ∈ groups endpoints, Path.IsPlain group) (h_group : group ∈ groups endpoints)
    (h_way : way group = []) {file : OutputFile} (h_file : file ∈ made)
    (h_leads : (sharedImport group).LeadsTo directory file.path) : Emits made sharedPath := by
  have h_place := place_sharedImport directory group
  rw [follow_plain (h_plain group h_group), h_way, List.dropLast_concat] at h_place
  rw [Import.leadsTo_iff h_place, show "common" ++ ".d.ts" = sharedPath by decide] at h_leads
  rcases place_cases h_files h_plain h_file directory with h_shared | ⟨names, h_names, h_kinds⟩
  · exact ⟨file, h_file, h_shared⟩
  · rw [h_names, List.append_cancel_left_eq] at h_leads
    -- the index and the groups' files stand elsewhere, so only the shared file is left
    rcases h_kinds with rfl | ⟨other, -, rfl⟩ | ⟨other, -, rfl⟩
    · exact absurd (List.head_eq_of_cons_eq h_leads) (by decide)
    · exact absurd (List.head_eq_of_cons_eq h_leads) (by decide)
    · exact absurd (List.head_eq_of_cons_eq h_leads) (by decide)

/-- A plain group can be imported exactly when it has no slash, and there are shared declarations if
    it uses them. -/
theorem importable_iff_of_plain {files : List OutputFile} (h_plain : Path.IsPlain group) :
    Importable settings endpoints files group ↔
      '/' ∉ group.toList ∧
        (usesShared settings endpoints group = true → Emits files sharedPath) := by
  rw [← h_plain.way_eq_nil_iff]
  constructor
  · rintro ⟨-, h_level, h_shared⟩
    refine ⟨?_, fun h_uses => (h_shared h_uses).2⟩
    rw [h_plain.ofParts_way] at h_level
    rcases h_level with h_none | ⟨h_less, -⟩
    · exact List.length_eq_zero_iff.mp h_none
    · exact absurd h_less (Nat.not_lt_zero _)
  · rintro ⟨h_way, h_shared⟩
    refine ⟨h_plain.isName_leaf, ?_, fun h_uses => ⟨?_, h_shared h_uses⟩⟩
    · rw [h_plain.ofParts_way, h_way]
      exact .inl rfl
    · rw [h_plain.ofParts_way, h_way]
      exact .inl ⟨rfl, rfl⟩

/-- The imports of plain groups all lead to some file exactly when no group has a slash, and there
    are shared declarations if a group uses them. -/
theorem imports_lead_iff_of_plain
    (h_files : files compiler definitions settings endpoints = .ok made)
    (h_plain : ∀ group ∈ groups endpoints, Path.IsPlain group) :
    (∀ own ∈ imports settings endpoints,
        ∃ file ∈ made, own.LeadsTo settings.outputDir file.path) ↔
      ∀ group ∈ groups endpoints, '/' ∉ group.toList ∧
        (usesShared settings endpoints group = true → Emits made sharedPath) := by
  constructor
  · intro h_leads group h_group
    have h_way := way_eq_nil_of_leads h_files h_plain h_leads group h_group
    refine ⟨(h_plain group h_group).way_eq_nil_iff.mp h_way, fun h_uses => ?_⟩
    obtain ⟨file, h_file, h_own⟩ := h_leads (sharedImport group)
      (mem_imports_iff.mpr ⟨group, h_group, .inr (.inr ⟨rfl, h_uses⟩)⟩)
    exact emits_of_leads h_files h_plain h_group h_way h_file h_own
  · intro h_flat own h_import
    have h_importable : ∀ group ∈ groups endpoints, Importable settings endpoints made group :=
      fun group h_group =>
        (importable_iff_of_plain (h_plain group h_group)).mpr (h_flat group h_group)
    obtain ⟨h_leads, file, h_file, h_path⟩ :=
      (imports_meet_iff h_files).mpr h_importable own h_import
    exact ⟨file, h_file, h_path ▸ h_leads⟩

end OpenApiTs.Output

namespace OpenApiTs.Generation

open OpenApiTs.Output

/-- In a generation every import that the files have from each other is written, and leads to the
    emitted file that it means exactly when all groups can be imported. When the groups are plain
    paths, the imports all lead to some emitted file exactly when no group has a slash, and there are
    shared declarations if the types of a group use them. -/
theorem imports_resolved_iff (compiler : Schema.Compiler) (cwd : String) (document : Json)
    (options : Options) (generation : Generation)
    (h_generate : ofDocument compiler cwd document options = .ok generation) :
    ∃ endpoints,
      generation.settings.resolver.resolveAll (operationsOf document) = .ok endpoints ∧
      (∀ own ∈ imports generation.settings endpoints, own.IsWritten generation.files) ∧
      ((∀ own ∈ imports generation.settings endpoints,
          own.LeadsTo generation.settings.outputDir own.target ∧
            Emits generation.files own.target) ↔
        ∀ group ∈ groups endpoints,
          Importable generation.settings endpoints generation.files group) ∧
      ((∀ group ∈ groups endpoints, Path.IsPlain group) →
        ((∀ own ∈ imports generation.settings endpoints,
            ∃ file ∈ generation.files, own.LeadsTo generation.settings.outputDir file.path) ↔
          ∀ group ∈ groups endpoints, '/' ∉ group.toList ∧
            (usesShared generation.settings endpoints group = true →
              Emits generation.files sharedPath))) := by
  obtain ⟨endpoints, -, h_endpoints, h_files⟩ := exists_endpoints h_generate
  refine ⟨endpoints, h_endpoints, ?_, imports_meet_iff h_files, imports_lead_iff_of_plain h_files⟩
  exact fun own h_import => isWritten_of_mem_imports h_files h_import

/-- Whether the endpoints of a document with one tag are one group, which does not use the shared
    declarations. -/
def isOneGroup (tag group : String) (generation : Generation) : Bool :=
  match generation.settings.resolver.resolveAll (operationsOf (taggedDocument tag)) with
  | .ok endpoints =>
    groups endpoints == [group] && !usesShared generation.settings endpoints group
  | .error _ => false

/-- The imports of a group without a slash lead to what is emitted. -/
theorem imports_resolved_of_pets :
    ∃ generation endpoints, ofDocument Schema.typeScript "/work" (taggedDocument "pets")
        (conventionOptions .plain) = .ok generation ∧
      groups endpoints = ["pets"] ∧
      ∀ own ∈ imports generation.settings endpoints,
        ∃ file ∈ generation.files, own.LeadsTo generation.settings.outputDir file.path := by
  obtain ⟨generation, h_generate, h_check⟩ :=
    @exists_of_generatesWith .plain "pets" (isOneGroup "pets" "pets") (by decide +kernel)
  obtain ⟨endpoints, h_endpoints, -, -, h_leads⟩ :=
    imports_resolved_iff _ _ _ _ generation h_generate
  simp only [isOneGroup, h_endpoints] at h_check
  obtain ⟨h_groups, h_uses⟩ := Bool.and_eq_true_iff.mp h_check
  rw [beq_iff_eq.mp h_groups, List.forall_mem_singleton, List.forall_mem_singleton] at h_leads
  refine ⟨generation, endpoints, h_generate, beq_iff_eq.mp h_groups, ?_⟩
  refine (h_leads (by unfold Path.IsPlain; decide)).mpr ⟨by decide, fun h_own => ?_⟩
  rw [h_own] at h_uses
  cases h_uses

/-- The requests of a group with a slash import a module that leads to no file. -/
theorem import_not_resolved :
    ∃ generation, ofDocument Schema.typeScript "/work" (taggedDocument "pets/cats")
        (conventionOptions .plain) = .ok generation ∧
      (requestsImport "pets/cats").IsWritten generation.files ∧
      ∀ file ∈ generation.files,
        ¬ (requestsImport "pets/cats").LeadsTo generation.settings.outputDir file.path := by
  let paths := ["types.d.ts", "types/pets/cats.d.ts", "apis/pets/cats.ts"]
  obtain ⟨generation, h_generate, h_check⟩ :=
    @exists_of_generatesWith .plain "pets/cats"
      (fun generation => generation.settings.outputDir == "/work/out" &&
        (generation.files.map OutputFile.path == paths &&
          generation.files.any fun file => file.path == (requestsImport "pets/cats").file &&
            Text.contains ("from '" ++ (requestsImport "pets/cats").module ++ "'") file.content))
      (by decide +kernel)
  obtain ⟨h_directory, h_files⟩ := Bool.and_eq_true_iff.mp h_check
  obtain ⟨h_paths, h_any⟩ := Bool.and_eq_true_iff.mp h_files
  refine ⟨generation, h_generate, ?_, fun file h_file => ?_⟩
  · obtain ⟨file, h_file, h_written⟩ := List.any_eq_true.mp h_any
    obtain ⟨h_path, h_contains⟩ := Bool.and_eq_true_iff.mp h_written
    exact ⟨file, h_file, beq_iff_eq.mp h_path, h_contains⟩
  · have h_path : file.path ∈ paths := beq_iff_eq.mp h_paths ▸ List.mem_map_of_mem h_file
    have h_none : ∀ path ∈ paths, ¬ (requestsImport "pets/cats").LeadsTo "/work/out" path := by
      decide +kernel
    rw [beq_iff_eq.mp h_directory]
    exact h_none _ h_path

end OpenApiTs.Generation
