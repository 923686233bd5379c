/-
  OpenApiTs.Proofs.Output.SharedNames

  The names in the file of shared declarations. Every definition is compiled by itself and only
  declarations with one text are merged, so a name stands in the file once for every different text
  that some run gave it.
-/
import OpenApiTs.Proofs.FirstSeen
import OpenApiTs.Proofs.Output.Declarations
import OpenApiTs.Proofs.Schema.Contention
import OpenApiTs.Proofs.Schema.Legible
import OpenApiTs.Proofs.Schema.Scrub

namespace OpenApiTs.Output

open OpenApiTs.Schema (Compilation Malformed Regular Uncontended compile typeScript)
open OpenApiTs.TypeScript

variable {definitions : Definitions} {compilations : List Compilation}

/-! ## Compiling every definition -/

/-- The definitions compiled one by one. -/
def compileAll (definitions : Definitions) : Except Malformed (List Compilation) :=
  definitions.schemas.mapM fun entry => compile definitions entry.1 entry.2

/-- The declarations of compilations, one compilation after the other. -/
def declarationsOf (compilations : List Compilation) : List (Declaration String) :=
  compilations.flatMap Compilation.made

/-- Compilations whose text does not hold the marker of placeholders. -/
def Unmarked (compilations : List Compilation) : Prop :=
  ∀ compilation ∈ compilations, Text.contains Definitions.marker compilation.render = false

/-- When the shared file is written, every definition compiles. -/
theorem exists_compileAll {file? : Option OutputFile}
    (h_file : sharedFile? typeScript definitions = .ok file?) :
    ∃ compilations, compileAll definitions = .ok compilations := by
  obtain ⟨compiled, h_compiled, -⟩ := Outcome.bind_eq_ok_iff.mp h_file
  apply Outcome.exists_mapM_of_forall
  intro entry h_entry
  obtain ⟨text, -, h_clean⟩ := Outcome.exists_mem_of_mapM h_compiled h_entry
  obtain ⟨compilation, h_compile, -⟩ := Schema.clean_eq_ok_iff.mp h_clean
  exact ⟨compilation, h_compile⟩

/-- All that the definitions declare is legible. -/
theorem legible_of_compileAll (h_compile : compileAll definitions = .ok compilations) :
    ∀ declaration ∈ declarationsOf compilations, Legible declaration := by
  intro declaration h_mem
  obtain ⟨compilation, h_compilation, h_made⟩ := List.mem_flatMap.mp h_mem
  obtain ⟨entry, -, h_entry⟩ := Outcome.exists_item_of_mapM h_compile h_compilation
  exact Schema.legible_of_compile h_entry declaration h_made

/-- Without the marker the cleaned texts are those of the compilations. -/
theorem clean_eq_render (h_compile : compileAll definitions = .ok compilations)
    (h_unmarked : Unmarked compilations) :
    (definitions.schemas.mapM fun entry => typeScript.clean entry.2 entry.1 definitions) =
      .ok (compilations.map Compilation.render) := by
  have h_match := Outcome.mapM_eq_ok_iff.mp h_compile
  rw [Outcome.mapM_eq_ok_iff, List.forall₂_map_right_iff]
  -- definition by definition: cleaning compiles again and has no placeholder to scrub
  refine (List.forall₂_iff_zip.mpr ⟨h_match.length_eq, ?_⟩)
  intro entry compilation h_pair
  have h_entry := (List.forall₂_iff_zip.mp h_match).2 h_pair
  have h_absent := h_unmarked compilation (List.of_mem_zip h_pair).2
  exact Schema.clean_eq_ok_iff.mpr
    ⟨compilation, h_entry, Schema.scrub_of_not_contains h_absent⟩

/-- The file is the declarations of all definitions, one after the other. -/
theorem join_render (compilations : List Compilation) :
    String.join (compilations.map Compilation.render) =
      String.join ((declarationsOf compilations).map Declaration.render) := by
  induction compilations with
  | nil => rfl
  | cons compilation compilations ih =>
    have h_made : declarationsOf (compilation :: compilations) =
        compilation.made ++ declarationsOf compilations := List.flatMap_cons
    rw [List.map_cons, String.join_cons, ih, h_made, List.map_append, String.join_append]
    rfl

/-! ## The file -/

/-- The file with these declarations, if there are any. -/
def fileOf : List String → Option OutputFile
  | [] => none
  | texts => some ⟨sharedPath, "\n".intercalate texts⟩

/-- The shared file has the different texts of all declarations, in the order in which they are
    first met. -/
theorem sharedFile?_eq (h_compile : compileAll definitions = .ok compilations)
    (h_unmarked : Unmarked compilations) :
    sharedFile? typeScript definitions =
      .ok (fileOf ((declarationsOf compilations).map written).eraseDups) := by
  rw [sharedFile?, clean_eq_render h_compile h_unmarked]
  simp only [bind, Except.bind]
  rw [join_render, splitDeclarations?_join (legible_of_compileAll h_compile)]
  simp only
  cases ((declarationsOf compilations).map written).eraseDups with
  | nil => rfl
  | cons text texts => rfl

/-! ## Names -/

/-- The names that the shared file exports. -/
def sharedNames (file? : Option OutputFile) : List String :=
  match file? with
  | some file => exportedNames file.content
  | none => []

theorem sharedNames_fileOf (texts : List String) :
    sharedNames (fileOf texts) = texts.flatMap exportedNames := by
  cases texts with
  | nil => rfl
  | cons text texts => exact exportedNames_intercalate (text :: texts)

/-- The one name that the text of a declaration exports. -/
def nameOf (text : String) : String := (exportedNames text).headD ""

theorem nameOf_written {declaration : Declaration String} (h_legible : Legible declaration) :
    nameOf (written declaration) = declaration.name := by
  rw [nameOf, exportedNames_written h_legible]
  rfl

/-- Each text of the file exports one name, its own. -/
theorem flatMap_exportedNames {declarations : List (Declaration String)}
    (h_legible : ∀ declaration ∈ declarations, Legible declaration) :
    (declarations.map written).eraseDups.flatMap exportedNames =
      (declarations.map written).eraseDups.map nameOf := by
  rw [List.map_eq_flatMap (f := nameOf)]
  apply List.flatMap_congr
  intro text h_text
  obtain ⟨declaration, h_mem, rfl⟩ := List.mem_map.mp (List.mem_eraseDups.mp h_text)
  rw [exportedNames_written (h_legible declaration h_mem),
    nameOf_written (h_legible declaration h_mem)]

/-- Whatever is declared by some compilation is exported by the shared file, and nothing else. -/
theorem mem_sharedNames_iff (h_compile : compileAll definitions = .ok compilations)
    {name : String} :
    name ∈ sharedNames (fileOf ((declarationsOf compilations).map written).eraseDups) ↔
      ∃ declaration ∈ declarationsOf compilations, declaration.name = name := by
  rw [sharedNames_fileOf, List.mem_flatMap]
  constructor
  · rintro ⟨text, h_text, h_name⟩
    obtain ⟨declaration, h_mem, rfl⟩ := List.mem_map.mp (List.mem_eraseDups.mp h_text)
    rw [exportedNames_written (legible_of_compileAll h_compile declaration h_mem),
      List.mem_singleton] at h_name
    exact ⟨declaration, h_mem, h_name.symm⟩
  · rintro ⟨declaration, h_mem, rfl⟩
    refine ⟨written declaration, List.mem_eraseDups.mpr (List.mem_map.mpr ⟨_, h_mem, rfl⟩), ?_⟩
    rw [exportedNames_written (legible_of_compileAll h_compile declaration h_mem)]
    exact List.mem_singleton_self _

/-- Declarations of one name that have the same text, whatever compilations they come from. -/
def NamesAgree (compilations : List Compilation) : Prop :=
  ∀ first ∈ declarationsOf compilations, ∀ second ∈ declarationsOf compilations,
    first.name = second.name → written first = written second

theorem sharedNames_nodup_iff (h_compile : compileAll definitions = .ok compilations) :
    (sharedNames (fileOf ((declarationsOf compilations).map written).eraseDups)).Nodup ↔
      NamesAgree compilations := by
  -- the texts are all different, so names are repeated where two texts have one name
  have h_legible := legible_of_compileAll h_compile
  rw [sharedNames_fileOf, flatMap_exportedNames h_legible,
    List.nodup_map_iff_inj_on (nodup_eraseDups _)]
  constructor
  · intro h_distinct first h_first second h_second h_name
    refine h_distinct _ (List.mem_eraseDups.mpr (List.mem_map.mpr ⟨first, h_first, rfl⟩)) _
      (List.mem_eraseDups.mpr (List.mem_map.mpr ⟨second, h_second, rfl⟩)) ?_
    rw [nameOf_written (h_legible first h_first), nameOf_written (h_legible second h_second),
      h_name]
  · intro h_same text h_text other h_other h_name
    obtain ⟨first, h_first, rfl⟩ := List.mem_map.mp (List.mem_eraseDups.mp h_text)
    obtain ⟨second, h_second, rfl⟩ := List.mem_map.mp (List.mem_eraseDups.mp h_other)
    rw [nameOf_written (h_legible first h_first),
      nameOf_written (h_legible second h_second)] at h_name
    exact h_same first h_first second h_second h_name

/-- Without contention, declarations of one name are equal. -/
theorem namesAgree_of_uncontended (h_compile : compileAll definitions = .ok compilations)
    (h_single : Uncontended definitions) : NamesAgree compilations := by
  have h_regular {declaration : Declaration String}
      (h_mem : declaration ∈ declarationsOf compilations) :
      ∃ compilation, Regular definitions compilation ∧ declaration ∈ compilation.made := by
    obtain ⟨compilation, h_compilation, h_made⟩ := List.mem_flatMap.mp h_mem
    obtain ⟨entry, h_entry, h_run⟩ := Outcome.exists_item_of_mapM h_compile h_compilation
    exact ⟨compilation, h_single.regular_of_compile h_entry h_run, h_made⟩
  intro first h_first second h_second h_name
  obtain ⟨compilation, h_left, h_first_made⟩ := h_regular h_first
  obtain ⟨later, h_right, h_second_made⟩ := h_regular h_second
  rw [h_single.declaration_eq h_left h_right h_first_made h_second_made h_name]

/-- When every definition compiles, the shared file is written, and it exports no name twice exactly
    when every two declarations of one name, in whatever compilations, have the same text. They do
    when no two schemas lay claim to one name. -/
theorem shared_names_nodup_iff_agree (definitions : Definitions) (compilations : List Compilation)
    (h_compile : compileAll definitions = .ok compilations)
    (h_unmarked : Unmarked compilations) :
    ∃ file?, sharedFile? typeScript definitions = .ok file? ∧
      ((sharedNames file?).Nodup ↔ NamesAgree compilations) ∧
      (Uncontended definitions → (sharedNames file?).Nodup) := by
  have h_iff := sharedNames_nodup_iff h_compile
  refine ⟨_, sharedFile?_eq h_compile h_unmarked, h_iff, ?_⟩
  intro h_single
  exact h_iff.mpr (namesAgree_of_uncontended h_compile h_single)

/-- A string, a number or another kind of value, under a title. -/
def itemNode (kind : String) : Json := .object [("title", .text "Item"), ("type", .text kind)]

/-- An object with a titled node under one property. -/
def itemHolder (property kind : String) : Json :=
  .object [("properties", .object [(property, itemNode kind)])]

/-- Two definitions, each with a titled node inside. -/
def itemDefinitions (firstKind secondKind : String) : Definitions :=
  ⟨[("A", itemHolder "x" firstKind), ("B", itemHolder "y" secondKind)], []⟩

/-- Whether compilations are free of the marker, and a test holds of all their declarations. -/
def checks (definitions : Definitions)
    (test : List (Declaration String) → Bool) : Bool :=
  match compileAll definitions with
  | .ok compilations =>
    (compilations.all fun compilation =>
      !Text.contains Definitions.marker compilation.render) && test (declarationsOf compilations)
  | .error _ => false

theorem exists_of_checks {test : List (Declaration String) → Bool}
    (h_checks : checks definitions test = true) :
    ∃ compilations, compileAll definitions = .ok compilations ∧ Unmarked compilations ∧
      test (declarationsOf compilations) = true := by
  unfold checks at h_checks
  split at h_checks
  · next compilations h_compile =>
    obtain ⟨h_unmarked, h_test⟩ := Bool.and_eq_true_iff.mp h_checks
    refine ⟨compilations, h_compile, ?_, h_test⟩
    intro compilation h_mem
    simpa using List.all_eq_true.mp h_unmarked compilation h_mem
  · cases h_checks

/-- Equal nodes under one title do not contend for it. -/
theorem uncontended_itemDefinitions : Uncontended (itemDefinitions "string" "string") where
  wellFormed := by
    simp [itemDefinitions, itemHolder, itemNode, Json.WellFormedFields, Json.WellFormed]
  rootless := by decide +kernel
  single := by
    -- each definition claims its key in three spellings, each titled node its title
    have h_claims : Schema.claims (itemDefinitions "string" "string") =
        [("A", itemHolder "x" "string"), ("A", itemHolder "x" "string"),
          ("A", itemHolder "x" "string"), ("B", itemHolder "y" "string"),
          ("B", itemHolder "y" "string"), ("B", itemHolder "y" "string"),
          ("Item", itemNode "string"), ("Item", itemNode "string")] := rfl
    rw [h_claims]
    simp

/-- Equal nodes under one title are declared once. -/
theorem shared_names_nodup_under_equal_titles :
    ∃ compilations, compileAll (itemDefinitions "string" "string") = .ok compilations ∧
      Unmarked compilations ∧ NamesAgree compilations ∧
      ∃ file?, sharedFile? typeScript (itemDefinitions "string" "string") = .ok file? ∧
        (sharedNames file?).Nodup := by
  obtain ⟨compilations, h_compile, h_unmarked, -⟩ :=
    @exists_of_checks (itemDefinitions "string" "string") (fun _ => true) (by decide +kernel)
  obtain ⟨file?, h_file, h_iff, h_nodup⟩ :=
    shared_names_nodup_iff_agree _ compilations h_compile h_unmarked
  have h_once := h_nodup uncontended_itemDefinitions
  exact ⟨compilations, h_compile, h_unmarked, h_iff.mp h_once, file?, h_file, h_once⟩

/-- Different nodes under one title are both declared under it. -/
theorem shared_names_not_nodup :
    ((itemDefinitions "string" "number").schemas.map fun entry =>
        Name.identifier entry.1).Nodup ∧
      ∃ file?, sharedFile? typeScript (itemDefinitions "string" "number") = .ok file? ∧
        ¬ (sharedNames file?).Nodup := by
  refine ⟨by decide +kernel, ?_⟩
  obtain ⟨compilations, h_compile, h_unmarked, h_differ⟩ :=
    @exists_of_checks (itemDefinitions "string" "number")
      (fun declarations => declarations.any fun first => declarations.any fun second =>
        first.name == second.name && written first != written second) (by decide +kernel)
  refine ⟨_, sharedFile?_eq h_compile h_unmarked, ?_⟩
  -- two declarations of one name with different texts are enough
  rw [sharedNames_nodup_iff h_compile]
  intro h_agree
  obtain ⟨first, h_first, h_some⟩ := List.any_eq_true.mp h_differ
  obtain ⟨second, h_second, h_pair⟩ := List.any_eq_true.mp h_some
  rw [Bool.and_eq_true, beq_iff_eq] at h_pair
  simp [h_agree first h_first second h_second h_pair.1] at h_pair

end OpenApiTs.Output
