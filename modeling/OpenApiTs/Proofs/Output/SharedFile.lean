/-
  OpenApiTs.Proofs.Output.SharedFile

  The content of the file of shared declarations. Where the marker stands in the titles of
  placeholders only, nothing is scrubbed, and the compiled texts are cut at the boundaries of their
  declarations, whatever descriptions, keys and literals these have.
-/
import OpenApiTs.Proofs.Output.SharedNames
import OpenApiTs.Proofs.Schema.Described
import OpenApiTs.Proofs.Schema.Unmarked
import OpenApiTs.Proofs.Text.Trimmed

namespace OpenApiTs

open OpenApiTs.Definitions (AllInert Inert Tidy gather marker ofDocument selfReferences)
open OpenApiTs.Schema (Compilation Described PutsBack compile described_of_nodes description?
  nodeDocument typeScript)
open OpenApiTs.TypeScript

variable {definitions : Definitions} {compilations : List Compilation} {document : Json}

/-! ## Where the marker stands -/

namespace Definitions

/-- Whether a title is that of a placeholder for a recorded reference. -/
def PlaceholderTitle (definitions : Definitions) (title : String) (_ : Entries Json) : Prop :=
  ∃ own ∈ definitions.selfReferential, title = own ++ marker

/-- Whether the marker occurs in the titles of placeholders for recorded references and nowhere
    else: in no other text or key of the definitions, nor in the identifier for one. -/
structure MarksPlaceholders (definitions : Definitions) : Prop where
  names : ∀ entry ∈ definitions.schemas, Inert entry.1
  schemas : ∀ entry ∈ definitions.schemas, Tidy definitions.PlaceholderTitle entry.2
  recorded : ∀ own ∈ definitions.selfReferential, Inert own

/-- Definitions whose placeholders carry their own marks are put back as they were. -/
theorem MarksPlaceholders.putsBack (h_marks : definitions.MarksPlaceholders) :
    PutsBack definitions definitions.PlaceholderTitle where
  tidy := h_marks.schemas
  own := by
    rintro title fields ⟨own, h_own, rfl⟩
    exact ⟨own, rfl, List.contains_iff_mem.mpr h_own, h_marks.recorded own h_own⟩

/-- The definitions of a document without the marker have it in placeholders only. -/
theorem marksPlaceholders_ofDocument (h_document : AllInert document) :
    (ofDocument document).MarksPlaceholders where
  names := by
    intro entry h_entry
    obtain ⟨before, h_before, rfl⟩ := List.mem_map.mp h_entry
    exact h_document before.1 (strings_gather h_before).1
  schemas := by
    intro entry h_entry
    obtain ⟨before, h_before, rfl⟩ := List.mem_map.mp h_entry
    refine tidy_neutralize (fun text h_text => h_document text ((strings_gather h_before).2 h_text))
      fun fields h_searched h_refers => ⟨before.1, ?_, rfl⟩
    exact List.contains_iff_mem.mp
      (isSelfReferential_neutralized h_before (selfReferences_ne_zero h_searched h_refers))
  recorded := by
    intro own h_own
    obtain ⟨entry, h_entry, rfl⟩ := List.mem_map.mp h_own
    exact h_document entry.1 (strings_gather (List.mem_of_mem_filter h_entry)).1

end Definitions

namespace Output

/-- What the definitions are compiled to has no marker in it. -/
theorem unmarked_of_compileAll (h_marks : definitions.MarksPlaceholders)
    (h_compile : compileAll definitions = .ok compilations) : Unmarked compilations := by
  intro compilation h_compilation
  obtain ⟨entry, h_entry, h_own⟩ := Outcome.exists_item_of_mapM h_compile h_compilation
  exact Definitions.unmarked_iff.mp (Schema.allUnmarked_of_compile h_marks.putsBack
    (h_marks.names entry h_entry) (h_marks.schemas entry h_entry) h_own).render

/-! ## Texts of declarations -/

/-- Without a carriage return, the text of a declaration is all that was rendered, without the
    blanks at its ends. -/
theorem written_eq_trim {declaration : Declaration String} (h_legible : Legible declaration)
    (h_return : '\r' ∉ declaration.render.toList) :
    written declaration = Text.trim declaration.render := by
  obtain ⟨lines, h_render, h_flat, h_lines⟩ := exists_closed h_legible
  have h_some : lines ≠ [] := by
    rintro rfl
    rw [Declaration.render, String.toList_append] at h_render
    simp at h_render
  have h_same : lines.map lineText = lines.map String.ofList := by
    apply List.map_congr_left
    intro line h_line
    have h_plain : '\r' ∉ line := by
      intro h_mem
      rw [h_render] at h_return
      exact h_return (List.mem_flatMap.mpr ⟨line, h_line, List.mem_append_left _ h_mem⟩)
    have h_last : line.getLast? ≠ some '\r' := fun h_last => h_plain (List.mem_of_getLast? h_last)
    rw [lineText, Text.dropReturn]
    split
    · next h_return_last => exact absurd h_return_last h_last
    · rfl
  have h_newline : "\n".toList = ['\n'] := rfl
  have h_texts : (lines.map String.ofList).map String.toList = lines := by simp
  -- the line feed at the end is a blank
  rw [written, h_lines, h_same, Text.trim, Text.trim, String.toList_intercalate, h_texts, h_newline,
    h_render, ← Text.Chars.intercalate_append_line h_some,
    Text.Chars.trim_concat (by decide)]

/-- The texts of declarations, each with its comment and without the blanks at its ends. -/
def trimmedTexts (declarations : List (Declaration String)) : List String :=
  declarations.map fun declaration => Text.trim declaration.render

/-- Without carriage returns the text of a declaration is cut from the file as it was rendered,
    trimmed. -/
theorem map_written_eq_trimmedTexts (h_compile : compileAll definitions = .ok compilations)
    (h_returns : ∀ entry ∈ definitions.schemas,
      Described (fun words => '\r' ∉ words.toList) entry.2) :
    (declarationsOf compilations).map written = trimmedTexts (declarationsOf compilations) := by
  apply List.map_congr_left
  intro declaration h_mem
  refine written_eq_trim (legible_of_compileAll h_compile declaration h_mem) ?_
  obtain ⟨compilation, h_compilation, h_made⟩ := List.mem_flatMap.mp h_mem
  obtain ⟨entry, h_entry, h_own⟩ := Outcome.exists_item_of_mapM h_compile h_compilation
  exact Schema.return_not_mem_render h_returns (h_returns entry h_entry) h_own declaration h_made

/-! ## The file -/

theorem exists_compileAll_of_typeScript (h_compiles : ∀ entry ∈ definitions.schemas,
      ∃ text, typeScript entry.2 entry.1 definitions = .ok text) :
    ∃ compilations, compileAll definitions = .ok compilations := by
  apply Outcome.exists_mapM_of_forall
  intro entry h_entry
  obtain ⟨text, h_text⟩ := h_compiles entry h_entry
  obtain ⟨compilation, h_compile, -⟩ := Schema.typeScript_eq_ok_iff.mp h_text
  exact ⟨compilation, h_compile⟩

/-- Every compilation declares something. -/
theorem declarationsOf_ne_nil (h_compile : compileAll definitions = .ok compilations)
    (h_some : definitions.schemas ≠ []) : declarationsOf compilations ≠ [] := by
  obtain ⟨entry, h_entry⟩ := List.exists_mem_of_ne_nil _ h_some
  obtain ⟨compilation, h_compilation, h_own⟩ := Outcome.exists_mem_of_mapM h_compile h_entry
  obtain ⟨plain, roster, others, -, h_made⟩ := Schema.exists_made_cons h_own
  intro h_none
  have h_made_none := List.flatMap_eq_nil_iff.mp h_none compilation h_compilation
  rw [h_made] at h_made_none
  cases h_made_none

theorem fileOf_eq_some {texts : List String} (h_some : texts ≠ []) :
    fileOf texts = some ⟨sharedPath, "\n".intercalate texts⟩ := by
  cases texts with
  | nil => exact absurd rfl h_some
  | cons text texts => rfl

/-- Where the marker stands in placeholders only, no description has a carriage return and every
    definition compiles, the compiled text is cut into the texts of the declarations that it was put
    together from. The shared file has the different ones among them, in the order in which they are
    first met; there is none when there are no definitions. -/
theorem sharedFile?_eq_trimmed (definitions : Definitions)
    (h_marks : definitions.MarksPlaceholders)
    (h_returns : ∀ entry ∈ definitions.schemas,
      Described (fun words => '\r' ∉ words.toList) entry.2)
    (h_compiles : ∀ entry ∈ definitions.schemas,
      ∃ text, typeScript entry.2 entry.1 definitions = .ok text) :
    ∃ compilations,
      List.Forall₂ (fun entry compilation => compile definitions entry.1 entry.2 = .ok compilation)
        definitions.schemas compilations ∧
      splitDeclarations? (String.join (compilations.map Compilation.render)) =
        some (trimmedTexts (declarationsOf compilations)) ∧
      (definitions.schemas = [] → sharedFile? typeScript definitions = .ok none) ∧
      (definitions.schemas ≠ [] → sharedFile? typeScript definitions = .ok (some
        ⟨"common.d.ts",
          "\n".intercalate (trimmedTexts (declarationsOf compilations)).eraseDups⟩)) := by
  obtain ⟨compilations, h_compile⟩ := exists_compileAll_of_typeScript h_compiles
  have h_texts := map_written_eq_trimmedTexts h_compile h_returns
  have h_file := sharedFile?_eq h_compile (unmarked_of_compileAll h_marks h_compile)
  rw [h_texts] at h_file
  refine ⟨compilations, Outcome.mapM_eq_ok_iff.mp h_compile, ?_, ?_, ?_⟩
  · rw [join_render, splitDeclarations?_join (legible_of_compileAll h_compile), h_texts]
  · intro h_none
    have h_empty : compilations = [] := by
      have h_match := Outcome.mapM_eq_ok_iff.mp h_compile
      rw [h_none] at h_match
      exact List.forall₂_nil_left_iff.mp h_match
    rw [h_file, h_empty]
    rfl
  · intro h_some
    -- every definition declares something, so the file is there when one is
    have h_first : (trimmedTexts (declarationsOf compilations)).eraseDups ≠ [] := by
      obtain ⟨declaration, h_mem⟩ :=
        List.exists_mem_of_ne_nil _ (declarationsOf_ne_nil h_compile h_some)
      exact List.ne_nil_of_mem
        (List.mem_eraseDups.mpr (List.mem_map.mpr ⟨declaration, h_mem, rfl⟩))
    rw [h_file, fileOf_eq_some h_first]
    rfl

/-- The nodes of a list, whose references to themselves are placeholders, and what is shown in one
    has a description. -/
theorem nodeDocument_sharedFile?_eq_trimmed :
    (ofDocument nodeDocument).MarksPlaceholders ∧
      (∀ entry ∈ (ofDocument nodeDocument).schemas,
        Described (fun words => '\r' ∉ words.toList) entry.2) ∧
      (∀ entry ∈ (ofDocument nodeDocument).schemas,
        ∃ text, typeScript entry.2 entry.1 (ofDocument nodeDocument) = .ok text) ∧
      ∃ compilations, splitDeclarations? (String.join (compilations.map Compilation.render)) =
        some (trimmedTexts (declarationsOf compilations)) ∧
        sharedFile? typeScript (ofDocument nodeDocument) = .ok (some
          ⟨"common.d.ts",
            "\n".intercalate (trimmedTexts (declarationsOf compilations)).eraseDups⟩) := by
  have h_marks : (ofDocument nodeDocument).MarksPlaceholders :=
    Definitions.marksPlaceholders_ofDocument (by decide +kernel)
  have h_returns : ∀ entry ∈ (ofDocument nodeDocument).schemas,
      Described (fun words => '\r' ∉ words.toList) entry.2 := by
    have h_nodes : ∀ entry ∈ (ofDocument nodeDocument).schemas, ∀ node ∈ entry.2.nodes,
        ∀ words ∈ description? node, '\r' ∉ words.toList := by decide +kernel
    exact fun entry h_entry => described_of_nodes (h_nodes entry h_entry)
  have h_compiles : ∀ entry ∈ (ofDocument nodeDocument).schemas,
      ∃ text, typeScript entry.2 entry.1 (ofDocument nodeDocument) = .ok text := by
    have h_all : ∀ entry ∈ (ofDocument nodeDocument).schemas,
        (typeScript entry.2 entry.1 (ofDocument nodeDocument)).isOk = true := by decide +kernel
    intro entry h_entry
    have h_ok := h_all entry h_entry
    cases h_text : typeScript entry.2 entry.1 (ofDocument nodeDocument) with
    | ok text => exact ⟨text, rfl⟩
    | error failure =>
      rw [h_text] at h_ok
      cases h_ok
  obtain ⟨compilations, -, h_split, -, h_file⟩ :=
    sharedFile?_eq_trimmed (ofDocument nodeDocument) h_marks h_returns h_compiles
  exact ⟨h_marks, h_returns, h_compiles, compilations, h_split, h_file (by decide +kernel)⟩

end Output

end OpenApiTs
