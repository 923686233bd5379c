/-
  OpenApiTs.Proofs.Schema.Unmarked

  The text that definitions with placeholders are compiled to. The marker stands in the titles of
  placeholders and nowhere else; a title becomes text as a name only, and that of a placeholder
  becomes the name of its definition. So the marker is not written, and there is nothing to scrub.
-/
import OpenApiTs.Proofs.Name.Joined
import OpenApiTs.Proofs.Schema.Run
import OpenApiTs.Proofs.Schema.Scrub
import OpenApiTs.Proofs.Schema.Spelling

namespace OpenApiTs.Schema

open OpenApiTs.Definitions (AllInert Inert Tidy Unmarked gather marker neutralize ofDocument
  selfReferences solid_marker)
open OpenApiTs.Text (FreeOf)
open OpenApiTs.TypeScript

variable {definitions : Definitions} {planted : String → Entries Json → Prop}
  {root name own title target : String} {schema : Json} {roster : Roster}
  {compilation later : Compilation} {document : Json}

/-! ## Conditions -/

/-- Whether definitions are tidy, and the planted titles are those of placeholders that are put back
    to inert names. -/
structure PutsBack (definitions : Definitions) (planted : String → Entries Json → Prop) : Prop where
  tidy : ∀ entry ∈ definitions.schemas, Tidy planted entry.2
  own : ∀ title fields, planted title fields →
    ∃ own, title = own ++ marker ∧ definitions.isSelfReferential own = true ∧ Inert own

/-! ## Names -/

theorem unmarked_identifier (h_inert : Inert name) : Unmarked (Name.identifier name) :=
  Definitions.unmarked_iff.mpr h_inert.identifier

theorem unmarked_candidate {base : String} (h_base : Unmarked base) (number : Nat) :
    Unmarked (Roster.candidate base number) := by
  unfold Roster.candidate
  split
  · exact h_base
  · rw [Unmarked, FreeOf, String.toList_append, String.toList_ofList]
    refine solid_marker.append (fun c h_c => ?_) h_base
    -- a digit is no letter
    have h_digit := Nat.isDigit_of_mem_toDigits (by decide) (by decide) h_c
    have h_code : 48 ≤ c.toNat ∧ c.toNat ≤ 57 := Char.isDigit_iff_toNat.mp h_digit
    rw [Bool.eq_false_iff, ne_eq, Name.isAlpha_iff, Name.isUpper_iff, Name.isLower_iff]
    omega

/-- The title of a placeholder is not inert. -/
theorem not_inert_append_marker (own : String) : ¬ Inert (own ++ marker) := by
  intro h_inert
  have h_contains : Text.contains marker (own ++ marker) = true :=
    Text.contains_append_right own (Text.contains_self marker)
  rw [h_inert.unmarked] at h_contains
  cases h_contains

/-- A title that ends in the marker is told apart into what stands before it and the marker. -/
theorem before?_marker_iff : Text.before? marker title = some own ↔ title = own ++ marker := by
  simp only [Text.before?, Option.map_eq_some_iff, Text.Chars.before?_eq_some_iff]
  constructor
  · rintro ⟨front, h_title, rfl⟩
    exact String.toList_inj.mp (by rw [h_title, String.toList_append, String.toList_ofList])
  · rintro rfl
    exact ⟨own.toList, String.toList_append, String.ofList_toList⟩

/-- A placeholder is known by its title, and an inert title is none. -/
theorem placeholderOf?_of_inert (h_title : Inert title) :
    Roster.placeholderOf? definitions title = none := by
  rw [Roster.placeholderOf?, Option.filter_eq_none_iff]
  intro own h_own
  rw [before?_marker_iff] at h_own
  exact absurd (h_own ▸ h_title) (not_inert_append_marker own)

/-- The placeholder of a self-referential definition is known by its title. -/
theorem placeholderOf?_append_marker (h_own : definitions.isSelfReferential own = true) :
    Roster.placeholderOf? definitions (own ++ marker) = some own := by
  rw [Roster.placeholderOf?, before?_marker_iff.mpr rfl, Option.filter_some, if_pos h_own]

/-- Every mention is written without the marker. -/
theorem unmarked_choose (h_back : PutsBack definitions planted) (h_root : Unmarked root)
    {mention : Mention} (h_said : mention.Said planted) (roster : Roster) :
    Unmarked (Roster.choose definitions root mention roster).1 := by
  cases mention with
  | reference target =>
    rw [Roster.choose, Roster.nameReference]
    have h_name : Unmarked (Name.identifier (Text.lastPiece '/' target)) :=
      Name.avoids_identifier_lastPiece solid_marker.head (unmarked_identifier h_said)
    split
    · exact h_root
    · split
      · exact h_name
      · exact h_name
  | titled title node =>
    rcases h_said.2 with h_title | ⟨fields, -, h_planted⟩
    · rw [Roster.choose_titled (placeholderOf?_of_inert h_title)]
      obtain ⟨number, -, h_name, -⟩ := Roster.nameTitled_first definitions title node roster
      rw [h_name]
      exact unmarked_candidate (unmarked_identifier h_title) number
    · -- the name of the definition is put back
      obtain ⟨own, rfl, h_self, h_own⟩ := h_back.own title fields h_planted
      simp only [Roster.choose, placeholderOf?_append_marker h_self]
      exact unmarked_identifier h_own

/-! ## Claims and declarations -/

/-- Whether claims are for tidy schemas, under names without the marker. -/
def TidyClaims (planted : String → Entries Json → Prop) (roster : Roster) : Prop :=
  ∀ entry ∈ roster, Unmarked entry.1 ∧ Tidy planted entry.2

/-- A name is chosen for a schema that is tidy, be it a node or a definition. -/
theorem tidyClaims_choose (h_back : PutsBack definitions planted) (h_root : Unmarked root)
    {mention : Mention} (h_said : mention.Said planted) (h_claims : TidyClaims planted roster) :
    TidyClaims planted (Roster.choose definitions root mention roster).2 := by
  intro entry h_entry
  rcases Roster.mem_choose h_entry with h_old | ⟨h_name, h_stands, -⟩
  · exact h_claims entry h_old
  · refine ⟨h_name ▸ unmarked_choose h_back h_root h_said roster, ?_⟩
    -- a titled node is tidy as part of the schema, a definition as one of the document
    cases mention with
    | titled title node =>
      obtain ⟨-, h_node⟩ := Roster.standsFor?_titled_iff.mp h_stands
      exact h_node ▸ h_said.1
    | reference target =>
      obtain ⟨key, -, h_key⟩ := Roster.definition?_eq_some_iff.mp h_stands
      exact h_back.tidy (key, entry.2) (Entries.mem_of_lookup h_key)

/-- Whether the claims of a compilation are tidy and its declarations are spelled without the
    marker. -/
structure AllUnmarked (planted : String → Entries Json → Prop) (compilation : Compilation) :
    Prop where
  roster : TidyClaims planted compilation.roster
  names : ∀ declaration ∈ compilation.made, Unmarked declaration.name
  made : ∀ declaration ∈ compilation.made, declaration.Spelled Unmarked Unmarked

theorem Round.allUnmarked (h_back : PutsBack definitions planted) (h_root : Unmarked root)
    (h_round : Round definitions root compilation later)
    (h_all : AllUnmarked planted compilation) : AllUnmarked planted later := by
  obtain ⟨h_next, h_declare⟩ := h_round
  rename_i own schema plain
  obtain ⟨h_own, h_schema⟩ := h_all.roster _ (List.mem_of_getElem? h_next)
  have h_plain := declare_spelled h_schema plain h_declare
  -- every mention in the type gets an unmarked name, and the roster stays tidy meanwhile
  have h_choose : TypeExpr.ChoosesFrom (Mention.Said planted) Unmarked (TidyClaims planted)
      (Roster.choose definitions root) := fun mention h_said roster h_claims =>
    ⟨unmarked_choose h_back h_root h_said roster,
      tidyClaims_choose h_back h_root h_said h_claims⟩
  obtain ⟨h_type, h_roster⟩ :=
    TypeExpr.Spelled.rename h_choose plain.type compilation.roster h_plain.type h_all.roster
  refine ⟨h_roster, ?_, ?_⟩
  · intro declaration h_mem
    rcases List.mem_append.mp h_mem with h_old | h_new
    · exact h_all.names declaration h_old
    · rw [List.mem_singleton.mp h_new]
      have h_name : plain.name = own := name_of_declare h_declare
      exact h_name.symm ▸ h_own
  · intro declaration h_mem
    rcases List.mem_append.mp h_mem with h_old | h_new
    · exact h_all.made declaration h_old
    · rw [List.mem_singleton.mp h_new]
      exact ⟨h_plain.description, h_type⟩

/-- A tidy schema is compiled to declarations that are spelled without the marker. -/
theorem allUnmarked_of_compile (h_back : PutsBack definitions planted) (h_name : Inert name)
    (h_schema : Tidy planted schema)
    (h_compile : compile definitions name schema = .ok compilation) :
    AllUnmarked planted compilation := by
  have h_root := unmarked_identifier h_name
  refine declareFrom_induction (P := AllUnmarked planted)
    (fun before after h_round h_before => h_round.allUnmarked h_back h_root h_before)
    _ ⟨[(Name.identifier name, schema)], []⟩ compilation ⟨?_, by simp, by simp⟩ h_compile
  intro entry h_entry
  rw [List.mem_singleton.mp h_entry]
  exact ⟨h_root, h_schema⟩

theorem AllUnmarked.render (h_all : AllUnmarked planted compilation) :
    Unmarked compilation.render :=
  freeOf_renders solid_marker fun declaration h_mem =>
    (h_all.made declaration h_mem).freeOf_render solid_marker (by decide)
      (h_all.names declaration h_mem)

/-! ## Texts -/

/-- Titles that replacing references in definitions plants. -/
def PlantedIn (gathered : Entries Json) (title : String) (_ : Entries Json) : Prop :=
  ∃ own schema, (own, schema) ∈ gathered ∧ selfReferences own schema ≠ 0 ∧ title = own ++ marker

/-- The definitions of a document put back exactly the placeholders that were planted in them. -/
theorem putsBack_ofDocument (h_document : AllInert document) :
    PutsBack (ofDocument document) (PlantedIn (gather document)) := by
  constructor
  · intro entry h_entry
    obtain ⟨before, h_before, rfl⟩ := List.mem_map.mp h_entry
    -- what was replaced are references of the definition to itself, so it is self-referential
    refine Definitions.tidy_neutralize (fun text h_text => h_document text ?_)
      fun fields h_searched h_refers => ?_
    · exact (Definitions.strings_gather h_before).2 h_text
    · exact ⟨before.1, before.2, h_before,
        Definitions.selfReferences_ne_zero h_searched h_refers, rfl⟩
  · rintro title fields ⟨own, schema, h_entry, h_some, rfl⟩
    exact ⟨own, rfl, Definitions.isSelfReferential_neutralized h_entry h_some,
      h_document own (Definitions.strings_gather h_entry).1⟩

/-- Scrubbing has nothing to do where the compiler puts the placeholders back itself. -/
theorem typeScript_unmarked (h_back : PutsBack definitions planted) (h_name : Inert name)
    (h_schema : Tidy planted schema) :
    (∀ text, typeScript schema name definitions = .ok text → Text.contains marker text = false) ∧
      Compiler.clean typeScript schema name definitions = typeScript schema name definitions := by
  have h_text : ∀ text, typeScript schema name definitions = .ok text →
      Text.contains marker text = false := by
    intro text h_text
    obtain ⟨compilation, h_compile, rfl⟩ := typeScript_eq_ok_iff.mp h_text
    exact Definitions.unmarked_iff.mp
      (allUnmarked_of_compile h_back h_name h_schema h_compile).render
  refine ⟨h_text, ?_⟩
  rw [Compiler.clean]
  cases h_own : typeScript schema name definitions with
  | error failure => rfl
  | ok text => exact congrArg Except.ok (scrub_of_not_contains (h_text text h_own))

/-- Where the marker occurs in no text or key of a document, nor in the identifier for one, it occurs
    in nothing that is compiled with the definitions of the document: neither in a definition under
    its name, nor in any other schema under any other name, when it does not occur in these either.
    Scrubbing changes none of it. -/
theorem compiled_unmarked (document : Json) (h_document : AllInert document) :
    (∀ entry ∈ (ofDocument document).schemas,
      (∀ text, typeScript entry.2 entry.1 (ofDocument document) = .ok text →
        Text.contains marker text = false) ∧
      Compiler.clean typeScript entry.2 entry.1 (ofDocument document) =
        typeScript entry.2 entry.1 (ofDocument document)) ∧
    ∀ schema name, AllInert schema → Inert name →
      (∀ text, typeScript schema name (ofDocument document) = .ok text →
        Text.contains marker text = false) ∧
      Compiler.clean typeScript schema name (ofDocument document) =
        typeScript schema name (ofDocument document) := by
  have h_back := putsBack_ofDocument h_document
  constructor
  · intro entry h_entry
    refine typeScript_unmarked h_back ?_ (h_back.tidy entry h_entry)
    obtain ⟨before, h_before, rfl⟩ := List.mem_map.mp h_entry
    exact h_document before.1 (Definitions.strings_gather h_before).1
  · intro schema name h_schema h_name
    exact typeScript_unmarked h_back h_name (Definitions.tidy_of_allInert h_schema)

/-- A document with the definition of nodes of a list, each of which has a next one. -/
def nodeDocument : Json :=
  .object [("components", .object [("schemas", .object [("node", .object [("type", .text "object"),
    ("properties", .object [
      ("label", .object [("type", .text "string"), ("description", .text "what is shown")]),
      ("next", .object [("$ref", .text "#/definitions/node")])])])])])]

/-- A schema that refers to the nodes of a list. -/
def nodeReference : Json := .object [("$ref", .text "#/definitions/node")]

theorem compiled_unmarked_node :
    AllInert nodeDocument ∧ (ofDocument nodeDocument).isSelfReferential "node" = true ∧
      AllInert nodeReference ∧ Inert "Body" ∧
      (∀ entry ∈ (ofDocument nodeDocument).schemas,
        ∀ text, typeScript entry.2 entry.1 (ofDocument nodeDocument) = .ok text →
          Text.contains marker text = false) ∧
      Compiler.clean typeScript nodeReference "Body" (ofDocument nodeDocument) =
        typeScript nodeReference "Body" (ofDocument nodeDocument) := by
  have h_document : AllInert nodeDocument := by decide +kernel
  have h_reference : AllInert nodeReference := by decide +kernel
  have h_name : Inert "Body" := by decide +kernel
  obtain ⟨h_definitions, h_others⟩ := compiled_unmarked nodeDocument h_document
  exact ⟨h_document, by decide +kernel, h_reference, h_name,
    fun entry h_entry => (h_definitions entry h_entry).1,
    (h_others nodeReference "Body" h_reference h_name).2⟩

end OpenApiTs.Schema
