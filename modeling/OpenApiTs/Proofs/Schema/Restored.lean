/-
  OpenApiTs.Proofs.Schema.Restored

  The text of a schema compiled with a document's definitions as they were gathered, and with their
  references to themselves replaced by placeholders: it is the same text. The two compilations go
  round by round. Their claims have the same names, a claim for a definition stands for the gathered
  schema in the one and for what is left of it in the other, and the declarations made are equal.

  Where the one writes the name of a definition for its reference to itself, the other writes it for
  the placeholder and claims nothing. Nothing is missed by that: whoever is declared has claimed its
  name. Only `#` is read in two ways, as the root declaration and as the name of a definition.
-/
import OpenApiTs.Proofs.Definitions.Gather
import OpenApiTs.Proofs.Reference.Document
import OpenApiTs.Proofs.Schema.Lockstep
import OpenApiTs.Proofs.Schema.Neutral
import Mathlib.Data.List.TakeWhile

namespace OpenApiTs.Schema

open OpenApiTs.Definitions (gather isSelfReference neutralize neutralized ofDocument plain
  selfReferences)
open OpenApiTs.Outcome (Alike)
open OpenApiTs.Reference (normalize)
open OpenApiTs.TypeScript
open OpenApiTs.TypeScript.TypeExpr (Matches)
open Roster (definitionName definition? nameReference placeholderOf?)

variable {gathered : Entries Json} {own name root target : String} {schema : Json}
  {entry entry' : String × Json} {roster roster' : Roster}

/-! ## Conditions -/

/-- Whether no node of a value has a title that is not empty. -/
def Untitled (value : Json) : Prop := ∀ node ∈ value.nodes, node.wordsAt? "title" = none

instance (value : Json) : Decidable (Untitled value) :=
  inferInstanceAs (Decidable (∀ node ∈ value.nodes, node.wordsAt? "title" = none))

/-- Without titles there is nothing but references to mention. -/
theorem Untitled.exists_target {mention : Mention} (h_untitled : Untitled schema)
    (h_from : mention.From schema) : ∃ target, mention = .reference target := by
  cases mention with
  | reference target => exact ⟨target, rfl⟩
  | titled title node =>
    have h_none := h_untitled node h_from.1
    rw [h_from.2] at h_none
    cases h_none

/-- What gathered definitions are to be for their references to themselves to be put back: without
    titles, none of them a reference to itself as a whole, and with names that references can end
    in. The name `#` is special, since `#` also refers to the root declaration. -/
structure Restorable (gathered : Entries Json) : Prop where
  untitled : ∀ entry ∈ gathered, Untitled entry.2
  not_itself : ∀ entry ∈ gathered, isSelfReference entry.1 entry.2 = false
  no_slash : ∀ entry ∈ gathered, '/' ∉ entry.1.toList
  no_root : ∀ entry ∈ gathered, entry.1 = "#" →
    ∀ node ∈ entry.2.nodes, node.textAt? "$ref" ≠ some "#"

/-! ## Names behind slashes -/

/-- A text without a slash is one piece. -/
theorem lastPiece_of_not_mem {text : String} (h_slash : '/' ∉ text.toList) :
    Text.lastPiece '/' text = text := by
  have h_whole : text.toList.reverse.takeWhile (fun c => !(c == '/')) = text.toList.reverse := by
    rw [List.takeWhile_eq_self_iff]
    intro c h_c
    have h_ne : c ≠ '/' := fun h_eq => h_slash (h_eq ▸ List.mem_reverse.mp h_c)
    simpa using h_ne
  rw [Text.lastPiece, Text.Chars.lastPiece, h_whole, List.reverse_reverse, String.ofList_toList]

/-- The name of a restorable definition is the identifier of its key, which has no slash. -/
theorem definitionName_of_mem (h_restorable : Restorable gathered)
    (h_entry : (own, schema) ∈ gathered) : definitionName own = Name.identifier own := by
  rw [definitionName, lastPiece_of_not_mem (h_restorable.no_slash _ h_entry)]

/-! ## Claims that correspond -/

/-- Whether two claims correspond: they are for one schema without titles, or for a gathered
    definition and for what is left of it. -/
inductive ClaimAlike (gathered : Entries Json) : String × Json → String × Json → Prop where
  | untitled {name : String} {schema : Json} (h_untitled : Untitled schema) :
      ClaimAlike gathered (name, schema) (name, schema)
  | broken {own : String} {schema : Json} (h_entry : (own, schema) ∈ gathered)
      (h_some : selfReferences own schema ≠ 0) :
      ClaimAlike gathered (Name.identifier own, schema)
        (Name.identifier own, neutralize own schema)

theorem ClaimAlike.name_eq (h_claims : ClaimAlike gathered entry entry') : entry.1 = entry'.1 := by
  cases h_claims with
  | untitled => rfl
  | broken => rfl

/-- A definition and what is left of it; they are the same if it does not refer to itself. -/
theorem ClaimAlike.ofDefinition (h_restorable : Restorable gathered)
    (h_entry : (own, schema) ∈ gathered) :
    ClaimAlike gathered (Name.identifier own, schema)
      (Name.identifier own, neutralize own schema) := by
  by_cases h_none : selfReferences own schema = 0
  · rw [Definitions.neutralize_of_none h_none]
    exact .untitled (h_restorable.untitled _ h_entry)
  · exact .broken h_entry h_none

/-- Whether two rosters have corresponding claims in the same order. -/
abbrev RosterAlike (gathered : Entries Json) : Roster → Roster → Prop :=
  List.Forall₂ (ClaimAlike gathered)

theorem keepsNames_claimAlike (gathered : Entries Json) : KeepsNames (ClaimAlike gathered) :=
  fun _ _ h_claims => h_claims.name_eq

/-! ## Names that correspond -/

/-- A reference is written with one name, and claims it for the definition and for what is left of
    it. -/
theorem nameReference_alike (h_restorable : Restorable gathered)
    (h_rosters : RosterAlike gathered roster roster') (root target : String) :
    (nameReference (plain gathered) root target roster).1 =
        (nameReference (neutralized gathered) root target roster').1 ∧
      RosterAlike gathered (nameReference (plain gathered) root target roster).2
        (nameReference (neutralized gathered) root target roster').2 := by
  simp only [nameReference]
  -- the root goes by one name on both sides
  by_cases h_root : target = "#"
  · rw [if_pos h_root, if_pos h_root]
    exact ⟨rfl, h_rosters⟩
  · rw [if_neg h_root, if_neg h_root]
    cases h_key : Text.after? Reference.definitionRoot target with
    | none =>
      rw [definition?, definition?, h_key]
      exact ⟨rfl, h_rosters⟩
    | some key =>
      -- the definition as it was on the one side, with its references to itself replaced on the
      -- other
      have h_plain : definition? (plain gathered) target = gathered.lookup key := by
        rw [definition?, h_key]
        rfl
      have h_neutral : definition? (neutralized gathered) target =
          (gathered.lookup key).map (neutralize key) := by
        rw [definition?, h_key, Option.bind_some, Definitions.get?_neutralized]
      obtain rfl := Text.after?_eq_some_iff.mp h_key
      rw [h_plain, h_neutral, Roster.lastPiece_definitionRoot, ← definitionName]
      cases h_found : gathered.lookup key with
      | none => exact ⟨rfl, h_rosters⟩
      | some definition =>
        have h_entry : (key, definition) ∈ gathered := Entries.mem_of_lookup h_found
        rw [definitionName_of_mem h_restorable h_entry]
        have h_claimed := RostersRelated.claim (keepsNames_claimAlike gathered) h_rosters
          (.ofDefinition h_restorable h_entry)
        exact ⟨rfl, h_claimed⟩

/-- The placeholder of a definition is written with its name and claims nothing. -/
theorem choose_placeholder {node : Json} (h_entry : (own, schema) ∈ gathered)
    (h_some : selfReferences own schema ≠ 0) :
    Roster.choose (neutralized gathered) root (.titled (own ++ Definitions.marker) node) roster =
      (Name.identifier own, roster) := by
  have h_placeholder :
      placeholderOf? (neutralized gathered) (own ++ Definitions.marker) = some own := by
    have h_before : Text.before? Definitions.marker (own ++ Definitions.marker) = some own := by
      rw [Text.before?, Text.Chars.before?_eq_some_iff.mpr (String.toList_append)]
      simp
    rw [placeholderOf?, h_before, Option.filter_some,
      if_pos (Definitions.isSelfReferential_neutralized h_entry h_some)]
  simp only [Roster.choose, h_placeholder]

/-- So is a reference of the definition to itself, since its name is claimed before it is
    declared. -/
theorem choose_itself (h_restorable : Restorable gathered) (h_entry : (own, schema) ∈ gathered)
    (h_own : (Text.after? Reference.definitionRoot target).getD target = own)
    (h_target : Mention.From schema (.reference target))
    (h_claimed : Name.identifier own ∈ Entries.names roster) :
    Roster.choose (plain gathered) root (.reference target) roster =
      (Name.identifier own, roster) := by
  have h_name := definitionName_of_mem h_restorable h_entry
  cases h_key : Text.after? Reference.definitionRoot target with
  | some key =>
    -- by its path: the name is claimed already
    rw [h_key, Option.getD_some] at h_own
    subst h_own
    obtain rfl := Text.after?_eq_some_iff.mp h_key
    have h_written := Roster.choose_definition (plain gathered) root key roster
    rw [h_name] at h_written
    refine Prod.ext h_written ?_
    rw [Roster.choose_snd, h_written]
    cases Roster.standsFor? (plain gathered) (.reference (Reference.definitionRoot ++ key)) with
    | some definition => exact Roster.claim_of_mem h_claimed
    | none => rfl
  | none =>
    -- by its bare name: nothing is known under it
    rw [h_key, Option.getD_none] at h_own
    subst h_own
    have h_root : target ≠ "#" := by
      rintro rfl
      obtain ⟨node, h_node, h_text⟩ := h_target
      exact h_restorable.no_root _ h_entry rfl node h_node h_text
    have h_unknown : definition? (plain gathered) target = none := by
      rw [definition?, h_key, Option.bind_none]
    simp only [Roster.choose, nameReference, h_unknown]
    rw [if_neg h_root, ← definitionName, h_name]

/-! ## Declarations that become one -/

/-- Whether two declarations become one with their names chosen, and leave rosters that
    correspond. -/
def NamedAlike (gathered : Entries Json) (root name : String)
    (declaration declaration' : Declaration Mention) : Prop :=
  ∀ roster roster', RosterAlike gathered roster roster' → name ∈ Entries.names roster →
    (nameIn (plain gathered) root declaration roster).1 =
        (nameIn (neutralized gathered) root declaration' roster').1 ∧
      RosterAlike gathered (nameIn (plain gathered) root declaration roster).2
        (nameIn (neutralized gathered) root declaration' roster').2

/-- A schema without titles is declared with the same names in both. -/
theorem namedAlike_of_untitled {declaration : Declaration Mention}
    (h_restorable : Restorable gathered) (h_untitled : Untitled schema)
    (h_declare : declare name schema = .ok declaration) :
    NamedAlike gathered root name declaration declaration := by
  refine BecomeOne.of_chosen rfl rfl rfl (Matches.refl (fun _ => rfl) declaration.type) ?_
  rintro mention h_mention _ rfl roster roster' ⟨h_rosters, h_claimed⟩
  have h_from := (declare_draws h_declare).mentions mention h_mention
  obtain ⟨target, rfl⟩ := h_untitled.exists_target h_from
  -- the roster only grows, so the name of the declaration stays claimed
  obtain ⟨h_written, h_after⟩ := nameReference_alike h_restorable h_rosters root target
  have h_grown := Roster.prefix_choose (plain gathered) root (.reference target) roster
  exact ⟨h_written, h_after, Roster.mem_names_of_grown h_grown h_claimed⟩

/-- A definition and what is left of it are declared with the same names: what the one writes for a
    reference to itself, the other writes for the placeholder. -/
theorem namedAlike_of_broken {declaration declaration' : Declaration Mention}
    (h_restorable : Restorable gathered) (h_entry : (own, schema) ∈ gathered)
    (h_some : selfReferences own schema ≠ 0)
    (h_declare : declare (Name.identifier own) schema = .ok declaration)
    (h_alike : DeclaredAlike own declaration declaration') :
    NamedAlike gathered root (Name.identifier own) declaration declaration' := by
  refine BecomeOne.of_chosen h_alike.name h_alike.description h_alike.form h_alike.type ?_
  rintro mention h_mention mention' h_restores roster roster' ⟨h_rosters, h_claimed⟩
  have h_from := (declare_draws h_declare).mentions mention h_mention
  obtain ⟨target, rfl⟩ := (h_restorable.untitled _ h_entry).exists_target h_from
  rcases h_restores with rfl | ⟨h_own, node, rfl⟩
  · -- the same reference in both
    obtain ⟨h_written, h_after⟩ := nameReference_alike h_restorable h_rosters root target
    have h_grown := Roster.prefix_choose (plain gathered) root (.reference target) roster
    exact ⟨h_written, h_after, Roster.mem_names_of_grown h_grown h_claimed⟩
  · -- a reference to itself in the one, its placeholder in the other
    rw [choose_itself h_restorable h_entry h_own h_from h_claimed,
      choose_placeholder h_entry h_some]
    exact ⟨rfl, h_rosters, h_claimed⟩

/-- Corresponding claims are malformed alike, or their declarations become one. -/
theorem declare_claims_alike (h_gathered : ∀ entry ∈ gathered, entry.2.WellFormed)
    (h_restorable : Restorable gathered) (root : String)
    (h_claims : ClaimAlike gathered entry entry') :
    Alike (NamedAlike gathered root entry.1) (declare entry.1 entry.2)
      (declare entry'.1 entry'.2) := by
  -- a claim of a schema that was not changed, or of a definition that was
  cases h_claims with
  | @untitled name schema h_untitled =>
    refine (Alike.refl (R := (· = ·)) (fun _ => rfl) _).mono ?_
    rintro declaration _ h_declare rfl
    exact namedAlike_of_untitled h_restorable h_untitled h_declare
  | @broken own schema h_entry h_some =>
    refine (declare_alike (h_gathered _ h_entry) (h_restorable.not_itself _ h_entry)).mono ?_
    intro declaration declaration' h_declare h_alike
    exact namedAlike_of_broken h_restorable h_entry h_some h_declare h_alike

/-! ## Texts that are equal -/

/-- Corresponding schemas have one text. -/
theorem typeScript_alike (h_gathered : ∀ entry ∈ gathered, entry.2.WellFormed)
    (h_restorable : Restorable gathered) {schema' : Json} (h_schema : schema.WellFormed)
    (h_schema' : schema'.WellFormed)
    (h_claims : ClaimAlike gathered (Name.identifier name, schema)
      (Name.identifier name, schema')) :
    typeScript schema' name (neutralized gathered) = typeScript schema name (plain gathered) := by
  have h_plain : Json.WellFormedFields (plain gathered).schemas :=
    Json.wellFormedFields_iff.mpr h_gathered
  have h_neutral : Json.WellFormedFields (neutralized gathered).schemas := by
    rw [Json.wellFormedFields_iff]
    intro entry h_entry
    obtain ⟨before, h_before, rfl⟩ := List.mem_map.mp h_entry
    exact Definitions.wellFormed_neutralize (h_gathered before h_before)
  -- in each round both declare claims that are alike, and name what they mention alike
  have h_alike : DeclaresAlike (plain gathered) (neutralized gathered) (Name.identifier name)
      (· = ·) (ClaimAlike gathered) :=
    ⟨keepsNames_claimAlike gathered, fun _ _ h_claims =>
      (declare_claims_alike h_gathered h_restorable _ h_claims).corresponds⟩
  have h_outcomes := h_alike.compile h_schema h_schema' h_plain h_neutral h_claims
  simp only [typeScript]
  generalize compile (plain gathered) name schema = outcome at h_outcomes
  generalize compile (neutralized gathered) name schema' = outcome' at h_outcomes
  cases h_outcomes with
  | error h_malformed => simp only [Malformed.failure, h_malformed.name, h_malformed.fault]
  | ok h_same => simp only [Compilation.render, h_same.made]

/-- Replacing the references of definitions to themselves changes no text: each definition is
    compiled under its name to what it is compiled to with the references left in place, and so is
    every schema without titles under every name; a schema that is malformed fails alike. -/
theorem self_references_restored (document : Json)
    (h_restorable : Restorable (gather (normalize document))) :
    (∀ name schema, (plain (gather (normalize document))).get? name = some schema →
      ∃ neutral, (ofDocument (normalize document)).get? name = some neutral ∧
        typeScript neutral name (ofDocument (normalize document)) =
          typeScript schema name (plain (gather (normalize document)))) ∧
    ∀ schema name, schema.WellFormed → Untitled schema →
      typeScript schema name (ofDocument (normalize document)) =
        typeScript schema name (plain (gather (normalize document))) := by
  have h_gathered := Definitions.wellFormed_gather (Reference.wellFormed_normalize document)
  rw [Definitions.ofDocument_eq]
  constructor
  · intro name schema h_schema
    have h_entry : (name, schema) ∈ gather (normalize document) := Entries.mem_of_lookup h_schema
    refine ⟨neutralize name schema, ?_, ?_⟩
    · -- what is found under a name is what was there, with its references to itself replaced
      rw [Definitions.get?_neutralized]
      exact congrArg (Option.map (neutralize name)) h_schema
    · have h_formed := h_gathered _ h_entry
      exact typeScript_alike h_gathered h_restorable h_formed
        (Definitions.wellFormed_neutralize h_formed) (.ofDefinition h_restorable h_entry)
  · intro schema name h_schema h_untitled
    exact typeScript_alike h_gathered h_restorable h_schema h_schema (.untitled h_untitled)

/-- A document with the definition of trees, which refers to itself by its path where that is
    replaced and where it is not, and by its bare name. -/
def treeDocument : Json :=
  .object [("components", .object [("schemas", .object [("Tree", .object [("type", .text "object"),
    ("properties", .object [
      ("children", .object [("type", .text "array"),
        ("items", .object [("$ref", .text "#/components/schemas/Tree")])]),
      ("parent", .object [("$ref", .text "Tree")])]),
    ("additionalProperties", .object [("$ref", .text "#/components/schemas/Tree")])])])])]

/-- A schema that refers to trees. -/
def treeReference : Json := .object [("$ref", .text "#/definitions/Tree")]

/-- A definition that refers to itself, and a schema that refers to it. -/
theorem tree_restored :
    (ofDocument (normalize treeDocument)).isSelfReferential "Tree" = true ∧
      Restorable (gather (normalize treeDocument)) ∧
      treeReference.WellFormed ∧ Untitled treeReference ∧
      typeScript treeReference "Body" (ofDocument (normalize treeDocument)) =
        typeScript treeReference "Body" (plain (gather (normalize treeDocument))) := by
  have h_restorable : Restorable (gather (normalize treeDocument)) :=
    ⟨by decide +kernel, by decide +kernel, by decide +kernel, by decide +kernel⟩
  have h_formed : treeReference.WellFormed := by
    simp [treeReference, Json.WellFormed, Json.WellFormedFields]
  have h_untitled : Untitled treeReference := by decide
  have h_text := (self_references_restored treeDocument h_restorable).2 treeReference "Body"
    h_formed h_untitled
  exact ⟨by decide +kernel, h_restorable, h_formed, h_untitled, h_text⟩

/-- A document with a definition called `#`, which refers to `#`. -/
def hashDocument : Json :=
  .object [("components", .object [("schemas", .object [("#", .object [("type", .text "object"),
    ("properties", .object [("x", .object [("$ref", .text "#")])])])])])]

/-- A schema that refers to that definition. -/
def hashReference : Json := .object [("$ref", .text "#/definitions/#")]

/-- All other conditions do not help where `#` is both the root declaration and the name of a
    definition. -/
theorem hash_reference_not_restored :
    (∀ entry ∈ gather (normalize hashDocument), Untitled entry.2) ∧
      (∀ entry ∈ gather (normalize hashDocument), isSelfReference entry.1 entry.2 = false) ∧
      (∀ entry ∈ gather (normalize hashDocument), '/' ∉ entry.1.toList) ∧
      hashReference.WellFormed ∧ Untitled hashReference ∧
      typeScript hashReference "Body" (ofDocument (normalize hashDocument)) ≠
        typeScript hashReference "Body" (plain (gather (normalize hashDocument))) := by
  have h_formed : hashReference.WellFormed := by
    simp [hashReference, Json.WellFormed, Json.WellFormedFields]
  -- the texts differ in the name that the reference is written with
  have h_texts :
      (typeScript hashReference "Body" (ofDocument (normalize hashDocument))).toOption ≠
        (typeScript hashReference "Body" (plain (gather (normalize hashDocument)))).toOption := by
    decide +kernel
  exact ⟨by decide +kernel, by decide +kernel, by decide +kernel, h_formed, by decide,
    fun h_eq => h_texts (congrArg Except.toOption h_eq)⟩

end OpenApiTs.Schema
