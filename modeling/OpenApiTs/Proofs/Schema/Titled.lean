/-
  OpenApiTs.Proofs.Schema.Titled

  Nodes with titles in a finished compilation. Every one that a declaration mentions is written with
  a name, and the text declares that name once, from an equal schema. So however titles clash, and
  in whatever order they are met, nodes that differ have different names.
-/
import OpenApiTs.Proofs.Schema.Claims
import OpenApiTs.Proofs.Schema.Linking
import OpenApiTs.Proofs.Schema.Pulled

namespace OpenApiTs.Schema

open OpenApiTs.Output (exportedNames exportedNames_join)
open OpenApiTs.TypeScript
open Roster (placeholderOf?)

variable {definitions : Definitions} {root name written : String} {schema own node other : Json}
  {compilation : Compilation} {mention : Mention}

/-! ## Mentions and what is written for them -/

/-- Whatever a claimed schema mentions is written with some name. -/
theorem Sound.exists_written (h_sound : Sound definitions root schema compilation)
    (h_length : compilation.roster.length = compilation.made.length)
    (h_claim : (name, own) ∈ compilation.roster) (h_mention : mention ∈ mentionsOf own) :
    ∃ written, (mention, written) ∈ compilation.writings := by
  obtain ⟨plain, declaration, h_declared⟩ := h_sound.exists_declared h_length h_claim
  rw [mentionsOf_eq h_declared.declared] at h_mention
  obtain ⟨before, h_named, -⟩ := h_declared.named
  -- one name is chosen for each mention
  have h_names : declaration.type.mentions.length = plain.type.mentions.length := by
    rw [← h_named, mentions_nameIn, TypeExpr.length_chooseAll]
  obtain ⟨place, h_place, rfl⟩ := List.mem_iff_getElem.mp h_mention
  have h_within : place < declaration.type.mentions.length := by omega
  refine ⟨declaration.type.mentions[place], mem_writings_iff.mpr
    ⟨name, own, declaration, plain, h_declared.claimed, h_declared.declared, ?_⟩⟩
  exact List.mem_iff_getElem?.mpr ⟨place, List.getElem?_zip_eq_some.mpr
    ⟨List.getElem?_eq_getElem h_place, List.getElem?_eq_getElem h_within⟩⟩

/-! ## Hoisted nodes -/

/-- Whether a node with a title, other than the placeholder of a self-reference, is written with a
    name. -/
def HoistedAs (definitions : Definitions) (compilation : Compilation) (node : Json)
    (written : String) : Prop :=
  ∃ title, (.titled title node, written) ∈ compilation.writings ∧
    placeholderOf? definitions title = none

/-- The name of a hoisted node is owned by an equal schema. -/
theorem HoistedAs.owner (h_hoisted : HoistedAs definitions compilation node written)
    (h_sound : Sound definitions root schema compilation)
    (h_sources : (sources definitions schema).WellFormed) :
    ∃ owner, compilation.roster.lookup written = some owner ∧ owner.same node = true := by
  obtain ⟨title, h_written, h_title⟩ := h_hoisted
  exact h_sound.owner_of_titled h_sources h_written h_title

/-- Nodes that are written with one name both equal its owner, and so each other. -/
theorem HoistedAs.same (h_node : HoistedAs definitions compilation node written)
    (h_other : HoistedAs definitions compilation other written)
    (h_sound : Sound definitions root schema compilation)
    (h_sources : (sources definitions schema).WellFormed) : node.same other = true := by
  obtain ⟨owner, h_owner, h_same⟩ := h_node.owner h_sound h_sources
  obtain ⟨owner', h_owner', h_same'⟩ := h_other.owner h_sound h_sources
  obtain rfl : owner = owner' := Option.some.inj (h_owner.symm.trans h_owner')
  obtain ⟨title, h_written, -⟩ := h_node
  have h_whole := Json.wellFormed_of_mem_nodes h_sources (h_sound.from_sources h_written).1
  exact Json.same_trans
    (Json.same_symm (h_sound.wellFormed_owner h_sources h_owner) h_whole h_same) h_same'

/-- Whenever a text is compiled, every node with a title that one of its declarations mentions is
    written with a name. Unless the node is the placeholder of a self-reference, the text declares
    that name, and it does so once, from a schema equal to the node; so nodes that are not equal are
    never written with the same name. -/
theorem titled_nodes_linked (definitions : Definitions) (name : String) (schema : Json)
    (text : String) (h_schema : schema.WellFormed)
    (h_definitions : Json.WellFormedFields definitions.schemas)
    (h_text : typeScript schema name definitions = .ok text) :
    ∃ compilation, compile definitions name schema = .ok compilation ∧
      text = String.join (compilation.made.map Declaration.render) ∧
      (exportedNames text).Nodup ∧
      (∀ claimed own title node, (claimed, own) ∈ compilation.roster →
        .titled title node ∈ mentionsOf own →
          ∃ written, (.titled title node, written) ∈ compilation.writings) ∧
      (∀ node written, HoistedAs definitions compilation node written →
        isTitled node = true ∧ written ∈ exportedNames text ∧
          Linked definitions (Name.identifier name) compilation written node) ∧
      ∀ node other written writtenOther, HoistedAs definitions compilation node written →
        HoistedAs definitions compilation other writtenOther →
          node.same other = false → written ≠ writtenOther := by
  unfold typeScript at h_text
  split at h_text
  case h_2 => cases h_text
  case h_1 compilation h_compile =>
    obtain rfl := Except.ok.inj h_text
    have h_sources := wellFormed_sources h_schema h_definitions
    obtain ⟨h_sound, h_length⟩ := sound_of_compile h_schema h_definitions h_compile
    -- the text exports the claimed names, each once
    have h_exported : exportedNames compilation.render = Entries.names compilation.roster :=
      (exportedNames_join (legible_of_compile h_compile)).trans (h_sound.names_made h_length)
    rw [h_exported]
    refine ⟨compilation, h_compile, rfl, h_sound.names_nodup, ?_, ?_, ?_⟩
    · intro claimed own title node h_claim h_mention
      exact h_sound.exists_written h_length h_claim h_mention
    · intro node written h_hoisted
      obtain ⟨owner, h_owner, h_same⟩ := h_hoisted.owner h_sound h_sources
      obtain ⟨title, h_written, -⟩ := h_hoisted
      have h_title : node.wordsAt? "title" = some title := (h_sound.from_sources h_written).2
      exact ⟨by rw [isTitled, h_title]; rfl,
        Entries.mem_names_of_mem (Entries.mem_of_lookup h_owner),
        (linked_iff h_sound h_length).mpr ⟨owner, h_owner, h_same⟩⟩
    · -- with one name for both, the owner of the name would equal both
      rintro node other written writtenOther h_node h_other h_differ rfl
      rw [h_node.same h_other h_sound h_sources] at h_differ
      cases h_differ

/-- A node with a title and a type. -/
def itemNode (title kind : String) : Json :=
  .object [("title", .text title), ("type", .text kind)]

/-- A definition that is named like a title. -/
def itemDefinitions : Definitions := ⟨[("Item", .object [("type", .text "null")])], []⟩

/-- Nodes whose titles clash with each other, with numbered names and with the definition, which is
    referred to after them. -/
def itemsSchema : Json :=
  .object [("items", .array
    [itemNode "Item" "string", itemNode "Item1" "number", itemNode "item" "boolean",
      itemNode "Item" "string", .object [("$ref", .text "#/definitions/Item")]])]

/-- The nodes that differ get different names, the equal ones share theirs, and the definition keeps
    its own. -/
theorem items_linked :
    itemsSchema.WellFormed ∧ Json.WellFormedFields itemDefinitions.schemas ∧
      ∃ text compilation, typeScript itemsSchema "body" itemDefinitions = .ok text ∧
        compile itemDefinitions "body" itemsSchema = .ok compilation ∧
        compilation.writings.map Prod.snd = ["Item1", "Item11", "Item2", "Item1", "Item"] ∧
        ∀ node written, HoistedAs itemDefinitions compilation node written →
          Linked itemDefinitions (Name.identifier "body") compilation written node := by
  have h_schema : itemsSchema.WellFormed := by
    simp [itemsSchema, itemNode, Json.WellFormed, Json.WellFormedItems, Json.WellFormedFields]
  have h_definitions : Json.WellFormedFields itemDefinitions.schemas := by
    simp [itemDefinitions, Json.WellFormed, Json.WellFormedFields]
  refine ⟨h_schema, h_definitions, ?_⟩
  -- the names that are written, from the run itself
  have h_computed : (compile itemDefinitions "body" itemsSchema).toOption.map
      (fun compilation => compilation.writings.map Prod.snd) =
        some ["Item1", "Item11", "Item2", "Item1", "Item"] := by
    decide +kernel
  cases h_compile : compile itemDefinitions "body" itemsSchema with
  | error malformed =>
    rw [h_compile] at h_computed
    cases h_computed
  | ok compilation =>
    rw [h_compile] at h_computed
    have h_text : typeScript itemsSchema "body" itemDefinitions = .ok compilation.render := by
      rw [typeScript, h_compile]
    obtain ⟨own, h_own, -, -, -, h_linked, -⟩ := titled_nodes_linked itemDefinitions "body"
      itemsSchema compilation.render h_schema h_definitions h_text
    obtain rfl : compilation = own := Except.ok.inj (h_compile.symm.trans h_own)
    exact ⟨compilation.render, compilation, h_text, rfl, Option.some.inj h_computed,
      fun node written h_hoisted => (h_linked node written h_hoisted).2.2⟩

end OpenApiTs.Schema
