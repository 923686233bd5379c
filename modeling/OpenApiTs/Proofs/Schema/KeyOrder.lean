/-
  OpenApiTs.Proofs.Schema.KeyOrder

  The order of keys counts under `properties` only. Two schemas that differ in the order of other keys
  are compiled to one text, with definitions that differ in their order and in the order of other
  keys: the two compilations go round by round, their claims are of the same names for schemas that
  differ in the order of keys, and the declarations made are equal.
-/
import OpenApiTs.Proofs.Schema.Declared
import OpenApiTs.Proofs.Schema.Lockstep
import OpenApiTs.Proofs.Schema.Reshaped

namespace OpenApiTs.Schema

open OpenApiTs.Json (Reordered SameFields)
open OpenApiTs.Outcome (Corresponds rel_cases)
open OpenApiTs.TypeScript
open OpenApiTs.TypeScript.TypeExpr (ChosenAlike)
open Roster (candidate choose definition? nameReference nameTitled nameTitled_first placeholderOf?
  standsFor? taken)

variable {definitions definitions' : Definitions} {root name : String}
  {schema schema' node node' : Json} {roster roster' : Roster} {mention mention' : Mention}

/-! ## Definitions and claims -/

/-- Whether definitions differ in their order and in the order of keys: those of one name are
    reordered, and the same of them referred to themselves. -/
structure DefinitionsReordered (definitions definitions' : Definitions) : Prop where
  wellFormed : Json.WellFormedFields definitions.schemas
  wellFormed' : Json.WellFormedFields definitions'.schemas
  schemas : ∀ name, Option.Rel Reordered (definitions.get? name) (definitions'.get? name)
  selfReferential : ∀ name,
    definitions.isSelfReferential name = definitions'.isSelfReferential name

/-- Well-formed definitions differ from themselves in nothing. -/
theorem DefinitionsReordered.refl (h_definitions : Json.WellFormedFields definitions.schemas) :
    DefinitionsReordered definitions definitions where
  wellFormed := h_definitions
  wellFormed' := h_definitions
  schemas := by
    intro name
    cases h_found : definitions.get? name with
    | none => exact .none
    | some value =>
      exact .some (.refl (Json.wellFormedFields_iff.mp h_definitions _
        (Entries.mem_of_lookup h_found)))
  selfReferential := fun _ => rfl

/-- Definitions in one order, each with its outermost fields in some order. -/
theorem DefinitionsReordered.of_sameFields
    (h_schemas : List.Forall₂ (Entries.Related SameFields) definitions.schemas
      definitions'.schemas)
    (h_names : definitions.selfReferential = definitions'.selfReferential) :
    DefinitionsReordered definitions definitions' where
  wellFormed := by
    rw [Json.wellFormedFields_iff]
    intro entry h_entry
    obtain ⟨entry', -, h_both⟩ := Outcome.exists_partner h_schemas h_entry
    exact h_both.2.reordered.wellFormed
  wellFormed' := by
    rw [Json.wellFormedFields_iff]
    intro entry' h_entry'
    obtain ⟨entry, -, h_both⟩ := Outcome.exists_partner h_schemas.flip h_entry'
    exact h_both.2.reordered.wellFormed'
  schemas := by
    intro name
    rw [Definitions.get?, Definitions.get?]
    rcases rel_cases (Entries.lookup_related h_schemas name) with
      ⟨h_none, h_none'⟩ | ⟨value, value', h_value, h_value', h_values⟩
    · rw [h_none, h_none']
      exact .none
    · rw [h_value, h_value']
      exact .some h_values.reordered
  selfReferential := by
    intro name
    rw [Definitions.isSelfReferential, Definitions.isSelfReferential, h_names]

/-- Claims of one name for schemas that differ in the order of keys. -/
abbrev ClaimReordered : String × Json → String × Json → Prop := Entries.Related Reordered

theorem keepsNames_claimReordered : KeepsNames ClaimReordered := fun _ _ h_claims => h_claims.1

/-! ## Names -/

/-- A name is taken for the one node when it is for the other. -/
theorem taken_reordered (h_definitions : DefinitionsReordered definitions definitions')
    (h_rosters : RostersRelated ClaimReordered roster roster') (h_nodes : Reordered node node')
    (name : String) :
    taken definitions roster node name = taken definitions' roster' node' name := by
  rw [taken, taken]
  -- a name has an owner in both rosters or in neither, and without one the definitions decide
  rcases rel_cases (Entries.lookup_related h_rosters name) with
    ⟨h_none, h_none'⟩ | ⟨owner, owner', h_owner, h_owner', h_owners⟩
  · rw [h_none, h_none']
    rcases rel_cases (h_definitions.schemas name) with
      ⟨h_none, h_none'⟩ | ⟨definition, definition', h_defined, h_defined', h_both⟩
    · rw [h_none, h_none']
    · rw [h_defined, h_defined']
      exact congrArg not (h_both.same_eq h_nodes)
  · rw [h_owner, h_owner']
    exact congrArg not (h_owners.same_eq h_nodes)

/-- The first candidate that is not taken is the same for both. -/
theorem nameTitled_reordered (h_definitions : DefinitionsReordered definitions definitions')
    (h_rosters : RostersRelated ClaimReordered roster roster') (h_nodes : Reordered node node')
    (title : String) :
    (nameTitled definitions title node roster).1 =
      (nameTitled definitions' title node' roster').1 := by
  obtain ⟨number, -, h_name, h_free, h_before⟩ := nameTitled_first definitions title node roster
  obtain ⟨number', -, h_name', h_free', h_before'⟩ :=
    nameTitled_first definitions' title node' roster'
  have h_taken := taken_reordered h_definitions h_rosters h_nodes
  rw [h_name, h_name']
  -- the smaller of two numbers would be free on the other side as well
  rcases Nat.lt_trichotomy number number' with h_less | rfl | h_more
  · have h_earlier := h_before' number h_less
    rw [← h_taken, h_free] at h_earlier
    cases h_earlier
  · rfl
  · have h_earlier := h_before number' h_more
    rw [h_taken, h_free'] at h_earlier
    cases h_earlier

theorem placeholderOf?_reordered (h_definitions : DefinitionsReordered definitions definitions')
    (title : String) : placeholderOf? definitions title = placeholderOf? definitions' title := by
  rw [placeholderOf?, placeholderOf?, funext h_definitions.selfReferential]

/-- A reference leads to the same definition in both, or to none. -/
theorem definition?_reordered (h_definitions : DefinitionsReordered definitions definitions')
    (target : String) :
    Option.Rel Reordered (definition? definitions target) (definition? definitions' target) := by
  rw [definition?, definition?]
  cases Text.after? Reference.definitionRoot target with
  | none => exact .none
  | some key => exact h_definitions.schemas key

/-- Mentions of reordered nodes get one name, and claim it for reordered schemas. -/
theorem choose_reordered (h_definitions : DefinitionsReordered definitions definitions')
    (h_rosters : RostersRelated ClaimReordered roster roster')
    (h_mentions : Mention.Reordered mention mention') :
    (choose definitions root mention roster).1 = (choose definitions' root mention' roster').1 ∧
      RostersRelated ClaimReordered (choose definitions root mention roster).2
        (choose definitions' root mention' roster').2 := by
  -- whatever is claimed is claimed in both
  have h_claim {name : String} {schema schema' : Json} (h_schemas : Reordered schema schema') :
      RostersRelated ClaimReordered (roster.claim name schema) (roster'.claim name schema') :=
    h_rosters.claim keepsNames_claimReordered ⟨rfl, h_schemas⟩
  cases h_mentions with
  | titled title h_nodes =>
    -- a title is that of a placeholder on both sides or on neither
    have h_placeholder := placeholderOf?_reordered h_definitions title
    simp only [choose]
    rw [← h_placeholder]
    cases placeholderOf? definitions title with
    | some own => exact ⟨rfl, h_rosters⟩
    | none =>
      have h_name := nameTitled_reordered h_definitions h_rosters h_nodes title
      dsimp only
      rw [Roster.nameTitled_snd, Roster.nameTitled_snd, h_name]
      exact ⟨rfl, h_claim h_nodes⟩
  | reference target =>
    simp only [choose, nameReference]
    split
    · exact ⟨rfl, h_rosters⟩
    · rcases rel_cases (definition?_reordered h_definitions target) with
        ⟨h_none, h_none'⟩ | ⟨definition, definition', h_defined, h_defined', h_schemas⟩
      · rw [h_none, h_none']
        exact ⟨rfl, h_rosters⟩
      · rw [h_defined, h_defined']
        exact ⟨rfl, h_claim h_schemas⟩

/-! ## Declarations -/

/-- Claims of reordered schemas are declared alike. -/
theorem declaresAlike_reordered (h_definitions : DefinitionsReordered definitions definitions')
    (root : String) :
    DeclaresAlike definitions definitions' root (fun _ _ => True) ClaimReordered where
  keepsNames := keepsNames_claimReordered
  declared := by
    rintro ⟨name, schema⟩ ⟨name', schema'⟩ ⟨h_name, h_schemas⟩
    dsimp only at h_name h_schemas ⊢
    subst h_name
    refine (declare_reordered name h_schemas).mono ?_
    intro declaration declaration' h_declared
    refine .of_chosen h_declared.name h_declared.description h_declared.form h_declared.type ?_
    rintro mention - mention' h_mentions roster roster' ⟨h_rosters, h_claimed⟩
    obtain ⟨h_written, h_after⟩ := choose_reordered h_definitions h_rosters h_mentions
    -- the roster only grows, so the name of the declaration stays claimed
    have h_grown := Roster.prefix_choose definitions root mention roster
    exact ⟨h_written, h_after, Roster.mem_names_of_grown h_grown h_claimed⟩

/-- The compiled text does not depend on the order of fields, neither in the schema nor in the
    definitions. -/
theorem typeScript_reordered (h_definitions : DefinitionsReordered definitions definitions')
    (h_schemas : Reordered schema schema') (name text : String) :
    typeScript schema name definitions = .ok text ↔
      typeScript schema' name definitions' = .ok text := by
  have h_outcomes := (declaresAlike_reordered h_definitions (Name.identifier name)).compile
    h_schemas.wellFormed h_schemas.wellFormed' h_definitions.wellFormed h_definitions.wellFormed'
    ⟨rfl, h_schemas⟩
  rw [typeScript, typeScript]
  generalize compile definitions name schema = outcome at h_outcomes
  generalize compile definitions' name schema' = outcome' at h_outcomes
  -- both compilations fail, or both made the same declarations
  cases h_outcomes with
  | error _ => simp
  | ok h_same => simp only [Compilation.render, h_same.made]

end OpenApiTs.Schema
