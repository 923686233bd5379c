/-
  OpenApiTs.Proofs.Schema.Pulled

  What a compilation declares besides the schema that it is asked for. Declarations have the names
  of the claims in order, and no name is claimed twice. Where titled nodes claim nothing, every name
  behind that of the schema is one that references to some definition are written with.
-/
import OpenApiTs.Proofs.Schema.Legible

namespace OpenApiTs.Schema

open OpenApiTs.TypeScript
open Roster (definitionName standsFor?)

variable {definitions : Definitions} {root name : String} {schema : Json}
  {compilation later : Compilation}

/-! ## Names of declarations -/

/-- Whether the declarations of a compilation have the names of its first claims, and no name is
    claimed twice. -/
structure Named (compilation : Compilation) : Prop where
  names : compilation.made.map Declaration.name =
    (Entries.names compilation.roster).take compilation.made.length
  nodup : (Entries.names compilation.roster).Nodup

/-- A round declares the next name of the roster, and all names stay apart. -/
theorem Round.named (h_round : Round definitions root compilation later)
    (h_named : Named compilation) : Named later := by
  obtain ⟨h_next, h_declare⟩ := h_round
  rename_i own node plain
  constructor
  · have h_own : (Entries.names compilation.roster)[compilation.made.length]? = some own := by
      rw [Entries.names, List.getElem?_map, h_next, Option.map_some]
    have h_within : compilation.made.length + 1 ≤ (Entries.names compilation.roster).length :=
      (List.getElem?_eq_some_iff.mp h_own).1
    -- the roster grows behind the claim that is declared
    obtain ⟨more, h_more⟩ := prefix_nameIn definitions root plain compilation.roster
    have h_names : Entries.names (nameIn definitions root plain compilation.roster).2 =
        Entries.names compilation.roster ++ Entries.names more := by
      rw [← h_more, Entries.names, List.map_append]
      rfl
    rw [List.map_append, List.map_singleton, h_named.names, List.length_append,
      List.length_singleton, h_names, List.take_append_of_le_length h_within, List.take_add_one,
      h_own, Option.toList_some]
    exact congrArg (fun name => _ ++ [name]) (name_of_declare h_declare)
  · rw [roster_nameIn]
    refine TypeExpr.chooseAll_preserves (P := fun roster => (Entries.names roster).Nodup) ?_
      h_named.nodup
    exact fun mention _ roster h_names => Roster.names_nodup_choose h_names

/-- The declarations of a compilation have the names of its roster, each once. -/
theorem named_of_compile (h_compile : compile definitions name schema = .ok compilation) :
    Named compilation := by
  refine declareFrom_induction (P := Named)
    (fun before after h_round h_before => h_round.named h_before) _ _ _ ⟨rfl, ?_⟩ h_compile
  exact List.nodup_singleton _

/-- A compilation declares no name twice. -/
theorem names_nodup_of_compile (h_compile : compile definitions name schema = .ok compilation) :
    (compilation.made.map Declaration.name).Nodup := by
  have h_named := named_of_compile h_compile
  rw [h_named.names]
  exact (List.take_sublist _ _).nodup h_named.nodup

/-! ## Types of declarations -/

/-- The type that a schema is declared with, whatever its name. -/
def outline (schema : Json) : Shaped (TypeExpr Mention) :=
  match schema with
  | .object fields =>
    if isInterface (.object fields) then recordShape fields else bodyShape (.object fields)
  | schema => bodyShape schema

/-- The form that a schema is declared in. -/
def formOf (schema : Json) : Form := if isInterface schema then .interface else .alias

/-- A declaration is the outline of its schema under a name, with the description above. -/
theorem declare_eq (name : String) (schema : Json) :
    declare name schema =
      (outline schema).map fun type => ⟨name, description? schema, formOf schema, type⟩ := by
  cases schema with
  | object fields =>
    have h_outline : outline (.object fields) = if isInterface (.object fields) then
      recordShape fields else bodyShape (.object fields) := rfl
    rw [h_outline]
    unfold declare formOf
    -- an interface is outlined as a record, an alias by its body
    cases isInterface (.object fields) with
    | true =>
      simp only [if_true]
      cases recordShape fields <;> rfl
    | false =>
      simp only [Bool.false_eq_true, if_false]
      cases bodyShape (.object fields) <;> rfl
  | _ =>
    unfold declare outline formOf
    simp only [isInterface]
    cases bodyShape _ <;> rfl

/-! ## Claims for references -/

/-- What the declaration of a schema mentions. -/
def mentionsOf (schema : Json) : List Mention :=
  match outline schema with
  | .ok type => type.mentions
  | .error _ => []

/-- What a schema mentions is what stands in its declaration. -/
theorem mentionsOf_eq {plain : Declaration Mention} (h_declare : declare name schema = .ok plain) :
    mentionsOf schema = plain.type.mentions := by
  rw [declare_eq] at h_declare
  obtain ⟨type, h_type, rfl⟩ := Outcome.map_eq_ok_iff.mp h_declare
  rw [mentionsOf, h_type]

/-- Whether a mention is a titled node that claims a name. -/
def Mention.claimsTitle (definitions : Definitions) (mention : Mention) : Bool :=
  match mention with
  | .titled _ _ => (standsFor? definitions mention).isSome
  | .reference _ => false

/-- Whether no titled node that the declaration of a schema mentions claims a name. -/
def ClaimsNoTitle (definitions : Definitions) (schema : Json) : Prop :=
  ∀ mention ∈ mentionsOf schema, mention.claimsTitle definitions = false

instance (definitions : Definitions) (schema : Json) :
    Decidable (ClaimsNoTitle definitions schema) :=
  inferInstanceAs (Decidable (∀ mention ∈ mentionsOf schema, _))

/-- Whether every claim behind the first is for a definition, under the name that references to it
    are written with. -/
def ClaimsReferences (definitions : Definitions) (root : String) (schema : Json) (roster : Roster) :
    Prop :=
  ∀ entry ∈ roster, entry = (root, schema) ∨
    ∃ key, definitions.get? key = some entry.2 ∧ definitionName key = entry.1

/-- Where titles claim nothing, a round claims names only for the definitions that it refers to. -/
theorem Round.claimsReferences (h_schema : ClaimsNoTitle definitions schema)
    (h_definitions : ∀ entry ∈ definitions.schemas, ClaimsNoTitle definitions entry.2)
    (h_round : Round definitions root compilation later)
    (h_claims : ClaimsReferences definitions name schema compilation.roster) :
    ClaimsReferences definitions name schema later.roster := by
  obtain ⟨h_next, h_declare⟩ := h_round
  rename_i own node plain
  -- the node that is declared is the schema or a definition
  have h_node : ClaimsNoTitle definitions node := by
    rcases h_claims _ (List.mem_of_getElem? h_next) with h_first | ⟨key, h_key, -⟩
    · obtain ⟨-, rfl⟩ := Prod.mk.inj h_first
      exact h_schema
    · exact h_definitions (key, node) (Entries.mem_of_lookup h_key)
  rw [ClaimsNoTitle, mentionsOf_eq h_declare] at h_node
  simp only
  rw [roster_nameIn]
  -- by induction over the mentions, for each of which at most one claim is added
  refine TypeExpr.chooseAll_preserves (P := ClaimsReferences definitions name schema) ?_ h_claims
  intro mention h_mention roster h_before entry h_entry
  rcases Roster.mem_choose h_entry with h_old | ⟨h_name, h_stands, -⟩
  · exact h_before entry h_old
  · cases mention with
    | titled title own =>
      have h_none := h_node _ h_mention
      rw [Mention.claimsTitle, h_stands] at h_none
      cases h_none
    | reference target =>
      obtain ⟨key, rfl, h_key⟩ := Roster.definition?_eq_some_iff.mp h_stands
      rw [Roster.choose_definition] at h_name
      exact .inr ⟨key, h_key, h_name⟩

/-- Where titled nodes claim nothing, whatever is declared behind the schema has the name that
    references to some definition are written with. -/
theorem pulled_of_compile (h_schema : ClaimsNoTitle definitions schema)
    (h_definitions : ∀ entry ∈ definitions.schemas, ClaimsNoTitle definitions entry.2)
    (h_compile : compile definitions name schema = .ok compilation) :
    ∀ own ∈ (compilation.made.map Declaration.name).tail,
      ∃ key, definitions.get? key ≠ none ∧ definitionName key = own := by
  have h_claims : ClaimsReferences definitions (Name.identifier name) schema compilation.roster :=
    declareFrom_induction (P := fun later =>
        ClaimsReferences definitions (Name.identifier name) schema later.roster)
      (fun before after h_round h_before => h_round.claimsReferences h_schema h_definitions h_before)
      _ ⟨[(Name.identifier name, schema)], []⟩ compilation
      (fun entry h_entry => .inl (List.mem_singleton.mp h_entry)) h_compile
  obtain ⟨plain, roster, others, h_declare, h_made⟩ := exists_made_cons h_compile
  have h_nodup := names_nodup_of_compile h_compile
  intro own h_own
  rw [h_made, List.map_cons, List.tail_cons] at h_own
  rw [h_made, List.map_cons, List.nodup_cons] at h_nodup
  have h_names : own ∈ compilation.made.map Declaration.name := by
    rw [h_made, List.map_cons]
    exact List.mem_cons_of_mem _ h_own
  rw [(named_of_compile h_compile).names] at h_names
  obtain ⟨entry, h_entry, rfl⟩ := List.mem_map.mp (List.mem_of_mem_take h_names)
  rcases h_claims entry h_entry with h_root | ⟨key, h_key, h_name⟩
  · -- the name of the root is not declared again
    have h_first : (nameIn definitions (Name.identifier name) plain roster).1.name = entry.1 := by
      rw [h_root]
      exact name_of_declare h_declare
    rw [h_first] at h_nodup
    exact absurd h_own h_nodup.1
  · exact ⟨key, by simp [h_key], h_name⟩

end OpenApiTs.Schema
