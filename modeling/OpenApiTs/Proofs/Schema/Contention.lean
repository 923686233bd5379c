/-
  OpenApiTs.Proofs.Schema.Contention

  Definitions without contention: no two schemas lay claim to one name, be it as a definition or as
  a titled node. Every claim then gets the name that it asks for, so a declaration does not depend
  on the compilation that it stands in.
-/
import OpenApiTs.Proofs.Schema.Run

namespace OpenApiTs.Schema

open OpenApiTs.Schema.Roster (choose definitionName placeholderOf? standsFor? taken)
open OpenApiTs.TypeScript

variable {definitions : Definitions} {root name : String} {schema node : Json} {mention : Mention}
  {roster : Roster} {compilation later : Compilation}

/-! ## Claims -/

/-- All definitions in one value. -/
def whole (definitions : Definitions) : Json := .array (definitions.schemas.map Prod.snd)

/-- What a titled node lays claim to: the identifier for its title. -/
def titleClaim? (definitions : Definitions) (node : Json) : Option (String × Json) :=
  (node.wordsAt? "title").bind fun title =>
    match placeholderOf? definitions title with
    | some _ => none
    | none => some (Name.identifier title, node)

/-- The names that a definition is called by: its key, the identifier that it is compiled under, and
    the one that references to it are written with. -/
def keyNames (key : String) : List String := [key, Name.identifier key, definitionName key]

/-- The claims that definitions can lead to: each definition under its names, and each titled node
    under the identifier for its title. -/
def claims (definitions : Definitions) : List (String × Json) :=
  definitions.schemas.flatMap (fun entry => (keyNames entry.1).map fun name => (name, entry.2)) ++
    (whole definitions).nodes.filterMap (titleClaim? definitions)

/-- Definitions that never refer to the root, with one schema for each name that is laid claim to. -/
structure Uncontended (definitions : Definitions) : Prop where
  wellFormed : Json.WellFormedFields definitions.schemas
  rootless : ∀ node ∈ (whole definitions).nodes, node.textAt? "$ref" ≠ some "#"
  single : ∀ first ∈ claims definitions, ∀ second ∈ claims definitions,
    first.1 = second.1 → first.2 = second.2

/-- What can be claimed: a definition under its names, or a titled node under its title. -/
theorem mem_claims_iff : (name, schema) ∈ claims definitions ↔
    (∃ key, (key, schema) ∈ definitions.schemas ∧ name ∈ keyNames key) ∨
      ∃ node ∈ (whole definitions).nodes, titleClaim? definitions node = some (name, schema) := by
  rw [claims, List.mem_append, List.mem_filterMap, List.mem_flatMap]
  refine or_congr_left ?_
  constructor
  · rintro ⟨entry, h_entry, h_name⟩
    obtain ⟨own, h_own, h_eq⟩ := List.mem_map.mp h_name
    cases h_eq
    exact ⟨entry.1, h_entry, h_own⟩
  · rintro ⟨key, h_entry, h_name⟩
    exact ⟨(key, schema), h_entry, List.mem_map.mpr ⟨name, h_name, rfl⟩⟩

theorem mem_claims_of_get? {key : String} (h_key : definitions.get? key = some schema)
    (h_name : name ∈ keyNames key) : (name, schema) ∈ claims definitions :=
  mem_claims_iff.mpr (.inl ⟨key, Entries.mem_of_lookup h_key, h_name⟩)

/-- What a node claims by its title, unless that is the title of a placeholder. -/
theorem titleClaim?_eq_some_iff : titleClaim? definitions node = some (name, schema) ↔
    ∃ title, node.wordsAt? "title" = some title ∧ placeholderOf? definitions title = none ∧
      Name.identifier title = name ∧ node = schema := by
  rw [titleClaim?, Option.bind_eq_some_iff]
  refine exists_congr fun title => and_congr_right fun _ => ?_
  cases placeholderOf? definitions title with
  | some own => simp
  | none => simp

/-- What lays claim to a name is part of the definitions. -/
theorem nodes_subset_of_mem_claims (h_claim : (name, schema) ∈ claims definitions) :
    schema.nodes ⊆ (whole definitions).nodes := by
  rcases mem_claims_iff.mp h_claim with ⟨key, h_entry, -⟩ | ⟨node, h_node, h_title⟩
  · exact Json.nodes_subset_of_mem_items (List.mem_map.mpr ⟨_, h_entry, rfl⟩)
  · obtain ⟨title, -, -, -, rfl⟩ := titleClaim?_eq_some_iff.mp h_title
    exact Json.nodes_subset_of_mem_nodes h_node

/-! ## Names of mentions -/

/-- The name that a mention asks for. -/
def ownName (definitions : Definitions) : Mention → String
  | .titled title _ => Name.identifier ((placeholderOf? definitions title).getD title)
  | .reference target => Name.identifier (Text.lastPiece '/' target)

/-- A mention that stands for a schema lays claim to its name for it. -/
theorem mem_claims_of_standsFor? (h_from : mention.From (whole definitions))
    (h_stands : standsFor? definitions mention = some schema) :
    (ownName definitions mention, schema) ∈ claims definitions := by
  -- a titled node by its title, a reference by the last piece of its target
  cases mention with
  | titled title node =>
    obtain ⟨h_title, rfl⟩ := Roster.standsFor?_titled_iff.mp h_stands
    refine mem_claims_iff.mpr (.inr ⟨node, h_from.1, titleClaim?_eq_some_iff.mpr ?_⟩)
    exact ⟨title, h_from.2, h_title, by rw [ownName, h_title, Option.getD_none], rfl⟩
  | reference target =>
    obtain ⟨key, rfl, h_key⟩ := Roster.definition?_eq_some_iff.mp h_stands
    have h_name : ownName definitions (.reference (Reference.definitionRoot ++ key)) =
        definitionName key := by
      rw [ownName, Roster.lastPiece_definitionRoot, definitionName]
    rw [h_name]
    exact mem_claims_of_get? h_key (by simp [keyNames])

/-- Whether every entry of a roster is among the claims of the definitions. -/
def Claimed (definitions : Definitions) (roster : Roster) : Prop :=
  ∀ entry ∈ roster, entry ∈ claims definitions

/-- Nothing else holds a name that a schema lays claim to. -/
theorem Uncontended.not_taken (h_single : Uncontended definitions)
    (h_roster : Claimed definitions roster) (h_claim : (name, node) ∈ claims definitions)
    (h_node : node.WellFormed) : taken definitions roster node name = false := by
  have h_own {other : Json} (h_other : (name, other) ∈ claims definitions) :
      other.same node = true := by
    have h_eq : other = node := h_single.single _ h_other _ h_claim rfl
    rw [h_eq]
    exact Json.same_refl h_node
  -- whoever holds the name lays claim to it, and so is the same schema
  unfold taken
  cases h_lookup : roster.lookup name with
  | some owner => simp [h_own (h_roster _ (Entries.mem_of_lookup h_lookup))]
  | none =>
    cases h_get : definitions.get? name with
    | none => rfl
    | some definition => simp [h_own (mem_claims_of_get? h_get List.mem_cons_self)]

/-- All nodes of uncontended definitions are well formed. -/
theorem Uncontended.wellFormed_of_mem (h_single : Uncontended definitions)
    (h_node : node ∈ (whole definitions).nodes) : node.WellFormed := by
  refine Json.wellFormed_of_mem_nodes ?_ h_node
  rw [whole, Json.wellFormed_array_iff]
  intro item h_item
  obtain ⟨entry, h_entry, rfl⟩ := List.mem_map.mp h_item
  exact Json.wellFormedFields_iff.mp h_single.wellFormed entry h_entry

/-- A mention gets the name that it asks for, whatever was claimed before it. -/
theorem Uncontended.choose_eq (h_single : Uncontended definitions)
    (h_from : mention.From (whole definitions)) (h_roster : Claimed definitions roster) :
    (choose definitions root mention roster).1 = ownName definitions mention := by
  cases mention with
  | titled title node =>
    cases h_title : placeholderOf? definitions title with
    | some own => simp [choose, ownName, h_title]
    | none =>
      have h_claim : (ownName definitions (.titled title node), node) ∈ claims definitions :=
        mem_claims_of_standsFor? h_from (Roster.standsFor?_titled_iff.mpr ⟨h_title, rfl⟩)
      have h_free := h_single.not_taken h_roster h_claim (h_single.wellFormed_of_mem h_from.1)
      rw [ownName, h_title, Option.getD_none] at h_free ⊢
      rw [Roster.choose_titled h_title]
      obtain ⟨number, -, h_name, -, h_before⟩ :=
        Roster.nameTitled_first definitions title node roster
      -- the first candidate is the identifier itself
      have h_zero : number = 0 := by
        by_contra h_number
        have h_taken := h_before 0 (Nat.pos_of_ne_zero h_number)
        rw [Roster.candidate_zero, h_free] at h_taken
        cases h_taken
      rw [h_name, h_zero, Roster.candidate_zero]
  | reference target =>
    -- a reference to the root would get the name of whatever is compiled
    have h_root : target ≠ "#" := by
      rintro rfl
      obtain ⟨node, h_node, h_target⟩ := h_from
      exact h_single.rootless node h_node h_target
    simp only [choose, Roster.nameReference]
    rw [if_neg h_root]
    cases Roster.definition? definitions target with
    | some definition => rfl
    | none => rfl

/-- The claim of a mention is among those of the definitions. -/
theorem Uncontended.claimed_choose (h_single : Uncontended definitions)
    (h_from : mention.From (whole definitions)) (h_roster : Claimed definitions roster) :
    Claimed definitions (choose definitions root mention roster).2 := by
  rintro ⟨name, schema⟩ h_entry
  rcases Roster.mem_choose h_entry with h_old | ⟨h_name, h_stands, -⟩
  · exact h_roster _ h_old
  · have h_claim := mem_claims_of_standsFor? h_from h_stands
    have h_own : (choose definitions root mention roster).1 = ownName definitions mention :=
      h_single.choose_eq h_from h_roster
    rwa [← h_own, h_name] at h_claim

/-! ## Declarations -/

/-- A declaration with the names that its mentions ask for. -/
def settle (definitions : Definitions) (plain : Declaration Mention) : Declaration String :=
  ⟨plain.name, plain.description, plain.form,
    (plain.type.rename (TypeExpr.always (ownName definitions)) ()).1⟩

/-- Whether every claim is among those of the definitions, and every declaration is that of such a
    claim with the names that its mentions ask for. -/
structure Regular (definitions : Definitions) (compilation : Compilation) : Prop where
  claimed : Claimed definitions compilation.roster
  made : ∀ declaration ∈ compilation.made, ∃ name schema plain,
    (name, schema) ∈ claims definitions ∧ declare name schema = .ok plain ∧
      settle definitions plain = declaration

/-- Where no name is contended, what is chosen depends on the mention only, so that a declaration is
    named alike in every run. -/
theorem Uncontended.nameIn_eq (h_single : Uncontended definitions) (root : String)
    (h_claim : (name, schema) ∈ claims definitions) {plain : Declaration Mention}
    (h_declare : declare name schema = .ok plain) (h_roster : Claimed definitions roster) :
    (nameIn definitions root plain roster).1 = settle definitions plain ∧
      Claimed definitions (nameIn definitions root plain roster).2 := by
  -- each mention stands in the definitions, so what it chooses is its own name
  have h_steady : TypeExpr.Steady (choose definitions root) (ownName definitions)
      (Claimed definitions) plain.type.mentions := by
    intro mention h_mention roster h_roster
    have h_from := ((declare_draws h_declare).mentions mention h_mention).mono
      (nodes_subset_of_mem_claims h_claim)
    exact ⟨h_single.choose_eq h_from h_roster, h_single.claimed_choose h_from h_roster⟩
  obtain ⟨h_type, h_after⟩ := TypeExpr.rename_of_steady plain.type roster h_steady h_roster
  exact ⟨congrArg (Declaration.mk plain.name plain.description plain.form) h_type, h_after⟩

/-- A round makes a declaration as it is made in any other run. -/
theorem Round.regular (h_single : Uncontended definitions)
    (h_round : Round definitions root compilation later)
    (h_regular : Regular definitions compilation) :
    Regular definitions later := by
  obtain ⟨h_next, h_declare⟩ := h_round
  rename_i name schema plain
  have h_claim := h_regular.claimed _ (List.mem_of_getElem? h_next)
  obtain ⟨h_named, h_roster⟩ := h_single.nameIn_eq root h_claim h_declare h_regular.claimed
  refine ⟨h_roster, ?_⟩
  intro declaration h_mem
  rcases List.mem_append.mp h_mem with h_old | h_new
  · exact h_regular.made declaration h_old
  · rw [List.mem_singleton.mp h_new]
    exact ⟨name, schema, plain, h_claim, h_declare, h_named.symm⟩

/-- Every compilation of a definition is regular. -/
theorem Uncontended.regular_of_compile (h_single : Uncontended definitions) {key : String}
    (h_entry : (key, schema) ∈ definitions.schemas)
    (h_compile : compile definitions key schema = .ok compilation) :
    Regular definitions compilation := by
  refine declareFrom_induction (P := Regular definitions)
    (fun before after h_round h_before => h_round.regular h_single h_before) _ _ _ ⟨?_, by simp⟩
    h_compile
  intro entry h_start
  rw [List.mem_singleton.mp h_start]
  exact mem_claims_iff.mpr (.inl ⟨key, h_entry, by simp [keyNames]⟩)

/-- Regular compilations have one declaration for each name between them. -/
theorem Uncontended.declaration_eq (h_single : Uncontended definitions)
    {first second : Declaration String} (h_first : Regular definitions compilation)
    (h_second : Regular definitions later) (h_first_made : first ∈ compilation.made)
    (h_second_made : second ∈ later.made) (h_name : first.name = second.name) :
    first = second := by
  obtain ⟨name, schema, plain, h_claim, h_declare, rfl⟩ := h_first.made first h_first_made
  obtain ⟨other, node, plain', h_other, h_declare', rfl⟩ := h_second.made second h_second_made
  -- one name is one claim, which has one schema and so one declaration
  have h_same : name = other := by
    have h_left : plain.name = name := name_of_declare h_declare
    have h_right : plain'.name = other := name_of_declare h_declare'
    exact h_left.symm.trans (h_name.trans h_right)
  have h_schema : schema = node := h_single.single _ h_claim _ h_other h_same
  rw [← h_same, ← h_schema, h_declare] at h_declare'
  rw [Except.ok.inj h_declare']

end OpenApiTs.Schema
