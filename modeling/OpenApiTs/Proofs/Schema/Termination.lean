/-
  OpenApiTs.Proofs.Schema.Termination

  A compilation ends by itself. Every claim after that of the root is accounted for by a definition
  or by a titled node, none of them twice, so there are no more claims than `declarationBound`
  counts and the bound of `compile` never cuts a compilation short.
-/
import OpenApiTs.Proofs.Schema.Run

namespace OpenApiTs.Schema

open OpenApiTs.TypeScript
open Roster (definitionName)

variable {definitions : Definitions} {root : String} {schema : Json} {roster : Roster}
  {keys : List String} {nodes : List Json}

/-! ## Counting titled nodes -/

mutual

/-- The titles that are counted are the titled nodes. -/
theorem titles_eq_countP : ∀ value : Json, titles value = value.nodes.countP isTitled
  | .object fields => by
    -- the object itself may be titled, and its fields are counted behind it
    rw [titles, Json.nodes, List.countP_cons, titlesInFields_eq_countP fields]
    omega
  | .array items => by rw [titles, Json.nodes, titlesInItems_eq_countP items]
  | .null | .bool _ | .number _ | .text _ => by simp [titles, Json.nodes]

theorem titlesInItems_eq_countP :
    ∀ items : List Json, titlesInItems items = (Json.nodesInItems items).countP isTitled
  | [] => rfl
  | item :: items => by
    rw [titlesInItems, Json.nodesInItems, List.countP_append, titles_eq_countP item,
      titlesInItems_eq_countP items]

theorem titlesInFields_eq_countP :
    ∀ fields : List (String × Json),
      titlesInFields fields = (Json.nodesInFields fields).countP isTitled
  | [] => rfl
  | (_, value) :: fields => by
    rw [titlesInFields, Json.nodesInFields, List.countP_append, titles_eq_countP value,
      titlesInFields_eq_countP fields]

end

theorem titlesInItems_values (fields : List (String × Json)) :
    titlesInItems (fields.map Prod.snd) = titlesInFields fields := by
  induction fields with
  | nil => rfl
  | cons entry fields ih => rw [List.map_cons, titlesInItems, titlesInFields, ih]

/-- As many titled nodes stand in the sources as the bound counts. -/
theorem countP_sources (definitions : Definitions) (schema : Json) :
    (sources definitions schema).nodes.countP isTitled =
      titles schema + titlesInFields definitions.schemas := by
  rw [← titles_eq_countP, sources, titles, titlesInItems, titlesInItems_values]

/-! ## Accounts -/

/-- The claims of a roster accounted for: after the root, one for each of some definitions, whose
    names are claimed for good, and one for each of some titled nodes, whose claims are settled. -/
structure Ledger (definitions : Definitions) (schema : Json) (roster : Roster)
    (keys : List String) (nodes : List Json) : Prop where
  length_eq : roster.length = 1 + keys.length + nodes.length
  keys_nodup : keys.Nodup
  keys_known : keys ⊆ Entries.names definitions.schemas
  keys_claimed : ∀ key ∈ keys, definitionName key ∈ Entries.names roster
  nodes_nodup : nodes.Nodup
  nodes_inside : nodes ⊆ (sources definitions schema).nodes
  nodes_settled : ∀ node ∈ nodes, ∃ title, node.wordsAt? "title" = some title ∧
    Roster.Settled definitions roster title node

namespace Ledger

/-- At first only the root has claimed its name, and nothing is entered. -/
theorem start (definitions : Definitions) (root : String) (schema : Json) :
    Ledger definitions schema [(root, schema)] [] [] := by
  constructor <;> simp

/-- A definition claims its name once: its key is not in the ledger while the name is free. -/
theorem enterKey {key : String} {definition : Json}
    (h_ledger : Ledger definitions schema roster keys nodes)
    (h_key : definitions.get? key = some definition)
    (h_free : definitionName key ∉ Entries.names roster) :
    Ledger definitions schema (roster.claim (definitionName key) definition) (key :: keys)
      nodes := by
  have h_grown : roster <+: roster.claim (definitionName key) definition :=
    Roster.prefix_claim _ _ _
  have h_length : (roster.claim (definitionName key) definition).length = roster.length + 1 := by
    rw [Roster.claim_of_not_mem h_free, List.length_append, List.length_singleton]
  refine ⟨?_, ?_, ?_, ?_, h_ledger.nodes_nodup, h_ledger.nodes_inside, ?_⟩
  · rw [h_length, h_ledger.length_eq, List.length_cons]
    omega
  · -- a key that is entered has its name claimed, and this name is free
    refine List.nodup_cons.mpr ⟨?_, h_ledger.keys_nodup⟩
    intro h_entered
    exact h_free (h_ledger.keys_claimed key h_entered)
  · intro other h_other
    rcases List.mem_cons.mp h_other with rfl | h_other
    · exact Entries.mem_names_of_mem (Entries.mem_of_lookup h_key)
    · exact h_ledger.keys_known h_other
  · intro other h_other
    rcases List.mem_cons.mp h_other with rfl | h_other
    · exact Roster.mem_names_claim roster _ definition
    · exact Roster.mem_names_of_grown h_grown (h_ledger.keys_claimed other h_other)
  · intro node h_node
    obtain ⟨title, h_title, h_settled⟩ := h_ledger.nodes_settled node h_node
    exact ⟨title, h_title, h_settled.mono h_grown⟩

/-- A titled node claims a name once: its claim is settled afterwards. -/
theorem enterNode {title : String} {node : Json}
    (h_ledger : Ledger definitions schema roster keys nodes)
    (h_sources : (sources definitions schema).WellFormed)
    (h_node : node ∈ (sources definitions schema).nodes)
    (h_title : node.wordsAt? "title" = some title)
    (h_free : (Roster.nameTitled definitions title node roster).1 ∉ Entries.names roster) :
    Ledger definitions schema (Roster.nameTitled definitions title node roster).2 keys
      (node :: nodes) := by
  set name := (Roster.nameTitled definitions title node roster).1 with h_name
  have h_roster : (Roster.nameTitled definitions title node roster).2 = roster.claim name node :=
    rfl
  have h_grown : roster <+: roster.claim name node := Roster.prefix_claim _ _ _
  have h_length : (roster.claim name node).length = roster.length + 1 := by
    rw [Roster.claim_of_not_mem h_free, List.length_append, List.length_singleton]
  have h_new : node ∉ nodes := by
    -- a node that is entered is settled, so it would have claimed nothing
    intro h_entered
    obtain ⟨own, h_own, h_settled⟩ := h_ledger.nodes_settled node h_entered
    obtain rfl : own = title := Option.some.inj (h_own.symm.trans h_title)
    have h_same := Roster.nameTitled_of_settled h_settled
    rw [h_roster] at h_same
    rw [h_same] at h_length
    omega
  refine ⟨?_, h_ledger.keys_nodup, h_ledger.keys_known, ?_, ?_, ?_, ?_⟩
  · rw [h_roster, h_length, h_ledger.length_eq, List.length_cons]
    omega
  · intro key h_key
    exact Roster.mem_names_of_grown h_grown (h_ledger.keys_claimed key h_key)
  · exact List.nodup_cons.mpr ⟨h_new, h_ledger.nodes_nodup⟩
  · exact List.cons_subset.mpr ⟨h_node, h_ledger.nodes_inside⟩
  · intro other h_other
    rcases List.mem_cons.mp h_other with rfl | h_other
    · exact ⟨title, h_title,
        Roster.settled_nameTitled (Json.wellFormed_of_mem_nodes h_sources h_node)⟩
    · obtain ⟨own, h_own, h_settled⟩ := h_ledger.nodes_settled other h_other
      exact ⟨own, h_own, h_settled.mono h_grown⟩

/-- The definitions and the titled nodes bound the claims. -/
theorem length_le (h_ledger : Ledger definitions schema roster keys nodes) :
    roster.length ≤ declarationBound definitions schema := by
  -- entered keys are different keys of the definitions
  have h_keys : keys.length ≤ definitions.schemas.length := by
    have h_most := (h_ledger.keys_nodup.subperm h_ledger.keys_known).length_le
    rwa [Entries.names, List.length_map] at h_most
  have h_titled : nodes ⊆ (sources definitions schema).nodes.filter isTitled := by
    intro node h_node
    obtain ⟨title, h_title, -⟩ := h_ledger.nodes_settled node h_node
    exact List.mem_filter.mpr ⟨h_ledger.nodes_inside h_node, by rw [isTitled, h_title]; rfl⟩
  -- entered nodes are different places among the titled nodes of the sources
  have h_nodes : nodes.length ≤ titles schema + titlesInFields definitions.schemas := by
    rw [← countP_sources, List.countP_eq_length_filter]
    exact (h_ledger.nodes_nodup.subperm h_titled).length_le
  rw [h_ledger.length_eq, declarationBound]
  omega

end Ledger

/-- Whether the claims of a roster can be accounted for. -/
def Accounted (definitions : Definitions) (schema : Json) (roster : Roster) : Prop :=
  ∃ keys nodes, Ledger definitions schema roster keys nodes

/-- Choosing a name keeps the accounts: a new claim is entered for its definition or its node. -/
theorem accounted_choose {mention : Mention}
    (h_sources : (sources definitions schema).WellFormed)
    (h_from : mention.From (sources definitions schema))
    (h_accounted : Accounted definitions schema roster) :
    Accounted definitions schema (Roster.choose definitions root mention roster).2 := by
  obtain ⟨keys, nodes, h_ledger⟩ := h_accounted
  cases h_stands : Roster.standsFor? definitions mention with
  | none =>
    rw [Roster.choose_snd, h_stands]
    exact ⟨keys, nodes, h_ledger⟩
  | some own =>
    by_cases h_claimed :
      (Roster.choose definitions root mention roster).1 ∈ Entries.names roster
    · -- a name that is claimed already adds nothing
      rw [Roster.choose_snd, h_stands]
      simp only
      rw [Roster.claim_of_mem h_claimed]
      exact ⟨keys, nodes, h_ledger⟩
    · -- a new name is entered for what it was claimed for
      cases mention with
      | titled title node =>
        have h_title := (Roster.standsFor?_titled_iff.mp h_stands).1
        rw [Roster.choose_titled h_title] at h_claimed ⊢
        exact ⟨keys, node :: nodes,
          h_ledger.enterNode h_sources h_from.1 h_from.2 h_claimed⟩
      | reference target =>
        obtain ⟨key, rfl, h_key⟩ := Roster.definition?_eq_some_iff.mp h_stands
        rw [Roster.choose_snd, h_stands]
        rw [Roster.choose_definition] at h_claimed ⊢
        exact ⟨key :: keys, nodes, h_ledger.enterKey h_key h_claimed⟩

/-! ## Termination -/

/-- A round keeps the accounts. -/
theorem Round.accounted {compilation later : Compilation}
    (h_sources : (sources definitions schema).WellFormed)
    (h_round : Round definitions root compilation later)
    (h_before : Inside definitions schema compilation.roster ∧
      Accounted definitions schema compilation.roster) :
    Inside definitions schema later.roster ∧ Accounted definitions schema later.roster := by
  refine h_round.roster_preserves ?_ h_before.1 h_before.2
  intro mention roster h_from _ h_accounted
  exact accounted_choose h_sources h_from h_accounted

/-- Declaring claim after claim, for as long as there are any, takes no more declarations than are
    counted and comes to what `compile` gives. -/
theorem declares_compile (name : String) (h_schema : schema.WellFormed)
    (h_definitions : Json.WellFormedFields definitions.schemas) :
    ∃ count ≤ declarationBound definitions schema,
      Declares definitions (Name.identifier name) ⟨[(Name.identifier name, schema)], []⟩ count
        (compile definitions name schema) := by
  have h_sources := wellFormed_sources h_schema h_definitions
  -- the invariant of the rounds: all claims stand in the sources, and each is accounted for
  refine declares_declareFrom
    (fun compilation => Inside definitions schema compilation.roster ∧
      Accounted definitions schema compilation.roster)
    (declarationBound definitions schema) ?_ ?_ _ _ ?_ ?_
  · intro before after h_round h_before
    exact h_round.accounted h_sources h_before
  · rintro compilation ⟨-, keys, nodes, h_ledger⟩
    exact h_ledger.length_le
  · exact ⟨inside_start definitions _ schema, [], [], .start definitions _ schema⟩
  · simp

/-- Every compilation ends. The search for the name of a titled node stops at its first candidate
    that is free or belongs to an equal schema; and the worklist comes to its end after at most one
    declaration for the root, one for each definition and one for each titled node. -/
theorem compile_terminates (definitions : Definitions) (name : String) (schema : Json)
    (h_schema : schema.WellFormed) (h_definitions : Json.WellFormedFields definitions.schemas) :
    (∀ title node roster, ∃ number ≤ roster.length + definitions.schemas.length,
      (Roster.nameTitled definitions title node roster).1 =
        Roster.candidate (Name.identifier title) number ∧
      Roster.taken definitions roster node
        (Roster.candidate (Name.identifier title) number) = false ∧
      ∀ earlier < number, Roster.taken definitions roster node
        (Roster.candidate (Name.identifier title) earlier) = true) ∧
    ∃ count ≤ declarationBound definitions schema,
      Declares definitions (Name.identifier name) ⟨[(Name.identifier name, schema)], []⟩ count
        (compile definitions name schema) :=
  ⟨Roster.nameTitled_first definitions, declares_compile name h_schema h_definitions⟩

/-- Two definitions that refer to each other, one of them with a node titled like the other. -/
def mutualDefinitions : Definitions :=
  ⟨[("Owner", .object [("properties", .object
      [("pet", .object [("$ref", .text "#/definitions/Pet")])])]),
    ("Pet", .object [("properties", .object
      [("owner", .object [("$ref", .text "#/definitions/Owner")]),
       ("tag", .object [("title", .text "Owner"), ("type", .text "string")])])])], []⟩

/-- A schema that refers to one of them, with a node titled like it. -/
def clashingSchema : Json :=
  .object [("properties", .object
    [("pet", .object [("$ref", .text "#/definitions/Pet")]),
     ("name", .object [("title", .text "Pet"), ("type", .text "string")])])]

/-- Two definitions that refer to each other, with titles that clash. -/
theorem compile_terminates_mutual :
    clashingSchema.WellFormed ∧ Json.WellFormedFields mutualDefinitions.schemas ∧
      ∃ count ≤ 5, Declares mutualDefinitions (Name.identifier "body")
        ⟨[(Name.identifier "body", clashingSchema)], []⟩ count
        (compile mutualDefinitions "body" clashingSchema) := by
  have h_schema : clashingSchema.WellFormed := by
    simp [clashingSchema, Json.WellFormed, Json.WellFormedFields]
  have h_definitions : Json.WellFormedFields mutualDefinitions.schemas := by
    simp [mutualDefinitions, Json.WellFormed, Json.WellFormedFields]
  refine ⟨h_schema, h_definitions, ?_⟩
  -- the bound is that of the definition, here as a number
  have h_bound : declarationBound mutualDefinitions clashingSchema = 5 := by decide
  rw [← h_bound]
  exact (compile_terminates mutualDefinitions "body" clashingSchema h_schema h_definitions).2

end OpenApiTs.Schema
