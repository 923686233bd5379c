/-
  OpenApiTs.Proofs.Schema.Failing

  When a compilation fails: as soon as it gets to a schema in whose declaration a malformed node is
  rendered, and never else. It gets to the root, and from there to the titled nodes and definitions
  that are mentioned by what it has declared.
-/
import OpenApiTs.Proofs.Schema.Declared
import OpenApiTs.Proofs.Schema.Rendered

namespace OpenApiTs.Schema

open OpenApiTs.TypeScript
open Roster (standsFor?)

variable {definitions : Definitions} {root name claimed : String} {schema own : Json}
  {compilation : Compilation} {count : Nat} {outcome : Except Malformed Compilation}

/-! ## Schemas that a compilation gets to -/

/-- The states of a compilation between its rounds. -/
inductive Reached (definitions : Definitions) (root : String) (schema : Json) :
    Compilation → Prop where
  | start : Reached definitions root schema ⟨[(root, schema)], []⟩
  | round {compilation later : Compilation} (h_before : Reached definitions root schema compilation)
      (h_round : Round definitions root compilation later) :
      Reached definitions root schema later

/-- Whether a compilation gets to declare a schema under a name: it is the next claim after some
    rounds. -/
def GetsTo (definitions : Definitions) (root : String) (schema : Json) (claimed : String)
    (own : Json) : Prop :=
  ∃ compilation, Reached definitions root schema compilation ∧
    compilation.roster[compilation.made.length]? = some (claimed, own)

/-- What a compilation comes to is decided in each of its states. -/
theorem Reached.declares (h_reached : Reached definitions root schema compilation)
    (h_run : Declares definitions root ⟨[(root, schema)], []⟩ count outcome) :
    ∃ count', Declares definitions root compilation count' outcome := by
  induction h_reached with
  | start => exact ⟨count, h_run⟩
  | round _ h_round ih =>
    obtain ⟨count', h_rest⟩ := ih
    -- the run goes on from here in one way only, and that is the round that was taken
    cases h_rest with
    | complete h_none =>
      obtain ⟨h_next, -⟩ := h_round
      cases h_none.symm.trans h_next
    | malformed h_next h_declare =>
      obtain ⟨h_next', h_declare'⟩ := h_round
      cases h_next.symm.trans h_next'
      cases h_declare.symm.trans h_declare'
    | next h_round' h_rest =>
      rw [h_round.unique h_round']
      exact ⟨_, h_rest⟩

/-- A run that fails does so at a schema that it gets to. -/
theorem Reached.getsTo {malformed : Malformed}
    (h_reached : Reached definitions root schema compilation)
    (h_run : Declares definitions root compilation count (.error malformed)) :
    ∃ own, GetsTo definitions root schema malformed.name own ∧
      declare malformed.name own = .error malformed.fault := by
  -- the outcome has to be a variable for the induction
  generalize h_outcome : (Except.error malformed : Except Malformed Compilation) = outcome at h_run
  induction h_run with
  | complete _ => cases h_outcome
  | malformed h_next h_declare =>
    cases h_outcome
    exact ⟨_, ⟨_, h_reached, h_next⟩, h_declare⟩
  | next h_round _ ih => exact ih (h_reached.round h_round) h_outcome

/-- Every claim in a state is that of the root, or for what is mentioned by a schema that was
    declared before. -/
theorem Reached.origin (h_reached : Reached definitions root schema compilation) :
    ∀ entry ∈ compilation.roster, entry = (root, schema) ∨
      ∃ before owner mention, GetsTo definitions root schema before owner ∧
        mention ∈ mentionsOf owner ∧ standsFor? definitions mention = some entry.2 := by
  induction h_reached with
  | start => exact fun entry h_entry => .inl (List.mem_singleton.mp h_entry)
  | round h_before h_round ih =>
    intro entry h_entry
    obtain ⟨h_next, h_declare⟩ := h_round
    simp only [roster_nameIn] at h_entry
    -- a claim was there, or the declaration of this round mentions what it is for
    rcases Roster.mem_chooseEach h_entry with h_old | ⟨mention, h_written, h_stands⟩
    · exact ih entry h_old
    · refine .inr ⟨_, _, mention, ⟨_, h_before, h_next⟩, ?_, h_stands⟩
      rw [mentionsOf_eq h_declare]
      exact (List.of_mem_zip h_written).1

/-! ## Failures -/

/-- A compilation fails exactly when a malformed node is rendered in the declaration of a schema
    that it gets to. The failure names that declaration, and says what is wrong with the node. -/
theorem typeScript_fails_iff (definitions : Definitions) (name : String) (schema : Json)
    (h_schema : schema.WellFormed) (h_definitions : Json.WellFormedFields definitions.schemas) :
    ((∃ failure, typeScript schema name definitions = .error failure) ↔
      ∃ claimed own, GetsTo definitions (Name.identifier name) schema claimed own ∧ Flawed own) ∧
    (∀ failure, typeScript schema name definitions = .error failure →
      ∃ claimed own fields fault, GetsTo definitions (Name.identifier name) schema claimed own ∧
        Rendered own (.object fields) ∧ Faulty fields fault ∧
        failure = .compile claimed fault.message) ∧
    (∀ failure claimed own, typeScript schema name definitions = .error failure →
      GetsTo definitions (Name.identifier name) schema claimed own → Flawed own →
        ∃ message, failure = .compile claimed message) ∧
    ∀ claimed own, GetsTo definitions (Name.identifier name) schema claimed own →
      (claimed, own) = (Name.identifier name, schema) ∨
        ∃ before owner mention, GetsTo definitions (Name.identifier name) schema before owner ∧
          mention ∈ mentionsOf owner ∧ standsFor? definitions mention = some own := by
  obtain ⟨count, -, h_run⟩ := declares_compile name h_schema h_definitions
  -- a failure is that of a schema which the compilation gets to
  have h_failure : ∀ failure, typeScript schema name definitions = .error failure →
      ∃ claimed own fields fault, GetsTo definitions (Name.identifier name) schema claimed own ∧
        Rendered own (.object fields) ∧ Faulty fields fault ∧
        failure = .compile claimed fault.message := by
    intro failure h_text
    obtain ⟨malformed, h_compile, rfl⟩ := typeScript_eq_error_iff.mp h_text
    rw [h_compile] at h_run
    obtain ⟨own, h_gets, h_declare⟩ := Reached.start.getsTo h_run
    obtain ⟨fields, h_rendered, h_faulty⟩ := declare_eq_error h_declare
    exact ⟨malformed.name, own, fields, malformed.fault, h_gets, h_rendered, h_faulty, rfl⟩
  -- and each such schema with a malformed node is the one that the compilation fails at
  have h_flawed : ∀ claimed own, GetsTo definitions (Name.identifier name) schema claimed own →
      Flawed own → ∃ fault, compile definitions name schema = .error ⟨claimed, fault⟩ := by
    rintro claimed own ⟨compilation, h_reached, h_next⟩ h_flawed
    obtain ⟨fault, h_declare⟩ := h_flawed.declare claimed
    obtain ⟨count', h_rest⟩ := h_reached.declares h_run
    exact ⟨fault, h_rest.unique (.malformed h_next h_declare)⟩
  refine ⟨⟨?_, ?_⟩, h_failure, ?_, ?_⟩
  · rintro ⟨failure, h_text⟩
    obtain ⟨claimed, own, fields, fault, h_gets, h_rendered, h_faulty, -⟩ :=
      h_failure failure h_text
    exact ⟨claimed, own, h_gets, fields, fault, h_rendered, h_faulty⟩
  · rintro ⟨claimed, own, h_gets, h_own⟩
    obtain ⟨fault, h_compile⟩ := h_flawed claimed own h_gets h_own
    exact ⟨_, typeScript_eq_error_iff.mpr ⟨_, h_compile, rfl⟩⟩
  · intro failure claimed own h_text h_gets h_own
    obtain ⟨fault, h_compile⟩ := h_flawed claimed own h_gets h_own
    obtain ⟨malformed, h_compile', rfl⟩ := typeScript_eq_error_iff.mp h_text
    cases h_compile.symm.trans h_compile'
    exact ⟨fault.message, rfl⟩
  · rintro claimed own ⟨compilation, h_reached, h_next⟩
    exact h_reached.origin (claimed, own) (List.mem_of_getElem? h_next)

/-- A definition with a type that is no word, under other properties than the listed ones. -/
def looseDefinitions : Definitions :=
  ⟨[("pet", .object [("properties", .object [("name", .object [("type", .text "string")])]),
    ("additionalProperties", .object [("type", .array [.text "string", .null])])])], []⟩

/-- A schema that refers to the definition. The combination beside the reference, which is no list,
    does not count. -/
def shadowingSchema : Json :=
  .object [("type", .text "array"), ("items",
    .object [("$ref", .text "#/definitions/pet"), ("anyOf", .null)])]

/-- The failure is that of the definition. -/
theorem shadowingSchema_fails :
    shadowingSchema.WellFormed ∧ Json.WellFormedFields looseDefinitions.schemas ∧
      typeScript shadowingSchema "body" looseDefinitions =
        .error (.compile "Pet" "`type` entries must be strings") ∧
      ∃ own fields fault, GetsTo looseDefinitions (Name.identifier "body") shadowingSchema "Pet" own ∧
        Rendered own (.object fields) ∧ Faulty fields fault ∧
        fault.message = "`type` entries must be strings" := by
  have h_schema : shadowingSchema.WellFormed := by
    simp [shadowingSchema, Json.WellFormed, Json.WellFormedFields]
  have h_definitions : Json.WellFormedFields looseDefinitions.schemas := by
    simp [looseDefinitions, Json.WellFormed, Json.WellFormedFields, Json.WellFormedItems]
  -- the run itself, to which the theorem is applied then
  have h_text : typeScript shadowingSchema "body" looseDefinitions =
      .error (.compile "Pet" "`type` entries must be strings") := by
    with_unfolding_all rfl
  obtain ⟨-, h_failure, -⟩ := typeScript_fails_iff looseDefinitions "body" shadowingSchema h_schema
    h_definitions
  obtain ⟨claimed, own, fields, fault, h_gets, h_rendered, h_faulty, h_eq⟩ := h_failure _ h_text
  obtain ⟨rfl, h_message⟩ := Failure.compile.inj h_eq
  exact ⟨h_schema, h_definitions, h_text, own, fields, fault, h_gets, h_rendered, h_faulty,
    h_message.symm⟩

end OpenApiTs.Schema
