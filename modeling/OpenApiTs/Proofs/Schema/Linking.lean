/-
  OpenApiTs.Proofs.Schema.Linking

  Where the references of a compilation lead. A known reference is always written with a name that
  is declared, but a reference does not look who holds that name: it leads to its own definition
  exactly when nothing with another schema is written with the same name.
-/
import OpenApiTs.Proofs.Schema.Declared

namespace OpenApiTs.Schema

open OpenApiTs.TypeScript
open Roster (standsFor? definitionName)

variable {definitions : Definitions} {root name written key : String} {schema own : Json}
  {definition : Json} {compilation : Compilation} {mention : Mention}

/-! ## Links -/

/-- The declaration of a name is rendered from a schema equal to `definition`. -/
def Linked (definitions : Definitions) (root : String) (compilation : Compilation) (name : String)
    (definition : Json) : Prop :=
  ∃ owner plain declaration,
    Declared definitions root compilation name owner plain declaration ∧
      owner.same definition = true

/-- Every reference to a known definition leads to it. -/
def ReferencesLinked (definitions : Definitions) (root : String) (compilation : Compilation) :
    Prop :=
  ∀ key definition written, definitions.get? key = some definition →
    (.reference (Reference.definitionRoot ++ key), written) ∈ compilation.writings →
      Linked definitions root compilation written definition

/-- The name of a known reference is not the root's, unless the root has an equal schema, and is not
    written for anything that stands for another schema. -/
def NamesUnshared (definitions : Definitions) (root : String) (schema : Json)
    (compilation : Compilation) : Prop :=
  ∀ key definition written, definitions.get? key = some definition →
    (.reference (Reference.definitionRoot ++ key), written) ∈ compilation.writings →
      (written = root → schema.same definition = true) ∧
      ∀ mention other, (mention, written) ∈ compilation.writings →
        standsFor? definitions mention = some other → other.same definition = true

/-- The name that references to a definition are written with is kept for it: it is itself the key
    of an equal definition, and not the name of a root with another schema. -/
def NamesKept (definitions : Definitions) (root : String) (schema : Json) : Prop :=
  ∀ key definition, definitions.get? key = some definition →
    (∃ own, definitions.get? (definitionName key) = some own ∧ own.same definition = true) ∧
      (definitionName key = root → schema.same definition = true)

theorem standsFor?_definition (h_key : definitions.get? key = some definition) :
    standsFor? definitions (.reference (Reference.definitionRoot ++ key)) = some definition :=
  Roster.definition?_eq_some_iff.mpr ⟨key, rfl, h_key⟩

/-- A reference to a definition is written with the name of the definition. -/
theorem written_definition (h_sound : Sound definitions root schema compilation)
    (h_written :
      (.reference (Reference.definitionRoot ++ key), written) ∈ compilation.writings) :
    written = definitionName key := by
  obtain ⟨before, rfl, -⟩ := h_sound.exists_choose h_written
  exact Roster.choose_definition definitions root key before

/-- A name is linked to a definition when its owner equals it. -/
theorem linked_iff (h_sound : Sound definitions root schema compilation)
    (h_length : compilation.roster.length = compilation.made.length) :
    Linked definitions root compilation name definition ↔
      ∃ owner, compilation.roster.lookup name = some owner ∧ owner.same definition = true := by
  constructor
  · rintro ⟨owner, plain, declaration, h_declared, h_same⟩
    exact ⟨owner, Entries.lookup_of_mem h_sound.names_nodup (List.of_mem_zip h_declared.claimed).1,
      h_same⟩
  · rintro ⟨owner, h_owner, h_same⟩
    obtain ⟨plain, declaration, h_declared⟩ :=
      h_sound.exists_declared h_length (Entries.mem_of_lookup h_owner)
    exact ⟨owner, plain, declaration, h_declared, h_same⟩

/-! ## Who holds a written name -/

/-- When every known reference is linked, whatever is written under a name stands for a schema that
    equals its owner. -/
theorem owner_same_of_linked (h_sound : Sound definitions root schema compilation)
    (h_length : compilation.roster.length = compilation.made.length)
    (h_sources : (sources definitions schema).WellFormed)
    (h_linked : ReferencesLinked definitions root compilation)
    (h_written : (mention, written) ∈ compilation.writings)
    (h_stands : standsFor? definitions mention = some own) :
    ∃ owner, compilation.roster.lookup written = some owner ∧ owner.same own = true := by
  -- titled nodes are always linked, and references by assumption
  cases mention with
  | titled title node =>
    obtain ⟨h_title, rfl⟩ := Roster.standsFor?_titled_iff.mp h_stands
    exact h_sound.owner_of_titled h_sources h_written h_title
  | reference target =>
    obtain ⟨key, rfl, h_key⟩ := Roster.definition?_eq_some_iff.mp h_stands
    exact (linked_iff h_sound h_length).mp (h_linked key own written h_key h_written)

/-- References that are linked share no name with anything else: the owner of a name equals all that
    is written with it. -/
theorem unshared_of_linked (h_sound : Sound definitions root schema compilation)
    (h_length : compilation.roster.length = compilation.made.length)
    (h_sources : (sources definitions schema).WellFormed)
    (h_linked : ReferencesLinked definitions root compilation) :
    NamesUnshared definitions root schema compilation := by
  intro key definition written h_key h_written
  obtain ⟨owner, h_owner, h_same⟩ :=
    (linked_iff h_sound h_length).mp (h_linked key definition written h_key h_written)
  constructor
  · -- the root was the first to claim its name, and owners stay
    rintro rfl
    have h_root : compilation.roster.lookup written = some schema :=
      Roster.lookup_of_grown h_sound.start (by simp)
    rw [h_owner] at h_root
    rwa [← Option.some.inj h_root]
  · intro mention other h_other h_stands
    obtain ⟨owner', h_owner', h_same'⟩ :=
      owner_same_of_linked h_sound h_length h_sources h_linked h_other h_stands
    -- both have the owner of the name, and equality of schemas goes through it
    obtain rfl : owner = owner' := Option.some.inj (h_owner.symm.trans h_owner')
    have h_wellFormed := h_sound.wellFormed_owner h_sources h_owner
    have h_other_wellFormed :=
      wellFormed_of_standsFor? h_sources (h_sound.from_sources h_other) h_stands
    exact Json.same_trans (Json.same_symm h_wellFormed h_other_wellFormed h_same') h_same

/-- References that share no name are linked: the owner of their name is something that is written
    with it. -/
theorem linked_of_unshared (h_sound : Sound definitions root schema compilation)
    (h_length : compilation.roster.length = compilation.made.length)
    (h_unshared : NamesUnshared definitions root schema compilation) :
    ReferencesLinked definitions root compilation := by
  intro key definition written h_key h_written
  obtain ⟨h_root, h_others⟩ := h_unshared key definition written h_key h_written
  obtain ⟨owner, h_owner⟩ := Entries.exists_lookup_of_mem_names
    (h_sound.mem_names h_written (standsFor?_definition h_key))
  refine (linked_iff h_sound h_length).mpr ⟨owner, h_owner, ?_⟩
  -- the owner claimed the name as the root, or for something else that is written with it
  rcases h_sound.origin _ (Entries.mem_of_lookup h_owner) with h_start | ⟨mention, h_mem, h_stands⟩
  · obtain ⟨rfl, rfl⟩ := Prod.mk.inj h_start
    exact h_root rfl
  · exact h_others mention owner h_mem h_stands

/-! ## Names that are kept -/

/-- Every claim of a name that a definition is referred to with is for an equal schema. -/
def ClaimsKept (definitions : Definitions) (roster : Roster) : Prop :=
  ∀ entry ∈ roster, ∀ key definition, definitions.get? key = some definition →
    definitionName key = entry.1 → entry.2.same definition = true

/-- A free name that is not taken is no definition's, or that of an equal one. -/
theorem same_of_not_taken {roster : Roster} {node : Json} (h_free : name ∉ Entries.names roster)
    (h_taken : Roster.taken definitions roster node name = false)
    (h_own : definitions.get? name = some own) : own.same node = true := by
  rw [Roster.taken, Entries.lookup_eq_none_iff.mpr h_free] at h_taken
  simpa [h_own] using h_taken

/-- A claim for the name of a definition is one of a schema that equals the definition. -/
theorem claimsKept_choose {roster : Roster} (h_sources : (sources definitions schema).WellFormed)
    (h_kept : NamesKept definitions root schema)
    (h_from : mention.From (sources definitions schema))
    (h_claims : ClaimsKept definitions roster) :
    ClaimsKept definitions (Roster.choose definitions root mention roster).2 := by
  intro entry h_entry key definition h_key h_name
  rcases Roster.mem_choose h_entry with h_old | ⟨h_written, h_stands, h_free⟩
  · exact h_claims entry h_old key definition h_key h_name
  obtain ⟨⟨own, h_own, h_same⟩, -⟩ := h_kept key definition h_key
  rw [h_name] at h_own
  have h_own_wellFormed : own.WellFormed :=
    Json.wellFormed_array_iff.mp h_sources own (mem_sources_of_get? h_own)
  cases mention with
  | titled title node =>
    -- the node could claim the name only because the definition of that key equals it
    obtain ⟨h_title, rfl⟩ := Roster.standsFor?_titled_iff.mp h_stands
    rw [Roster.choose_titled h_title] at h_written
    obtain ⟨number, -, h_candidate, h_taken, -⟩ :=
      Roster.nameTitled_first definitions title entry.2 roster
    rw [← h_candidate, h_written] at h_taken
    have h_node := Json.wellFormed_of_mem_nodes h_sources h_from.1
    have h_equal := same_of_not_taken h_free h_taken h_own
    exact Json.same_trans (Json.same_symm h_own_wellFormed h_node h_equal) h_same
  | reference target =>
    -- two definitions that are referred to with one name both equal the definition of that key
    obtain ⟨other, rfl, h_other⟩ := Roster.definition?_eq_some_iff.mp h_stands
    rw [Roster.choose_definition] at h_written
    obtain ⟨⟨own', h_own', h_same'⟩, -⟩ := h_kept other entry.2 h_other
    rw [h_written, h_own] at h_own'
    obtain rfl : own = own' := Option.some.inj h_own'
    have h_entry_wellFormed := wellFormed_of_standsFor? h_sources h_from h_stands
    exact Json.same_trans (Json.same_symm h_own_wellFormed h_entry_wellFormed h_same') h_same

/-- Where nothing but definitions can claim the names of definitions, all references to them are
    linked. -/
theorem linked_of_kept {count : Nat} (h_schema : schema.WellFormed)
    (h_definitions : Json.WellFormedFields definitions.schemas)
    (h_run : Declares definitions root ⟨[(root, schema)], []⟩ count (.ok compilation))
    (h_sound : Sound definitions root schema compilation)
    (h_length : compilation.roster.length = compilation.made.length)
    (h_kept : NamesKept definitions root schema) :
    ReferencesLinked definitions root compilation := by
  have h_sources := wellFormed_sources h_schema h_definitions
  -- by induction over what the run chooses, beginning with the root
  have h_claims : ClaimsKept definitions compilation.roster := by
    refine h_run.roster_induction (P := ClaimsKept definitions) ?_ ?_
    · intro mention roster h_from _ h_before
      exact claimsKept_choose h_sources h_kept h_from h_before
    · intro entry h_entry key definition h_key h_name
      rw [List.mem_singleton.mp h_entry] at h_name ⊢
      exact (h_kept key definition h_key).2 h_name
  intro key definition written h_key h_written
  obtain ⟨owner, h_owner⟩ := Entries.exists_lookup_of_mem_names
    (h_sound.mem_names h_written (standsFor?_definition h_key))
  refine (linked_iff h_sound h_length).mpr ⟨owner, h_owner, ?_⟩
  exact h_claims _ (Entries.mem_of_lookup h_owner) key definition h_key
    (written_definition h_sound h_written).symm

/-! ## The links of a compilation -/

/-- Every known reference of a compilation is written with a name that is declared, once. All of
    them lead to their definitions exactly when none shares its name with something that stands for
    another schema; and that is so whenever the names of references are kept for the definitions. -/
theorem references_linked_iff_unshared (definitions : Definitions) (name : String) (schema : Json)
    (compilation : Compilation) (h_schema : schema.WellFormed)
    (h_definitions : Json.WellFormedFields definitions.schemas)
    (h_compile : compile definitions name schema = .ok compilation) :
    (compilation.made.map Declaration.name).Nodup ∧
    (∀ key definition written, definitions.get? key = some definition →
      (.reference (Reference.definitionRoot ++ key), written) ∈ compilation.writings →
        written ∈ compilation.made.map Declaration.name) ∧
    (ReferencesLinked definitions (Name.identifier name) compilation ↔
      NamesUnshared definitions (Name.identifier name) schema compilation) ∧
    (NamesKept definitions (Name.identifier name) schema →
      ReferencesLinked definitions (Name.identifier name) compilation) := by
  have h_sources := wellFormed_sources h_schema h_definitions
  obtain ⟨h_sound, h_length⟩ := sound_of_compile h_schema h_definitions h_compile
  -- the compilation as a run of rounds, which the induction over the roster needs
  obtain ⟨count, -, h_run⟩ := declares_compile name h_schema h_definitions
  rw [h_compile] at h_run
  rw [h_sound.names_made h_length]
  refine ⟨h_sound.names_nodup, ?_, ⟨?_, ?_⟩, ?_⟩
  · intro key definition written h_key h_written
    exact h_sound.mem_names h_written (standsFor?_definition h_key)
  · exact unshared_of_linked h_sound h_length h_sources
  · exact linked_of_unshared h_sound h_length
  · exact linked_of_kept h_schema h_definitions h_run h_sound h_length

/-- A definition under a key. -/
def petDefinitions (key : String) : Definitions :=
  ⟨[(key, .object [("properties", .object [("name", .object [("type", .text "string")])])])], []⟩

/-- A schema with a titled node, and after it a reference to the definition of a key. -/
def petSchema (key : String) : Json :=
  .object [("properties", .object
    [("local", .object [("title", .text "Pet"), ("type", .text "string")]),
     ("pet", .object [("$ref", .text (Reference.definitionRoot ++ key))])])]

theorem wellFormed_petSchema (key : String) : (petSchema key).WellFormed := by
  simp [petSchema, Json.WellFormed, Json.WellFormedFields]

theorem wellFormed_petDefinitions (key : String) :
    Json.WellFormedFields (petDefinitions key).schemas := by
  simp [petDefinitions, Json.WellFormed, Json.WellFormedFields]

/-- With a key that is its own name, the titled node goes out of the way of the reference. -/
theorem references_linked_under_name :
    (petSchema "Pet").WellFormed ∧ Json.WellFormedFields (petDefinitions "Pet").schemas ∧
      ∃ compilation, compile (petDefinitions "Pet") "body" (petSchema "Pet") = .ok compilation ∧
        ReferencesLinked (petDefinitions "Pet") (Name.identifier "body") compilation := by
  refine ⟨wellFormed_petSchema "Pet", wellFormed_petDefinitions "Pet", ?_⟩
  have h_ok : (compile (petDefinitions "Pet") "body" (petSchema "Pet")).isOk = true := by
    decide +kernel
  cases h_compile : compile (petDefinitions "Pet") "body" (petSchema "Pet") with
  | error malformed =>
    rw [h_compile] at h_ok
    cases h_ok
  | ok compilation =>
    refine ⟨compilation, rfl, ?_⟩
    refine (references_linked_iff_unshared (petDefinitions "Pet") "body" (petSchema "Pet")
      compilation (wellFormed_petSchema "Pet") (wellFormed_petDefinitions "Pet")
      h_compile).2.2.2 ?_
    -- there is one definition, and its name is kept
    intro key definition h_key
    obtain ⟨rfl, rfl⟩ := Prod.mk.inj (List.mem_singleton.mp (Entries.mem_of_lookup h_key))
    have h_name : definitionName "Pet" = "Pet" := by decide +kernel
    rw [h_name]
    refine ⟨⟨_, h_key, by decide +kernel⟩, ?_⟩
    intro h_root
    exact absurd h_root (by decide +kernel)

/-- Whether a compilation writes a reference with a name. -/
def Compilation.refers (compilation : Compilation) (target name : String) : Bool :=
  compilation.writings.any fun writing =>
    match writing.1 with
    | .reference own => own == target && writing.2 == name
    | .titled _ _ => false

/-- What the compilation is seen to refer to is written in it. -/
theorem mem_writings_of_refers {target : String} (h_refers : compilation.refers target name = true) :
    (.reference target, name) ∈ compilation.writings := by
  obtain ⟨⟨mention, written⟩, h_mem, h_own⟩ := List.any_eq_true.mp h_refers
  cases mention with
  | titled title node => cases h_own
  | reference own =>
    simp only [Bool.and_eq_true, beq_iff_eq] at h_own
    obtain ⟨rfl, rfl⟩ := h_own
    exact h_mem

/-- With another key the titled node holds the name first, and the reference leads to it. -/
theorem reference_not_linked :
    ∃ compilation, compile (petDefinitions "pet") "body" (petSchema "pet") = .ok compilation ∧
      (.reference "#/definitions/pet", "Pet") ∈ compilation.writings ∧
      ¬ ReferencesLinked (petDefinitions "pet") (Name.identifier "body") compilation := by
  have h_computed : (compile (petDefinitions "pet") "body" (petSchema "pet")).toOption.any
      (fun compilation => compilation.refers "#/definitions/pet" "Pet" &&
        compilation.roster.all fun entry => (petDefinitions "pet").schemas.all fun definition =>
          entry.1 != "Pet" || !entry.2.same definition.2) = true := by
    decide +kernel
  cases h_compile : compile (petDefinitions "pet") "body" (petSchema "pet") with
  | error malformed =>
    rw [h_compile] at h_computed
    cases h_computed
  | ok compilation =>
    rw [h_compile] at h_computed
    obtain ⟨h_refers, h_roster⟩ := Bool.and_eq_true_iff.mp h_computed
    have h_written := mem_writings_of_refers h_refers
    refine ⟨compilation, rfl, h_written, ?_⟩
    -- no claim under the name is for a schema that equals the definition
    intro h_linked
    obtain ⟨owner, plain, declaration, h_declared, h_same⟩ := h_linked "pet" _ "Pet" rfl h_written
    have h_owner := List.all_eq_true.mp h_roster _ (List.of_mem_zip h_declared.claimed).1
    have h_differs := List.all_eq_true.mp h_owner _ List.mem_cons_self
    rw [h_same] at h_differs
    cases h_differs

end OpenApiTs.Schema
