/-
  OpenApiTs.Proofs.Schema.Recovered

  The text of a definition compiled without knowing placeholders and scrubbed, and the text compiled
  with the names of placeholders put back: it is the same text. The two compilations go round by
  round, but for the rounds in which the first declares the alias of a placeholder; the second does
  nothing then. What the first declares otherwise differs in markers behind names, so that scrubbing
  leaves what the second declares.
-/
import OpenApiTs.Proofs.Schema.Hoisted
import OpenApiTs.Proofs.Schema.Legible
import OpenApiTs.Proofs.Schema.Termination

namespace OpenApiTs.Schema

open OpenApiTs.Definitions (AllInert BarePlanted Inert Searched Tellable Tidy Unmarked barePlaceholder
  forgetful gather marker neutralize ofDocument refersTo selfReferences)
open OpenApiTs.Name (IsWord)
open OpenApiTs.Outcome (Alike)
open OpenApiTs.Text (Bears)
open OpenApiTs.TypeScript

variable {definitions : Definitions} {own name root : String} {schema document : Json}
  {roster roster' : Roster} {compilation compilation' later later' : Compilation}
  {entry : String × Json} {count : Nat}

/-! ## Declarations -/

/-- A placeholder is declared as an alias of any type. -/
theorem declare_barePlaceholder (name own : String) :
    declare name (barePlaceholder own) = .ok ⟨name, none, .alias, .any⟩ := by
  have h_form : isInterface (barePlaceholder own) = false := rfl
  have h_description : description? (barePlaceholder own) = none := rfl
  have h_body : bodyShape (barePlaceholder own) = .ok .any := by
    rw [barePlaceholder, bodyShape_object, fieldsShape_eq]
    rfl
  rw [declare]
  · rw [h_body, h_description]
    rfl
  · simp [h_form]

/-! ## Compilations that correspond -/

/-- Whether two compilations correspond: the first has the claims and declarations of the second, with
    the marker behind names of placeholders, and beside them those of placeholders. -/
structure CompilationHoists (definitions : Definitions) (compilation' compilation : Compilation) :
    Prop where
  roster : Hoists definitions compilation'.roster compilation.roster
  names : compilation'.made.map Declaration.name <+: Entries.names compilation'.roster
  made : List.Forall₂ (Declaration.BearsMarks marker.toList)
    (withoutPlaceholders compilation'.made) compilation.made
  separable : ∀ declaration ∈ compilation'.made, Separable declaration

namespace CompilationHoists

variable (h_hoists : CompilationHoists definitions compilation' compilation)
include h_hoists

/-- The claims that have their declarations, and those that wait for theirs. -/
theorem exists_split :
    ∃ done waiting, compilation'.roster = done ++ waiting ∧
      done.length = compilation'.made.length ∧
      (withoutHoisted done).length = compilation.made.length := by
  have h_names := List.prefix_iff_eq_take.mp h_hoists.names
  rw [List.length_map, Entries.names, ← List.map_take] at h_names
  have h_length := h_hoists.names.length_le
  rw [List.length_map, Entries.names, List.length_map] at h_length
  refine ⟨compilation'.roster.take compilation'.made.length,
    compilation'.roster.drop compilation'.made.length, (List.take_append_drop _ _).symm,
    List.length_take_of_le h_length, ?_⟩
  -- both are as many as there are names without the marker among the declared ones
  have h_count := congrArg (fun names => (names.filter isUnmarked).length) h_names
  simp only [List.filter_map, List.length_map] at h_count
  rw [← h_hoists.made.length_eq]
  exact h_count.symm

/-- The next claim is next on the other side too, unless it is a placeholder's. -/
theorem next_of_unmarked (h_next : compilation'.roster[compilation'.made.length]? = some entry)
    (h_name : Unmarked entry.1) : compilation.roster[compilation.made.length]? = some entry := by
  obtain ⟨done, waiting, h_split, h_done, h_length⟩ := h_hoists.exists_split
  rw [h_split, ← h_done, List.getElem?_append_right (Nat.le_refl _), Nat.sub_self] at h_next
  cases waiting with
  | nil => cases h_next
  | cons first waiting =>
    obtain rfl : first = entry := Option.some.inj h_next
    -- of what waits, placeholders are left out on the other side, and this claim is none
    have h_kept : withoutHoisted (first :: waiting) = first :: withoutHoisted waiting :=
      List.filter_cons_of_pos (isUnmarked_iff.mpr h_name)
    rw [← h_hoists.roster.plain, h_split, withoutHoisted, List.filter_append, ← withoutHoisted,
      ← withoutHoisted, h_kept, ← h_length, List.getElem?_append_right (Nat.le_refl _),
      Nat.sub_self, List.getElem?_cons_zero]

/-- When the first compilation has nothing left to declare, neither has the second. -/
theorem next_eq_none (h_none : compilation'.roster[compilation'.made.length]? = none) :
    compilation.roster[compilation.made.length]? = none := by
  obtain ⟨done, waiting, h_split, h_done, h_length⟩ := h_hoists.exists_split
  rw [List.getElem?_eq_none_iff, h_split, List.length_append, h_done] at h_none
  obtain rfl : waiting = [] := List.length_eq_zero_iff.mp (by omega)
  rw [List.append_nil] at h_split
  rw [List.getElem?_eq_none_iff, ← h_hoists.roster.plain, h_split, h_length]

/-- The name of a claim that is next extends the names of what is declared. -/
theorem names_concat {schema : Json}
    (h_next : compilation'.roster[compilation'.made.length]? = some (name, schema))
    (h_grown : compilation'.roster <+: roster') :
    compilation'.made.map Declaration.name ++ [name] <+: Entries.names roster' := by
  refine List.IsPrefix.trans ?_ (h_grown.map Prod.fst)
  obtain ⟨waiting, h_waiting⟩ := h_hoists.names
  have h_place := congrArg (Option.map Prod.fst) h_next
  rw [← List.getElem?_map, ← Entries.names, ← h_waiting,
    List.getElem?_append_right (by rw [List.length_map]), List.length_map, Nat.sub_self] at h_place
  -- what waits begins with the claim that is next
  cases waiting with
  | nil => cases h_place
  | cons first waiting =>
    obtain rfl : first = name := Option.some.inj h_place
    exact ⟨waiting, (List.append_assoc _ _ _).trans h_waiting⟩

/-- Declaring the alias of a placeholder adds nothing that the other compilation has. -/
theorem declare_placeholder
    (h_next : compilation'.roster[compilation'.made.length]? =
      some (Name.identifier own ++ marker, schema)) :
    CompilationHoists definitions
      ⟨compilation'.roster, compilation'.made ++ [aliasOf (Name.identifier own)]⟩ compilation := by
  refine ⟨h_hoists.roster, ?_, ?_, ?_⟩
  · rw [List.map_append]
    exact h_hoists.names_concat h_next (List.prefix_refl _)
  · -- the new declaration is a placeholder's, so it does not count on the other side
    have h_same : withoutPlaceholders compilation'.made ++ withoutPlaceholders [] =
        withoutPlaceholders compilation'.made := List.append_nil _
    rw [withoutPlaceholders_append, withoutPlaceholders_aliasOf, h_same]
    exact h_hoists.made
  · rw [List.forall_mem_append, List.forall_mem_singleton]
    exact ⟨h_hoists.separable, .placeholder (Name.isWord_identifier own)⟩

/-- Any other declaration is made in both, with markers behind the names of placeholders in the
    first. -/
theorem declare_plain (h_tellable : Tellable definitions) (h_name : Inert name)
    {plain : Declaration Mention} (h_own : Unmarked own)
    (h_next : compilation'.roster[compilation'.made.length]? = some (own, schema))
    (h_declare : declare own schema = .ok plain) :
    CompilationHoists definitions
      ⟨(nameIn definitions.forgetful (Name.identifier name) plain compilation'.roster).2,
        compilation'.made ++
          [(nameIn definitions.forgetful (Name.identifier name) plain compilation'.roster).1]⟩
      ⟨(nameIn definitions (Name.identifier name) plain compilation.roster).2,
        compilation.made ++
          [(nameIn definitions (Name.identifier name) plain compilation.roster).1]⟩ := by
  have h_schema := h_hoists.roster.tidy _ (List.mem_of_getElem? h_next)
  have h_plain := declare_spelled h_schema plain h_declare
  -- the mentions in the type are named in the same order, with claims that correspond throughout
  have h_both : TypeExpr.ChoosesBoth (Mention.Said (BarePlanted definitions))
      (Bears marker.toList) (Hoists definitions)
      (Roster.choose definitions.forgetful (Name.identifier name))
      (Roster.choose definitions (Name.identifier name)) :=
    fun mention h_said roster' roster h_rosters =>
      h_rosters.choose h_tellable (unmarked_identifier h_name) h_said
  have h_words : TypeExpr.ChoosesFrom (Mention.Said (BarePlanted definitions)) IsWord
      (fun _ => True) (Roster.choose definitions.forgetful (Name.identifier name)) :=
    fun mention _ roster _ =>
      ⟨(coined_choose (coined_identifier name) mention roster).isWord, trivial⟩
  obtain ⟨h_type, h_rosters⟩ := TypeExpr.Spelled.rename_matches h_both plain.type
    compilation'.roster compilation.roster h_plain.type h_hoists.roster
  obtain ⟨h_spelled, -⟩ :=
    TypeExpr.Spelled.rename h_words plain.type compilation'.roster h_plain.type trivial
  obtain rfl : plain.name = own := name_of_declare h_declare
  refine ⟨h_rosters, ?_, ?_, ?_⟩
  · rw [List.map_append]
    exact h_hoists.names_concat h_next (prefix_nameIn definitions.forgetful _ plain _)
  · have h_made : Unmarked (nameIn definitions.forgetful (Name.identifier name) plain
        compilation'.roster).1.name := h_own
    rw [withoutPlaceholders_append, withoutPlaceholders_plain h_made]
    exact List.rel_append h_hoists.made (.cons ⟨rfl, rfl, rfl, h_type⟩ .nil)
  · rw [List.forall_mem_append, List.forall_mem_singleton]
    exact ⟨h_hoists.separable, .plain h_own ⟨h_plain.description, h_spelled⟩⟩

end CompilationHoists

/-- Both begin with the root, whose name is unmarked. -/
theorem compilationHoists_start (h_name : Inert name)
    (h_schema : Tidy (BarePlanted definitions) schema) :
    CompilationHoists definitions ⟨[(Name.identifier name, schema)], []⟩
      ⟨[(Name.identifier name, schema)], []⟩ := by
  have h_root := unmarked_identifier h_name
  refine ⟨⟨?_, ?_, ?_⟩, List.nil_prefix, .nil, by simp⟩
  · exact List.filter_cons_of_pos (isUnmarked_iff.mpr h_root)
  · rw [List.forall_mem_singleton]
    exact .inl h_root
  · rw [List.forall_mem_singleton]
    exact h_schema

/-! ## Rounds -/

/-- A round declares the alias of a placeholder, which the other compilation does without, or it is a
    round of the other compilation too. -/
theorem Round.hoists (h_tellable : Tellable definitions) (h_name : Inert name)
    (h_round : Round definitions.forgetful (Name.identifier name) compilation' later')
    (h_hoists : CompilationHoists definitions compilation' compilation) :
    CompilationHoists definitions later' compilation ∨
      ∃ later, Round definitions (Name.identifier name) compilation later ∧
        CompilationHoists definitions later' later := by
  obtain ⟨h_next, h_declare⟩ := h_round
  -- the next claim is unmarked, and both declare it, or it is a placeholder's
  rcases h_hoists.roster.claims _ (List.mem_of_getElem? h_next) with h_own | ⟨own, -, h_entry⟩
  · exact .inr ⟨_, .declare (h_hoists.next_of_unmarked h_next h_own) h_declare,
      h_hoists.declare_plain h_tellable h_name h_own h_next h_declare⟩
  · obtain ⟨rfl, rfl⟩ := Prod.mk.inj h_entry
    rw [declare_barePlaceholder] at h_declare
    obtain rfl := Except.ok.inj h_declare
    exact .inl (h_hoists.declare_placeholder h_next)

/-- Two compilations that correspond come to outcomes that correspond. -/
theorem Declares.hoists (h_tellable : Tellable definitions) (h_name : Inert name)
    {outcome' : Except Malformed Compilation}
    (h_run : Declares definitions.forgetful (Name.identifier name) compilation' count outcome')
    (h_hoists : CompilationHoists definitions compilation' compilation) :
    ∃ count outcome, Declares definitions (Name.identifier name) compilation count outcome ∧
      Alike (CompilationHoists definitions) outcome' outcome := by
  induction h_run generalizing compilation with
  | complete h_none =>
    exact ⟨0, _, .complete (h_hoists.next_eq_none h_none), .ok h_hoists⟩
  | malformed h_next h_declare =>
    rcases h_hoists.roster.claims _ (List.mem_of_getElem? h_next) with h_own | ⟨own, -, h_entry⟩
    · exact ⟨1, _, .malformed (h_hoists.next_of_unmarked h_next h_own) h_declare, .error _⟩
    · -- the schema of a placeholder is not malformed
      obtain ⟨rfl, rfl⟩ := Prod.mk.inj h_entry
      rw [declare_barePlaceholder] at h_declare
      cases h_declare
  | next h_round _ ih =>
    rcases h_round.hoists h_tellable h_name h_hoists with h_later | ⟨later, h_same, h_later⟩
    · exact ih h_later
    · obtain ⟨count, outcome, h_rest, h_outcomes⟩ := ih h_later
      exact ⟨count + 1, outcome, .next h_same h_rest, h_outcomes⟩

/-! ## Texts -/

/-- A schema is compiled and scrubbed to one text, whether placeholders are known or not. -/
theorem clean_forgetful (h_tellable : Tellable definitions) (h_name : Inert name)
    (h_schema : Tidy (BarePlanted definitions) schema) (h_formed : schema.WellFormed)
    (h_definitions : Json.WellFormedFields definitions.schemas) :
    Compiler.clean typeScript schema name definitions.forgetful =
      Compiler.clean typeScript schema name definitions := by
  have h_back := h_tellable.putsBack
  have h_forgetful : Json.WellFormedFields definitions.forgetful.schemas := h_definitions
  -- both compilations are runs, and the run of the one makes a run of the other
  obtain ⟨count', -, h_run'⟩ := declares_compile name h_formed h_forgetful
  obtain ⟨count, -, h_run⟩ := declares_compile name h_formed h_definitions
  obtain ⟨_, outcome, h_other, h_outcomes⟩ :=
    h_run'.hoists h_tellable h_name (compilationHoists_start h_name h_schema)
  obtain rfl := h_other.unique h_run
  rw [(typeScript_unmarked h_back h_name h_schema).2, Compiler.clean, typeScript, typeScript]
  generalize h_compile : compile definitions name schema = outcome at h_outcomes
  generalize compile definitions.forgetful name schema = outcome' at h_outcomes
  cases h_outcomes with
  | error malformed => rfl
  | ok h_hoists =>
    have h_unmarked := (allUnmarked_of_compile h_back h_name h_schema h_compile).render
    exact congrArg Except.ok (scrub_renders h_hoists.separable h_hoists.made h_unmarked)

/-! ## Documents -/

/-- What a document is to be for the placeholders in its definitions to be recovered from text: the
    marker does not occur in it, the names of definitions are identifiers that stay apart, and
    whatever is replaced is a reference and nothing else. -/
structure Recoverable (document : Json) : Prop where
  inert : AllInert document
  names : ∀ entry ∈ gather document, Name.isIdentifier entry.1 = true
  apart : ((Entries.names (gather document)).map Name.identifier).Nodup
  bare : ∀ entry ∈ gather document, ∀ fields, Searched entry.1 entry.2 (.object fields) →
    refersTo entry.1 fields = true → Entries.names fields = ["$ref"]

/-- The self-referential definitions of a document are those that refer to themselves where they are
    searched. -/
theorem mem_selfReferential :
    own ∈ (ofDocument document).selfReferential ↔
      ∃ schema, (own, schema) ∈ gather document ∧ selfReferences own schema ≠ 0 := by
  rw [ofDocument, List.mem_map]
  constructor
  · rintro ⟨entry, h_entry, rfl⟩
    obtain ⟨h_entry, h_some⟩ := List.mem_filter.mp h_entry
    exact ⟨entry.2, h_entry, by simpa using h_some⟩
  · rintro ⟨schema, h_entry, h_some⟩
    exact ⟨(own, schema), List.mem_filter.mpr ⟨h_entry, by simpa using h_some⟩, rfl⟩

/-- The definitions of a recoverable document are tellable after its self-references are
    replaced. -/
theorem Recoverable.tellable (h_document : Recoverable document) :
    Tellable (ofDocument document) := by
  have h_inert (entry : String × Json) (h_entry : entry ∈ gather document) : Inert entry.1 :=
    h_document.inert entry.1 (Definitions.strings_gather h_entry).1
  constructor
  · intro entry h_entry
    obtain ⟨before, h_before, rfl⟩ := List.mem_map.mp h_entry
    refine Definitions.tidy_neutralize (fun text h_text => h_document.inert text ?_)
      fun fields h_searched h_refers => ?_
    · exact (Definitions.strings_gather h_before).2 h_text
    · -- a reference that was replaced makes its definition self-referential
      have h_some := Definitions.selfReferences_ne_zero h_searched h_refers
      exact ⟨before.1, mem_selfReferential.mpr ⟨before.2, h_before, h_some⟩, rfl,
        Definitions.placeholder_bare before.1
          (h_document.bare before h_before fields h_searched h_refers)⟩
  · intro entry h_entry
    obtain ⟨before, h_before, rfl⟩ := List.mem_map.mp h_entry
    exact h_inert before h_before
  · intro own h_own
    obtain ⟨schema, h_entry, -⟩ := mem_selfReferential.mp h_own
    exact ⟨h_inert _ h_entry, h_document.names _ h_entry⟩
  · intro own h_own other h_other h_eq
    obtain ⟨schema, h_entry, -⟩ := mem_selfReferential.mp h_own
    obtain ⟨schema', h_entry', -⟩ := mem_selfReferential.mp h_other
    exact List.inj_on_of_nodup_map h_document.apart (Entries.mem_names_of_mem h_entry)
      (Entries.mem_names_of_mem h_entry') h_eq

/-- Every definition of a document is compiled and scrubbed to one text, whether the names of
    placeholders are put back as they are compiled or their aliases and markers are taken out of
    the text. -/
theorem scrubbed_text_restored (document : Json) (h_formed : document.WellFormed)
    (h_document : Recoverable document) :
    ∀ entry ∈ (ofDocument document).schemas,
      Compiler.clean typeScript entry.2 entry.1 (ofDocument document).forgetful =
        Compiler.clean typeScript entry.2 entry.1 (ofDocument document) := by
  have h_tellable := h_document.tellable
  -- replacing references leaves definitions well formed, so both compilations end
  have h_schemas : ∀ entry ∈ (ofDocument document).schemas, entry.2.WellFormed := by
    intro entry h_entry
    obtain ⟨before, h_before, rfl⟩ := List.mem_map.mp h_entry
    exact Definitions.wellFormed_neutralize (Definitions.wellFormed_gather h_formed _ h_before)
  intro entry h_entry
  exact clean_forgetful h_tellable (h_tellable.names entry h_entry)
    (h_tellable.tidy entry h_entry) (h_schemas entry h_entry)
    (Json.wellFormedFields_iff.mpr h_schemas)

/-- A document with the definition of trees, which refers to itself in two places, and one of forests,
    which refers to trees. -/
def forestDocument : Json :=
  .object [("components", .object [("schemas", .object [
    ("tree_node", .object [("type", .text "object"), ("properties", .object [
      ("parent", .object [("$ref", .text "#/definitions/tree_node")]),
      ("children", .object [("type", .text "array"),
        ("items", .object [("$ref", .text "#/definitions/tree_node")])])])]),
    ("forest", .object [("type", .text "array"),
      ("items", .object [("$ref", .text "#/definitions/tree_node")])])])])]

/-- A document whose compiled texts differ before they are scrubbed, and are the same afterwards. -/
theorem forest_text_restored :
    forestDocument.WellFormed ∧ Recoverable forestDocument ∧
      (∃ entry ∈ (ofDocument forestDocument).schemas,
        (typeScript entry.2 entry.1 (ofDocument forestDocument).forgetful).toOption ≠
          (typeScript entry.2 entry.1 (ofDocument forestDocument)).toOption) ∧
      ∀ entry ∈ (ofDocument forestDocument).schemas,
        Compiler.clean typeScript entry.2 entry.1 (ofDocument forestDocument).forgetful =
          Compiler.clean typeScript entry.2 entry.1 (ofDocument forestDocument) := by
  have h_formed : forestDocument.WellFormed := by
    simp [forestDocument, Json.WellFormed, Json.WellFormedFields]
  -- every reference of a definition to itself stands alone in its object
  have h_bare : ∀ entry ∈ gather forestDocument, ∀ node ∈ entry.2.nodes,
      ∀ fields ∈ node.fields?, refersTo entry.1 fields = true →
        Entries.names fields = ["$ref"] := by decide +kernel
  have h_document : Recoverable forestDocument :=
    ⟨by decide +kernel, by decide +kernel, by decide +kernel,
      fun entry h_entry fields h_searched =>
        h_bare entry h_entry _ h_searched.mem_nodes fields rfl⟩
  exact ⟨h_formed, h_document, by decide +kernel,
    scrubbed_text_restored forestDocument h_formed h_document⟩

end OpenApiTs.Schema
