/-
  OpenApiTs.Proofs.Schema.Claims

  The claims of a finished compilation. Each has one declaration, that of the root first and the
  others in the order in which their names are first written, and the text exports exactly these
  names. Whatever is written for a titled node or for a known reference is among them; only the
  placeholder of a self-reference is written with a name that it does not claim.
-/
import OpenApiTs.Proofs.FirstSeen
import OpenApiTs.Proofs.Output.Declarations
import OpenApiTs.Proofs.Schema.Declared
import OpenApiTs.Proofs.Schema.Legible

namespace OpenApiTs.Schema

open OpenApiTs.Output (exportedNames exportedNames_join)
open OpenApiTs.TypeScript
open Roster (chooseEach placeholderOf? standsFor?)

variable {definitions : Definitions} {root name : String} {schema : Json} {roster : Roster}
  {mention : Mention} {mentions : List Mention} {compilation later : Compilation}

/-! ## Order of claims -/

/-- The names that are written for something that stands for a schema, in the order of writing. -/
def claiming (definitions : Definitions) (writings : List (Mention × String)) : List String :=
  writings.filterMap fun writing => (standsFor? definitions writing.1).map fun _ => writing.2

theorem claiming_append (definitions : Definitions) (front back : List (Mention × String)) :
    claiming definitions (front ++ back) =
      claiming definitions front ++ claiming definitions back :=
  List.filterMap_append

/-- A name that is chosen for what stands for a schema is claimed unless it was, and nothing else
    is. -/
theorem names_choose (definitions : Definitions) (root : String) (mention : Mention)
    {names : List String} (h_names : Entries.names roster = names.eraseDups) :
    Entries.names (Roster.choose definitions root mention roster).2 =
      (names ++ claiming definitions
        [(mention, (Roster.choose definitions root mention roster).1)]).eraseDups := by
  rw [Roster.choose_snd]
  cases h_stands : standsFor? definitions mention with
  | none =>
    have h_nothing : claiming definitions
        [(mention, (Roster.choose definitions root mention roster).1)] = [] := by
      simp [claiming, h_stands]
    rw [h_nothing, List.append_nil]
    exact h_names
  | some own =>
    -- the roster has the names without repetitions, so both ask whether the name is new
    set chosen := (Roster.choose definitions root mention roster).1
    have h_one : claiming definitions [(mention, chosen)] = [chosen] := by
      simp [claiming, h_stands]
    have h_claimed : chosen ∈ Entries.names roster ↔ chosen ∈ names := by
      rw [h_names, List.mem_eraseDups]
    dsimp only
    rw [h_one, eraseDups_concat]
    by_cases h_mem : chosen ∈ names
    · rw [if_pos h_mem, Roster.claim_of_mem (h_claimed.mpr h_mem), h_names]
    · rw [if_neg h_mem, Roster.claim_of_not_mem (mt h_claimed.mp h_mem), ← h_names,
        Entries.names, Entries.names, List.map_append]
      rfl

/-- The names of one declaration are claimed from left to right. -/
theorem names_chooseEach (definitions : Definitions) (root : String) (mentions : List Mention)
    {names : List String} (h_names : Entries.names roster = names.eraseDups) :
    Entries.names (chooseEach definitions root mentions roster).2 =
      (names ++ claiming definitions
        (mentions.zip (chooseEach definitions root mentions roster).1)).eraseDups := by
  induction mentions generalizing roster names with
  | nil =>
    have h_nothing : claiming definitions
        (([] : List Mention).zip (chooseEach definitions root [] roster).1) = [] := rfl
    rw [h_nothing, List.append_nil]
    exact h_names
  | cons mention mentions ih =>
    -- the first name is claimed, then the others in the roster that it leaves
    have h_rest := ih (names_choose definitions root mention h_names)
    rw [List.append_assoc, ← claiming_append] at h_rest
    exact h_rest

/-! ## Order of writing -/

/-- A round adds the next claim with its declaration, and the pairs before it stay. -/
theorem zip_concat {declaration : Declaration String}
    (h_next : compilation.roster[compilation.made.length]? = some (name, schema))
    (h_grown : compilation.roster <+: roster) :
    roster.zip (compilation.made ++ [declaration]) =
      compilation.roster.zip compilation.made ++ [((name, schema), declaration)] := by
  obtain ⟨h_within, h_claim⟩ := List.getElem?_eq_some_iff.mp h_next
  obtain ⟨more, rfl⟩ := h_grown
  -- the claims before the next one are as many as there are declarations
  have h_split : compilation.roster = compilation.roster.take compilation.made.length ++
      (name, schema) :: compilation.roster.drop (compilation.made.length + 1) := by
    rw [← h_claim, ← List.drop_eq_getElem_cons h_within, List.take_append_drop]
  have h_length : (compilation.roster.take compilation.made.length).length =
      compilation.made.length := List.length_take_of_le (Nat.le_of_lt h_within)
  have h_before : compilation.roster.zip compilation.made =
      (compilation.roster.take compilation.made.length).zip compilation.made := by
    conv_lhs => rw [h_split, ← List.append_nil compilation.made]
    rw [List.zip_append (by simpa using h_length)]
    simp
  rw [h_before]
  conv_lhs => rw [h_split]
  rw [List.append_assoc, List.zip_append h_length, List.cons_append, List.zip_cons_cons,
    List.zip_nil_right]

/-- A round writes the mentions of the new declaration after all others. -/
theorem Round.writings_eq (h_round : Round definitions root compilation later) :
    ∃ plain : Declaration Mention, later.roster =
        (chooseEach definitions root plain.type.mentions compilation.roster).2 ∧
      later.writings = compilation.writings ++
        plain.type.mentions.zip
          (chooseEach definitions root plain.type.mentions compilation.roster).1 := by
  obtain ⟨h_next, h_declare⟩ := h_round
  rename_i name own plain
  refine ⟨plain, roster_nameIn definitions root plain compilation.roster, ?_⟩
  have h_grown := prefix_nameIn definitions root plain compilation.roster
  -- the declaration that is made belongs to the claim that was next
  rw [Compilation.writings, zip_concat h_next h_grown, List.flatMap_append, List.flatMap_singleton,
    ← mentions_nameIn]
  simp only [h_declare]
  rfl

/-- Whether the names of a compilation are claimed in the order in which they are first written,
    that of the root before all others. -/
def Ordered (definitions : Definitions) (root : String) (compilation : Compilation) : Prop :=
  Entries.names compilation.roster =
    (root :: claiming definitions compilation.writings).eraseDups

/-- A round keeps the order of claims: what its declaration mentions is claimed behind all the
    others. -/
theorem Round.ordered (h_round : Round definitions root compilation later)
    (h_ordered : Ordered definitions root compilation) : Ordered definitions root later := by
  obtain ⟨plain, h_roster, h_writings⟩ := h_round.writings_eq
  rw [Ordered, h_roster, h_writings, claiming_append, ← List.cons_append]
  exact names_chooseEach definitions root plain.type.mentions h_ordered

/-- The claims of a compilation stand in the order in which they are written. -/
theorem ordered_of_compile (h_compile : compile definitions name schema = .ok compilation) :
    Ordered definitions (Name.identifier name) compilation := by
  refine declareFrom_induction (P := Ordered definitions (Name.identifier name))
    (fun before after h_round h_before => h_round.ordered h_before) _ _ _ ?_ h_compile
  -- at first the root is claimed and nothing is written
  simp [Ordered, Entries.names, claiming, Compilation.writings, List.eraseDups_cons]

/-! ## Declarations of claims -/

/-- Whenever a text is compiled, it is that of one declaration for each claimed name: the root's,
    and then those of the names that are written for titled nodes and known references, in the order
    in which they are first written. The text exports these names, no two of them are equal, and
    every name that is written for a titled node or a known reference is one of them. The
    placeholder of a self-reference is written with the name of its definition and claims nothing. -/
theorem claims_declared_once (definitions : Definitions) (name : String) (schema : Json)
    (text : String) (h_schema : schema.WellFormed)
    (h_definitions : Json.WellFormedFields definitions.schemas)
    (h_text : typeScript schema name definitions = .ok text) :
    ∃ compilation, compile definitions name schema = .ok compilation ∧
      text = String.join (compilation.made.map Declaration.render) ∧
      exportedNames text = Entries.names compilation.roster ∧
      compilation.made.map Declaration.name = Entries.names compilation.roster ∧
      Entries.names compilation.roster =
        (Name.identifier name :: claiming definitions compilation.writings).eraseDups ∧
      (Entries.names compilation.roster).Nodup ∧
      (∀ title node written, (.titled title node, written) ∈ compilation.writings →
        (placeholderOf? definitions title = none → written ∈ Entries.names compilation.roster) ∧
        ∀ own, placeholderOf? definitions title = some own → written = Name.identifier own) ∧
      ∀ key definition written, definitions.get? key = some definition →
        (.reference (Reference.definitionRoot ++ key), written) ∈ compilation.writings →
          written ∈ Entries.names compilation.roster := by
  unfold typeScript at h_text
  split at h_text
  case h_2 => cases h_text
  case h_1 compilation h_compile =>
    obtain rfl := Except.ok.inj h_text
    obtain ⟨h_sound, h_length⟩ := sound_of_compile h_schema h_definitions h_compile
    -- at the end there is a declaration for each claim
    have h_made := h_sound.names_made h_length
    -- and reading the text back gives the declared names
    have h_exported : exportedNames compilation.render =
        compilation.made.map Declaration.name :=
      exportedNames_join (legible_of_compile h_compile)
    refine ⟨compilation, h_compile, rfl, h_exported.trans h_made, h_made,
      ordered_of_compile h_compile, h_sound.names_nodup, ?_, ?_⟩
    · intro title node written h_written
      constructor
      · intro h_title
        exact h_sound.mem_names h_written (Roster.standsFor?_titled_iff.mpr ⟨h_title, rfl⟩)
      · intro own h_own
        obtain ⟨before, rfl, -⟩ := h_sound.exists_choose h_written
        simp only [Roster.choose, h_own]
    · intro key definition written h_key h_written
      exact h_sound.mem_names h_written
        (Roster.definition?_eq_some_iff.mpr ⟨key, rfl, h_key⟩)

/-- With titles that clash with definitions, which refer to each other, every name is still exported
    once. -/
theorem clashing_claims_declared_once :
    clashingSchema.WellFormed ∧ Json.WellFormedFields mutualDefinitions.schemas ∧
      ∃ text compilation, typeScript clashingSchema "body" mutualDefinitions = .ok text ∧
        compile mutualDefinitions "body" clashingSchema = .ok compilation ∧
        exportedNames text = Entries.names compilation.roster ∧ (exportedNames text).Nodup := by
  have h_schema : clashingSchema.WellFormed := by
    simp [clashingSchema, Json.WellFormed, Json.WellFormedFields]
  have h_definitions : Json.WellFormedFields mutualDefinitions.schemas := by
    simp [mutualDefinitions, Json.WellFormed, Json.WellFormedFields]
  refine ⟨h_schema, h_definitions, ?_⟩
  -- that there is a text is computed, what it is like is not
  have h_ok : (typeScript clashingSchema "body" mutualDefinitions).isOk = true := by
    decide +kernel
  cases h_text : typeScript clashingSchema "body" mutualDefinitions with
  | error failure =>
    rw [h_text] at h_ok
    cases h_ok
  | ok text =>
    obtain ⟨compilation, h_compile, -, h_exported, -, -, h_nodup, -⟩ :=
      claims_declared_once mutualDefinitions "body" clashingSchema text h_schema h_definitions
        h_text
    exact ⟨text, compilation, rfl, h_compile, h_exported, h_exported ▸ h_nodup⟩

/-- The definition of trees, its reference to itself replaced by a placeholder. -/
def neutralTree : Json :=
  Definitions.neutralize "Tree" (.object [("type", .text "object"),
    ("properties", .object [("children", .object [("type", .text "array"),
      ("items", .object [("$ref", .text "#/definitions/Tree")])])])])

/-- The definition of trees under its name. -/
def treeDefinitions : Definitions := ⟨[("Tree", neutralTree)], ["Tree"]⟩

/-- Whether a compilation writes a titled node with a name. -/
def Compilation.writesTitled (compilation : Compilation) (name : String) : Bool :=
  compilation.writings.any fun writing =>
    match writing.1 with
    | .titled _ _ => writing.2 == name
    | .reference _ => false

/-- Under another name than its own, the definition of trees is compiled with a name for its
    placeholder, which is a titled node, that nothing declares. -/
theorem placeholder_name_not_declared :
    treeDefinitions.get? "Tree" = some neutralTree ∧
      ∃ compilation, compile treeDefinitions "Body" neutralTree = .ok compilation ∧
        ∃ title node, (.titled title node, "Tree") ∈ compilation.writings ∧
          "Tree" ∉ compilation.made.map Declaration.name := by
  refine ⟨rfl, ?_⟩
  -- the run is looked at as a whole, since no run is small enough to be written down here
  have h_computed : (compile treeDefinitions "Body" neutralTree).toOption.any
      (fun compilation => compilation.writesTitled "Tree" &&
        compilation.made.all fun declaration => declaration.name != "Tree") = true := by
    decide +kernel
  cases h_compile : compile treeDefinitions "Body" neutralTree with
  | error malformed =>
    rw [h_compile] at h_computed
    cases h_computed
  | ok compilation =>
    rw [h_compile] at h_computed
    obtain ⟨h_writes, h_made⟩ := Bool.and_eq_true_iff.mp h_computed
    obtain ⟨⟨mention, written⟩, h_mem, h_name⟩ := List.any_eq_true.mp h_writes
    refine ⟨compilation, rfl, ?_⟩
    cases mention with
    | reference target => cases h_name
    | titled title node =>
      obtain rfl := beq_iff_eq.mp h_name
      refine ⟨title, node, h_mem, ?_⟩
      intro h_declared
      obtain ⟨declaration, h_declaration, h_eq⟩ := List.mem_map.mp h_declared
      simpa [h_eq] using List.all_eq_true.mp h_made declaration h_declaration

end OpenApiTs.Schema
