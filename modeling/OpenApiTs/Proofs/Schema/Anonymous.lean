/-
  OpenApiTs.Proofs.Schema.Anonymous

  Definitions without titles of their own. Where nothing but placeholders is titled and nothing
  refers to the root, the name of a mention can be read off the mention: what was claimed before
  decides what is declared next, never what is written. A definition then has the same declaration
  in every compilation that gets to it.
-/
import OpenApiTs.Proofs.Schema.Contention
import OpenApiTs.Proofs.Schema.Declared

namespace OpenApiTs.Schema

open OpenApiTs.Schema.Roster (choose placeholderOf?)
open OpenApiTs.TypeScript

variable {definitions : Definitions} {name name' written : String} {schema schema' own : Json}
  {mention : Mention} {compilation : Compilation} {declaration : Declaration String}

/-- Whether no node of the definitions is titled but for recognised placeholders, and none refers to
    the root. -/
structure Anonymous (definitions : Definitions) : Prop where
  titles : ∀ node ∈ (whole definitions).nodes, ∀ title ∈ node.wordsAt? "title",
    (placeholderOf? definitions title).isSome
  rootless : ∀ node ∈ (whole definitions).nodes, node.textAt? "$ref" ≠ some "#"

namespace Anonymous

/-- A mention has one name in every compilation, whatever was claimed before. -/
theorem choose_eq (h_anonymous : Anonymous definitions)
    (h_from : mention.From (whole definitions)) (root : String) (roster : Roster) :
    (choose definitions root mention roster).1 = ownName definitions mention := by
  cases mention with
  | titled title node =>
    -- every title is that of a placeholder, which goes by the name of its definition
    obtain ⟨key, h_key⟩ := Option.isSome_iff_exists.mp
      (h_anonymous.titles node h_from.1 title h_from.2)
    simp [choose, ownName, h_key]
  | reference target =>
    -- a reference to the root would depend on what is compiled, but there is none
    have h_root : target ≠ "#" := by
      rintro rfl
      obtain ⟨node, h_node, h_target⟩ := h_from
      exact h_anonymous.rootless node h_node h_target
    simp only [choose, Roster.nameReference, if_neg h_root]
    cases Roster.definition? definitions target with
    | some definition => rfl
    | none => rfl

/-- The names in the declaration of what stands in the definitions do not depend on the root and
    the roster. -/
theorem nameIn_eq (h_anonymous : Anonymous definitions)
    (h_inside : own.nodes ⊆ (whole definitions).nodes) {plain : Declaration Mention}
    (h_declare : declare name own = .ok plain) (root : String) (roster : Roster) :
    (nameIn definitions root plain roster).1 = settle definitions plain := by
  have h_steady : TypeExpr.Steady (choose definitions root) (ownName definitions)
      (fun _ => True) plain.type.mentions := by
    intro mention h_mention roster _
    have h_from := ((declare_draws h_declare).mentions mention h_mention).mono h_inside
    exact ⟨h_anonymous.choose_eq h_from root roster, trivial⟩
  have h_type := (TypeExpr.rename_of_steady plain.type roster h_steady trivial).1
  exact congrArg (Declaration.mk plain.name plain.description plain.form) h_type

end Anonymous

/-! ## Declarations -/

/-- What a compilation declares of the definitions has the names that its mentions ask for. -/
theorem Anonymous.declaration_eq (h_anonymous : Anonymous definitions)
    (h_compile : compile definitions name schema = .ok compilation)
    (h_claim : ((written, own), declaration) ∈ compilation.roster.zip compilation.made)
    (h_inside : own.nodes ⊆ (whole definitions).nodes) :
    ∃ plain, declare written own = .ok plain ∧ declaration = settle definitions plain := by
  obtain ⟨plain, h_declared⟩ := (sound_compile h_compile).declared written own declaration h_claim
  obtain ⟨before, rfl, -⟩ := h_declared.named
  exact ⟨plain, h_declared.declared,
    h_anonymous.nameIn_eq h_inside h_declared.declared (Name.identifier name) before⟩

/-- The text of a definition's declaration, its comment included, is the same in the outputs of any
    two compilations that get to it, whatever these were asked for. -/
theorem render_definition_eq (h_anonymous : Anonymous definitions) {text text' : String}
    (h_text : typeScript schema name definitions = .ok text)
    (h_text' : typeScript schema' name' definitions = .ok text') :
    ∃ first second, compile definitions name schema = .ok first ∧
      compile definitions name' schema' = .ok second ∧
      text = first.render ∧ text' = second.render ∧
      ∀ key definition declaration declaration', definitions.get? key = some definition →
        ((Name.identifier key, definition), declaration) ∈ first.roster.zip first.made →
        ((Name.identifier key, definition), declaration') ∈ second.roster.zip second.made →
          declaration.render = declaration'.render := by
  obtain ⟨first, h_first, rfl⟩ := typeScript_eq_ok_iff.mp h_text
  obtain ⟨second, h_second, rfl⟩ := typeScript_eq_ok_iff.mp h_text'
  refine ⟨first, second, h_first, h_second, rfl, rfl, ?_⟩
  intro key definition declaration declaration' h_key h_claim h_claim'
  have h_inside : definition.nodes ⊆ (whole definitions).nodes :=
    Json.nodes_subset_of_mem_items (List.mem_map.mpr ⟨_, Entries.mem_of_lookup h_key, rfl⟩)
  obtain ⟨plain, h_plain, rfl⟩ := h_anonymous.declaration_eq h_first h_claim h_inside
  obtain ⟨plain', h_plain', rfl⟩ := h_anonymous.declaration_eq h_second h_claim' h_inside
  -- one name and one schema make one declaration
  rw [Except.ok.inj (h_plain.symm.trans h_plain')]

/-- A definition of trees with a placeholder for its reference to itself. -/
def oak : Json :=
  .object [("description", .text "grows"), ("properties", .object
    [("branches", .object [("type", .text "array"), ("items", .object
      [("type", .text "any"), ("title", .text "oak_____OpenapiGenRequestAnyToReplace")])]),
     ("wood", .object [("$ref", .text "#/definitions/wood")])])]

/-- A definition of woods, which refers to that of trees. -/
def wood : Json :=
  .object [("type", .text "array"), ("items", .object [("$ref", .text "#/definitions/oak")])]

/-- Definitions that refer to each other and, one of them, to itself. -/
def woodDefinitions : Definitions := ⟨[("oak", oak), ("wood", wood)], ["oak"]⟩

/-- A node that is titled like the definition of woods. -/
def titledNode : Json := .object [("title", .text "Wood"), ("type", .text "null")]

/-- A schema with that node, and with a reference to the definition of trees behind it. -/
def titledWood : Json := .object [("anyOf", .array [titledNode, wood])]

/-- The definition of trees is the root of one compilation. The other gets to it by a reference,
    when the name that it mentions woods by belongs to a titled node already. -/
theorem render_oak_eq :
    Anonymous woodDefinitions ∧ ∃ first second declaration declaration',
      compile woodDefinitions "oak" oak = .ok first ∧
      compile woodDefinitions "body" titledWood = .ok second ∧
      (("Oak", oak), declaration) ∈ first.roster.zip first.made ∧
      (("Oak", oak), declaration') ∈ second.roster.zip second.made ∧
      declaration.render = declaration'.render := by
  -- both compilations are run, and each has a claim for the definition
  have h_anonymous : Anonymous woodDefinitions := ⟨by decide +kernel, by decide +kernel⟩
  obtain ⟨declaration, other, h_first⟩ : ∃ declaration other, compile woodDefinitions "oak" oak =
      .ok ⟨[("Oak", oak), ("Wood", wood)], [declaration, other]⟩ := by
    refine ⟨?_, ?_, ?_⟩
    rotate_left 2
    with_unfolding_all rfl
  obtain ⟨root, hoisted, declaration', h_second⟩ : ∃ root hoisted declaration',
      compile woodDefinitions "body" titledWood =
        .ok ⟨[("Body", titledWood), ("Wood", titledNode), ("Oak", oak)],
          [root, hoisted, declaration']⟩ := by
    refine ⟨?_, ?_, ?_, ?_⟩
    rotate_left 3
    with_unfolding_all rfl
  have h_key : Name.identifier "oak" = "Oak" := by decide +kernel
  obtain ⟨first, second, h_eq, h_eq', -, -, h_same⟩ := render_definition_eq h_anonymous
    (typeScript_eq_ok_iff.mpr ⟨_, h_first, rfl⟩) (typeScript_eq_ok_iff.mpr ⟨_, h_second, rfl⟩)
  rw [h_first] at h_eq
  rw [h_second] at h_eq'
  obtain rfl := Except.ok.inj h_eq
  obtain rfl := Except.ok.inj h_eq'
  refine ⟨h_anonymous, _, _, declaration, declaration', h_first, h_second, by simp, by simp, ?_⟩
  exact h_same "oak" oak declaration declaration' rfl (by simp [h_key]) (by simp [h_key])

end OpenApiTs.Schema
