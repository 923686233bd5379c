/-
  OpenApiTs.Proofs.Schema.Nested

  A schema without a title is the same type on its own and inside another schema. On its own it may
  be declared as an interface, and is then looked at as an object straight away; the keywords that
  keep it from being one are those that count before the type inside another schema.

  Both ways choose names from the claims that there are, so they are compared from one roster: they
  leave the same roster, and a fault is reported under the same name.
-/
import OpenApiTs.Proofs.Schema.Rendered

namespace OpenApiTs.Schema

open OpenApiTs.TypeScript

variable {definitions : Definitions} {root name : String} {schema : Json} {roster : Roster}

/-! ## The two ways -/

/-- The type that a schema is written as inside the declaration of a name, and the claims after
    it. -/
def typeIn (definitions : Definitions) (root context : String) (schema : Json) (roster : Roster) :
    Except Malformed (TypeExpr String × Roster) :=
  match shape schema with
  | .error fault => .error ⟨context, fault⟩
  | .ok type => .ok (type.rename (Roster.choose definitions root) roster)

/-- The declaration of a schema under a name, and the claims after it. -/
def declareIn (definitions : Definitions) (root name : String) (schema : Json) (roster : Roster) :
    Except Malformed (Declaration String × Roster) :=
  match declare name schema with
  | .error fault => .error ⟨name, fault⟩
  | .ok declaration => .ok (nameIn definitions root declaration roster)

/-- Each claim without a declaration is declared with the claims that are there by then. -/
theorem declareFrom_succ (definitions : Definitions) (root : String) (fuel : Nat)
    (compilation : Compilation) :
    declareFrom definitions root (fuel + 1) compilation =
      match compilation.roster[compilation.made.length]? with
      | none => .ok compilation
      | some (name, schema) =>
        declareIn definitions root name schema compilation.roster >>= fun made =>
          declareFrom definitions root fuel ⟨made.2, compilation.made ++ [made.1]⟩ := by
  rw [declareFrom]
  cases compilation.roster[compilation.made.length]? with
  | none => rfl
  | some entry =>
    -- a round is the declaration of the next claim, or its failure
    obtain ⟨name, schema⟩ := entry
    simp only [declareIn]
    cases declare name schema <;> rfl

/-- Declaring a claim only adds claims behind it. -/
theorem prefix_declareIn {made : Declaration String × Roster}
    (h_made : declareIn definitions root name schema roster = .ok made) : roster <+: made.2 := by
  unfold declareIn at h_made
  split at h_made
  · cases h_made
  · next declaration _ =>
    cases h_made
    exact prefix_nameIn definitions root declaration roster

/-- A failure names the claim whose declaration fails. -/
theorem name_of_declareIn_error {malformed : Malformed}
    (h_error : declareIn definitions root name schema roster = .error malformed) :
    malformed.name = name := by
  unfold declareIn at h_error
  split at h_error <;> cases h_error
  rfl

/-! ## Their types -/

/-- Without a title a schema is declared with its shape inside another one. -/
theorem declare_eq_shape (name : String) (h_untitled : schema.wordsAt? "title" = none) :
    declare name schema =
      (shape schema).map fun type => ⟨name, description? schema, formOf schema, type⟩ := by
  rw [declare_eq, outline_eq_bodyShape, shape_of_untitled h_untitled]

/-- A schema without a title is declared with the type that it has inside another one. -/
theorem declareIn_eq_typeIn (definitions : Definitions) (root name : String) (roster : Roster)
    (h_untitled : schema.wordsAt? "title" = none) :
    declareIn definitions root name schema roster =
      (typeIn definitions root name schema roster).map fun typed =>
        (⟨name, description? schema, formOf schema, typed.1⟩, typed.2) := by
  rw [declareIn, typeIn, declare_eq_shape name h_untitled]
  cases shape schema <;> rfl

/-- Without a title, a schema can be declared under a name exactly when it can be written inside the
    declaration of that name, and then what stands behind the head is the type that is written
    there; the claims that this adds are the same in the same order, and a fault is reported under
    that name both times. So goes each round of a compilation whose next claim is for the schema. -/
theorem declared_as_nested (definitions : Definitions) (root name : String) (roster : Roster)
    (h_untitled : schema.wordsAt? "title" = none) :
    (declareIn definitions root name schema roster).map
        (fun made => (made.1.render, made.2)) =
      (typeIn definitions root name schema roster).map (fun typed =>
        (docCommentOf (description? schema) ++
          Declaration.head (formOf schema) name ++ typed.1.render ++ "\n", typed.2)) ∧
    (∀ made, declareIn definitions root name schema roster = .ok made → roster <+: made.2) ∧
    (∀ malformed, declareIn definitions root name schema roster = .error malformed →
      malformed.name = name) ∧
    ∀ made fuel, roster[made.length]? = some (name, schema) →
      declareFrom definitions root (fuel + 1) ⟨roster, made⟩ =
        typeIn definitions root name schema roster >>= fun typed =>
          declareFrom definitions root fuel ⟨typed.2,
            made ++ [⟨name, description? schema, formOf schema, typed.1⟩]⟩ := by
  have h_same := declareIn_eq_typeIn definitions root name roster h_untitled
  refine ⟨?_, fun made => prefix_declareIn, fun malformed => name_of_declareIn_error, ?_⟩
  · rw [h_same]
    cases typeIn definitions root name schema roster <;> rfl
  · -- the next claim is the schema, so the round declares it
    intro made fuel h_next
    rw [declareFrom_succ]
    simp only [h_next, h_same]
    cases typeIn definitions root name schema roster <;> rfl

/-- A schema with a titled property and a reference. -/
def parentSchema : Json :=
  .object [("properties", .object [("child", .object [("title", .text "child node"),
    ("type", .text "string")]), ("pet", .object [("$ref", .text "#/definitions/pet")])])]

/-- The only claim before it is declared. -/
def parentClaims : Roster := [("Parent", parentSchema)]

/-- The definition that it refers to. -/
def parentDefinitions : Definitions := ⟨[("pet", .object [("type", .text "string")])], []⟩

/-- The schema is declared as an interface, and both ways claim the names of its properties. -/
theorem parentSchema_declared_as_nested :
    parentSchema.wordsAt? "title" = none ∧
      (typeIn parentDefinitions "Parent" "Parent" parentSchema parentClaims).toOption.map
          (fun typed => (typed.1.render, Entries.names typed.2)) =
        some ("\x7b\nchild?: ChildNode\npet?: Pet\n[k: string]: any\n\x7d",
          ["Parent", "ChildNode", "Pet"]) ∧
      (declareIn parentDefinitions "Parent" "Parent" parentSchema parentClaims).map
          (fun made => (made.1.render, made.2)) =
        (typeIn parentDefinitions "Parent" "Parent" parentSchema parentClaims).map
          (fun typed => ("export interface Parent " ++ typed.1.render ++ "\n", typed.2)) ∧
      declareFrom parentDefinitions "Parent" 1 ⟨parentClaims, []⟩ =
        typeIn parentDefinitions "Parent" "Parent" parentSchema parentClaims >>=
          fun typed => declareFrom parentDefinitions "Parent" 0
            ⟨typed.2, [⟨"Parent", none, .interface, typed.1⟩]⟩ := by
  have h_untitled : parentSchema.wordsAt? "title" = none := rfl
  obtain ⟨h_text, -, -, h_round⟩ :=
    declared_as_nested parentDefinitions "Parent" "Parent" parentClaims h_untitled
  exact ⟨h_untitled, by decide +kernel, h_text, h_round [] 0 rfl⟩

end OpenApiTs.Schema
