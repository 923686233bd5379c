/-
  OpenApiTs.Proofs.TypeScript.Congruent

  Relations between texts that what types are written with respects: texts put one after the other,
  brackets and braces. Where the names of two types are related by such a relation place by place,
  so are their texts, and so are the texts of declarations.

  The inductions follow the constructors of type expressions.
-/
import OpenApiTs.Proofs.TypeScript.Matching
import OpenApiTs.TypeScript.Declaration

namespace OpenApiTs.TypeScript

open TypeExpr (Matches MatchesAll MatchesMembers)

/-- Whether two texts show the same to what sets brackets and braces. -/
structure SameSigns (text text' : String) : Prop where
  empty_iff : text = "" ↔ text' = ""
  union : Text.contains " | " text = Text.contains " | " text'
  intersection : Text.contains " & " text = Text.contains " & " text'
  opening : Text.opensWith "(" text = Text.opensWith "(" text'
  closing : Text.closesWith ")" text = Text.closesWith ")" text'
  brace : Text.opensWith "\x7b" text = Text.opensWith "\x7b" text'

/-- Whether a relation between texts is respected by all that types are written with. -/
structure Congruent (T : String → String → Prop) : Prop where
  refl : ∀ text, T text text
  append : ∀ {front front' back back' : String}, T front front' → T back back' →
    T (front ++ back) (front' ++ back')
  signs : ∀ {text text' : String}, T text text' → SameSigns text text'

variable {T : String → String → Prop} {text text' : String} {texts texts' : List String}

namespace Congruent

/-! ## Pieces -/

/-- Related texts need brackets alike. -/
theorem parenthesize (h_relation : Congruent T) (h_text : T text text') :
    T (TypeScript.parenthesize text) (TypeScript.parenthesize text') := by
  have h_bracketed : T ("(" ++ text ++ ")") ("(" ++ text' ++ ")") :=
    h_relation.append (h_relation.append (h_relation.refl "(") h_text) (h_relation.refl ")")
  have h_signs := h_relation.signs h_text
  simp only [TypeScript.parenthesize, h_signs.union, h_signs.intersection, h_signs.opening,
    h_signs.closing, h_signs.brace]
  split
  · exact h_bracketed
  · exact h_text

/-- Related texts stay related when they are joined. -/
theorem intercalate (h_relation : Congruent T) (sep : String)
    (h_texts : List.Forall₂ T texts texts') : T (sep.intercalate texts) (sep.intercalate texts') := by
  induction h_texts with
  | nil => exact h_relation.refl _
  | cons h_first h_others ih =>
    -- no separator stands behind the last text
    cases h_others with
    | nil =>
      rw [String.intercalate_singleton, String.intercalate_singleton]
      exact h_first
    | cons h_second h_more =>
      rw [String.intercalate_cons_cons, String.intercalate_cons_cons]
      exact h_relation.append (h_relation.append h_first (h_relation.refl sep)) ih

/-- As `intercalate`, with brackets where they are needed. Both sides need them or neither. -/
theorem joinParts (h_relation : Congruent T) (sep : String)
    (h_texts : List.Forall₂ T texts texts') :
    T (TypeExpr.joinParts sep texts) (TypeExpr.joinParts sep texts') := by
  have h_brackets : List.Forall₂ T (texts.map TypeScript.parenthesize)
      (texts'.map TypeScript.parenthesize) := by
    rw [List.forall₂_map_left_iff, List.forall₂_map_right_iff]
    exact h_texts.imp fun _ _ => h_relation.parenthesize
  cases h_texts with
  | nil => exact h_relation.refl "any"
  | cons h_first h_others => exact h_relation.intercalate sep h_brackets

/-- Braces go around related texts: on both sides nothing is inside, or something. -/
theorem braces (h_relation : Congruent T) (h_text : T text text') :
    T (TypeScript.braces text) (TypeScript.braces text') := by
  simp only [TypeScript.braces, (h_relation.signs h_text).empty_iff]
  split
  · exact h_relation.refl _
  · exact h_relation.append (h_relation.append (h_relation.refl _) h_text) (h_relation.refl _)

/-! ## Types -/

mutual

/-- The texts of types are related as their names are. -/
theorem render (h_relation : Congruent T) : ∀ type type' : TypeExpr String,
    Matches T type type' → T type.render type'.render
  | .word text, .word text', h_match => by
    obtain rfl : text = text' := h_match
    exact h_relation.refl _
  | .named name, .named name', h_match => by
    rw [TypeExpr.render, TypeExpr.render]
    exact h_match
  | .intersection parts, .intersection parts', h_match => by
    rw [TypeExpr.render, TypeExpr.render]
    exact h_relation.joinParts " & " (renderAll h_relation parts parts' h_match)
  | .union parts, .union parts', h_match => by
    rw [TypeExpr.render, TypeExpr.render]
    exact h_relation.joinParts " | " (renderAll h_relation parts parts' h_match)
  | .alternatives parts, .alternatives parts', h_match => by
    rw [TypeExpr.render, TypeExpr.render]
    exact h_relation.intercalate " | " (renderAll h_relation parts parts' h_match)
  | .tuple parts, .tuple parts', h_match => by
    rw [TypeExpr.render, TypeExpr.render]
    -- brackets and commas are the same on both sides
    have h_parts := h_relation.intercalate ", " (renderAll h_relation parts parts' h_match)
    exact h_relation.append (h_relation.append (h_relation.refl _) h_parts) (h_relation.refl _)
  | .array element, .array element', h_match => by
    rw [TypeExpr.render, TypeExpr.render]
    exact h_relation.append (h_relation.parenthesize (render h_relation element element' h_match))
      (h_relation.refl _)
  | .record members, .record members', h_match => by
    rw [TypeExpr.render, TypeExpr.render]
    exact h_relation.braces (renderMembers h_relation members members' h_match)

/-- Parts that match are written as related texts. -/
theorem renderAll (h_relation : Congruent T) : ∀ parts parts' : List (TypeExpr String),
    MatchesAll T parts parts' →
      List.Forall₂ T (TypeExpr.renderAll parts) (TypeExpr.renderAll parts')
  | [], [], _ => .nil
  | part :: parts, part' :: parts', h_match =>
    .cons (render h_relation part part' h_match.1) (renderAll h_relation parts parts' h_match.2)

/-- Members that match have the same heads, so they are written as related texts. -/
theorem renderMembers (h_relation : Congruent T) :
    ∀ members members' : List (MemberHead × TypeExpr String), MatchesMembers T members members' →
      T (TypeExpr.renderMembers members) (TypeExpr.renderMembers members')
  | [], [], _ => h_relation.refl _
  | (head, type) :: members, (head', type') :: members', h_match => by
    obtain rfl : head = head' := h_match.1
    have h_type := render h_relation type type' h_match.2.1
    have h_others := renderMembers h_relation members members' h_match.2.2
    rw [TypeExpr.renderMembers, TypeExpr.renderMembers]
    exact h_relation.append (h_relation.append (h_relation.append (h_relation.refl _) h_type)
      (h_relation.refl _)) h_others

end

end Congruent

/-! ## Declarations -/

/-- Whether two declarations are the same but for their own names and the names in their types, which
    a relation relates. -/
structure Declaration.Alike (T : String → String → Prop) (declaration declaration' :
    Declaration String) : Prop where
  name : T declaration.name declaration'.name
  description : declaration.description = declaration'.description
  form : declaration.form = declaration'.form
  type : Matches T declaration.type declaration'.type

/-- Declarations that are alike are written as related texts. -/
theorem Declaration.Alike.render (h_relation : Congruent T)
    {declaration declaration' : Declaration String} (h_alike : declaration.Alike T declaration') :
    T declaration.render declaration'.render := by
  have h_head : T (head declaration.form declaration.name)
      (head declaration'.form declaration'.name) := by
    rw [h_alike.form]
    -- in either form the name stands between fixed words
    cases declaration'.form <;>
      exact h_relation.append (h_relation.append (h_relation.refl _) h_alike.name)
        (h_relation.refl _)
  have h_type := h_relation.render _ _ h_alike.type
  rw [Declaration.render, Declaration.render, h_alike.description]
  exact h_relation.append (h_relation.append (h_relation.append (h_relation.refl _) h_head) h_type)
    (h_relation.refl _)

/-- So are lists of them. -/
theorem Congruent.renders (h_relation : Congruent T)
    {declarations declarations' : List (Declaration String)}
    (h_each : List.Forall₂ (Declaration.Alike T) declarations declarations') :
    T (String.join (declarations.map Declaration.render))
      (String.join (declarations'.map Declaration.render)) := by
  induction h_each with
  | nil => exact h_relation.refl _
  | cons h_first _ ih =>
    rw [List.map_cons, List.map_cons, String.join_cons, String.join_cons]
    exact h_relation.append (h_first.render h_relation) ih

end OpenApiTs.TypeScript
