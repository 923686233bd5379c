/-
  OpenApiTs.Proofs.Schema.Aliases

  Scrubbing the text of declarations. The alias of a placeholder is a line of its own, and no other
  line ends as that one does; so the aliases go, and of everything else only the markers behind
  names are taken away.
-/
import OpenApiTs.Proofs.Schema.Scrub
import OpenApiTs.Proofs.Schema.Spelling
import OpenApiTs.Proofs.TypeScript.Marked

namespace OpenApiTs.Schema

open OpenApiTs.Definitions (Unmarked marker solid_marker)
open OpenApiTs.Name (IsWord inIdentifier)
open OpenApiTs.Text (Avoids Bears Borderless FreeOf Solid infix_or_infix_of_append_cons)
open OpenApiTs.Text.Chars (closed closed_cons closed_nil)
open OpenApiTs.TypeScript

variable {line rest front back text : List Char} {lines : List (List Char)} {name : String}
  {declarations declarations' : List (Declaration String)}

/-! ## Lines -/

/-- What is left of a line and the line feed behind it. -/
def keptLine (line : List Char) : List Char :=
  match aliasRest? line with
  | some rest => rest
  | none => line ++ ['\n']

/-- Lines before other lines are kept or cut one by one. -/
theorem withoutAliases_append {others : List (List Char)} (h_others : others ≠ []) :
    withoutAliases (lines ++ others) = lines.flatMap keptLine ++ withoutAliases others := by
  induction lines with
  | nil => rfl
  | cons line lines ih =>
    -- the line is not the last, so it is closed by a line feed
    obtain ⟨next, more, h_next⟩ :=
      List.exists_cons_of_ne_nil (List.append_ne_nil_of_right_ne_nil lines h_others)
    rw [List.cons_append, h_next, withoutAliases, ← h_next, ih, List.flatMap_cons,
      List.append_assoc]
    rfl

/-- Closed lines are looked at one by one. -/
theorem dealias_closed_append (h_lines : ∀ line ∈ lines, '\n' ∉ line) (rest : List Char) :
    dealias (closed lines ++ rest) = lines.flatMap keptLine ++ dealias rest := by
  rw [dealias, dealias, Text.Chars.pieces_eq_splitOn, Text.Chars.pieces_eq_splitOn,
    Text.Chars.splitOn_closed_append h_lines,
    withoutAliases_append (List.splitOn_ne_nil '\n' rest)]

/-- A text that ends its line is looked at apart from what follows. -/
theorem dealias_append_line (front back : List Char) :
    dealias (front ++ '\n' :: back) = dealias (front ++ ['\n']) ++ dealias back := by
  have h_lines : ∀ line ∈ front.splitOn '\n', '\n' ∉ line :=
    fun line h_line => Text.Chars.not_mem_of_mem_splitOn h_line
  have h_front : front ++ ['\n'] = closed (front.splitOn '\n') := by
    rw [← Text.Chars.intercalate_append_line (List.splitOn_ne_nil '\n' front),
      List.intercalate_splitOn]
  have h_alone := dealias_closed_append h_lines []
  have h_whole := dealias_closed_append h_lines back
  rw [List.append_nil, ← h_front] at h_alone
  rw [← h_front, List.append_assoc, List.singleton_append] at h_whole
  rw [h_whole, h_alone]
  simp [dealias, Text.Chars.pieces, withoutAliases]

/-! ## Aliases of placeholders -/

/-- The alias that is declared for the placeholder of a name. -/
def aliasOf (name : String) : Declaration String := ⟨name ++ marker, none, .alias, .any⟩

/-- The alias of a placeholder ends in the marker and the type of anything. -/
theorem aliasClosing_eq : aliasClosing = marker.toList ++ " = any".toList := by
  rw [aliasClosing, String.toList_append]

/-- How the alias of a placeholder is written. -/
theorem render_aliasOf (name : String) : (aliasOf name).render.toList =
    aliasOpening ++ name.toList ++ aliasClosing ++ ['\n'] := by
  have h_any : " = any".toList = " = ".toList ++ "any".toList := by decide
  -- an alias is written like any declaration: no comment, the head, the type and a line feed
  have h_type : (TypeExpr.any : TypeExpr String).render = "any" := by
    rw [TypeExpr.any, TypeExpr.render]
  have h_render : (aliasOf name).render =
      "" ++ ("export type " ++ (name ++ marker) ++ " = ") ++ TypeExpr.any.render ++ "\n" := rfl
  rw [h_render, h_type, aliasClosing_eq, h_any, String.toList_append, String.toList_append,
    String.toList_append, String.toList_append, String.toList_append, String.toList_append]
  simp only [List.append_assoc]
  rfl

/-- Nothing stands before the declaration of an alias that begins its line. -/
theorem beforeOpening?_append (h_rest : rest ≠ []) :
    beforeOpening? (aliasOpening ++ rest) = some [] := by
  obtain ⟨c, others, rfl⟩ := List.exists_cons_of_ne_nil h_rest
  have h_after : Text.Chars.after? aliasOpening (aliasOpening ++ c :: others) = some (c :: others) :=
    Text.Chars.after?_eq_some_iff.mpr rfl
  have h_first : aliasOpening ++ c :: others = 'e' :: ("xport type ".toList ++ c :: others) := rfl
  rw [h_first] at h_after ⊢
  rw [beforeOpening?, h_after]

/-- Nothing is left of the alias of a placeholder. -/
theorem dealias_aliasOf (h_name : IsWord name) : dealias (aliasOf name).render.toList = [] := by
  have h_line : '\n' ∉ aliasOpening ++ name.toList ++ aliasClosing := by
    have h_inside := h_name.not_mem (c := '\n') (by decide)
    have h_opening : '\n' ∉ aliasOpening := by decide
    have h_closing : '\n' ∉ aliasClosing := by decide
    simp [h_inside, h_opening, h_closing]
  -- the line is cut where the alias begins, and that is at its front
  have h_rest : aliasRest? (aliasOpening ++ name.toList ++ aliasClosing) = some [] := by
    rw [aliasRest?, Text.Chars.before?_eq_some_iff.mpr rfl, Option.bind_some,
      beforeOpening?_append h_name.ne_nil]
  have h_lines : ∀ line ∈ [aliasOpening ++ name.toList ++ aliasClosing], '\n' ∉ line :=
    fun line h_mem => List.mem_singleton.mp h_mem ▸ h_line
  have h_kept := dealias_closed_append h_lines []
  rw [closed_cons, closed_nil, List.append_nil, List.flatMap_singleton, keptLine, h_rest] at h_kept
  rw [render_aliasOf, h_kept]
  rfl

/-! ## Other declarations -/

/-- The end of an alias has the form of a needle that no punctuation can hide or make. -/
theorem solid_aliasClosing : Solid aliasClosing where
  head := by decide
  last := ⟨'y', by decide, by decide⟩
  solid := by decide

/-- What has no marker ends no alias. -/
theorem avoids_closing_of_unmarked {text : String} (h_text : Unmarked text) :
    FreeOf aliasClosing text :=
  h_text.of_part ⟨[], " = any".toList, by rw [aliasClosing_eq, List.nil_append]⟩

theorem avoids_closing_of_isWord (h_name : IsWord name) : FreeOf aliasClosing name :=
  Avoids.of_not_mem (c := ' ') (by decide) (h_name.not_mem (by decide))

/-- The name of a declaration without the marker ends before the type, so that no alias of a
    placeholder ends behind it. -/
theorem avoids_closing_render {declaration : Declaration String} (h_name : Unmarked declaration.name)
    (h_spelled : declaration.Spelled Unmarked IsWord) : FreeOf aliasClosing declaration.render := by
  refine freeOf_declaration solid_aliasClosing
    (fun words h_words => avoids_closing_of_unmarked (h_spelled.description words h_words))
    (freeOf_render solid_aliasClosing declaration.type
      (h_spelled.type.mono (fun _ => avoids_closing_of_unmarked) fun _ => avoids_closing_of_isWord))
    fun back h_back h_inside => ?_
  rw [aliasClosing_eq] at h_inside
  rcases infix_or_infix_of_append_cons (by decide) h_inside with h_front | h_behind
  · exact h_name h_front
  · exact h_back (aliasClosing_eq ▸ h_behind)

/-! ## Declarations one after the other -/

/-- Whether a name has no marker. -/
def isUnmarked (name : String) : Bool := !Text.contains marker name

theorem isUnmarked_iff : isUnmarked name = true ↔ Unmarked name := by
  rw [isUnmarked, Bool.not_eq_true', Definitions.unmarked_iff]

/-- The name of a placeholder is marked. -/
theorem isUnmarked_append_marker (name : String) : isUnmarked (name ++ marker) = false := by
  rw [isUnmarked, Text.contains_append_right name (Text.contains_self marker), Bool.not_true]

/-- What is declared where placeholders are not known: the alias of one, or something under a name
    without the marker that is spelled without it but for names. -/
inductive Separable : Declaration String → Prop where
  | placeholder {name : String} (h_word : IsWord name) : Separable (aliasOf name)
  | plain {declaration : Declaration String} (h_name : Unmarked declaration.name)
      (h_spelled : declaration.Spelled Unmarked IsWord) : Separable declaration

/-- The declarations that are no aliases of placeholders. -/
def withoutPlaceholders (declarations : List (Declaration String)) : List (Declaration String) :=
  declarations.filter fun declaration => isUnmarked declaration.name

theorem withoutPlaceholders_aliasOf (name : String) (declarations : List (Declaration String)) :
    withoutPlaceholders (aliasOf name :: declarations) = withoutPlaceholders declarations :=
  List.filter_cons_of_neg (by
    rw [Bool.not_eq_true]
    exact isUnmarked_append_marker name)

theorem withoutPlaceholders_plain {declaration : Declaration String}
    (h_name : Unmarked declaration.name) (declarations : List (Declaration String)) :
    withoutPlaceholders (declaration :: declarations) =
      declaration :: withoutPlaceholders declarations :=
  List.filter_cons_of_pos (isUnmarked_iff.mpr h_name)

theorem withoutPlaceholders_append (declarations declarations' : List (Declaration String)) :
    withoutPlaceholders (declarations ++ declarations') =
      withoutPlaceholders declarations ++ withoutPlaceholders declarations' :=
  List.filter_append _ _

theorem dealias_renders (h_each : ∀ declaration ∈ declarations, Separable declaration) :
    dealias (String.join (declarations.map Declaration.render)).toList =
      (String.join ((withoutPlaceholders declarations).map Declaration.render)).toList := by
  induction declarations with
  | nil => rfl
  | cons declaration declarations ih =>
    rw [List.forall_mem_cons] at h_each
    obtain ⟨front, h_front⟩ : ∃ front, declaration.render.toList = front ++ ['\n'] := by
      rw [Declaration.render, String.toList_append]
      exact ⟨_, rfl⟩
    -- a declaration ends its line
    rw [List.map_cons, String.join_cons, String.toList_append, h_front, List.append_assoc,
      List.singleton_append, dealias_append_line, ← h_front, ih h_each.2]
    -- the alias of a placeholder goes as a whole, and any other declaration has no line like it
    cases h_each.1 with
    | @placeholder name h_word =>
      rw [dealias_aliasOf h_word, List.nil_append, withoutPlaceholders_aliasOf]
    | plain h_name h_spelled =>
      rw [dealias_of_avoids (avoids_closing_render h_name h_spelled),
        withoutPlaceholders_plain h_name, List.map_cons, String.join_cons, String.toList_append]

theorem borderless_marker : Borderless marker.toList := by decide

theorem inIdentifier_of_mem_marker : ∀ c ∈ marker.toList, inIdentifier c = true := by decide

/-- Scrubbing leaves the declarations that are no aliases of placeholders, without the markers behind
    their names. -/
theorem scrub_renders (h_each : ∀ declaration ∈ declarations, Separable declaration)
    (h_marks : List.Forall₂ (Declaration.BearsMarks marker.toList)
      (withoutPlaceholders declarations) declarations')
    (h_unmarked : Unmarked (String.join (declarations'.map Declaration.render))) :
    scrub (String.join (declarations.map Declaration.render)) =
      String.join (declarations'.map Declaration.render) := by
  have h_bears := bears_renders inIdentifier_of_mem_marker h_marks
  rw [scrub_eq, dealias_renders h_each, h_bears.replaceAll_eq borderless_marker h_unmarked,
    String.ofList_toList]

end OpenApiTs.Schema
