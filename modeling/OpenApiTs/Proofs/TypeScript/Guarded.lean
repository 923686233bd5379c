/-
  OpenApiTs.Proofs.TypeScript.Guarded

  The first lines of types. An equals sign can only come from a literal, and a literal is closed by
  a quotation mark; so behind each equals sign on the first line of a type there is one, and no type
  ends its first line as the alias of a placeholder does.
-/
import OpenApiTs.Proofs.Json.Print
import OpenApiTs.Proofs.Name.Identifier
import OpenApiTs.Proofs.Text.Replace
import OpenApiTs.Proofs.TypeScript.Expr
import OpenApiTs.TypeScript.Declaration

namespace OpenApiTs.TypeScript

variable {front back text : List Char}

/-! ## Guarded texts -/

/-- Whether on the first line of a text there is a quotation mark behind each equals sign. -/
def Guarded (text : List Char) : Prop :=
  ∀ front back, text = front ++ '=' :: back → '\n' ∉ front →
    ∃ between beyond, back = between ++ '"' :: beyond ∧ '\n' ∉ between

namespace Guarded

theorem of_not_mem (h_text : '=' ∉ text) : Guarded text := by
  rintro front back rfl
  exact absurd (List.mem_append_right front List.mem_cons_self) h_text

/-- A text on one line that a quotation mark ends. -/
theorem quoted (h_text : '\n' ∉ text) : Guarded (text ++ ['"']) := by
  intro front back h_split h_front
  rcases List.append_eq_append_iff.mp h_split with ⟨rest, rfl, h_rest⟩ | ⟨rest, rfl, h_rest⟩
  · -- the equals sign would be the quotation mark
    cases rest with
    | nil => cases h_rest
    | cons c rest =>
      have h_none := congrArg List.length h_rest
      simp at h_none
  · cases rest with
    | nil => cases h_rest
    | cons c rest =>
      obtain ⟨rfl, rfl⟩ := List.cons.inj h_rest
      refine ⟨rest, [], rfl, fun h_mem => h_text ?_⟩
      exact List.mem_append_right front (List.mem_cons_of_mem _ h_mem)

/-- Guarded texts may be put together, since the first sign is guarded where it stands. -/
theorem append (h_front : Guarded front) (h_back : Guarded back) : Guarded (front ++ back) := by
  intro lead rest h_split h_lead
  -- the first sign is in the back, or already in the front
  rcases List.append_eq_append_iff.mp h_split with ⟨more, rfl, h_more⟩ | ⟨more, rfl, h_more⟩
  · exact h_back more rest h_more fun h_mem => h_lead (List.mem_append_right front h_mem)
  · cases more with
    | nil => exact h_back [] rest h_more.symm List.not_mem_nil
    | cons c more =>
      obtain ⟨rfl, rfl⟩ := List.cons.inj h_more
      obtain ⟨between, beyond, rfl, h_between⟩ := h_front lead more rfl h_lead
      exact ⟨between, beyond ++ back, by simp, h_between⟩

/-- Guarded texts are joined to guarded ones. -/
theorem intercalate {sep : List Char} {texts : List (List Char)} (h_sep : Guarded sep)
    (h_texts : ∀ text ∈ texts, Guarded text) : Guarded (sep.intercalate texts) := by
  induction texts with
  | nil => exact of_not_mem List.not_mem_nil
  | cons text texts ih =>
    rw [List.forall_mem_cons] at h_texts
    by_cases h_last : texts = []
    · subst h_last
      rw [List.intercalate_singleton]
      exact h_texts.1
    · rw [List.intercalate_cons_of_ne_nil h_last]
      exact (h_texts.1.append h_sep).append (ih h_texts.2)

/-- A text whose first line has no equals sign. -/
theorem of_first (h_front : '=' ∉ front) (back : List Char) : Guarded (front ++ '\n' :: back) := by
  intro lead rest h_split h_lead
  have h_long : lead ++ ['='] <+: front ++ '\n' :: back := by
    rw [h_split]
    simp
  have h_short : lead ++ ['='] <+: front :=
    Text.Chars.prefix_of_prefix_append_cons (by simpa using h_lead) h_long
  exact absurd (h_short.subset (List.mem_append_right lead (List.mem_singleton_self _))) h_front

/-- What ends in an equals sign, a blank and a word does not end a first line. -/
theorem not_suffix {word : List Char} (h_text : Guarded (front ++ '\n' :: back))
    (h_front : '\n' ∉ front) (h_word : '"' ∉ word) : ¬ '=' :: word <:+ front := by
  rintro ⟨lead, rfl⟩
  obtain ⟨between, beyond, h_rest, h_between⟩ := h_text lead (word ++ '\n' :: back) (by simp)
    fun h_mem => h_front (List.mem_append_left _ h_mem)
  have h_long : between ++ ['"'] <+: word ++ '\n' :: back := by
    rw [h_rest]
    simp
  have h_short : between ++ ['"'] <+: word :=
    Text.Chars.prefix_of_prefix_append_cons (by simpa using h_between) h_long
  exact h_word (h_short.subset (List.mem_append_right between (List.mem_singleton_self _)))

end Guarded

/-! ## Words -/

/-- A literal has an equals sign only inside quotation marks. -/
theorem guarded_literal (value : Json) : Guarded (literal value).toList := by
  cases value with
  | null => exact .of_not_mem (by decide)
  | bool value => cases value <;> exact .of_not_mem (by decide)
  | number value =>
    -- numbers are printed without the sign
    refine .of_not_mem fun h_mem => ?_
    have h_numeric := Number.isNumeric_of_mem_print value _ h_mem
    exact absurd h_numeric (by decide)
  | text value =>
    have h_flat := Json.newline_not_mem_quote value
    change Guarded (Json.quote value).toList
    rw [Json.quote, String.toList_ofList] at h_flat ⊢
    exact .quoted fun h_mem => h_flat (List.mem_append_left _ h_mem)
  | array items => exact .of_not_mem (by decide : '=' ∉ "any".toList)
  | object fields => exact .of_not_mem (by decide : '=' ∉ "any".toList)

theorem guarded_of_isWord {name : String} (h_name : Name.IsWord name) : Guarded name.toList :=
  .of_not_mem (h_name.not_mem (by decide))

/-! ## Types -/

/-- Brackets around a guarded text have no equals sign. -/
theorem guarded_parenthesize {text : String} (h_text : Guarded text.toList) :
    Guarded (parenthesize text).toList := by
  unfold parenthesize
  simp only
  split
  · rw [String.toList_append, String.toList_append]
    exact ((Guarded.of_not_mem (by decide)).append h_text).append (.of_not_mem (by decide))
  · exact h_text

theorem guarded_intercalate {sep : String} {texts : List String} (h_sep : '=' ∉ sep.toList)
    (h_texts : ∀ text ∈ texts, Guarded text.toList) : Guarded (sep.intercalate texts).toList := by
  rw [String.toList_intercalate]
  refine .intercalate (.of_not_mem h_sep) fun text h_text => ?_
  obtain ⟨own, h_own, rfl⟩ := List.mem_map.mp h_text
  exact h_texts own h_own

/-- Parts that are joined are guarded when each of them is. -/
theorem guarded_joinParts {sep : String} {texts : List String} (h_sep : '=' ∉ sep.toList)
    (h_texts : ∀ text ∈ texts, Guarded text.toList) :
    Guarded (TypeExpr.joinParts sep texts).toList := by
  unfold TypeExpr.joinParts
  split
  · exact .of_not_mem (by decide)
  · refine guarded_intercalate h_sep fun text h_text => ?_
    obtain ⟨own, h_own, rfl⟩ := List.mem_map.mp h_text
    exact guarded_parenthesize (h_texts own h_own)

/-- A record begins with a brace, which guards all that follows. -/
theorem guarded_braces (members : String) : Guarded (braces members).toList := by
  unfold braces
  split
  · exact .of_not_mem (by decide)
  · rw [String.append_assoc, String.toList_append]
    exact @Guarded.of_first ['\x7b'] (by decide) _

mutual

/-- The text of a type whose words and names are guarded is guarded. -/
theorem guarded_render : ∀ type : TypeExpr String,
    (∀ text ∈ type.words ++ type.mentions, Guarded text.toList) → Guarded type.render.toList
  | .word text, h_each => h_each text (by simp [TypeExpr.words])
  | .named name, h_each => h_each name (by simp [TypeExpr.mentions])
  | .intersection parts, h_each =>
    guarded_joinParts (by decide) (guarded_renderAll parts h_each)
  | .union parts, h_each => guarded_joinParts (by decide) (guarded_renderAll parts h_each)
  | .alternatives parts, h_each =>
    guarded_intercalate (by decide) (guarded_renderAll parts h_each)
  | .tuple parts, h_each => by
    rw [TypeExpr.render, String.toList_append, String.toList_append]
    exact ((Guarded.of_not_mem (by decide)).append
      (guarded_intercalate (by decide) (guarded_renderAll parts h_each))).append
        (.of_not_mem (by decide))
  | .array element, h_each => by
    rw [TypeExpr.render, String.toList_append]
    exact (guarded_parenthesize (guarded_render element h_each)).append (.of_not_mem (by decide))
  | .record members, _ => by
    rw [TypeExpr.render]
    exact guarded_braces _

/-- As `guarded_render`, for the parts of a type. -/
theorem guarded_renderAll : ∀ parts : List (TypeExpr String),
    (∀ text ∈ TypeExpr.wordsAll parts ++ TypeExpr.mentionsAll parts, Guarded text.toList) →
      ∀ text ∈ TypeExpr.renderAll parts, Guarded text.toList
  | [], _ => by simp [TypeExpr.renderAll]
  | part :: parts, h_each => by
    rw [TypeExpr.renderAll, List.forall_mem_cons]
    constructor
    · refine guarded_render part fun text h_text => h_each text ?_
      simp only [TypeExpr.wordsAll, TypeExpr.mentionsAll, List.mem_append] at h_text ⊢
      tauto
    · refine guarded_renderAll parts fun text h_text => h_each text ?_
      simp only [TypeExpr.wordsAll, TypeExpr.mentionsAll, List.mem_append] at h_text ⊢
      tauto

end

end OpenApiTs.TypeScript
