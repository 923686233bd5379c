/-
  OpenApiTs.Proofs.Text.Contains

  Texts inside texts: what occurs in one part of a text occurs in the whole.
-/
import OpenApiTs.Text.Basic
import Mathlib.Data.List.Infix

namespace OpenApiTs.Text

/-! ## Characters of a text -/

section Deciding

variable {P : Char → Prop} [DecidablePred P]

/-- The characters of a text are looked at one by one, not all characters that there are. -/
instance (priority := high) decidableForallMem (text : List Char) : Decidable (∀ c ∈ text, P c) :=
  List.decidableBAll P text

instance (priority := high) decidableForallMemOption (c : Option Char) : Decidable (∀ d ∈ c, P d) :=
  match c with
  | none => isTrue nofun
  | some d => decidable_of_iff (P d) (by simp)

end Deciding

namespace Chars

variable {needle text line : List Char} {lines : List (List Char)}

theorem occurs_iff_infix : occurs needle text = true ↔ needle <:+: text := by
  induction text with
  | nil => rw [occurs, List.isEmpty_iff, List.infix_nil]
  | cons c text ih =>
    rw [occurs, Bool.or_eq_true, List.isPrefixOf_iff_prefix, ih, List.infix_cons_iff]

/-- Each of several texts occurs in what they are joined to. -/
theorem infix_intercalate (sep : List Char) (h_line : line ∈ lines) :
    line <:+: sep.intercalate lines := by
  induction lines with
  | nil => cases h_line
  | cons first lines ih =>
    -- no separator stands behind the last text
    by_cases h_last : lines = []
    · subst h_last
      rw [List.mem_singleton.mp h_line, List.intercalate_singleton]
    · rw [List.intercalate_cons_of_ne_nil h_last]
      rcases List.mem_cons.mp h_line with rfl | h_line
      · exact ((List.prefix_append line sep).trans (List.prefix_append _ _)).isInfix
      · exact (ih h_line).trans (List.suffix_append _ _).isInfix

end Chars

variable {needle text front back : String} {texts : List String}

theorem contains_iff : contains needle text = true ↔ needle.toList <:+: text.toList :=
  Chars.occurs_iff_infix

theorem contains_self (text : String) : contains text text = true :=
  contains_iff.mpr (List.infix_refl _)

theorem contains_append_left (h_front : contains needle front = true) (back : String) :
    contains needle (front ++ back) = true := by
  rw [contains_iff] at h_front ⊢
  rw [String.toList_append]
  exact h_front.trans (List.prefix_append _ _).isInfix

theorem contains_append_right (front : String) (h_back : contains needle back = true) :
    contains needle (front ++ back) = true := by
  rw [contains_iff] at h_back ⊢
  rw [String.toList_append]
  exact h_back.trans (List.suffix_append _ _).isInfix

/-- What one of several texts contains, they contain joined with a separator. -/
theorem contains_intercalate (sep : String) (h_text : text ∈ texts)
    (h_inside : contains needle text = true) :
    contains needle (sep.intercalate texts) = true := by
  rw [contains_iff] at h_inside ⊢
  rw [String.toList_intercalate]
  exact h_inside.trans (Chars.infix_intercalate _ (List.mem_map_of_mem h_text))

/-- What one of several texts contains, they contain joined. -/
theorem contains_join (h_text : text ∈ texts) (h_inside : contains needle text = true) :
    contains needle (String.join texts) = true := by
  obtain ⟨before, after, rfl⟩ := List.append_of_mem h_text
  rw [String.join_append, String.join_cons]
  exact contains_append_right _ (contains_append_left h_inside _)

end OpenApiTs.Text
