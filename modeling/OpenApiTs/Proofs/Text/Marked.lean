/-
  OpenApiTs.Proofs.Text.Marked

  Texts with marks behind some of their words. Taking every mark away gives the text back when the
  text has none of its own and no two marks can overlap; and marks change nothing about where a
  text without the characters of identifiers occurs, at the ends or inside.
-/
import OpenApiTs.Name.Identifier
import OpenApiTs.Proofs.Text.Avoids

namespace OpenApiTs.Text

open OpenApiTs.Name (inIdentifier)

variable {mark long long' text text' sep tail : List Char} {c : Char}

/-! ## Marks behind words -/

/-- Whether the first text is the second with marks behind characters of identifiers. -/
inductive Marked (mark : List Char) : List Char → List Char → Prop where
  | nil : Marked mark [] []
  | same {long text : List Char} (c : Char) (h_rest : Marked mark long text) :
      Marked mark (c :: long) (c :: text)
  | marked {long text : List Char} {c : Char} (h_c : inIdentifier c = true)
      (h_rest : Marked mark long text) : Marked mark (c :: (mark ++ long)) (c :: text)

namespace Marked

theorem refl (mark text : List Char) : Marked mark text text := by
  induction text with
  | nil => exact .nil
  | cons c text ih => exact .same c ih

/-- Marked texts may be put together. -/
theorem append (h_front : Marked mark long text) (h_back : Marked mark long' text') :
    Marked mark (long ++ long') (text ++ text') := by
  induction h_front with
  | nil => exact h_back
  | same c _ ih => exact .same c ih
  | marked h_c _ ih =>
    rw [List.cons_append, List.append_assoc]
    exact .marked h_c ih

/-- A mark behind a text that ends in the character of an identifier. -/
theorem behind (front : List Char) (h_c : inIdentifier c = true) :
    Marked mark (front ++ [c] ++ mark) (front ++ [c]) := by
  have h_last : Marked mark (c :: (mark ++ [])) [c] := .marked h_c .nil
  rw [List.append_nil] at h_last
  rw [List.append_assoc]
  exact (refl mark front).append h_last

/-- A mark stands behind a character, so an empty text has none. -/
theorem eq_nil_iff (h_marked : Marked mark long text) : long = [] ↔ text = [] := by
  cases h_marked with
  | nil => exact Iff.rfl
  | same c _ => simp
  | marked h_c _ => simp

end Marked

/-! ## Taking marks away -/

/-- Whether nothing but the whole of a text stands both at its beginning and at its end. -/
def Borderless (mark : List Char) : Prop :=
  ∀ tail ∈ mark.tails, tail <+: mark → tail = [] ∨ tail = mark

instance (mark : List Char) : Decidable (Borderless mark) :=
  inferInstanceAs (Decidable (∀ tail ∈ mark.tails, tail <+: mark → tail = [] ∨ tail = mark))

/-- No end of a mark opens another one, but the whole. -/
theorem Borderless.eq_nil (h_mark : Borderless mark) (h_tail : tail <:+ mark)
    (h_short : tail.length < mark.length) (h_opens : tail <+: mark ++ long) : tail = [] := by
  have h_inside : tail <+: mark :=
    List.prefix_of_prefix_length_le h_opens (List.prefix_append mark long) (Nat.le_of_lt h_short)
  rcases h_mark tail ((List.mem_tails _ _).mpr h_tail) h_inside with h_nil | h_whole
  · exact h_nil
  · rw [h_whole] at h_short
    exact absurd h_short (Nat.lt_irrefl _)

namespace Marked

/-- What the marked text opens with, the text opens with, if it is the end of a mark. -/
theorem opens (h_mark : Borderless mark) (h_marked : Marked mark long text)
    (h_tail : tail <:+ mark) (h_short : tail.length < mark.length) (h_opens : tail <+: long) :
    tail <+: text := by
  -- an end of a mark that comes to another mark is used up there, and before it the texts agree
  induction tail generalizing long text with
  | nil => exact List.nil_prefix
  | cons n tail ih =>
    have h_rest : tail <:+ mark := (List.suffix_cons n tail).trans h_tail
    have h_less : tail.length < mark.length := Nat.lt_of_succ_lt h_short
    cases h_marked with
    | nil => exact h_opens
    | same c h_marked =>
      rw [List.cons_prefix_cons] at h_opens ⊢
      exact ⟨h_opens.1, ih h_marked h_rest h_less h_opens.2⟩
    | marked h_c h_marked =>
      rw [List.cons_prefix_cons] at h_opens ⊢
      rw [h_mark.eq_nil h_rest h_less h_opens.2]
      exact ⟨h_opens.1, List.nil_prefix⟩

/-- Taking the marks away gives the text back. -/
theorem replaceAll_eq (h_mark : Borderless mark) (h_marked : Marked mark long text)
    (h_text : Avoids mark text) : Chars.replaceAll [mark] [] long = text := by
  obtain ⟨m, others, rfl⟩ := List.exists_cons_of_ne_nil h_text.needle_ne_nil
  have h_others : others <:+ m :: others := List.suffix_cons m others
  have h_short : others.length < (m :: others).length := Nat.lt_succ_self _
  induction h_marked with
  | nil => rw [Chars.replaceAll]
  | @same long text c h_marked ih =>
    have h_rest := ih (h_text.within (List.suffix_cons c text).isInfix)
    rw [Chars.replaceAll_cons_of_not_prefix, h_rest]
    -- a mark here would be one in the text
    intro h_opens
    rw [List.cons_prefix_cons] at h_opens
    have h_inside := h_marked.opens h_mark h_others h_short h_opens.2
    exact h_text (List.cons_prefix_cons.mpr ⟨h_opens.1, h_inside⟩).isInfix
  | @marked long text c h_c h_marked ih =>
    have h_rest := ih (h_text.within (List.suffix_cons c text).isInfix)
    rw [Chars.replaceAll_cons_of_not_prefix, Chars.replaceAll_append [] (List.cons_ne_nil _ _),
      h_rest, List.nil_append]
    -- a mark cannot begin before this one and reach into it
    intro h_opens
    rw [List.cons_prefix_cons] at h_opens
    rw [h_mark.eq_nil h_others h_short h_opens.2] at h_text
    exact h_text (List.cons_prefix_cons.mpr ⟨h_opens.1, List.nil_prefix⟩).isInfix

end Marked

/-! ## What marks do not hide -/

namespace Marked

/-- A text without characters of identifiers begins both or neither, as marks stand inside
    identifiers. -/
theorem prefix_iff (h_sep : ∀ c ∈ sep, inIdentifier c = false) (h_marked : Marked mark long text) :
    sep <+: long ↔ sep <+: text := by
  induction h_marked generalizing sep with
  | nil => exact Iff.rfl
  | same c _ ih =>
    cases sep with
    | nil => simp
    | cons s sep =>
      rw [List.forall_mem_cons] at h_sep
      rw [List.cons_prefix_cons, List.cons_prefix_cons, ih h_sep.2]
  | @marked _ _ c h_c _ ih =>
    cases sep with
    | nil => simp
    | cons s sep =>
      rw [List.forall_mem_cons] at h_sep
      -- a mark stands behind a character of an identifier, which the text does not begin with
      have h_ne : s ≠ c := by
        rintro rfl
        rw [h_c] at h_sep
        cases h_sep.1
      simp [List.cons_prefix_cons, h_ne]

/-- A text that has no character of an identifier occurs where it occurred. -/
theorem infix_iff (h_mark : ∀ c ∈ mark, inIdentifier c = true)
    (h_sep : ∀ c ∈ sep, inIdentifier c = false) (h_some : sep ≠ [])
    (h_marked : Marked mark long text) : sep <:+: long ↔ sep <:+: text := by
  induction h_marked with
  | nil => exact Iff.rfl
  | same c h_marked ih =>
    rw [List.infix_cons_iff, List.infix_cons_iff, ih, (Marked.same c h_marked).prefix_iff h_sep]
  | @marked long text c h_c h_marked ih =>
    -- nothing begins in a stretch of identifier characters
    have h_behind (front back : List Char) (h_front : ∀ c ∈ front, inIdentifier c = true) :
        sep <:+: front ++ back ↔ sep <:+: back := by
      refine ⟨Chars.infix_of_infix_append h_some fun s h_s h_mem => ?_,
        fun h_inside => h_inside.trans (List.suffix_append front back).isInfix⟩
      have h_outside := h_sep s (List.mem_of_mem_head? h_s)
      rw [h_front s h_mem] at h_outside
      cases h_outside
    have h_long := h_behind (c :: mark) long (by simpa using ⟨h_c, h_mark⟩)
    have h_text := h_behind [c] text (by simpa using h_c)
    rw [← List.cons_append, h_long, ih, ← h_text, List.singleton_append]

/-- A character that no identifier has ends the marked text where it ends the text. -/
theorem getLast?_iff (h_mark : ∀ c ∈ mark, inIdentifier c = true) (h_c : inIdentifier c = false)
    (h_marked : Marked mark long text) : long.getLast? = some c ↔ text.getLast? = some c := by
  induction h_marked with
  | nil => exact Iff.rfl
  | @same long text d h_marked ih =>
    by_cases h_text : text = []
    · rw [h_text, h_marked.eq_nil_iff.mpr h_text]
    · have h_long : long ≠ [] := mt h_marked.eq_nil_iff.mp h_text
      rwa [List.getLast?_cons_of_ne_nil h_long, List.getLast?_cons_of_ne_nil h_text]
  | @marked long text d h_d h_marked ih =>
    -- what ends in a stretch of identifier characters ends in one of them
    have h_behind (front back : List Char) (h_front : ∀ c ∈ front, inIdentifier c = true) :
        (front ++ back).getLast? = some c ↔ back.getLast? = some c := by
      by_cases h_back : back = []
      · have h_last : front.getLast? ≠ some c := by
          intro h_last
          have h_inside := h_front c (List.mem_of_getLast? h_last)
          rw [h_c] at h_inside
          cases h_inside
        simp [h_back, h_last]
      · rw [List.getLast?_append_of_ne_nil _ h_back]
    have h_long := h_behind (d :: mark) long (by simpa using ⟨h_d, h_mark⟩)
    have h_text := h_behind [d] text (by simpa using h_d)
    rw [← List.cons_append, h_long, ih, ← h_text, List.singleton_append]

end Marked

end OpenApiTs.Text
