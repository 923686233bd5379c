/-
  OpenApiTs.Proofs.Text.Avoids

  Texts in which a needle does not occur. A text that is put together from parts avoids a needle when
  its parts do and nothing that stands between them can belong to an occurrence: no occurrence
  reaches over a character that the needle has not, none begins before one that it does not begin
  with, and none ends in one that it does not end in.
-/
import OpenApiTs.Proofs.Text.Lines
import OpenApiTs.Proofs.Text.Replace

namespace OpenApiTs.Text

variable {needle inner lead tail front back text whole sep words : List Char}
  {lines : List (List Char)} {c d : Char}

/-- Whether a needle does not occur in a text. -/
def Avoids (needle text : List Char) : Prop := ¬ needle <:+: text

instance (needle text : List Char) : Decidable (Avoids needle text) :=
  inferInstanceAs (Decidable (¬ needle <:+: text))

theorem avoids_iff_contains {needle text : String} :
    Avoids needle.toList text.toList ↔ contains needle text = false := by
  rw [Avoids, ← contains_iff, Bool.not_eq_true]

/-! ## Over a character -/

/-- An occurrence that begins before a character which its lead has not leads there too. -/
theorem infix_or_infix_of_append_cons (h_c : c ∉ lead)
    (h_inside : lead ++ tail <:+: front ++ c :: back) :
    lead <:+: front ∨ lead ++ tail <:+: back := by
  -- where the occurrence opens the text, its lead ends before the character
  have h_opening (front : List Char) (h_opens : lead ++ tail <+: front ++ c :: back) :
      lead <+: front :=
    Chars.prefix_of_prefix_append_cons h_c ((List.prefix_append lead tail).trans h_opens)
  induction front with
  | nil =>
    rcases List.infix_cons_iff.mp h_inside with h_opens | h_later
    · exact .inl (h_opening [] h_opens).isInfix
    · exact .inr h_later
  | cons first front ih =>
    rcases List.infix_cons_iff.mp h_inside with h_opens | h_later
    · exact .inl (h_opening (first :: front) h_opens).isInfix
    · exact (ih h_later).imp_left List.infix_cons

/-- As `infix_or_infix_of_append_cons`, for an occurrence at the end. -/
theorem infix_or_suffix_of_append_cons (h_c : c ∉ lead)
    (h_ends : lead ++ tail <:+ front ++ c :: back) : lead <:+: front ∨ lead ++ tail <:+ back := by
  obtain ⟨before, h_before⟩ := h_ends
  rcases List.append_eq_append_iff.mp h_before with ⟨more, rfl, h_more⟩ | ⟨more, rfl, h_more⟩
  · have h_lead : lead <+: more :=
      Chars.prefix_of_prefix_append_cons h_c (h_more ▸ List.prefix_append lead tail)
    exact .inl (h_lead.isInfix.trans (List.suffix_append before more).isInfix)
  · cases more with
    | nil =>
      cases lead with
      | nil => exact .inl List.nil_infix
      | cons l lead => exact absurd (List.cons.inj h_more).1 (List.ne_of_not_mem_cons h_c)
    | cons m more => exact .inr ⟨more, (List.cons.inj h_more).2.symm⟩

/-- No occurrence at the end begins in a text that has not the first character of the needle. -/
theorem suffix_of_suffix_append {first : Char} {others : List Char} (h_first : first ∉ front)
    (h_ends : first :: others <:+ front ++ back) : first :: others <:+ back := by
  obtain ⟨before, h_before⟩ := h_ends
  rcases List.append_eq_append_iff.mp h_before with ⟨more, rfl, h_more⟩ | ⟨more, rfl, h_more⟩
  · cases more with
    | nil => exact ⟨[], h_more⟩
    | cons m more =>
      obtain ⟨rfl, -⟩ := List.cons.inj h_more
      exact absurd (List.mem_append_right before List.mem_cons_self) h_first
  · exact ⟨more, h_more.symm⟩

namespace Avoids

theorem needle_ne_nil (h_text : Avoids needle text) : needle ≠ [] := by
  rintro rfl
  exact h_text List.nil_infix

/-- What a text avoids, its parts avoid. -/
theorem within (h_inside : text <:+: whole) (h_whole : Avoids needle whole) :
    Avoids needle text :=
  fun h_needle => h_whole (h_needle.trans h_inside)

/-- A longer needle is avoided with any part of it. -/
theorem of_part (h_part : inner <:+: needle) (h_text : Avoids inner text) : Avoids needle text :=
  fun h_needle => h_text (h_part.trans h_needle)

theorem of_not_mem (h_needle : c ∈ needle) (h_text : c ∉ text) : Avoids needle text :=
  fun h_inside => h_text (h_inside.subset h_needle)

/-- No occurrence reaches over a character that the needle has not. -/
theorem append_cons (h_c : c ∉ needle) (h_front : Avoids needle front)
    (h_back : Avoids needle back) : Avoids needle (front ++ c :: back) := by
  intro h_inside
  have h_either : needle <:+: front ∨ needle ++ [] <:+: back :=
    infix_or_infix_of_append_cons h_c (by rwa [List.append_nil])
  rw [List.append_nil] at h_either
  exact h_either.elim h_front h_back

/-- As `append_cons`, both ways. -/
theorem append_cons_iff (h_c : c ∉ needle) :
    Avoids needle (front ++ c :: back) ↔ Avoids needle front ∧ Avoids needle back := by
  constructor
  · intro h_whole
    -- front and back are parts of the whole
    refine ⟨h_whole.within (List.prefix_append front _).isInfix, h_whole.within ?_⟩
    exact ((List.suffix_cons c back).trans (List.suffix_append front _)).isInfix
  · exact fun ⟨h_front, h_back⟩ => append_cons h_c h_front h_back

/-- Words between two texts that avoid the needle, a character that it has not on either side. -/
theorem between_iff (h_c : c ∉ needle) (h_d : d ∉ needle) (h_lead : Avoids needle lead)
    (h_tail : Avoids needle tail) :
    Avoids needle (lead ++ c :: (words ++ d :: tail)) ↔ Avoids needle words := by
  rw [append_cons_iff h_c, append_cons_iff h_d]
  exact ⟨fun h_parts => h_parts.2.1, fun h_words => ⟨h_lead, h_words, h_tail⟩⟩

/-- A needle without the separator is avoided by lines together when each of them avoids it. -/
theorem intercalate_iff (h_c : c ∉ needle) (h_some : lines ≠ []) :
    Avoids needle ([c].intercalate lines) ↔ ∀ line ∈ lines, Avoids needle line := by
  induction lines with
  | nil => exact absurd rfl h_some
  | cons line lines ih =>
    by_cases h_last : lines = []
    · subst h_last
      simp
    · rw [List.intercalate_cons_of_ne_nil h_last, List.append_assoc, List.singleton_append,
        append_cons_iff h_c, ih h_last, List.forall_mem_cons]

/-- A text avoids a needle without the separator when each of its stretches does. -/
theorem splitOn_iff (h_c : c ∉ needle) (words : List Char) :
    Avoids needle words ↔ ∀ line ∈ words.splitOn c, Avoids needle line := by
  rw [← intercalate_iff h_c (List.splitOn_ne_nil c words), List.intercalate_splitOn]

/-- Nothing occurs before a text that has not the first character of the needle. -/
theorem prepend (h_head : ∀ c ∈ needle.head?, c ∉ front) (h_back : Avoids needle back) :
    Avoids needle (front ++ back) :=
  fun h_inside => h_back (Chars.infix_of_infix_append h_back.needle_ne_nil h_head h_inside)

/-- Nothing occurs behind a text that has not the last character of the needle. -/
theorem append (h_last : ∀ c ∈ needle.getLast?, c ∉ back) (h_front : Avoids needle front) :
    Avoids needle (front ++ back) := by
  intro h_inside
  rw [← List.reverse_infix, List.reverse_append] at h_inside
  refine h_front (List.reverse_infix.mp (Chars.infix_of_infix_append ?_ ?_ h_inside))
  · exact mt List.reverse_eq_nil_iff.mp h_front.needle_ne_nil
  · intro c h_c
    rw [List.head?_reverse] at h_c
    rw [List.mem_reverse]
    exact h_last c h_c

end Avoids

/-! ## Solid needles -/

/-- The punctuation of declarations. -/
def punctuation : List Char :=
  ['|', '&', ',', ':', '?', '[', ']', '(', ')', '\x7b', '\x7d', '/', '*', '"', '\\', '\n']

/-- Whether a needle begins with an underscore, ends in a letter and has no punctuation. -/
structure Solid (needle : List Char) : Prop where
  head : needle.head? = some '_'
  last : ∃ c, needle.getLast? = some c ∧ c.isAlpha = true
  solid : ∀ c ∈ punctuation, c ∉ needle

/-- Whether a text is punctuation with blanks around it. -/
structure IsSeparator (sep : List Char) : Prop where
  marks : ∀ c ∈ sep, c ∈ ' ' :: punctuation
  exists_mark : ∃ c ∈ punctuation, c ∈ sep

namespace Solid

variable {texts : List (List Char)}

theorem avoids_nil (h_solid : Solid needle) : Avoids needle [] := by
  intro h_inside
  have h_head := h_solid.head
  rw [List.infix_nil.mp h_inside] at h_head
  cases h_head

theorem prepend (h_solid : Solid needle) (h_front : '_' ∉ front) (h_back : Avoids needle back) :
    Avoids needle (front ++ back) := by
  refine Avoids.prepend (fun c h_c => ?_) h_back
  rw [h_solid.head] at h_c
  cases h_c
  exact h_front

theorem append (h_solid : Solid needle) (h_back : ∀ c ∈ back, c.isAlpha = false)
    (h_front : Avoids needle front) : Avoids needle (front ++ back) := by
  refine Avoids.append (fun c h_c h_mem => ?_) h_front
  obtain ⟨last, h_last, h_alpha⟩ := h_solid.last
  rw [h_last] at h_c
  cases h_c
  rw [h_back _ h_mem] at h_alpha
  cases h_alpha

/-- Punctuation and blanks are neither letters nor underscores. -/
theorem isAlpha_of_mark (h_c : c ∈ ' ' :: punctuation) : c.isAlpha = false ∧ c ≠ '_' := by
  revert c
  decide

/-- Parts with a separator between them. -/
theorem join (h_solid : Solid needle) (h_sep : IsSeparator sep) (h_front : Avoids needle front)
    (h_back : Avoids needle back) : Avoids needle (front ++ sep ++ back) := by
  obtain ⟨c, h_mark, h_mem⟩ := h_sep.exists_mark
  obtain ⟨before, after, rfl⟩ := List.append_of_mem h_mem
  rw [List.append_assoc, List.append_assoc, ← List.append_assoc, List.cons_append]
  refine Avoids.append_cons (h_solid.solid c h_mark) (h_solid.append ?_ h_front)
    (h_solid.prepend ?_ h_back)
  · exact fun c h_c => (isAlpha_of_mark (h_sep.marks c (List.mem_append_left _ h_c))).1
  · exact fun h_c => (isAlpha_of_mark
      (h_sep.marks '_' (List.mem_append_right _ (List.mem_cons_of_mem _ h_c)))).2 rfl

theorem intercalate (h_solid : Solid needle) (h_sep : IsSeparator sep)
    (h_texts : ∀ text ∈ texts, Avoids needle text) : Avoids needle (sep.intercalate texts) := by
  induction texts with
  | nil => exact h_solid.avoids_nil
  | cons text texts ih =>
    rw [List.forall_mem_cons] at h_texts
    by_cases h_last : texts = []
    · subst h_last
      rw [List.intercalate_singleton]
      exact h_texts.1
    · rw [List.intercalate_cons_of_ne_nil h_last]
      exact h_solid.join h_sep h_texts.1 (ih h_texts.2)

end Solid

end OpenApiTs.Text
