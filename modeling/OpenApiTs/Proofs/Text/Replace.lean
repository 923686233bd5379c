/-
  OpenApiTs.Proofs.Text.Replace

  Replacing everywhere in a text: what does not occur is not replaced, every replacement takes
  marks away, and nothing is left to replace when what is put cannot become part of an occurrence.
  Replacing a character once puts a text between what is before it and what is behind it.
-/
import OpenApiTs.Proofs.Text.Contains
import OpenApiTs.Proofs.Text.Lines

namespace OpenApiTs.Text.Chars

variable {needles : List (List Char)} {put text : List Char}

/-! ## One place -/

/-- Where an occurrence is found, the text is that occurrence and what is dropped to. -/
theorem append_drop_of_find? {c : Char} {needle : List Char} (h_long : needle ≠ [])
    (h_found : needles.find? (fun own => own.isPrefixOf (c :: text)) = some needle) :
    c :: text = needle ++ text.drop (needle.length - 1) := by
  have h_opens := List.find?_some h_found
  obtain ⟨rest, h_split⟩ := List.isPrefixOf_iff_prefix.mp h_opens
  cases needle with
  | nil => exact absurd rfl h_long
  | cons n others =>
    rw [List.cons_append, List.cons_eq_cons] at h_split
    obtain ⟨rfl, rfl⟩ := h_split
    simp

/-- Where no occurrence is found, none begins. -/
theorem not_prefix_of_find?_eq_none {needle : List Char}
    (h_none : needles.find? (fun own => own.isPrefixOf text) = none) (h_needle : needle ∈ needles) :
    ¬ needle <+: text := by
  intro h_opens
  have h_not := List.find?_eq_none.mp h_none needle h_needle
  exact h_not (List.isPrefixOf_iff_prefix.mpr h_opens)

/-- A character with which no occurrence begins stays. -/
theorem replaceAll_cons_of_not_prefix {needle : List Char} {c : Char}
    (h_opens : ¬ needle <+: c :: text) :
    replaceAll [needle] put (c :: text) = c :: replaceAll [needle] put text := by
  rw [replaceAll, List.find?_singleton, if_neg (mt List.isPrefixOf_iff_prefix.mp h_opens)]

/-- The occurrence that a text begins with is replaced. -/
theorem replaceAll_append {needle : List Char} (put : List Char) (h_long : needle ≠ [])
    (rest : List Char) :
    replaceAll [needle] put (needle ++ rest) = put ++ replaceAll [needle] put rest := by
  obtain ⟨n, others, rfl⟩ := List.exists_cons_of_ne_nil h_long
  have h_opens : (n :: others).isPrefixOf (n :: (others ++ rest)) = true :=
    List.isPrefixOf_iff_prefix.mpr (List.prefix_append (n :: others) rest)
  rw [List.cons_append, replaceAll, List.find?_singleton, if_pos h_opens]
  simp

/-- A needle that opens a text ends before a character which it has not. -/
theorem prefix_of_prefix_append_cons {needle front back : List Char} {c : Char} (h_c : c ∉ needle)
    (h_opens : needle <+: front ++ c :: back) : needle <+: front := by
  have h_front : front ++ [c] <+: front ++ c :: back := by simp
  rcases List.prefix_or_prefix_of_prefix h_opens h_front with h_short | h_long
  · rcases List.prefix_concat_iff.mp h_short with rfl | h_short
    · exact absurd (List.mem_append_right front (List.mem_singleton_self c)) h_c
    · exact h_short
  · exact absurd (h_long.subset (List.mem_append_right front (List.mem_singleton_self c))) h_c

/-- What is replaced before a character that the needle has not and what is replaced behind it are
    apart. -/
theorem replaceAll_append_cons {needle : List Char} {c : Char} (h_long : needle ≠ [])
    (h_c : c ∉ needle) (put front back : List Char) :
    replaceAll [needle] put (front ++ c :: back) =
      replaceAll [needle] put front ++ c :: replaceAll [needle] put back := by
  induction h_length : front.length using Nat.strong_induction_on generalizing front with
  | _ length ih =>
    cases front with
    | nil =>
      have h_none : ¬ needle <+: c :: back :=
        fun h_opens => h_long (List.prefix_nil.mp (prefix_of_prefix_append_cons h_c h_opens))
      rw [List.nil_append, replaceAll_cons_of_not_prefix h_none, replaceAll, List.nil_append]
    | cons first others =>
      by_cases h_found : needle <+: first :: others
      · -- the occurrence goes as a whole, and what is left of the front is shorter
        obtain ⟨rest, h_rest⟩ := h_found
        have h_short : rest.length < length := by
          have h_pos := List.length_pos_of_ne_nil h_long
          rw [← h_length, ← h_rest, List.length_append]
          omega
        rw [← h_rest, List.append_assoc, replaceAll_append put h_long,
          replaceAll_append put h_long, ih rest.length h_short rest rfl, List.append_assoc]
      · have h_whole : ¬ needle <+: first :: (others ++ c :: back) :=
          fun h_opens => h_found (prefix_of_prefix_append_cons h_c h_opens)
        have h_short : others.length < length := by
          rw [← h_length, List.length_cons]
          omega
        rw [List.cons_append, replaceAll_cons_of_not_prefix h_whole,
          replaceAll_cons_of_not_prefix h_found, ih others.length h_short others rfl,
          List.cons_append]

/-- A character of the result was put there or was there before. -/
theorem mem_of_mem_replaceAll {c : Char} (h_c : c ∈ replaceAll needles put text) :
    c ∈ put ∨ c ∈ text := by
  fun_induction replaceAll needles put text with
  | case1 => exact .inr h_c
  | case2 first text needle _ ih =>
    rcases List.mem_append.mp h_c with h_put | h_rest
    · exact .inl h_put
    · exact (ih h_rest).imp_right fun h_kept => List.mem_cons_of_mem _ (List.mem_of_mem_drop h_kept)
  | case3 first text _ ih =>
    rcases List.mem_cons.mp h_c with rfl | h_rest
    · exact .inr List.mem_cons_self
    · exact (ih h_rest).imp_right (List.mem_cons_of_mem _)

section Stretches

variable {needle : List Char} {c : Char} (h_long : needle ≠ []) (h_c : c ∉ needle)

include h_long h_c

/-- Texts that are joined with a character that the needle has not are replaced in one by one. -/
theorem replaceAll_intercalate (put : List Char) (lines : List (List Char)) :
    replaceAll [needle] put ([c].intercalate lines) =
      [c].intercalate (lines.map (replaceAll [needle] put)) := by
  induction lines with
  | nil => rw [List.map_nil, List.intercalate_nil, replaceAll]
  | cons line lines ih =>
    by_cases h_last : lines = []
    · simp [h_last]
    · have h_mapped : lines.map (replaceAll [needle] put) ≠ [] := by simpa using h_last
      rw [List.map_cons, List.intercalate_cons_of_ne_nil h_last,
        List.intercalate_cons_of_ne_nil h_mapped, List.append_assoc, List.append_assoc,
        List.singleton_append, List.singleton_append, replaceAll_append_cons h_long h_c, ih]

/-- Where neither the needle nor what is put has the separator, each stretch is replaced in for
    itself. -/
theorem splitOn_replaceAll (h_put : c ∉ put) (text : List Char) :
    (replaceAll [needle] put text).splitOn c =
      (text.splitOn c).map (replaceAll [needle] put) := by
  -- no stretch has the separator after replacing, so joining them may be undone
  have h_each : ∀ line ∈ (text.splitOn c).map (replaceAll [needle] put), c ∉ line := by
    rw [List.forall_mem_map]
    intro line h_line h_mem
    rcases mem_of_mem_replaceAll h_mem with h_mem | h_mem
    · exact h_put h_mem
    · exact not_mem_of_mem_splitOn h_line h_mem
  have h_some : (text.splitOn c).map (replaceAll [needle] put) ≠ [] := by simp
  rw [← List.splitOn_intercalate c h_each h_some, ← replaceAll_intercalate h_long h_c,
    List.intercalate_splitOn]

end Stretches

/-- Nothing is replaced in a text that has not the first character of the needle, whatever follows. -/
theorem replaceAll_append_of_head {needle front : List Char} (h_long : needle ≠ [])
    (h_head : ∀ c ∈ needle.head?, c ∉ front) (put back : List Char) :
    replaceAll [needle] put (front ++ back) = front ++ replaceAll [needle] put back := by
  obtain ⟨n, others, rfl⟩ := List.exists_cons_of_ne_nil h_long
  have h_first : n ∉ front := h_head n rfl
  induction front with
  | nil => rfl
  | cons c front ih =>
    rw [List.mem_cons, not_or] at h_first
    have h_opens : ¬ n :: others <+: c :: (front ++ back) :=
      fun h_prefix => h_first.1 (List.cons_prefix_cons.mp h_prefix).1
    rw [List.cons_append, replaceAll_cons_of_not_prefix h_opens,
      ih (fun own h_own => by cases h_own; exact h_first.2) h_first.2, List.cons_append]

/-! ## Nothing to replace -/

/-- Nothing is replaced where no needle occurs. -/
theorem replaceAll_eq_self (h_absent : ∀ needle ∈ needles, ¬ needle <:+: text) :
    replaceAll needles put text = text := by
  induction text with
  | nil => rw [replaceAll]
  | cons c text ih =>
    have h_none : needles.find? (fun own => own.isPrefixOf (c :: text)) = none := by
      rw [List.find?_eq_none]
      intro needle h_needle h_opens
      exact h_absent needle h_needle (List.isPrefixOf_iff_prefix.mp h_opens).isInfix
    rw [replaceAll]
    simp only [h_none]
    rw [ih]
    intro needle h_needle h_inside
    exact h_absent needle h_needle (List.infix_cons h_inside)

/-! ## Marks taken away -/

section Marks

variable {p : Char → Bool}

/-- A text gains no marks when what is put has fewer of them than what it replaces. -/
theorem countP_replaceAll_le (h_fewer : ∀ needle ∈ needles, put.countP p < needle.countP p) :
    (replaceAll needles put text).countP p ≤ text.countP p := by
  fun_induction replaceAll needles put text with
  | case1 => exact Nat.le_refl _
  | case2 c text needle h_found ih =>
    have h_less := h_fewer needle (List.mem_of_find?_eq_some h_found)
    have h_long : needle ≠ [] := by
      rintro rfl
      simp at h_less
    -- the occurrence goes with its marks, and the rest gains none
    rw [append_drop_of_find? h_long h_found, List.countP_append, List.countP_append]
    omega
  | case3 c text h_none ih =>
    rw [List.countP_cons, List.countP_cons]
    omega

/-- A text with an occurrence loses marks when occurrences have more of them than what is put. -/
theorem countP_replaceAll_lt (h_fewer : ∀ needle ∈ needles, put.countP p < needle.countP p)
    {needle : List Char} (h_needle : needle ∈ needles) (h_inside : needle <:+: text) :
    (replaceAll needles put text).countP p < text.countP p := by
  fun_induction replaceAll needles put text with
  | case1 =>
    have h_less := h_fewer needle h_needle
    rw [List.infix_nil.mp h_inside] at h_less
    simp at h_less
  | case2 c text found h_found _ =>
    have h_less := h_fewer found (List.mem_of_find?_eq_some h_found)
    have h_long : found ≠ [] := by
      rintro rfl
      simp at h_less
    -- the marks lost here do not come back in the rest
    have h_rest : (replaceAll needles put (text.drop (found.length - 1))).countP p ≤
        (text.drop (found.length - 1)).countP p := countP_replaceAll_le h_fewer
    rw [append_drop_of_find? h_long h_found, List.countP_append, List.countP_append]
    omega
  | case3 c text h_none ih =>
    have h_later : needle <:+: text := by
      rcases List.infix_cons_iff.mp h_inside with h_opens | h_later
      · exact absurd h_opens (not_prefix_of_find?_eq_none h_none h_needle)
      · exact h_later
    rw [List.countP_cons, List.countP_cons]
    have h_less := ih h_later
    omega

end Marks

/-! ## Nothing left to replace -/

/-- Whether no part of what is put can belong to an occurrence that reaches over its ends: no
    occurrence begins in it, and none ends in it or goes on behind it. -/
def KeepsApart (needle put : List Char) : Prop :=
  (∀ c ∈ needle.head?, c ∉ put) ∧
    ∀ tail ∈ needle.tails, tail ≠ [] → ¬ tail <+: put ∧ ¬ put <+: tail

instance (needle put : List Char) : Decidable (KeepsApart needle put) :=
  -- characters are looked at one by one as they stand in the needle, not all that there are
  decidable_of_iff (needle.head?.all (fun c => !put.contains c) &&
      needle.tails.all fun tail => tail.isEmpty || (!tail.isPrefixOf put && !put.isPrefixOf tail)) (by
    simp [KeepsApart, Option.all_eq_true, List.all_eq_true, ← List.isPrefixOf_iff_prefix,
      or_iff_not_imp_left])

/-- The end of an occurrence that the result opens with was there before. -/
theorem prefix_of_prefix_replaceAll {needle tail : List Char}
    (h_apart : KeepsApart needle put) (h_tail : tail <:+ needle)
    (h_opens : tail <+: replaceAll needles put text) : tail <+: text := by
  induction tail generalizing text with
  | nil => exact List.nil_prefix
  | cons n tail ih =>
    cases text with
    | nil =>
      rw [replaceAll] at h_opens
      cases List.prefix_nil.mp h_opens
    | cons c text =>
      have h_ends := h_apart.2 _ ((List.mem_tails _ _).mpr h_tail) (List.cons_ne_nil n tail)
      rw [replaceAll] at h_opens
      split at h_opens
      · -- what is put would meet the end of the occurrence
        rcases List.prefix_or_prefix_of_prefix h_opens (List.prefix_append put _) with h_pre | h_pre
        · exact absurd h_pre h_ends.1
        · exact absurd h_pre h_ends.2
      · rw [List.cons_prefix_cons] at h_opens ⊢
        exact ⟨h_opens.1, ih ((List.suffix_cons n tail).trans h_tail) h_opens.2⟩

/-- No occurrence begins in a stretch that the first letter of the needle is not in. -/
theorem infix_of_infix_append {needle front back : List Char} (h_long : needle ≠ [])
    (h_head : ∀ c ∈ needle.head?, c ∉ front) (h_inside : needle <:+: front ++ back) :
    needle <:+: back := by
  induction front with
  | nil => exact h_inside
  | cons f front ih =>
    obtain ⟨n, others, rfl⟩ := List.exists_cons_of_ne_nil h_long
    have h_first := h_head n rfl
    rw [List.mem_cons, not_or] at h_first
    -- an occurrence at the front would begin with the first letter, which is not there
    rcases List.infix_cons_iff.mp h_inside with h_opens | h_later
    · exact absurd (List.cons_prefix_cons.mp h_opens).1 h_first.1
    · apply ih _ h_later
      intro c h_c
      cases h_c
      exact h_first.2

/-- No needle occurs in the result when what is put keeps apart from it. -/
theorem not_infix_replaceAll {needle : List Char} (h_needle : needle ∈ needles)
    (h_long : needle ≠ []) (h_apart : KeepsApart needle put) :
    ¬ needle <:+: replaceAll needles put text := by
  fun_induction replaceAll needles put text with
  | case1 => exact fun h_inside => h_long (List.infix_nil.mp h_inside)
  | case2 c text found h_found ih =>
    exact fun h_inside => ih (infix_of_infix_append h_long h_apart.1 h_inside)
  | case3 c text h_none ih =>
    intro h_inside
    rcases List.infix_cons_iff.mp h_inside with h_opens | h_later
    · -- an occurrence that opens the result would have opened the text
      have h_result : replaceAll needles put (c :: text) = c :: replaceAll needles put text := by
        rw [replaceAll]
        simp only [h_none]
      rw [← h_result] at h_opens
      have h_before := prefix_of_prefix_replaceAll h_apart (List.suffix_refl needle) h_opens
      exact not_prefix_of_find?_eq_none h_none h_needle h_before
    · exact ih h_later

/-! ## The first occurrence -/

/-- A character is not there, or its first occurrence makes room for what is put. -/
theorem replaceFirst_cases (c : Char) (put words : List Char) :
    (c ∉ words ∧ replaceFirst [c] put words = words) ∨
      ∃ front back, words = front ++ c :: back ∧
        replaceFirst [c] put words = front ++ (put ++ back) := by
  induction words with
  | nil => exact .inl ⟨List.not_mem_nil, rfl⟩
  | cons first words ih =>
    -- the first occurrence is here, or in the rest
    by_cases h_first : c = first
    · subst h_first
      exact .inr ⟨[], words, rfl, by simp [replaceFirst, after?]⟩
    · have h_none : after? [c] (first :: words) = none := by
        simp [after?, h_first]
      rw [replaceFirst, h_none]
      rcases ih with ⟨h_absent, h_kept⟩ | ⟨front, back, rfl, h_put⟩
      · exact .inl ⟨by simp [h_first, h_absent], by rw [h_kept]⟩
      · exact .inr ⟨first :: front, back, rfl, by rw [h_put]; rfl⟩

end OpenApiTs.Text.Chars
