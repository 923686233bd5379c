/-
  OpenApiTs.Proofs.Text.Renamed

  Texts that are the same but for words in corresponding places. A needle that no such word touches
  occurs in corresponding places of both, so that looking for it, cutting the texts at it and taking
  it away go alike.
-/
import OpenApiTs.Proofs.Text.Replace
import Mathlib.Data.List.Forall2

namespace OpenApiTs.Text

open OpenApiTs.Text.Chars (replaceAll_append)

variable {pairs : List (List Char × List Char)} {needle word word' text text' more more' front back
  rest : List Char}

/-! ## Words in corresponding places -/

/-- Whether the second text is the first one with words replaced in some places, each by the other
    word of its pair. -/
inductive Renamed (pairs : List (List Char × List Char)) : List Char → List Char → Prop where
  | nil : Renamed pairs [] []
  | same {text text' : List Char} (c : Char) (h_rest : Renamed pairs text text') :
      Renamed pairs (c :: text) (c :: text')
  | word {word word' text text' : List Char} (h_pair : (word, word') ∈ pairs)
      (h_rest : Renamed pairs text text') : Renamed pairs (word ++ text) (word' ++ text')

namespace Renamed

theorem refl (pairs : List (List Char × List Char)) (text : List Char) :
    Renamed pairs text text := by
  induction text with
  | nil => exact .nil
  | cons c text ih => exact .same c ih

theorem of_pair (h_pair : (word, word') ∈ pairs) : Renamed pairs word word' := by
  have h_alone : Renamed pairs (word ++ []) (word' ++ []) := .word h_pair .nil
  rwa [List.append_nil, List.append_nil] at h_alone

/-- Renamed texts may be put together. -/
theorem append (h_text : Renamed pairs text text') (h_more : Renamed pairs more more') :
    Renamed pairs (text ++ more) (text' ++ more') := by
  induction h_text with
  | nil => exact h_more
  | same c _ ih => exact .same c ih
  | word h_pair _ ih =>
    rw [List.append_assoc, List.append_assoc]
    exact .word h_pair ih

/-- The words of the pairs can change places. -/
theorem swap (h_text : Renamed pairs text text') :
    Renamed (pairs.map Prod.swap) text' text := by
  induction h_text with
  | nil => exact .nil
  | same c _ ih => exact .same c ih
  | word h_pair _ ih => exact .word (List.mem_map.mpr ⟨_, h_pair, rfl⟩) ih

end Renamed

/-! ## Needles apart from the words -/

/-- Whether no occurrence of a needle reaches into a word, whatever stands around it: none that
    begins before the word can pass its first character, and none begins inside it. -/
def KeepsOff (needle word : List Char) : Prop :=
  word ≠ [] ∧ (∀ c ∈ word.head?, c ∉ needle) ∧
    ∀ tail ∈ word.tails, tail ≠ [] → ¬ needle <+: tail ∧ ¬ tail <+: needle

instance (needle word : List Char) : Decidable (KeepsOff needle word) :=
  inferInstanceAs (Decidable (word ≠ [] ∧ (∀ c ∈ word.head?, c ∉ needle) ∧
    ∀ tail ∈ word.tails, tail ≠ [] → ¬ needle <+: tail ∧ ¬ tail <+: needle))

namespace KeepsOff

/-- No occurrence begins inside the word. -/
theorem not_opens (h_off : KeepsOff needle word) {tail : List Char} (h_tail : tail <:+ word)
    (h_some : tail ≠ []) (rest : List Char) : ¬ needle <+: tail ++ rest := by
  intro h_opens
  obtain ⟨h_long, h_short⟩ := h_off.2.2 tail ((List.mem_tails _ _).mpr h_tail) h_some
  rcases List.prefix_or_prefix_of_prefix h_opens (List.prefix_append tail rest) with h_pre | h_pre
  · exact h_long h_pre
  · exact h_short h_pre

/-- A word that keeps off a needle begins with a character which the needle has not. -/
theorem exists_cons (h_off : KeepsOff needle word) :
    ∃ c others, word = c :: others ∧ c ∉ needle := by
  obtain ⟨c, others, rfl⟩ := List.exists_cons_of_ne_nil h_off.1
  exact ⟨c, others, rfl, h_off.2.1 c rfl⟩

end KeepsOff

/-- Whether a needle keeps off all words of the pairs. -/
def KeepsOffAll (needle : List Char) (pairs : List (List Char × List Char)) : Prop :=
  ∀ pair ∈ pairs, KeepsOff needle pair.1 ∧ KeepsOff needle pair.2

instance (needle : List Char) (pairs : List (List Char × List Char)) :
    Decidable (KeepsOffAll needle pairs) :=
  inferInstanceAs (Decidable (∀ pair ∈ pairs, KeepsOff needle pair.1 ∧ KeepsOff needle pair.2))

/-- Both words of each pair keep off, so the pairs may be turned around. -/
theorem KeepsOffAll.swap (h_off : KeepsOffAll needle pairs) :
    KeepsOffAll needle (pairs.map Prod.swap) := by
  intro pair h_pair
  obtain ⟨own, h_own, rfl⟩ := List.mem_map.mp h_pair
  exact (h_off own h_own).symm

/-! ## Searching -/

namespace Renamed

/-- What follows the needle that a text opens with. -/
theorem exists_after (h_off : KeepsOffAll needle pairs) (h_text : Renamed pairs text text')
    (h_opens : text = needle ++ rest) :
    ∃ rest', text' = needle ++ rest' ∧ Renamed pairs rest rest' := by
  -- the words keep off every end of the needle that is still looked for
  have h_heads : ∀ pair ∈ pairs, ∃ c others, pair.1 = c :: others ∧ c ∉ needle :=
    fun pair h_pair => (h_off pair h_pair).1.exists_cons
  clear h_off
  induction needle generalizing text text' with
  | nil =>
    obtain rfl : text = rest := h_opens
    exact ⟨text', rfl, h_text⟩
  | cons n needle ih =>
    cases h_text with
    | nil => cases h_opens
    | same c h_text =>
      obtain ⟨rfl, h_rest⟩ := List.cons.inj h_opens
      obtain ⟨rest', rfl, h_renamed⟩ := ih h_text h_rest fun pair h_pair => by
        obtain ⟨first, others, h_first, h_outside⟩ := h_heads pair h_pair
        exact ⟨first, others, h_first, fun h_mem => h_outside (List.mem_cons_of_mem _ h_mem)⟩
      exact ⟨rest', rfl, h_renamed⟩
    | word h_pair h_text =>
      obtain ⟨first, others, h_first, h_outside⟩ := h_heads _ h_pair
      simp only at h_first
      rw [h_first] at h_opens
      obtain ⟨rfl, -⟩ := List.cons.inj h_opens
      exact absurd List.mem_cons_self h_outside

/-- Where the needle occurs in a text, it occurs in the other one, between texts that correspond. -/
theorem exists_split (h_off : KeepsOffAll needle pairs) (h_text : Renamed pairs text text')
    (h_split : text = front ++ (needle ++ back)) :
    ∃ front' back', text' = front' ++ (needle ++ back') ∧ Renamed pairs front front' ∧
      Renamed pairs back back' := by
  induction h_text generalizing front with
  | nil =>
    obtain ⟨rfl, h_rest⟩ := List.append_eq_nil_iff.mp h_split.symm
    obtain ⟨rfl, rfl⟩ := List.append_eq_nil_iff.mp h_rest
    exact ⟨[], [], rfl, .nil, .nil⟩
  | same c h_text ih =>
    cases front with
    | nil =>
      obtain ⟨back', h_back, h_renamed⟩ := exists_after h_off (.same c h_text) h_split
      exact ⟨[], back', h_back, .nil, h_renamed⟩
    | cons f front =>
      obtain ⟨rfl, h_rest⟩ := List.cons.inj h_split
      obtain ⟨front', back', rfl, h_front, h_back⟩ := ih h_rest
      exact ⟨c :: front', back', rfl, .same c h_front, h_back⟩
  | @word word word' text text' h_pair h_text ih =>
    -- the occurrence begins behind the word, for it cannot begin inside
    have h_behind : ∃ later, front = word ++ later ∧ text = later ++ (needle ++ back) := by
      rcases List.append_eq_append_iff.mp h_split with ⟨later, h_front, h_rest⟩ | ⟨inside, h_word,
        h_rest⟩
      · exact ⟨later, h_front, h_rest⟩
      · by_cases h_none : inside = []
        · subst h_none
          rw [List.append_nil] at h_word
          exact ⟨[], by rw [h_word, List.append_nil], h_rest.symm⟩
        · have h_inside : needle <+: inside ++ text := ⟨back, h_rest⟩
          exact absurd h_inside ((h_off _ h_pair).1.not_opens ⟨front, h_word.symm⟩ h_none text)
    obtain ⟨later, rfl, h_rest⟩ := h_behind
    obtain ⟨front', back', rfl, h_front, h_back⟩ := ih h_rest
    exact ⟨word' ++ front', back', by rw [List.append_assoc], .word h_pair h_front, h_back⟩

section Iff

variable (h_off : KeepsOffAll needle pairs) (h_text : Renamed pairs text text')
include h_off h_text

/-- No word is empty, so a renamed text is empty when the text is. -/
theorem eq_nil_iff : text = [] ↔ text' = [] := by
  cases h_text with
  | nil => exact Iff.rfl
  | same c _ => simp
  | word h_pair _ =>
    obtain ⟨h_word, h_word'⟩ := h_off _ h_pair
    simp [h_word.1, h_word'.1]

/-- What keeps off all words stands at the front of both or of neither. -/
theorem prefix_iff : needle <+: text ↔ needle <+: text' := by
  constructor
  · rintro ⟨rest, rfl⟩
    obtain ⟨rest', rfl, -⟩ := exists_after h_off h_text rfl
    exact List.prefix_append needle rest'
  · -- the other way round with the pairs turned around
    rintro ⟨rest, rfl⟩
    obtain ⟨rest', rfl, -⟩ := exists_after h_off.swap h_text.swap rfl
    exact List.prefix_append needle rest'

/-- What keeps off all words occurs in both or in neither. -/
theorem infix_iff : needle <:+: text ↔ needle <:+: text' := by
  constructor
  · rintro ⟨front, back, rfl⟩
    obtain ⟨front', back', rfl, -⟩ := exists_split h_off h_text (List.append_assoc _ _ _)
    exact ⟨front', back', List.append_assoc _ _ _⟩
  · rintro ⟨front, back, rfl⟩
    obtain ⟨front', back', rfl, -⟩ := exists_split h_off.swap h_text.swap (List.append_assoc _ _ _)
    exact ⟨front', back', List.append_assoc _ _ _⟩

end Iff

/-- What stands before the needle that a text closes with. -/
theorem exists_before (h_off : KeepsOffAll needle pairs) (h_text : Renamed pairs text text')
    (h_closes : text = rest ++ needle) :
    ∃ rest', text' = rest' ++ needle ∧ Renamed pairs rest rest' := by
  have h_whole : text = rest ++ (needle ++ []) := by rw [List.append_nil, h_closes]
  obtain ⟨rest', back', h_split, h_rest, h_back⟩ := exists_split h_off h_text h_whole
  rw [(h_back.eq_nil_iff h_off).mp rfl, List.append_nil] at h_split
  exact ⟨rest', h_split, h_rest⟩

/-- What keeps off all words stands at the end of both or of neither. -/
theorem suffix_iff (h_off : KeepsOffAll needle pairs) (h_text : Renamed pairs text text') :
    needle <:+ text ↔ needle <:+ text' := by
  constructor
  · rintro ⟨rest, rfl⟩
    obtain ⟨rest', rfl, -⟩ := exists_before h_off h_text rfl
    exact List.suffix_append rest' needle
  · rintro ⟨rest, rfl⟩
    obtain ⟨rest', rfl, -⟩ := exists_before h_off.swap h_text.swap rfl
    exact List.suffix_append rest' needle

/-! ## Taking away -/

/-- Nothing is replaced in a word that the needle keeps off. -/
theorem replaceAll_word (h_off : KeepsOff needle word) (put rest : List Char) :
    Chars.replaceAll [needle] put (word ++ rest) = word ++ Chars.replaceAll [needle] put rest := by
  -- for each tail of the word, since replacing goes character by character
  have h_tails : ∀ tail, tail <:+ word →
      Chars.replaceAll [needle] put (tail ++ rest) = tail ++ Chars.replaceAll [needle] put rest := by
    intro tail
    induction tail with
    | nil => exact fun _ => rfl
    | cons c tail ih =>
      intro h_tail
      -- no occurrence begins in the word, wherever it would end
      have h_none : ¬ needle <+: c :: (tail ++ rest) :=
        h_off.not_opens h_tail (List.cons_ne_nil c tail) rest
      rw [List.cons_append, Chars.replaceAll_cons_of_not_prefix h_none,
        ih ((List.suffix_cons c tail).trans h_tail), List.cons_append]
  exact h_tails word (List.suffix_refl word)

/-- A needle that keeps off the words can be taken away from both texts. -/
theorem replaceAll_nil (h_some : needle ≠ []) (h_off : KeepsOffAll needle pairs)
    (h_text : Renamed pairs text text') :
    Renamed pairs (Chars.replaceAll [needle] [] text) (Chars.replaceAll [needle] [] text') := by
  induction h_length : text.length using Nat.strong_induction_on generalizing text text' with
  | _ length ih =>
    cases h_text with
    | nil =>
      rw [Chars.replaceAll]
      exact .nil
    | @same text text' c h_text =>
      by_cases h_opens : needle <+: c :: text
      · -- the occurrence goes from both texts, and what is left is shorter
        obtain ⟨rest, h_rest⟩ := h_opens
        obtain ⟨rest', h_rest', h_renamed⟩ := exists_after h_off (.same c h_text) h_rest.symm
        have h_less : rest.length < length := by
          have h_pos := List.length_pos_of_ne_nil h_some
          rw [← h_length, ← h_rest, List.length_append]
          omega
        rw [← h_rest, h_rest', replaceAll_append [] h_some, replaceAll_append [] h_some]
        exact ih rest.length h_less h_renamed rfl
      · have h_opens' := mt ((Renamed.same c h_text).prefix_iff h_off).mpr h_opens
        have h_less : text.length < length := by
          rw [← h_length, List.length_cons]
          omega
        rw [Chars.replaceAll_cons_of_not_prefix h_opens, Chars.replaceAll_cons_of_not_prefix h_opens']
        exact .same c (ih text.length h_less h_text rfl)
    | @word word word' text text' h_pair h_text =>
      obtain ⟨h_word, h_word'⟩ := h_off _ h_pair
      have h_less : text.length < length := by
        have h_pos : 0 < word.length := List.length_pos_of_ne_nil h_word.1
        rw [← h_length, List.length_append]
        omega
      rw [replaceAll_word h_word, replaceAll_word h_word']
      exact .word h_pair (ih text.length h_less h_text rfl)

/-! ## Stretches -/

/-- A word without the separator goes to the first stretch of what follows. -/
theorem splitOn_word {sep : Char} (h_word : sep ∉ word) (text : List Char) :
    (word ++ text).splitOn sep = (text.splitOn sep).modifyHead (word ++ ·) := by
  induction word with
  | nil =>
    cases h_pieces : text.splitOn sep <;> simp [h_pieces]
  | cons c word ih =>
    rw [List.mem_cons, not_or] at h_word
    rw [List.cons_append, List.splitOn_cons_eq_if_modifyHead,
      if_neg (by simpa using Ne.symm h_word.1), ih h_word.2]
    cases h_pieces : text.splitOn sep <;> simp

/-- Between separators that no word has, the stretches of the texts correspond. -/
theorem splitOn {sep : Char} (h_words : ∀ pair ∈ pairs, sep ∉ pair.1 ∧ sep ∉ pair.2)
    (h_text : Renamed pairs text text') :
    List.Forall₂ (Renamed pairs) (text.splitOn sep) (text'.splitOn sep) := by
  -- a text in front goes to the first stretch on both sides
  have h_head {more more' : List Char} (h_more : Renamed pairs more more')
      {pieces pieces' : List (List Char)}
      (h_pieces : List.Forall₂ (Renamed pairs) pieces pieces') :
      List.Forall₂ (Renamed pairs) (pieces.modifyHead (more ++ ·))
        (pieces'.modifyHead (more' ++ ·)) := by
    cases h_pieces with
    | nil => exact .nil
    | cons h_first h_others => exact .cons (h_more.append h_first) h_others
  induction h_text with
  | nil => exact .cons .nil .nil
  | same c _ ih =>
    -- a separator closes a stretch on both sides, since no word has one
    rw [List.splitOn_cons_eq_if_modifyHead, List.splitOn_cons_eq_if_modifyHead]
    split
    · exact .cons .nil ih
    · exact h_head (.same c .nil) ih
  | word h_pair _ ih =>
    rw [splitOn_word (h_words _ h_pair).1, splitOn_word (h_words _ h_pair).2]
    exact h_head (.of_pair h_pair) ih

end Renamed

/-! ## Strings -/

/-- The words of pairs, character by character. -/
def charPairs (pairs : List (String × String)) : List (List Char × List Char) :=
  pairs.map fun pair => (pair.1.toList, pair.2.toList)

/-- Whether the second text is the first one with words replaced in some places, each by the other
    word of its pair. -/
def Renames (pairs : List (String × String)) (text text' : String) : Prop :=
  Renamed (charPairs pairs) text.toList text'.toList

namespace Renames

variable {pairs : List (String × String)} {text text' : String}

theorem refl (pairs : List (String × String)) (text : String) : Renames pairs text text :=
  Renamed.refl _ _

theorem of_pair (h_pair : (text, text') ∈ pairs) : Renames pairs text text' :=
  Renamed.of_pair (List.mem_map.mpr ⟨_, h_pair, rfl⟩)

theorem append {more more' : String} (h_text : Renames pairs text text')
    (h_more : Renames pairs more more') : Renames pairs (text ++ more) (text' ++ more') := by
  rw [Renames, String.toList_append, String.toList_append]
  exact Renamed.append h_text h_more

section Searching

variable {needle : String} (h_off : KeepsOffAll needle.toList (charPairs pairs))
  (h_text : Renames pairs text text')
include h_off h_text

theorem eq_empty_iff : text = "" ↔ text' = "" := by
  rw [← String.toList_eq_nil_iff, ← String.toList_eq_nil_iff]
  exact Renamed.eq_nil_iff h_off h_text

theorem contains_eq : contains needle text = contains needle text' := by
  rw [Bool.eq_iff_iff, contains_iff, contains_iff]
  exact Renamed.infix_iff h_off h_text

theorem opensWith_eq : opensWith needle text = opensWith needle text' := by
  rw [Bool.eq_iff_iff, opensWith, opensWith, List.isPrefixOf_iff_prefix,
    List.isPrefixOf_iff_prefix]
  exact Renamed.prefix_iff h_off h_text

theorem closesWith_eq : closesWith needle text = closesWith needle text' := by
  rw [Bool.eq_iff_iff, closesWith, closesWith, List.isSuffixOf_iff_suffix,
    List.isSuffixOf_iff_suffix]
  exact Renamed.suffix_iff h_off h_text

end Searching

end Renames

end OpenApiTs.Text
