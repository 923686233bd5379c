/-
  OpenApiTs.Proofs.Schema.Legible

  The words and names of compiled declarations. Words are primitive types and literals, names are
  identifiers with or without a number, so each of them stands on one line.
-/
import OpenApiTs.Proofs.Json.Print
import OpenApiTs.Proofs.Name.Stable
import OpenApiTs.Proofs.Schema.Run
import OpenApiTs.Proofs.TypeScript.Lines

namespace OpenApiTs.Schema

open OpenApiTs.Name (IsWord isWord_identifier)
open OpenApiTs.TypeScript

variable {definitions : Definitions} {root name : String} {schema : Json}
  {compilation later : Compilation} {roster : Roster}

/-! ## Words -/

/-- A literal stands on one line, line feeds in texts being escaped. -/
theorem newline_not_mem_literal (value : Json) : '\n' ∉ (literal value).toList := by
  cases value with
  | null => decide
  | bool value => cases value <;> decide
  | number value => exact Number.newline_not_mem_print value
  | text value => exact Json.newline_not_mem_quote value
  | array items => exact (by decide : '\n' ∉ "any".toList)
  | object fields => exact (by decide : '\n' ∉ "any".toList)

/-- The words of types stand on one line. -/
theorem newline_not_mem_of_isSchemaWord {word : String} (h_word : IsSchemaWord word) :
    '\n' ∉ word.toList := by
  rcases h_word with h_primitive | ⟨value, rfl⟩
  · simp only [List.mem_cons, List.not_mem_nil, or_false] at h_primitive
    rcases h_primitive with rfl | rfl | rfl | rfl | rfl | rfl <;> decide
  · exact newline_not_mem_literal value

/-! ## Names -/

/-- Whether a name is the identifier for some text, with or without a number. -/
def Coined (name : String) : Prop :=
  ∃ text number, Roster.candidate (Name.identifier text) number = name

theorem coined_identifier (text : String) : Coined (Name.identifier text) :=
  ⟨text, 0, Roster.candidate_zero _⟩

/-- A coined name is a word: digits behind an identifier leave it one. -/
theorem Coined.isWord (h_coined : Coined name) : IsWord name := by
  obtain ⟨text, number, rfl⟩ := h_coined
  unfold Roster.candidate
  split
  · exact isWord_identifier text
  · exact (isWord_identifier text).append_digits number

/-- Unless it begins with a digit, a coined name is its own identifier. -/
theorem Coined.identifier_eq (h_coined : Coined name)
    (h_digit : Name.beginsWithDigit name = false) : Name.identifier name = name := by
  obtain ⟨text, number, rfl⟩ := h_coined
  by_cases h_number : number = 0
  · subst h_number
    exact (Name.isStable_identifier h_digit).identifier_eq
  · rw [Roster.candidate_of_ne_zero h_number] at h_digit ⊢
    -- the number stands behind the identifier, which has the first character
    rw [Name.beginsWithDigit_append (isWord_identifier text)] at h_digit
    exact ((Name.isStable_identifier h_digit).append_digits number).identifier_eq

/-- Every name that is chosen is coined. -/
theorem coined_choose (h_root : Coined root) (mention : Mention) (roster : Roster) :
    Coined (Roster.choose definitions root mention roster).1 := by
  cases mention with
  | titled title node =>
    rw [Roster.choose]
    split
    · exact coined_identifier _
    · -- any title that is no placeholder's gets one of its candidates
      obtain ⟨number, -, h_name, -⟩ := Roster.nameTitled_first definitions title node roster
      rw [h_name]
      exact ⟨title, number, rfl⟩
  | reference target =>
    rw [Roster.choose, Roster.nameReference]
    split
    · exact h_root
    · split
      · exact coined_identifier _
      · exact coined_identifier _

/-! ## Declarations -/

/-- What stands in the type of a declaration once names are chosen. -/
theorem schemaWord_or_coined {plain : Declaration Mention} (h_root : Coined root)
    (h_declare : declare name schema = .ok plain) (roster : Roster) :
    ∀ text ∈ (nameIn definitions root plain roster).1.type.words ++
      (nameIn definitions root plain roster).1.type.mentions, IsSchemaWord text ∨ Coined text := by
  intro text h_text
  rcases List.mem_append.mp h_text with h_word | h_chosen
  · have h_words : (nameIn definitions root plain roster).1.type.words = plain.type.words :=
      TypeExpr.words_rename (Roster.choose definitions root) plain.type roster
    rw [h_words] at h_word
    exact .inl ((declare_draws h_declare).words text h_word)
  · rw [mentions_nameIn] at h_chosen
    exact .inr (TypeExpr.chooseAll_forall (P := Coined)
      (fun mention _ state => coined_choose h_root mention state) text h_chosen)

theorem legible_nameIn {plain : Declaration Mention} (h_root : Coined root) (h_name : Coined name)
    (h_declare : declare name schema = .ok plain) (roster : Roster) :
    Legible (nameIn definitions root plain roster).1 := by
  refine ⟨?_, ?_⟩
  · have h_same : (nameIn definitions root plain roster).1.name = plain.name := rfl
    rw [h_same, name_of_declare h_declare]
    exact h_name.isWord
  · intro text h_text
    rcases schemaWord_or_coined h_root h_declare roster text h_text with h_word | h_coined
    · exact newline_not_mem_of_isSchemaWord h_word
    · exact h_coined.isWord.not_mem (by decide)

/-- Claimed names and names of declarations are coined, and declarations are legible. -/
structure AllLegible (compilation : Compilation) : Prop where
  roster : ∀ own ∈ Entries.names compilation.roster, Coined own
  names : ∀ declaration ∈ compilation.made, Coined declaration.name
  made : ∀ declaration ∈ compilation.made, Legible declaration

theorem Round.allLegible (h_root : Coined root)
    (h_round : Round definitions root compilation later) (h_all : AllLegible compilation) :
    AllLegible later := by
  obtain ⟨h_next, h_declare⟩ := h_round
  rename_i own schema plain
  -- what is declared in this round was claimed before
  have h_own : Coined own := h_all.roster own
    (List.mem_map.mpr ⟨_, List.mem_of_getElem? h_next, rfl⟩)
  refine ⟨?_, ?_, ?_⟩
  · simp only
    rw [roster_nameIn]
    -- the roster grows by what is chosen, one mention after the other
    refine TypeExpr.chooseAll_preserves
      (P := fun roster => ∀ own ∈ Entries.names roster, Coined own) ?_ h_all.roster
    intro mention _ roster h_before claimed h_claimed
    obtain ⟨entry, h_entry, rfl⟩ := List.mem_map.mp h_claimed
    rcases Roster.mem_choose h_entry with h_old | ⟨h_chosen, -, -⟩
    · exact h_before _ (List.mem_map.mpr ⟨entry, h_old, rfl⟩)
    · rw [← h_chosen]
      exact coined_choose h_root mention roster
  · intro declaration h_mem
    rcases List.mem_append.mp h_mem with h_old | h_new
    · exact h_all.names declaration h_old
    · rw [List.mem_singleton.mp h_new]
      have h_name : plain.name = own := name_of_declare h_declare
      exact h_name.symm ▸ h_own
  · intro declaration h_mem
    rcases List.mem_append.mp h_mem with h_old | h_new
    · exact h_all.made declaration h_old
    · rw [List.mem_singleton.mp h_new]
      exact legible_nameIn h_root h_own h_declare _

/-- A compilation is legible, by induction over its rounds. -/
theorem allLegible_of_compile (h_compile : compile definitions name schema = .ok compilation) :
    AllLegible compilation := by
  have h_root := coined_identifier name
  refine declareFrom_induction (P := AllLegible)
    (fun before after h_round h_before => h_round.allLegible h_root h_before)
    _ ⟨[(Name.identifier name, schema)], []⟩ compilation ⟨?_, by simp, by simp⟩ h_compile
  simpa [Entries.names] using h_root

/-- The declarations of a compilation are legible. -/
theorem legible_of_compile (h_compile : compile definitions name schema = .ok compilation) :
    ∀ declaration ∈ compilation.made, Legible declaration :=
  (allLegible_of_compile h_compile).made

/-- The names of a compilation are coined. -/
theorem coined_of_compile (h_compile : compile definitions name schema = .ok compilation) :
    ∀ declaration ∈ compilation.made, Coined declaration.name :=
  (allLegible_of_compile h_compile).names

/-- The words of a compilation are those of schemas, and what it mentions is coined. -/
theorem spoken_of_compile (h_compile : compile definitions name schema = .ok compilation) :
    ∀ declaration ∈ compilation.made,
      ∀ text ∈ declaration.type.words ++ declaration.type.mentions,
        IsSchemaWord text ∨ Coined text := by
  refine declareFrom_induction
    (P := fun later => ∀ declaration ∈ later.made,
      ∀ text ∈ declaration.type.words ++ declaration.type.mentions,
        IsSchemaWord text ∨ Coined text)
    (fun before after h_round h_before => ?_) _ _ compilation (by simp) h_compile
  obtain ⟨-, h_declare⟩ := h_round
  intro declaration h_mem
  rcases List.mem_append.mp h_mem with h_old | h_new
  · exact h_before declaration h_old
  · rw [List.mem_singleton.mp h_new]
    exact schemaWord_or_coined (coined_identifier name) h_declare _

/-- The first declaration of a compilation is that of the schema. Its names are chosen when nothing
    but the schema itself has claimed one. -/
theorem exists_made_root (h_compile : compile definitions name schema = .ok compilation) :
    ∃ plain others, declare (Name.identifier name) schema = .ok plain ∧
      compilation.made = (nameIn definitions (Name.identifier name) plain
        [(Name.identifier name, schema)]).1 :: others := by
  -- the bound leaves room for the first round, which declares the root
  rw [compile, declarationBound, Nat.add_assoc, Nat.add_comm 1, declareFrom] at h_compile
  simp only [List.length_nil, List.getElem?_cons_zero] at h_compile
  split at h_compile
  · cases h_compile
  · next plain h_declare =>
    obtain ⟨others, h_made⟩ := declareFrom_induction
      (P := fun later => ∃ others, later.made = (nameIn definitions (Name.identifier name) plain
        [(Name.identifier name, schema)]).1 :: others)
      (fun before after h_round h_before => by
        obtain ⟨-, -⟩ := h_round
        obtain ⟨others, h_made⟩ := h_before
        exact ⟨others ++ [_], by rw [h_made, List.cons_append]⟩)
      _ _ compilation ⟨[], rfl⟩ h_compile
    exact ⟨plain, others, h_declare, h_made⟩

/-- The first declaration of a compilation is that of its root. -/
theorem exists_made_cons (h_compile : compile definitions name schema = .ok compilation) :
    ∃ plain roster others, declare (Name.identifier name) schema = .ok plain ∧
      compilation.made =
        (nameIn definitions (Name.identifier name) plain roster).1 :: others := by
  obtain ⟨plain, others, h_declare, h_made⟩ := exists_made_root h_compile
  exact ⟨plain, _, others, h_declare, h_made⟩

/-- A compilation declares the identifier for the name of the schema. -/
theorem root_declared (h_compile : compile definitions name schema = .ok compilation) :
    ∃ declaration ∈ compilation.made, declaration.name = Name.identifier name := by
  obtain ⟨plain, roster, others, h_declare, h_made⟩ := exists_made_cons h_compile
  rw [h_made]
  exact ⟨_, List.mem_cons_self, name_of_declare h_declare⟩

end OpenApiTs.Schema
