/-
  OpenApiTs.Proofs.Schema.Legal

  Which names of a compilation are legal identifiers. Every name that is declared or referred to is
  the identifier for some text, with a number behind it or without, and a legal one unless that text
  opens with a digit.
-/
import OpenApiTs.Proofs.Name.Beginning
import OpenApiTs.Proofs.Schema.Declared
import OpenApiTs.Proofs.Schema.Legible

namespace OpenApiTs.Schema

open OpenApiTs.Name (isIdentifier opensWithDigit)
open OpenApiTs.TypeScript
open Roster (candidate placeholderOf?)

variable {definitions : Definitions} {root name written : String} {schema : Json}
  {compilation : Compilation} {mention : Mention} {declaration : Declaration String}

/-- The text that the name for a mention is made from: what is left of the title of a placeholder, any
    other title as it stands, the last piece of a reference, and the name of the whole for `#`. -/
def Mention.source (definitions : Definitions) (name : String) : Mention → String
  | .titled title _ => (placeholderOf? definitions title).getD title
  | .reference target => if target = "#" then name else Text.lastPiece '/' target

/-- A mention is written with the identifier for its text, with a number or without. -/
theorem exists_candidate_choose (definitions : Definitions) (name : String) (mention : Mention)
    (roster : Roster) :
    ∃ number, (Roster.choose definitions (Name.identifier name) mention roster).1 =
      candidate (Name.identifier (mention.source definitions name)) number := by
  cases mention with
  | titled title node =>
    rw [Roster.choose, Mention.source]
    -- a placeholder has the name of its definition, any other node a candidate for its title
    split
    · next own h_own =>
      rw [h_own]
      exact ⟨0, rfl⟩
    · next h_none =>
      obtain ⟨number, -, h_name, -⟩ := Roster.nameTitled_first definitions title node roster
      rw [h_none]
      exact ⟨number, h_name⟩
  | reference target =>
    refine ⟨0, ?_⟩
    rw [Roster.choose, Roster.nameReference, Mention.source, Roster.candidate_zero]
    by_cases h_hash : target = "#"
    · rw [if_pos h_hash, if_pos h_hash]
    · rw [if_neg h_hash, if_neg h_hash]
      dsimp only
      split <;> rfl

/-- A number does not decide whether a name is legal. -/
theorem isIdentifier_candidate_iff (text : String) (number : Nat) :
    isIdentifier (candidate (Name.identifier text) number) = true ↔ opensWithDigit text = false := by
  by_cases h_number : number = 0
  · rw [h_number, Roster.candidate_zero]
    exact Name.isIdentifier_identifier_iff text
  · have h_word := Name.isWord_identifier text
    rw [Roster.candidate_of_ne_zero h_number, Name.isIdentifier_iff,
      Name.beginsWithDigit_append h_word, Name.beginsWithDigit_identifier]
    exact and_iff_right (h_word.append_digits number)

/-- Every declaration belongs to a claim. -/
theorem Sound.exists_claim (h_sound : Sound definitions root schema compilation)
    (h_declaration : declaration ∈ compilation.made) :
    ∃ name own plain, Declared definitions root compilation name own plain declaration := by
  obtain ⟨place, h_place⟩ := List.mem_iff_getElem?.mp h_declaration
  have h_within : place < compilation.roster.length :=
    Nat.lt_of_lt_of_le (List.getElem?_eq_some_iff.mp h_place).1 h_sound.length_le
  obtain ⟨plain, h_declared⟩ := h_sound.declared _ _ declaration
    (mem_zip_iff.mpr ⟨place, List.getElem?_eq_getElem h_within, h_place⟩)
  exact ⟨_, _, plain, h_declared⟩

/-- A declaration has the name of the root or one that is written for something, and whatever it
    refers to is written for something. -/
theorem Sound.written_cases (h_sound : Sound definitions root schema compilation)
    (h_declaration : declaration ∈ compilation.made)
    (h_written : written ∈ declaration.name :: declaration.type.mentions) :
    written = root ∨ ∃ mention, (mention, written) ∈ compilation.writings := by
  obtain ⟨name, own, plain, h_declared⟩ := h_sound.exists_claim h_declaration
  rcases List.mem_cons.mp h_written with rfl | h_written
  · rcases h_sound.origin _ (List.of_mem_zip h_declared.claimed).1 with h_root | ⟨mention, h_mem, -⟩
    · exact .inl (h_declared.name_eq.trans (congrArg Prod.fst h_root))
    · exact .inr ⟨mention, h_declared.name_eq.symm ▸ h_mem⟩
  · obtain ⟨before, h_named, -⟩ := h_declared.named
    -- one name is chosen for each mention
    have h_names : declaration.type.mentions.length = plain.type.mentions.length := by
      rw [← h_named, mentions_nameIn, TypeExpr.length_chooseAll]
    obtain ⟨place, h_place, rfl⟩ := List.mem_iff_getElem.mp h_written
    have h_within : place < plain.type.mentions.length := by omega
    refine .inr ⟨plain.type.mentions[place], mem_writings_iff.mpr
      ⟨name, own, declaration, plain, h_declared.claimed, h_declared.declared, ?_⟩⟩
    exact List.mem_iff_getElem?.mpr ⟨place, List.getElem?_zip_eq_some.mpr
      ⟨List.getElem?_eq_getElem h_within, List.getElem?_eq_getElem h_place⟩⟩

/-- The identifier for a text passes the test for identifiers unless the first character of the text
    that an identifier may hold, a digit in the first place left aside, is a digit. So it is with
    every name that a compilation declares or refers to, and the text that the name is made from:
    that of the root, or the one of what the name is written for. -/
theorem names_legal_iff (text : String) (definitions : Definitions) (name : String)
    (schema : Json) :
    (isIdentifier (Name.identifier text) = true ↔ opensWithDigit text = false) ∧
      ∀ compilation, compile definitions name schema = .ok compilation →
        ∀ declaration ∈ compilation.made,
          ∀ written ∈ declaration.name :: declaration.type.mentions,
            ∃ source number, written = candidate (Name.identifier source) number ∧
              (source = name ∨ ∃ mention, (mention, written) ∈ compilation.writings ∧
                source = mention.source definitions name) ∧
              (isIdentifier written = true ↔ opensWithDigit source = false) := by
  refine ⟨Name.isIdentifier_identifier_iff text, ?_⟩
  intro compilation h_compile declaration h_declaration written h_written
  have h_sound := sound_compile h_compile
  -- a name is that of the root, or was chosen for something that is mentioned
  rcases h_sound.written_cases h_declaration h_written with rfl | ⟨mention, h_mem⟩
  · exact ⟨name, 0, rfl, .inl rfl, Name.isIdentifier_identifier_iff name⟩
  · obtain ⟨before, h_chosen, -⟩ := h_sound.exists_choose h_mem
    obtain ⟨number, h_number⟩ := exists_candidate_choose definitions name mention before
    refine ⟨mention.source definitions name, number, h_chosen.symm.trans h_number,
      .inr ⟨mention, h_mem, rfl⟩, ?_⟩
    rw [← h_chosen, h_number]
    exact isIdentifier_candidate_iff _ number

/-- Only one digit at the front of a name is dropped. -/
theorem identifier_of_digits_not_legal :
    isIdentifier (Name.identifier "12ab") = false ∧
      typeScript (.object [("type", .text "string")]) "404" ⟨[], []⟩ =
        .ok "export type 04 = string\n" := by
  decide +kernel

end OpenApiTs.Schema
