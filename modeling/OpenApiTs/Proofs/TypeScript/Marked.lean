/-
  OpenApiTs.Proofs.TypeScript.Marked

  Declarations whose names differ in marks behind them. A mark that reads as part of a word changes
  nothing about brackets, separators and braces, so the texts of such declarations differ in these
  marks only.

  The inductions follow the constructors of type expressions.
-/
import OpenApiTs.Proofs.Name.Identifier
import OpenApiTs.Proofs.Text.Marked
import OpenApiTs.Proofs.TypeScript.Congruent
import OpenApiTs.Proofs.TypeScript.Spelled

namespace OpenApiTs

open OpenApiTs.Name (IsWord inIdentifier)
open OpenApiTs.Text (Marked)

variable {mark : List Char} {long text : String}

/-! ## Texts -/

namespace Text

/-- Whether a text is another one with marks behind words. -/
def Bears (mark : List Char) (long text : String) : Prop := Marked mark long.toList text.toList

namespace Bears

theorem refl (mark : List Char) (text : String) : Bears mark text text := Marked.refl mark _

/-- Texts with marks may be put together. -/
theorem append {long' text' : String} (h_front : Bears mark long text)
    (h_back : Bears mark long' text') : Bears mark (long ++ long') (text ++ text') := by
  rw [Bears, String.toList_append, String.toList_append]
  exact Marked.append h_front h_back

/-- A mark may stand behind a word, since the last character of a word is one of identifiers. -/
theorem word (mark : String) (h_word : IsWord text) : Bears mark.toList (text ++ mark) text := by
  -- the word as its last character behind the others
  have h_last := List.dropLast_append_getLast h_word.ne_nil
  have h_inside := h_word.inside _ (List.getLast_mem h_word.ne_nil)
  rw [Bears, String.toList_append, ← h_last]
  exact Marked.behind _ h_inside

section Searching

variable (h_mark : ∀ c ∈ mark, inIdentifier c = true) (h_text : Bears mark long text)
include h_text

theorem eq_empty_iff : long = "" ↔ text = "" := by
  rw [← String.toList_eq_nil_iff, ← String.toList_eq_nil_iff]
  exact Marked.eq_nil_iff h_text

/-- As `Marked.prefix_iff`, decided. -/
theorem opensWith_eq (lead : String) (h_lead : ∀ c ∈ lead.toList, inIdentifier c = false) :
    opensWith lead long = opensWith lead text := by
  rw [Bool.eq_iff_iff, opensWith, opensWith, List.isPrefixOf_iff_prefix,
    List.isPrefixOf_iff_prefix]
  exact Marked.prefix_iff h_lead h_text

include h_mark

/-- As `Marked.infix_iff`, decided. -/
theorem contains_eq (sep : String) (h_sep : ∀ c ∈ sep.toList, inIdentifier c = false)
    (h_some : sep.toList ≠ []) : contains sep long = contains sep text := by
  rw [Bool.eq_iff_iff, contains_iff, contains_iff]
  exact Marked.infix_iff h_mark h_sep h_some h_text

/-- As `Marked.getLast?_iff`, for a text of one character. -/
theorem closesWith_eq (tail : String) {c : Char} (h_tail : tail.toList = [c])
    (h_c : inIdentifier c = false) : closesWith tail long = closesWith tail text := by
  have h_last := Marked.getLast?_iff h_mark h_c h_text
  -- to end in the text is to have its one character last
  simp only [List.getLast?_eq_some_iff] at h_last
  rw [Bool.eq_iff_iff, closesWith, closesWith, h_tail, List.isSuffixOf_iff_suffix,
    List.isSuffixOf_iff_suffix]
  simpa only [List.IsSuffix, eq_comm] using h_last

end Searching

end Bears

end Text

open OpenApiTs.Text (Bears)

namespace TypeScript

open TypeExpr (Matches MatchesAll MatchesMembers SpelledAll SpelledMembers)

variable {ν κ κ' σ σ' : Type} {W : String → Prop} {N : ν → Prop}

/-! ## Names -/

namespace TypeExpr

/-- Whether names of a kind are chosen in two ways with a relation between them, from states with a
    relation between them and to such states. -/
def ChoosesBoth (N : ν → Prop) (R : κ → κ' → Prop) (P : σ → σ' → Prop) (choose : ν → σ → κ × σ)
    (choose' : ν → σ' → κ' × σ') : Prop :=
  ∀ name, N name → ∀ state state', P state state' →
    R (choose name state).1 (choose' name state').1 ∧
      P (choose name state).2 (choose' name state').2

variable {R : κ → κ' → Prop} {P : σ → σ' → Prop} {choose : ν → σ → κ × σ}
  {choose' : ν → σ' → κ' × σ'}

mutual

/-- An expression with its names chosen in two ways: the two match in what relates the names. -/
theorem Spelled.rename_matches (h_choose : ChoosesBoth N R P choose choose') :
    ∀ (type : TypeExpr ν) (state : σ) (state' : σ'), type.Spelled W N → P state state' →
      Matches R (type.rename choose state).1 (type.rename choose' state').1 ∧
        P (type.rename choose state).2 (type.rename choose' state').2
  | word _, _, _, _, h_state => ⟨rfl, h_state⟩
  | named name, state, state', h_type, h_state => h_choose name h_type state state' h_state
  | intersection parts, state, state', h_type, h_state =>
    SpelledAll.rename_matches h_choose parts state state' h_type h_state
  | union parts, state, state', h_type, h_state =>
    SpelledAll.rename_matches h_choose parts state state' h_type h_state
  | alternatives parts, state, state', h_type, h_state =>
    SpelledAll.rename_matches h_choose parts state state' h_type h_state
  | tuple parts, state, state', h_type, h_state =>
    SpelledAll.rename_matches h_choose parts state state' h_type h_state
  | array element, state, state', h_type, h_state =>
    Spelled.rename_matches h_choose element state state' h_type h_state
  | record members, state, state', h_type, h_state =>
    SpelledMembers.rename_matches h_choose members state state' h_type h_state

/-- As `Spelled.rename_matches`, for the parts of a type. -/
theorem SpelledAll.rename_matches (h_choose : ChoosesBoth N R P choose choose') :
    ∀ (parts : List (TypeExpr ν)) (state : σ) (state' : σ'), SpelledAll W N parts →
      P state state' → MatchesAll R (renameAll choose parts state).1
          (renameAll choose' parts state').1 ∧
        P (renameAll choose parts state).2 (renameAll choose' parts state').2
  | [], _, _, _, h_state => ⟨trivial, h_state⟩
  | part :: parts, state, state', h_parts, h_state => by
    obtain ⟨h_part, h_after⟩ :=
      Spelled.rename_matches h_choose part state state' h_parts.1 h_state
    obtain ⟨h_rest, h_final⟩ :=
      SpelledAll.rename_matches h_choose parts _ _ h_parts.2 h_after
    exact ⟨⟨h_part, h_rest⟩, h_final⟩

/-- As `Spelled.rename_matches`, for the members of a record. -/
theorem SpelledMembers.rename_matches (h_choose : ChoosesBoth N R P choose choose') :
    ∀ (members : List (MemberHead × TypeExpr ν)) (state : σ) (state' : σ'),
      SpelledMembers W N members → P state state' →
      MatchesMembers R (renameMembers choose members state).1
          (renameMembers choose' members state').1 ∧
        P (renameMembers choose members state).2 (renameMembers choose' members state').2
  | [], _, _, _, h_state => ⟨trivial, h_state⟩
  | (_, type) :: members, state, state', h_members, h_state => by
    obtain ⟨h_type, h_after⟩ :=
      Spelled.rename_matches h_choose type state state' h_members.2.1 h_state
    obtain ⟨h_rest, h_final⟩ :=
      SpelledMembers.rename_matches h_choose members _ _ h_members.2.2 h_after
    exact ⟨⟨rfl, h_type, h_rest⟩, h_final⟩

end

end TypeExpr

/-! ## Types -/

/-- Marks change nothing about brackets, separators and braces. -/
theorem congruent_bears (h_mark : ∀ c ∈ mark, inIdentifier c = true) : Congruent (Bears mark) where
  refl := Bears.refl mark
  append := Bears.append
  signs h_text :=
    { empty_iff := h_text.eq_empty_iff
      union := h_text.contains_eq h_mark " | " (by decide) (by decide)
      intersection := h_text.contains_eq h_mark " & " (by decide) (by decide)
      opening := h_text.opensWith_eq "(" (by decide)
      closing := h_text.closesWith_eq h_mark ")" rfl (by decide)
      brace := h_text.opensWith_eq "\x7b" (by decide) }

/-! ## Declarations -/

/-- Whether two declarations are the same but for marks that the names in the first one's type
    bear. -/
structure Declaration.BearsMarks (mark : List Char) (declaration declaration' : Declaration String) :
    Prop where
  name : declaration.name = declaration'.name
  description : declaration.description = declaration'.description
  form : declaration.form = declaration'.form
  type : Matches (Bears mark) declaration.type declaration'.type

theorem Declaration.BearsMarks.alike {declaration declaration' : Declaration String}
    (h_bears : declaration.BearsMarks mark declaration') :
    declaration.Alike (Bears mark) declaration' where
  name := h_bears.name ▸ Bears.refl mark _
  description := h_bears.description
  form := h_bears.form
  type := h_bears.type

/-- Declarations that differ in marks are written as texts that differ in marks. -/
theorem bears_renders (h_mark : ∀ c ∈ mark, inIdentifier c = true)
    {declarations declarations' : List (Declaration String)}
    (h_each : List.Forall₂ (Declaration.BearsMarks mark) declarations declarations') :
    Bears mark (String.join (declarations.map Declaration.render))
      (String.join (declarations'.map Declaration.render)) :=
  (congruent_bears h_mark).renders (h_each.imp fun _ _ h_bears => h_bears.alike)

end TypeScript

end OpenApiTs
