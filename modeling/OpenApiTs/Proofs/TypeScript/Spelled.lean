/-
  OpenApiTs.Proofs.TypeScript.Spelled

  What declarations are spelled with: the words, the names and the keys and comments of their types.
  A needle that is no punctuation and occurs in none of them occurs nowhere in the text of a
  declaration, since what stands between them is punctuation.

  The inductions follow the constructors of type expressions.
-/
import OpenApiTs.Proofs.Json.Quoted
import OpenApiTs.Proofs.Text.Avoids
import OpenApiTs.Proofs.Text.Lines
import OpenApiTs.TypeScript.Declaration

namespace OpenApiTs

open OpenApiTs.Text (Avoids IsSeparator Solid)

variable {needle : List Char}

/-- Whether a needle does not occur in a text. -/
def Text.FreeOf (needle : List Char) (text : String) : Prop := Avoids needle text.toList

open OpenApiTs.Text (FreeOf)

/-! ## Texts between quotes -/

namespace Json

/-- What opens an escaped text, and has no backslash, opens the text. -/
theorem prefix_of_prefix_escape {lead text : List Char} (h_plain : '\\' ∉ lead)
    (h_opens : lead <+: text.flatMap escape) : lead <+: text := by
  induction text generalizing lead with
  | nil => exact h_opens
  | cons c text ih =>
    cases lead with
    | nil => exact List.nil_prefix
    | cons l lead =>
      rw [List.mem_cons, not_or] at h_plain
      rw [List.flatMap_cons] at h_opens
      -- a character stays, or a backslash stands in front of what is put for it, and the beginning
      -- has none
      rcases escape_cases c with ⟨h_same, -⟩ | ⟨more, h_more, -⟩
      · rw [h_same, List.singleton_append, List.cons_prefix_cons] at h_opens
        rw [List.cons_prefix_cons]
        exact ⟨h_opens.1, ih h_plain.2 h_opens.2⟩
      · rw [h_more, List.cons_append, List.cons_prefix_cons] at h_opens
        exact absurd h_opens.1.symm h_plain.1

/-- Escaping makes no occurrence: what it puts has a backslash in front and no underscore. -/
theorem avoids_escape (h_solid : Solid needle) {text : List Char} (h_text : Avoids needle text) :
    Avoids needle (text.flatMap escape) := by
  have h_plain : '\\' ∉ needle := h_solid.solid '\\' (by decide)
  induction text with
  | nil => exact h_text
  | cons c text ih =>
    have h_rest := ih (h_text.within (List.suffix_cons c text).isInfix)
    rw [List.flatMap_cons]
    -- an occurrence that begins with a character that stays was there before
    rcases escape_cases c with ⟨h_same, -⟩ | ⟨more, h_more, h_code⟩
    · intro h_inside
      have h_escaped : (c :: text).flatMap escape = c :: text.flatMap escape := by
        rw [List.flatMap_cons, h_same]
        rfl
      rw [h_same, List.singleton_append] at h_inside
      rcases List.infix_cons_iff.mp h_inside with h_opens | h_later
      · rw [← h_escaped] at h_opens
        exact h_text (prefix_of_prefix_escape h_plain h_opens).isInfix
      · exact h_rest h_later
    · have h_silent : '_' ∉ more := fun h_mem => (h_code.plain '_' h_mem).2 rfl
      rw [h_more]
      exact h_solid.prepend (by simpa using h_silent) h_rest

theorem freeOf_quote (h_solid : Solid needle) {text : String} (h_text : FreeOf needle text) :
    FreeOf needle (quote text) := by
  rw [FreeOf, quote, String.toList_ofList]
  have h_opening : '_' ∉ ['"'] := by decide
  exact h_solid.append (by decide) (h_solid.prepend h_opening (avoids_escape h_solid h_text))

end Json

namespace TypeScript

variable {ν κ σ : Type} {W : String → Prop} {N : ν → Prop} {M : κ → Prop}

/-! ## What expressions are spelled with -/

/-- Whether the comment and the key of a member are spelled with such texts. -/
def MemberHead.Spelled (W : String → Prop) : MemberHead → Prop
  | property comment key _ => (∀ words ∈ comment, W words) ∧ W key
  | index => True

/-- A weaker condition on texts holds of more heads. -/
theorem MemberHead.Spelled.mono {V : String → Prop} {head : MemberHead}
    (h_texts : ∀ text, W text → V text) (h_head : head.Spelled W) : head.Spelled V := by
  cases head with
  | property comment key optional =>
    exact ⟨fun words h_words => h_texts words (h_head.1 words h_words), h_texts key h_head.2⟩
  | index => trivial

namespace TypeExpr

mutual

/-- Whether the words, keys and comments of an expression are texts with `W`, and its names are names
    with `N`. -/
def Spelled (W : String → Prop) (N : ν → Prop) : TypeExpr ν → Prop
  | word text => W text
  | named name => N name
  | intersection parts => SpelledAll W N parts
  | union parts => SpelledAll W N parts
  | alternatives parts => SpelledAll W N parts
  | tuple parts => SpelledAll W N parts
  | array element => Spelled W N element
  | record members => SpelledMembers W N members

/-- As `Spelled`, for each part. -/
def SpelledAll (W : String → Prop) (N : ν → Prop) : List (TypeExpr ν) → Prop
  | [] => True
  | part :: parts => Spelled W N part ∧ SpelledAll W N parts

/-- As `Spelled`, for each member. -/
def SpelledMembers (W : String → Prop) (N : ν → Prop) : List (MemberHead × TypeExpr ν) → Prop
  | [] => True
  | (head, type) :: members => head.Spelled W ∧ Spelled W N type ∧ SpelledMembers W N members

end

theorem spelledAll_iff {parts : List (TypeExpr ν)} :
    SpelledAll W N parts ↔ ∀ part ∈ parts, part.Spelled W N := by
  induction parts with
  | nil => simp [SpelledAll]
  | cons part parts ih => simp [SpelledAll, ih]

/-- Members next to each other are spelled as both are. -/
theorem SpelledMembers.append {front back : List (MemberHead × TypeExpr ν)}
    (h_front : SpelledMembers W N front) (h_back : SpelledMembers W N back) :
    SpelledMembers W N (front ++ back) := by
  induction front with
  | nil => exact h_back
  | cons member front ih => exact ⟨h_front.1, h_front.2.1, ih h_front.2.2⟩

mutual

/-- An expression is spelled with texts and names of every wider kind. -/
theorem Spelled.mono {V : String → Prop} {O : ν → Prop} (h_texts : ∀ text, W text → V text)
    (h_names : ∀ name, N name → O name) : ∀ type : TypeExpr ν, type.Spelled W N → type.Spelled V O
  | word text, h_type => h_texts text h_type
  | named name, h_type => h_names name h_type
  | intersection parts, h_type => SpelledAll.mono h_texts h_names parts h_type
  | union parts, h_type => SpelledAll.mono h_texts h_names parts h_type
  | alternatives parts, h_type => SpelledAll.mono h_texts h_names parts h_type
  | tuple parts, h_type => SpelledAll.mono h_texts h_names parts h_type
  | array element, h_type => Spelled.mono h_texts h_names element h_type
  | record members, h_type => SpelledMembers.mono h_texts h_names members h_type

/-- As `Spelled.mono`, for the parts of a type. -/
theorem SpelledAll.mono {V : String → Prop} {O : ν → Prop} (h_texts : ∀ text, W text → V text)
    (h_names : ∀ name, N name → O name) :
    ∀ parts : List (TypeExpr ν), SpelledAll W N parts → SpelledAll V O parts
  | [], _ => trivial
  | part :: parts, h_parts =>
    ⟨Spelled.mono h_texts h_names part h_parts.1, SpelledAll.mono h_texts h_names parts h_parts.2⟩

theorem SpelledMembers.mono {V : String → Prop} {O : ν → Prop} (h_texts : ∀ text, W text → V text)
    (h_names : ∀ name, N name → O name) :
    ∀ members : List (MemberHead × TypeExpr ν), SpelledMembers W N members →
      SpelledMembers V O members
  | [], _ => trivial
  | (_, type) :: members, h_members =>
    ⟨h_members.1.mono h_texts, Spelled.mono h_texts h_names type h_members.2.1,
      SpelledMembers.mono h_texts h_names members h_members.2.2⟩

end

mutual

/-- An expression is spelled with the names that it mentions. -/
theorem spelled_of_mentions : ∀ type : TypeExpr ν, (∀ name ∈ type.mentions, N name) →
    type.Spelled (fun _ => True) N
  | word _, _ => trivial
  | named name, h_names => h_names name List.mem_cons_self
  | intersection parts, h_names => spelledAll_of_mentions parts h_names
  | union parts, h_names => spelledAll_of_mentions parts h_names
  | alternatives parts, h_names => spelledAll_of_mentions parts h_names
  | tuple parts, h_names => spelledAll_of_mentions parts h_names
  | array element, h_names => spelled_of_mentions element h_names
  | record members, h_names => spelledMembers_of_mentions members h_names

theorem spelledAll_of_mentions : ∀ parts : List (TypeExpr ν),
    (∀ name ∈ mentionsAll parts, N name) → SpelledAll (fun _ => True) N parts
  | [], _ => trivial
  | part :: parts, h_names => by
    rw [mentionsAll, List.forall_mem_append] at h_names
    exact ⟨spelled_of_mentions part h_names.1, spelledAll_of_mentions parts h_names.2⟩

theorem spelledMembers_of_mentions : ∀ members : List (MemberHead × TypeExpr ν),
    (∀ name ∈ mentionsMembers members, N name) → SpelledMembers (fun _ => True) N members
  | [], _ => trivial
  | (head, type) :: members, h_names => by
    rw [mentionsMembers, List.forall_mem_append] at h_names
    refine ⟨?_, spelled_of_mentions type h_names.1, spelledMembers_of_mentions members h_names.2⟩
    cases head with
    | property comment key optional => exact ⟨fun _ _ => trivial, trivial⟩
    | index => trivial

end

section Renaming

variable {P : σ → Prop} {choose : ν → σ → κ × σ}

/-- Whether names of a kind are chosen to be names of another kind, from states of a kind and to
    such states. -/
def ChoosesFrom (N : ν → Prop) (M : κ → Prop) (P : σ → Prop) (choose : ν → σ → κ × σ) : Prop :=
  ∀ name, N name → ∀ state, P state → M (choose name state).1 ∧ P (choose name state).2

mutual

/-- Choosing names leaves everything else as it was spelled. -/
theorem Spelled.rename (h_choose : ChoosesFrom N M P choose) :
    ∀ (type : TypeExpr ν) (state : σ), type.Spelled W N → P state →
      (type.rename choose state).1.Spelled W M ∧ P (type.rename choose state).2
  | word _, _, h_type, h_state => ⟨h_type, h_state⟩
  | named name, state, h_type, h_state => h_choose name h_type state h_state
  | intersection parts, state, h_type, h_state => SpelledAll.rename h_choose parts state h_type h_state
  | union parts, state, h_type, h_state => SpelledAll.rename h_choose parts state h_type h_state
  | alternatives parts, state, h_type, h_state => SpelledAll.rename h_choose parts state h_type h_state
  | tuple parts, state, h_type, h_state => SpelledAll.rename h_choose parts state h_type h_state
  | array element, state, h_type, h_state => Spelled.rename h_choose element state h_type h_state
  | record members, state, h_type, h_state =>
    SpelledMembers.rename h_choose members state h_type h_state

/-- As `Spelled.rename`, for the parts of a type. -/
theorem SpelledAll.rename (h_choose : ChoosesFrom N M P choose) :
    ∀ (parts : List (TypeExpr ν)) (state : σ), SpelledAll W N parts → P state →
      SpelledAll W M (renameAll choose parts state).1 ∧ P (renameAll choose parts state).2
  | [], _, _, h_state => ⟨trivial, h_state⟩
  | part :: parts, state, h_parts, h_state => by
    obtain ⟨h_part, h_after⟩ := Spelled.rename h_choose part state h_parts.1 h_state
    obtain ⟨h_rest, h_final⟩ := SpelledAll.rename h_choose parts _ h_parts.2 h_after
    exact ⟨⟨h_part, h_rest⟩, h_final⟩

/-- As `Spelled.rename`, for the members of a record. -/
theorem SpelledMembers.rename (h_choose : ChoosesFrom N M P choose) :
    ∀ (members : List (MemberHead × TypeExpr ν)) (state : σ), SpelledMembers W N members →
      P state → SpelledMembers W M (renameMembers choose members state).1 ∧
        P (renameMembers choose members state).2
  | [], _, _, h_state => ⟨trivial, h_state⟩
  | (_, type) :: members, state, h_members, h_state => by
    obtain ⟨h_type, h_after⟩ := Spelled.rename h_choose type state h_members.2.1 h_state
    obtain ⟨h_rest, h_final⟩ := SpelledMembers.rename h_choose members _ h_members.2.2 h_after
    exact ⟨⟨h_members.1, h_type, h_rest⟩, h_final⟩

end

end Renaming

end TypeExpr

/-! ## Comments and keys -/

/-- A comment is free of what its words are free of. -/
theorem freeOf_docComment (h_solid : Solid needle) {words : String} (h_words : FreeOf needle words) :
    FreeOf needle (docComment words) := by
  rw [FreeOf, docComment, Text.toList_append_append]
  refine h_solid.prepend (by decide) (h_solid.append (by decide) ?_)
  rw [String.toList_intercalate]
  refine h_solid.intercalate ⟨by decide, '\n', by decide, by decide⟩ ?_
  intro line h_line
  obtain ⟨text, h_text, rfl⟩ := List.mem_map.mp h_line
  obtain ⟨piece, h_piece, rfl⟩ := List.mem_map.mp h_text
  obtain ⟨own, h_own, rfl⟩ := List.mem_map.mp h_piece
  -- a line of the comment has a stretch of the words behind an asterisk
  rw [String.toList_append]
  refine h_solid.prepend (by decide) (h_words.within ?_)
  rw [Text.Chars.pieces_eq_splitOn] at h_own
  have h_inside := Text.Chars.infix_intercalate ['\n'] h_own
  rwa [List.intercalate_splitOn, ← String.toList_ofList (l := own)] at h_inside

/-- A comment ends its line, so that nothing reaches from it into what follows. -/
theorem freeOf_docCommentOf_append (h_solid : Solid needle) {description : Option String}
    {text : String} (h_description : ∀ words ∈ description, FreeOf needle words)
    (h_text : FreeOf needle text) : FreeOf needle (docCommentOf description ++ text) := by
  cases description with
  | none => rwa [docCommentOf, String.empty_append]
  | some words =>
    -- the line feed at the end of the comment keeps it apart from the text
    have h_comment : (docCommentOf (some words) ++ text).toList =
        ("/**\n" ++ "\n".intercalate ((Text.pieces '\n' words).map (" * " ++ ·)) ++
          "\n */").toList ++ '\n' :: text.toList := by
      simp [docCommentOf, docComment]
    rw [FreeOf, h_comment]
    refine Avoids.append_cons (h_solid.solid '\n' (by decide)) ?_ h_text
    refine (freeOf_docComment h_solid (h_description words rfl)).within ?_
    rw [docComment]
    exact ⟨[], ['\n'], by simp⟩

/-- A key is written as it is or quoted. -/
theorem freeOf_propertyKey (h_solid : Solid needle) {key : String} (h_key : FreeOf needle key) :
    FreeOf needle (propertyKey key) := by
  unfold propertyKey
  split
  · exact h_key
  · exact Json.freeOf_quote h_solid h_key

/-! ## Types -/

theorem freeOf_any (h_solid : Solid needle) : FreeOf needle "any" :=
  Avoids.of_not_mem (List.mem_of_mem_head? h_solid.head) (by decide)

/-- Brackets belong to no solid needle. -/
theorem freeOf_parenthesize (h_solid : Solid needle) {text : String} (h_text : FreeOf needle text) :
    FreeOf needle (parenthesize text) := by
  unfold parenthesize
  simp only
  split
  · rw [FreeOf, Text.toList_append_append]
    exact h_solid.prepend (by decide) (h_solid.append (by decide) h_text)
  · exact h_text

/-- Nor do separators, so joined texts are free of what each of them is free of. -/
theorem freeOf_intercalate (h_solid : Solid needle) {sep : String} {texts : List String}
    (h_sep : IsSeparator sep.toList) (h_texts : ∀ text ∈ texts, FreeOf needle text) :
    FreeOf needle (sep.intercalate texts) := by
  rw [FreeOf, String.toList_intercalate]
  refine h_solid.intercalate h_sep fun text h_text => ?_
  obtain ⟨own, h_own, rfl⟩ := List.mem_map.mp h_text
  exact h_texts own h_own

/-- Parts that are joined are free of what each of them is free of, with brackets or without. -/
theorem freeOf_joinParts (h_solid : Solid needle) {sep : String} {texts : List String}
    (h_sep : IsSeparator sep.toList) (h_texts : ∀ text ∈ texts, FreeOf needle text) :
    FreeOf needle (TypeExpr.joinParts sep texts) := by
  unfold TypeExpr.joinParts
  split
  · exact freeOf_any h_solid
  · refine freeOf_intercalate h_solid h_sep fun text h_text => ?_
    obtain ⟨own, h_own, rfl⟩ := List.mem_map.mp h_text
    exact freeOf_parenthesize h_solid (h_texts own h_own)

theorem freeOf_braces (h_solid : Solid needle) {members : String}
    (h_members : FreeOf needle members) : FreeOf needle (braces members) := by
  unfold braces
  split
  · exact Avoids.of_not_mem (List.mem_of_mem_head? h_solid.head) (by decide)
  · rw [FreeOf, Text.toList_append_append]
    exact h_solid.prepend (by decide) (h_solid.append (by decide) h_members)

/-- The start of a member before its type. -/
theorem freeOf_member (h_solid : Solid needle) {head : MemberHead} {text : String}
    (h_head : head.Spelled (FreeOf needle)) (h_text : FreeOf needle text) :
    FreeOf needle (head.render ++ text) := by
  cases head with
  | index =>
    rw [FreeOf, String.toList_append]
    exact h_solid.prepend (by decide) h_text
  | property comment key optional =>
    have h_whole : (MemberHead.property comment key optional).render ++ text =
        docCommentOf comment ++ (propertyKey key ++ ((if optional then "?" else "") ++ ": ") ++
          text) := by
      simp only [MemberHead.render, String.append_assoc]
    rw [h_whole]
    refine freeOf_docCommentOf_append h_solid h_head.1 ?_
    rw [FreeOf, String.toList_append, String.toList_append]
    -- a colon stands between the key and the type
    have h_sep : IsSeparator ((if optional then "?" else "") ++ ": ").toList := by
      cases optional <;> exact ⟨by decide, ':', by decide, by decide⟩
    exact h_solid.join h_sep (freeOf_propertyKey h_solid h_head.2) h_text

mutual

/-- The text of an expression is free of what its words, names, keys and comments are free of. -/
theorem freeOf_render (h_solid : Solid needle) : ∀ type : TypeExpr String,
    type.Spelled (FreeOf needle) (FreeOf needle) → FreeOf needle type.render
  | .word text, h_type => by rwa [TypeExpr.render]
  | .named name, h_type => by rwa [TypeExpr.render]
  | .intersection parts, h_type => by
    rw [TypeExpr.render]
    exact freeOf_joinParts h_solid ⟨by decide, '&', by decide, by decide⟩
      (freeOf_renderAll h_solid parts h_type)
  | .union parts, h_type => by
    rw [TypeExpr.render]
    exact freeOf_joinParts h_solid ⟨by decide, '|', by decide, by decide⟩
      (freeOf_renderAll h_solid parts h_type)
  | .alternatives parts, h_type => by
    rw [TypeExpr.render]
    exact freeOf_intercalate h_solid ⟨by decide, '|', by decide, by decide⟩
      (freeOf_renderAll h_solid parts h_type)
  | .tuple parts, h_type => by
    rw [TypeExpr.render, FreeOf, Text.toList_append_append]
    refine h_solid.prepend (by decide) (h_solid.append (by decide) ?_)
    exact freeOf_intercalate h_solid ⟨by decide, ',', by decide, by decide⟩
      (freeOf_renderAll h_solid parts h_type)
  | .array element, h_type => by
    rw [TypeExpr.render, FreeOf, String.toList_append]
    exact h_solid.append (by decide)
      (freeOf_parenthesize h_solid (freeOf_render h_solid element h_type))
  | .record members, h_type => by
    rw [TypeExpr.render]
    exact freeOf_braces h_solid (freeOf_renderMembers h_solid members h_type)

/-- As `freeOf_render`, for the parts of a type. -/
theorem freeOf_renderAll (h_solid : Solid needle) : ∀ parts : List (TypeExpr String),
    TypeExpr.SpelledAll (FreeOf needle) (FreeOf needle) parts →
      ∀ text ∈ TypeExpr.renderAll parts, FreeOf needle text
  | [], _ => by simp [TypeExpr.renderAll]
  | part :: parts, h_parts => by
    rw [TypeExpr.renderAll, List.forall_mem_cons]
    exact ⟨freeOf_render h_solid part h_parts.1, freeOf_renderAll h_solid parts h_parts.2⟩

/-- As `freeOf_render`, for the members of a record. -/
theorem freeOf_renderMembers (h_solid : Solid needle) :
    ∀ members : List (MemberHead × TypeExpr String),
      TypeExpr.SpelledMembers (FreeOf needle) (FreeOf needle) members →
        FreeOf needle (TypeExpr.renderMembers members)
  | [], _ => h_solid.avoids_nil
  | (head, type) :: members, h_members => by
    rw [TypeExpr.renderMembers, String.append_assoc, String.append_assoc]
    refine freeOf_member h_solid h_members.1 ?_
    rw [← String.append_assoc, FreeOf, String.toList_append, String.toList_append]
    -- a line feed stands between the type and the other members
    exact h_solid.join ⟨by decide, '\n', by decide, by decide⟩
      (freeOf_render h_solid type h_members.2.1)
      (freeOf_renderMembers h_solid members h_members.2.2)

end

/-! ## Declarations -/

/-- Whether the description of a declaration and its type are spelled with such texts and names. -/
structure Declaration.Spelled (W : String → Prop) (N : ν → Prop) (declaration : Declaration ν) :
    Prop where
  description : ∀ words ∈ declaration.description, W words
  type : declaration.type.Spelled W N

/-- What stands before the type of a declaration: its name after some words, and a blank. -/
theorem exists_head (form : Form) (name : String) :
    ∃ lead more, (Declaration.head form name).toList = lead ++ (name.toList ++ ' ' :: more) ∧
      '_' ∉ lead ∧ '_' ∉ more := by
  match form with
  | .interface =>
    exact ⟨_, [], Text.toList_append_append "export interface " name " ", by decide, by decide⟩
  | .alias =>
    exact ⟨_, "= ".toList, Text.toList_append_append "export type " name " = ", by decide,
      by decide⟩

/-- The text of a declaration is free of what its comment, its type and its name with what follows
    are free of. -/
theorem freeOf_declaration (h_solid : Solid needle) {declaration : Declaration String}
    (h_description : ∀ words ∈ declaration.description, FreeOf needle words)
    (h_type : FreeOf needle declaration.type.render)
    (h_behind : ∀ back, Avoids needle back →
      Avoids needle (declaration.name.toList ++ ' ' :: back)) :
    FreeOf needle declaration.render := by
  obtain ⟨lead, more, h_head, h_lead, h_more⟩ := exists_head declaration.form declaration.name
  rw [Declaration.render, String.append_assoc, String.append_assoc]
  refine freeOf_docCommentOf_append h_solid h_description ?_
  rw [FreeOf, String.toList_append, String.toList_append, h_head, List.append_assoc,
    List.append_assoc, List.cons_append]
  exact h_solid.prepend h_lead
    (h_behind _ (h_solid.prepend h_more (h_solid.append (by decide) h_type)))

/-- The text of a declaration is free of what it is spelled without. -/
theorem Declaration.Spelled.freeOf_render (h_solid : Solid needle) (h_blank : ' ' ∉ needle)
    {declaration : Declaration String} (h_name : FreeOf needle declaration.name)
    (h_spelled : declaration.Spelled (FreeOf needle) (FreeOf needle)) :
    FreeOf needle declaration.render :=
  freeOf_declaration h_solid h_spelled.description
    (TypeScript.freeOf_render h_solid declaration.type h_spelled.type)
    fun _ h_back => Avoids.append_cons h_blank h_name h_back

/-- Every declaration ends its line, so that nothing reaches from one into the next. -/
theorem freeOf_renders (h_solid : Solid needle) {declarations : List (Declaration String)}
    (h_each : ∀ declaration ∈ declarations, FreeOf needle declaration.render) :
    FreeOf needle (String.join (declarations.map Declaration.render)) := by
  induction declarations with
  | nil => exact h_solid.avoids_nil
  | cons declaration declarations ih =>
    rw [List.forall_mem_cons] at h_each
    have h_rest := ih h_each.2
    rw [List.map_cons, String.join_cons]
    -- each declaration ends in a line feed, which no solid needle has
    have h_whole : (declaration.render ++
          String.join (declarations.map Declaration.render)).toList =
        (docCommentOf declaration.description ++ Declaration.head declaration.form
            declaration.name ++ declaration.type.render).toList ++
          '\n' :: (String.join (declarations.map Declaration.render)).toList := by
      simp [Declaration.render]
    rw [FreeOf, h_whole]
    refine Avoids.append_cons (h_solid.solid '\n' (by decide)) ?_ h_rest
    refine h_each.1.within ?_
    rw [Declaration.render]
    exact ⟨[], ['\n'], by simp⟩

end TypeScript

end OpenApiTs
