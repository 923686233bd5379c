/-
  OpenApiTs.Proofs.TypeScript.Heads

  What stands before the types of members, and properties of texts that go from what a type is
  written with to the whole of it: those that punctuation has, and that two texts have together when
  each of them does.

  The inductions follow the constructors of type expressions.
-/
import OpenApiTs.Proofs.Text.Lines
import OpenApiTs.Proofs.TypeScript.Expr
import OpenApiTs.TypeScript.Declaration

namespace OpenApiTs.TypeScript

variable {ν κ σ : Type} {P : List Char → Prop}

/-! ## Heads in order -/

/-- Whether the comment of a member, if it has one, is a text of a kind. -/
def MemberHead.Commented (D : String → Prop) : MemberHead → Prop
  | .property comment _ _ => ∀ words ∈ comment, D words
  | .index => True

namespace TypeExpr

mutual

/-- What stands before the types of the members of an expression, from left to right. -/
def heads : TypeExpr ν → List MemberHead
  | word _ => []
  | named _ => []
  | intersection parts => headsAll parts
  | union parts => headsAll parts
  | alternatives parts => headsAll parts
  | tuple parts => headsAll parts
  | array element => heads element
  | record members => headsMembers members

/-- The heads in parts. -/
def headsAll : List (TypeExpr ν) → List MemberHead
  | [] => []
  | part :: parts => heads part ++ headsAll parts

/-- The heads of members, each before those in its type. -/
def headsMembers : List (MemberHead × TypeExpr ν) → List MemberHead
  | [] => []
  | (head, type) :: members => head :: (heads type ++ headsMembers members)

end

mutual

/-- Replacing names leaves the heads alone. -/
theorem heads_rename (choose : ν → σ → κ × σ) : ∀ (type : TypeExpr ν) (state : σ),
    (type.rename choose state).1.heads = type.heads
  | word _, _ => rfl
  | named _, _ => rfl
  | intersection parts, state => headsAll_renameAll choose parts state
  | union parts, state => headsAll_renameAll choose parts state
  | alternatives parts, state => headsAll_renameAll choose parts state
  | tuple parts, state => headsAll_renameAll choose parts state
  | array element, state => heads_rename choose element state
  | record members, state => headsMembers_renameMembers choose members state

theorem headsAll_renameAll (choose : ν → σ → κ × σ) :
    ∀ (parts : List (TypeExpr ν)) (state : σ),
      headsAll (renameAll choose parts state).1 = headsAll parts
  | [], _ => rfl
  | part :: parts, state => by
    rw [renameAll, headsAll, headsAll, heads_rename choose part, headsAll_renameAll choose parts]

theorem headsMembers_renameMembers (choose : ν → σ → κ × σ) :
    ∀ (members : List (MemberHead × TypeExpr ν)) (state : σ),
      headsMembers (renameMembers choose members state).1 = headsMembers members
  | [], _ => rfl
  | (head, type) :: members, state => by
    rw [renameMembers, headsMembers, headsMembers, heads_rename choose type,
      headsMembers_renameMembers choose members]

end

/-- Members next to each other have the heads of both. -/
theorem headsMembers_append (front back : List (MemberHead × TypeExpr ν)) :
    headsMembers (front ++ back) = headsMembers front ++ headsMembers back := by
  induction front with
  | nil => rfl
  | cons member front ih =>
    rw [List.cons_append, headsMembers, headsMembers, ih, List.cons_append, List.append_assoc]

end TypeExpr

/-! ## Properties of texts put together -/

/-- What stands between the words, names and heads of a type, and what stands for no members and for
    no parts. -/
def punctuation : List String :=
  ["", "any", "(", ")", "[", "]", "[]", ", ", " & ", " | ", "\x7b\x7d", "\x7b\n", "\x7d", "\n"]

/-- Whether punctuation has a property, and texts put together have it when each of them does. -/
structure Spreads (P : List Char → Prop) : Prop where
  append : ∀ {front back : List Char}, P front → P back → P (front ++ back)
  punctuation : ∀ text ∈ punctuation, P text.toList

/-- The words, names and heads that a type is written with. -/
def TypeExpr.texts (type : TypeExpr String) : List String :=
  type.words ++ type.mentions ++ type.heads.map MemberHead.render

/-- As `TypeExpr.texts`, for parts. -/
def TypeExpr.textsAll (parts : List (TypeExpr String)) : List String :=
  wordsAll parts ++ mentionsAll parts ++ (headsAll parts).map MemberHead.render

/-- As `TypeExpr.texts`, for members. -/
def TypeExpr.textsMembers (members : List (MemberHead × TypeExpr String)) : List String :=
  wordsMembers members ++ mentionsMembers members ++ (headsMembers members).map MemberHead.render

theorem TypeExpr.textsAll_cons (part : TypeExpr String) (parts : List (TypeExpr String))
    (text : String) :
    text ∈ textsAll (part :: parts) ↔ text ∈ part.texts ∨ text ∈ textsAll parts := by
  simp only [textsAll, texts, wordsAll, mentionsAll, headsAll, List.map_append, List.mem_append]
  tauto

/-- The texts in a record are those of its first member, head and type, and those of the others. -/
theorem TypeExpr.textsMembers_cons (head : MemberHead) (type : TypeExpr String)
    (members : List (MemberHead × TypeExpr String)) (text : String) :
    text ∈ textsMembers ((head, type) :: members) ↔
      text = head.render ∨ text ∈ type.texts ∨ text ∈ textsMembers members := by
  simp only [textsMembers, texts, wordsMembers, mentionsMembers, headsMembers, List.map_append,
    List.map_cons, List.mem_append, List.mem_cons]
  tauto

namespace Spreads

/-- What spreads holds of texts that are joined, if it holds of them and of what joins them. -/
theorem intercalate (h_spreads : Spreads P) {sep : List Char} {texts : List (List Char)}
    (h_sep : P sep) (h_texts : ∀ text ∈ texts, P text) : P (sep.intercalate texts) := by
  induction texts with
  | nil => exact h_spreads.punctuation "" (by decide)
  | cons text texts ih =>
    rw [List.forall_mem_cons] at h_texts
    by_cases h_last : texts = []
    · subst h_last
      rw [List.intercalate_singleton]
      exact h_texts.1
    · rw [List.intercalate_cons_of_ne_nil h_last]
      exact h_spreads.append (h_spreads.append h_texts.1 h_sep) (ih h_texts.2)

/-- As `intercalate`, for texts that are no lists of characters. -/
theorem intercalate_texts (h_spreads : Spreads P) {sep : String} {texts : List String}
    (h_sep : P sep.toList) (h_texts : ∀ text ∈ texts, P text.toList) :
    P (sep.intercalate texts).toList := by
  rw [String.toList_intercalate]
  refine h_spreads.intercalate h_sep fun text h_text => ?_
  obtain ⟨own, h_own, rfl⟩ := List.mem_map.mp h_text
  exact h_texts own h_own

/-- Brackets are punctuation, so they may be put around a text. -/
theorem parenthesize (h_spreads : Spreads P) {text : String} (h_text : P text.toList) :
    P (parenthesize text).toList := by
  unfold TypeScript.parenthesize
  simp only
  split
  · rw [String.toList_append, String.toList_append]
    exact h_spreads.append (h_spreads.append (h_spreads.punctuation "(" (by decide)) h_text)
      (h_spreads.punctuation ")" (by decide))
  · exact h_text

/-- A union or an intersection has what its parts have, or is a primitive type. -/
theorem joinParts (h_spreads : Spreads P) {sep : String} {texts : List String}
    (h_sep : P sep.toList) (h_texts : ∀ text ∈ texts, P text.toList) :
    P (TypeExpr.joinParts sep texts).toList := by
  unfold TypeExpr.joinParts
  -- without parts it is a primitive type, which counts as punctuation here
  split
  · exact h_spreads.punctuation "any" (by decide)
  · refine h_spreads.intercalate_texts h_sep fun text h_text => ?_
    obtain ⟨own, h_own, rfl⟩ := List.mem_map.mp h_text
    exact h_spreads.parenthesize (h_texts own h_own)

/-- Braces are punctuation as well. -/
theorem braces (h_spreads : Spreads P) {members : String} (h_members : P members.toList) :
    P (braces members).toList := by
  unfold TypeScript.braces
  split
  · exact h_spreads.punctuation "\x7b\x7d" (by decide)
  · rw [String.toList_append, String.toList_append]
    exact h_spreads.append (h_spreads.append (h_spreads.punctuation "\x7b\n" (by decide)) h_members)
      (h_spreads.punctuation "\x7d" (by decide))

mutual

/-- The text of a type has what its words, names and heads have. -/
theorem render (h_spreads : Spreads P) : ∀ type : TypeExpr String,
    (∀ text ∈ type.texts, P text.toList) → P type.render.toList
  | .word text, h_texts => h_texts text (by simp [TypeExpr.texts, TypeExpr.words])
  | .named name, h_texts => h_texts name (by simp [TypeExpr.texts, TypeExpr.mentions])
  | .intersection parts, h_texts =>
    h_spreads.joinParts (h_spreads.punctuation " & " (by decide))
      (h_spreads.renderAll parts h_texts)
  | .union parts, h_texts =>
    h_spreads.joinParts (h_spreads.punctuation " | " (by decide))
      (h_spreads.renderAll parts h_texts)
  | .alternatives parts, h_texts =>
    h_spreads.intercalate_texts (h_spreads.punctuation " | " (by decide))
      (h_spreads.renderAll parts h_texts)
  | .tuple parts, h_texts => by
    -- brackets around parts that are joined with commas
    rw [TypeExpr.render, String.toList_append, String.toList_append]
    exact h_spreads.append (h_spreads.append (h_spreads.punctuation "[" (by decide))
      (h_spreads.intercalate_texts (h_spreads.punctuation ", " (by decide))
        (h_spreads.renderAll parts h_texts))) (h_spreads.punctuation "]" (by decide))
  | .array element, h_texts => by
    rw [TypeExpr.render, String.toList_append]
    exact h_spreads.append (h_spreads.parenthesize (h_spreads.render element h_texts))
      (h_spreads.punctuation "[]" (by decide))
  | .record members, h_texts => by
    rw [TypeExpr.render]
    exact h_spreads.braces (h_spreads.renderMembers members h_texts)

/-- The texts of parts have what the texts in them have. -/
theorem renderAll (h_spreads : Spreads P) : ∀ parts : List (TypeExpr String),
    (∀ text ∈ TypeExpr.textsAll parts, P text.toList) →
      ∀ text ∈ TypeExpr.renderAll parts, P text.toList
  | [], _ => by simp [TypeExpr.renderAll]
  | part :: parts, h_texts => by
    simp only [TypeExpr.textsAll_cons] at h_texts
    rw [TypeExpr.renderAll, List.forall_mem_cons]
    exact ⟨h_spreads.render part fun text h_text => h_texts text (.inl h_text),
      h_spreads.renderAll parts fun text h_text => h_texts text (.inr h_text)⟩

/-- A record is its heads, its types and punctuation. -/
theorem renderMembers (h_spreads : Spreads P) : ∀ members : List (MemberHead × TypeExpr String),
    (∀ text ∈ TypeExpr.textsMembers members, P text.toList) →
      P (TypeExpr.renderMembers members).toList
  | [], _ => h_spreads.punctuation "" (by decide)
  | (head, type) :: members, h_texts => by
    simp only [TypeExpr.textsMembers_cons] at h_texts
    rw [TypeExpr.renderMembers, String.toList_append, String.toList_append, String.toList_append]
    -- the head, the type, a line feed, and the other members
    refine h_spreads.append (h_spreads.append (h_spreads.append (h_texts _ (.inl rfl)) ?_)
      (h_spreads.punctuation "\n" (by decide))) ?_
    · exact h_spreads.render type fun text h_text => h_texts text (.inr (.inl h_text))
    · exact h_spreads.renderMembers members fun text h_text => h_texts text (.inr (.inr h_text))

end

end Spreads

/-! ## Characters that are left out -/

variable {c : Char}

/-- A character that no punctuation has is in a type only where one of its texts has it. -/
theorem spreads_not_mem (h_c : ∀ text ∈ punctuation, c ∉ text.toList) : Spreads (c ∉ ·) where
  append := by
    intro front back h_front h_back h_mem
    exact (List.mem_append.mp h_mem).elim h_front h_back
  punctuation := h_c

/-! ## Ends -/

/-- A character that no punctuation ends in ends a type only where it ends one of its texts. -/
theorem spreads_getLast?_ne (h_c : ∀ text ∈ punctuation, text.toList.getLast? ≠ some c) :
    Spreads (·.getLast? ≠ some c) where
  append := by
    intro front back h_front h_back
    rw [List.getLast?_append]
    -- the whole ends as its back does, or as its front when there is no back
    cases h_last : back.getLast? with
    | none => simpa using h_front
    | some last => simpa [h_last] using h_back
  punctuation := h_c

end OpenApiTs.TypeScript
