/-
  OpenApiTs.Proofs.TypeScript.Lines

  The lines of a declaration: those of the comment above it, the line that exports its name, and the
  lines inside its type, none of which exports anything. The last line of a type that has several
  begins with the brace that closes it.

  The induction follows the text from the parts of a type to the whole: texts that hang on their
  first line are closed under `++`.
-/
import OpenApiTs.Proofs.Json.Print
import OpenApiTs.Proofs.Name.Identifier
import OpenApiTs.Proofs.Text.Lines
import OpenApiTs.Proofs.TypeScript.Expr
import OpenApiTs.TypeScript.Declaration

namespace OpenApiTs.TypeScript

open OpenApiTs.Text.Chars (closed closed_append closed_cons)

variable {text front back : List Char}

/-! ## Lines that export nothing -/

/-- How the line of an export begins. -/
def exportOpening : List Char := "export ".toList

/-- Whether a line exports nothing. -/
structure IsInner (line : List Char) : Prop where
  unbroken : '\n' ∉ line
  silent : ¬ exportOpening <+: line

/-- The beginning of a line that exports nothing exports nothing. -/
theorem IsInner.shortened {line whole : List Char} (h_inner : IsInner whole)
    (h_grown : line <+: whole) : IsInner line where
  unbroken := fun h_mem => h_inner.unbroken (h_grown.subset h_mem)
  silent := fun h_opening => h_inner.silent (h_opening.trans h_grown)

/-- A line exports nothing when it has, after no blank, a character that the word has not. -/
theorem not_opening {c : Char} (h_front : ' ' ∉ front) (h_c : c ∉ exportOpening) :
    ¬ exportOpening <+: front ++ c :: back := by
  intro h_opening
  -- both are beginnings of the line, so one is a beginning of the other
  have h_front' : front ++ [c] <+: front ++ c :: back := by simp
  rcases List.prefix_or_prefix_of_prefix h_opening h_front' with h_short | h_long
  · have h_blank : ' ' ∈ front ++ [c] := h_short.subset (by decide)
    rcases List.mem_append.mp h_blank with h_blank | h_blank
    · exact h_front h_blank
    · rw [← List.mem_singleton.mp h_blank] at h_c
      exact h_c (by decide)
  · exact h_c (h_long.subset (by simp))

/-! ## Comments -/

/-- The lines of a comment block with these words. -/
def commentLines (words : String) : List (List Char) :=
  "/**".toList :: (words.toList.splitOn '\n').map (" * ".toList ++ ·) ++ [" */".toList]

/-- A comment block, character by character. -/
theorem toList_docComment (words : String) :
    (docComment words).toList = "/**".toList ++ '\n' ::
      (['\n'].intercalate ((words.toList.splitOn '\n').map (" * ".toList ++ ·)) ++
        '\n' :: (" */".toList ++ ['\n'])) := by
  simp [docComment, Text.pieces, Text.Chars.pieces_eq_splitOn, Function.comp_def]

/-- A comment block is its lines, each closed. -/
theorem docComment_eq_closed (words : String) :
    (docComment words).toList = closed (commentLines words) := by
  have h_some : (words.toList.splitOn '\n').map (" * ".toList ++ ·) ≠ [] := by simp
  have h_body := Text.Chars.intercalate_append_line h_some
  rw [toList_docComment, commentLines, List.cons_append, closed_cons, closed_append, closed_cons,
    Text.Chars.closed_nil, ← h_body]
  simp

/-- No line of a comment exports anything: it begins with a slash or with a blank. -/
theorem isInner_of_mem_commentLines {words : String} {line : List Char}
    (h_line : line ∈ commentLines words) : IsInner line := by
  rcases List.mem_append.mp h_line with h_line | h_line
  · rcases List.mem_cons.mp h_line with rfl | h_line
    · exact ⟨by decide, by decide⟩
    · -- a line of the words, which has no line feed and stands behind a blank
      obtain ⟨piece, h_piece, rfl⟩ := List.mem_map.mp h_line
      have h_unbroken := Text.Chars.not_mem_of_mem_splitOn h_piece
      refine ⟨?_, ?_⟩
      · intro h_mem
        rcases List.mem_append.mp h_mem with h_mem | h_mem
        · exact absurd h_mem (by decide)
        · exact h_unbroken h_mem
      · intro h_opening
        have h_first := List.cons_prefix_cons.mp h_opening
        exact absurd h_first.1 (by decide)
  · rw [List.mem_singleton.mp h_line]
    exact ⟨by decide, by decide⟩

/-- The lines of the comment block above something that may be described. -/
def commentLinesOf : Option String → List (List Char)
  | some words => commentLines words
  | none => []

theorem docCommentOf_eq_closed (description : Option String) :
    (docCommentOf description).toList = closed (commentLinesOf description) := by
  cases description with
  | none => rfl
  | some words => exact docComment_eq_closed words

theorem isInner_of_mem_commentLinesOf {description : Option String} {line : List Char}
    (h_line : line ∈ commentLinesOf description) : IsInner line := by
  cases description with
  | none => cases h_line
  | some words => exact isInner_of_mem_commentLines h_line

/-! ## Texts that hang on their first line -/

/-- A text of one line, or one whose further lines export nothing and end in one that begins with a
    closing brace. -/
inductive Hanging : List Char → Prop where
  | flat {text : List Char} (h_flat : '\n' ∉ text) : Hanging text
  | broken {first last : List Char} {lines : List (List Char)} (h_first : '\n' ∉ first)
      (h_lines : ∀ line ∈ lines, IsInner line) (h_last : '\n' ∉ last) :
      Hanging (first ++ '\n' :: (closed lines ++ '\x7d' :: last))

/-- A line that begins with a closing brace exports nothing. -/
theorem isInner_brace {last : List Char} (h_last : '\n' ∉ last) : IsInner ('\x7d' :: last) := by
  refine ⟨?_, ?_⟩
  · simpa using h_last
  · intro h_opening
    exact absurd (List.cons_prefix_cons.mp h_opening).1 (by decide)

namespace Hanging

/-- Texts that hang on their first line stay so when they are put together. -/
theorem append (h_front : Hanging front) (h_back : Hanging back) : Hanging (front ++ back) := by
  cases h_front with
  | flat h_front =>
    cases h_back with
    | flat h_back =>
      refine .flat ?_
      simp [h_front, h_back]
    | @broken first last lines h_first h_lines h_last =>
      rw [← List.append_assoc]
      exact .broken (by simp [h_front, h_first]) h_lines h_last
  | @broken first last lines h_first h_lines h_last =>
    cases h_back with
    | flat h_back =>
      have h_whole : first ++ '\n' :: (closed lines ++ '\x7d' :: last) ++ back =
          first ++ '\n' :: (closed lines ++ '\x7d' :: (last ++ back)) := by
        simp
      rw [h_whole]
      exact .broken h_first h_lines (by simp [h_last, h_back])
    | @broken first' last' lines' h_first' h_lines' h_last' =>
      -- the last line of the front and the first of the back become one line
      have h_whole : first ++ '\n' :: (closed lines ++ '\x7d' :: last) ++
            (first' ++ '\n' :: (closed lines' ++ '\x7d' :: last')) =
          first ++ '\n' :: (closed (lines ++ ('\x7d' :: (last ++ first')) :: lines') ++
            '\x7d' :: last') := by
        simp
      rw [h_whole]
      refine .broken h_first ?_ h_last'
      intro line h_line
      rcases List.mem_append.mp h_line with h_line | h_line
      · exact h_lines line h_line
      · rcases List.mem_cons.mp h_line with rfl | h_line
        · exact isInner_brace (by simp [h_last, h_first'])
        · exact h_lines' line h_line

/-- As `append`, for texts that are joined. -/
theorem intercalate {sep : List Char} {texts : List (List Char)} (h_sep : Hanging sep)
    (h_texts : ∀ text ∈ texts, Hanging text) : Hanging (sep.intercalate texts) := by
  induction texts with
  | nil => exact .flat List.not_mem_nil
  | cons text texts ih =>
    rw [List.forall_mem_cons] at h_texts
    by_cases h_last : texts = []
    · subst h_last
      rw [List.intercalate_singleton]
      exact h_texts.1
    · rw [List.intercalate_cons_of_ne_nil h_last]
      exact (h_texts.1.append h_sep).append (ih h_texts.2)

/-- Lines that export nothing between braces. -/
theorem braces {lines : List (List Char)} (h_lines : ∀ line ∈ lines, IsInner line) :
    Hanging ('\x7b' :: '\n' :: (closed lines ++ ['\x7d'])) :=
  @Hanging.broken ['\x7b'] [] lines (by decide) h_lines List.not_mem_nil

/-- The lines of a hanging text, closed by a line feed. -/
theorem exists_lines (h_text : Hanging text) :
    ∃ first tail, text ++ ['\n'] = closed (first :: tail) ∧ '\n' ∉ first ∧
      (∀ line ∈ tail, IsInner line) ∧
      ∀ last ∈ tail.getLast?, ∃ rest, last = '\x7d' :: rest := by
  cases h_text with
  | flat h_flat => exact ⟨text, [], by simp, h_flat, by simp, by simp⟩
  | @broken first last lines h_first h_lines h_last =>
    refine ⟨first, lines ++ ['\x7d' :: last], by simp, h_first, ?_, by simp⟩
    intro line h_line
    rcases List.mem_append.mp h_line with h_line | h_line
    · exact h_lines line h_line
    · rw [List.mem_singleton.mp h_line]
      exact isInner_brace h_last

end Hanging

/-! ## Types -/

theorem hanging_parenthesize {text : String} (h_text : Hanging text.toList) :
    Hanging (parenthesize text).toList := by
  unfold parenthesize
  simp only
  split
  · rw [String.toList_append, String.toList_append]
    exact ((Hanging.flat (by decide)).append h_text).append (.flat (by decide))
  · exact h_text

theorem hanging_intercalate {sep : String} {texts : List String} (h_sep : '\n' ∉ sep.toList)
    (h_texts : ∀ text ∈ texts, Hanging text.toList) : Hanging (sep.intercalate texts).toList := by
  rw [String.toList_intercalate]
  refine Hanging.intercalate (.flat h_sep) ?_
  intro text h_text
  obtain ⟨own, h_own, rfl⟩ := List.mem_map.mp h_text
  exact h_texts own h_own

/-- Parts that are joined hang on the first line of the first of them. -/
theorem hanging_joinParts {sep : String} {texts : List String} (h_sep : '\n' ∉ sep.toList)
    (h_texts : ∀ text ∈ texts, Hanging text.toList) :
    Hanging (TypeExpr.joinParts sep texts).toList := by
  unfold TypeExpr.joinParts
  split
  · exact .flat (by decide)
  · refine hanging_intercalate h_sep ?_
    intro text h_text
    obtain ⟨own, h_own, rfl⟩ := List.mem_map.mp h_text
    exact hanging_parenthesize (h_texts own h_own)

/-- A key is bare and followed by a mark, or it begins with a quote. -/
theorem exists_keyStart (key : String) (optional : Bool) :
    ∃ front c back,
      (propertyKey key ++ (if optional then "?" else "") ++ ": ").toList = front ++ c :: back ∧
      ' ' ∉ front ∧ c ∉ exportOpening ∧ '\n' ∉ front ++ c :: back := by
  unfold propertyKey
  split
  · next h_identifier =>
    have h_word := Name.isWord_of_isIdentifier h_identifier
    have h_blank : ' ' ∉ key.toList := h_word.not_mem (by decide)
    have h_break : '\n' ∉ key.toList := h_word.not_mem (by decide)
    cases optional with
    | true =>
      exact ⟨key.toList, '?', ": ".toList, by simp, h_blank, by decide, by simp [h_break]⟩
    | false =>
      exact ⟨key.toList, ':', " ".toList, by simp, h_blank, by decide, by simp [h_break]⟩
  · -- a quoted key has its quote in front
    have h_quote : (Json.quote key).toList =
        '"' :: (key.toList.flatMap Json.escape ++ ['"']) := by
      rw [Json.quote, String.toList_ofList, List.cons_append]
    have h_unbroken := Json.newline_not_mem_quote key
    rw [h_quote] at h_unbroken
    refine ⟨[], '"', _, by
      rw [String.toList_append, String.toList_append, h_quote]
      rfl, List.not_mem_nil, by decide, ?_⟩
    cases optional <;> simpa using h_unbroken

/-- What stands before the type of a member, after the comment, stands on one line and makes no
    export of it. -/
theorem exists_memberStart (head : MemberHead) :
    ∃ comment start, head.render.toList = closed comment ++ start ∧
      (∀ line ∈ comment, IsInner line) ∧ '\n' ∉ start ∧
      ∀ rest, ¬ exportOpening <+: start ++ rest := by
  cases head with
  | index =>
    refine ⟨[], "[k: string]: ".toList, rfl, by simp, by decide, ?_⟩
    intro rest
    have h_front : ' ' ∉ ([] : List Char) := List.not_mem_nil
    exact not_opening h_front (by decide : '[' ∉ exportOpening)
  | property comment key optional =>
    -- the comment stands on lines of its own, and the key begins with something that no export
    -- begins with
    obtain ⟨front, c, back, h_key, h_blank, h_c, h_unbroken⟩ := exists_keyStart key optional
    refine ⟨commentLinesOf comment, front ++ c :: back, ?_,
      fun line => isInner_of_mem_commentLinesOf, h_unbroken, ?_⟩
    · rw [MemberHead.render, String.append_assoc, String.append_assoc, String.toList_append,
        docCommentOf_eq_closed, ← h_key, String.append_assoc]
    · intro rest
      rw [List.append_assoc, List.cons_append]
      exact not_opening h_blank h_c

mutual

/-- The text of a type whose words and names stand on one line hangs. -/
theorem hanging_render : ∀ type : TypeExpr String,
    (∀ text ∈ type.words ++ type.mentions, '\n' ∉ text.toList) → Hanging type.render.toList
  | .word text, h_flat => .flat (h_flat text (by simp [TypeExpr.words]))
  | .named name, h_flat => .flat (h_flat name (by simp [TypeExpr.mentions]))
  | .intersection parts, h_flat =>
    hanging_joinParts (by decide) (hanging_renderAll parts h_flat)
  | .union parts, h_flat => hanging_joinParts (by decide) (hanging_renderAll parts h_flat)
  | .alternatives parts, h_flat =>
    hanging_intercalate (by decide) (hanging_renderAll parts h_flat)
  | .tuple parts, h_flat => by
    rw [TypeExpr.render, String.toList_append, String.toList_append]
    exact ((Hanging.flat (by decide)).append
      (hanging_intercalate (by decide) (hanging_renderAll parts h_flat))).append
        (.flat (by decide))
  | .array element, h_flat => by
    rw [TypeExpr.render, String.toList_append]
    exact (hanging_parenthesize (hanging_render element h_flat)).append (.flat (by decide))
  | .record members, h_flat => by
    -- a record puts its members on lines of their own, between its braces
    obtain ⟨lines, h_members, h_lines⟩ := exists_lines_renderMembers members h_flat
    rw [TypeExpr.render, braces]
    split
    · exact .flat (by decide)
    · have h_text : ("\x7b\n" ++ TypeExpr.renderMembers members ++ "\x7d").toList =
          '\x7b' :: '\n' :: (closed lines ++ ['\x7d']) := by
        rw [String.toList_append, String.toList_append, h_members]
        rfl
      rw [h_text]
      exact .braces h_lines

/-- As `hanging_render`, for the parts of a type. -/
theorem hanging_renderAll : ∀ parts : List (TypeExpr String),
    (∀ text ∈ TypeExpr.wordsAll parts ++ TypeExpr.mentionsAll parts, '\n' ∉ text.toList) →
      ∀ text ∈ TypeExpr.renderAll parts, Hanging text.toList
  | [], _ => by simp [TypeExpr.renderAll]
  | part :: parts, h_flat => by
    rw [TypeExpr.renderAll, List.forall_mem_cons]
    constructor
    · refine hanging_render part fun text h_text => h_flat text ?_
      simp only [TypeExpr.wordsAll, TypeExpr.mentionsAll, List.mem_append] at h_text ⊢
      tauto
    · refine hanging_renderAll parts fun text h_text => h_flat text ?_
      simp only [TypeExpr.wordsAll, TypeExpr.mentionsAll, List.mem_append] at h_text ⊢
      tauto

/-- The members of an object stand on lines of their own, none of which exports anything. -/
theorem exists_lines_renderMembers : ∀ members : List (MemberHead × TypeExpr String),
    (∀ text ∈ TypeExpr.wordsMembers members ++ TypeExpr.mentionsMembers members,
      '\n' ∉ text.toList) →
    ∃ lines, (TypeExpr.renderMembers members).toList = closed lines ∧
      ∀ line ∈ lines, IsInner line
  | [], _ => ⟨[], rfl, by simp⟩
  | (head, type) :: members, h_flat => by
    have h_type := hanging_render type fun text h_text => h_flat text (by
      simp only [TypeExpr.wordsMembers, TypeExpr.mentionsMembers, List.mem_append] at h_text ⊢
      tauto)
    obtain ⟨others, h_others, h_inner⟩ := exists_lines_renderMembers members
      fun text h_text => h_flat text (by
        simp only [TypeExpr.wordsMembers, TypeExpr.mentionsMembers, List.mem_append] at h_text ⊢
        tauto)
    obtain ⟨comment, start, h_head, h_comment, h_start, h_silent⟩ := exists_memberStart head
    obtain ⟨first, tail, h_lines, h_first, h_tail, -⟩ := h_type.exists_lines
    -- the start of the member and the first line of its type become one line
    refine ⟨comment ++ (start ++ first) :: (tail ++ others), ?_, ?_⟩
    · rw [TypeExpr.renderMembers, String.toList_append, String.toList_append,
        String.toList_append, h_head, h_others]
      have h_line : type.render.toList ++ "\n".toList = first ++ '\n' :: closed tail := by
        rw [← closed_cons, ← h_lines]
        rfl
      simp only [closed_append, closed_cons, List.append_assoc]
      rw [← List.append_assoc _ "\n".toList, h_line]
      simp
    · intro line h_line
      rcases List.mem_append.mp h_line with h_line | h_line
      · exact h_comment line h_line
      · rcases List.mem_cons.mp h_line with rfl | h_line
        · refine ⟨?_, h_silent first⟩
          intro h_mem
          exact (List.mem_append.mp h_mem).elim h_start h_first
        · exact (List.mem_append.mp h_line).elim (h_tail line) (h_inner line)

end

/-! ## Declarations -/

/-- A declaration whose words and names stand on one line each, and whose own name is a word. -/
structure Legible (declaration : Declaration String) : Prop where
  name : Name.IsWord declaration.name
  flat : ∀ text ∈ declaration.type.words ++ declaration.type.mentions, '\n' ∉ text.toList

/-- The lines of a declaration: the comment, the line of the export, and those inside it. -/
theorem exists_lines_render (declaration : Declaration String)
    (h_flat : ∀ text ∈ declaration.type.words ++ declaration.type.mentions,
      '\n' ∉ text.toList) :
    ∃ first tail, declaration.render.toList =
        closed (commentLinesOf declaration.description ++
          ((Declaration.head declaration.form declaration.name).toList ++ first) :: tail) ∧
      '\n' ∉ first ∧ (∀ line ∈ tail, IsInner line) ∧
      ∀ last ∈ tail.getLast?, ∃ rest, last = '\x7d' :: rest := by
  obtain ⟨first, tail, h_lines, h_first, h_tail, h_last⟩ :=
    (hanging_render declaration.type h_flat).exists_lines
  refine ⟨first, tail, ?_, h_first, h_tail, h_last⟩
  -- the line feed behind the declaration closes the last line of its type
  have h_line : declaration.type.render.toList ++ "\n".toList = first ++ '\n' :: closed tail := by
    rw [← closed_cons, ← h_lines]
    rfl
  rw [Declaration.render, String.toList_append, String.toList_append, String.toList_append,
    docCommentOf_eq_closed, List.append_assoc, h_line, closed_append, closed_cons]
  simp

end OpenApiTs.TypeScript
