/-
  OpenApiTs.Proofs.TypeScript.Comments

  Where comments close. The words of a document stand in comment blocks above declarations and
  properties, in one-line comments and in the comments of functions. They are written as they are, so
  a comment closes at its end only when the words do not close it before.

  Each comment is blanks, stars and words with line feeds or blanks between them. Neither belongs to
  the end of a comment, so an end in the comment is one in the words.

  The blocks above declarations and properties are part of a text that is scrubbed once it is
  compiled. Scrubbing takes the marker of placeholders out of their words, and a star may meet a
  slash there.
-/
import OpenApiTs.Endpoint.Resolver
import OpenApiTs.Proofs.Schema.Scrub
import OpenApiTs.Proofs.Text.Avoids
import OpenApiTs.Proofs.TypeScript.Lines

namespace OpenApiTs

open OpenApiTs.Text (Avoids)
open OpenApiTs.Text.Chars (replaceAll replaceAll_append_cons replaceAll_append_of_head
  replaceAll_intercalate splitOn_replaceAll)

namespace TypeScript

/-! ## Closing -/

/-- What closes a comment. -/
def commentEnd : String := "*/"

theorem newline_not_mem : '\n' ∉ commentEnd.toList := by decide

theorem blank_not_mem : ' ' ∉ commentEnd.toList := by decide

/-- Whether a comment is closed by its own end only: it is closed, and nothing but blanks stands
    behind any place where it is. -/
def ClosesAtEnd (comment : String) : Prop :=
  Text.contains commentEnd comment = true ∧
    ∀ front back, comment = front ++ commentEnd ++ back → ∀ c ∈ back.toList, Text.isBlank c = true

/-- Where a text without the end of a comment is closed behind a blank, no other end reaches over the
    blank, so what stands behind any end stands behind that one. -/
theorem suffix_of_closed {body rest front back : List Char}
    (h_body : Avoids commentEnd.toList body)
    (h_eq : body ++ ' ' :: '*' :: '/' :: rest = front ++ '*' :: '/' :: back) : back <:+ rest := by
  rcases List.append_eq_append_iff.mp h_eq with ⟨more, rfl, h_tail⟩ | ⟨more, rfl, h_tail⟩
  · -- the other end begins behind the words: neither at the blank nor at the slash
    have h_ends : '*' :: '/' :: back <:+ ' ' :: '*' :: '/' :: rest := ⟨more, h_tail.symm⟩
    simp only [List.suffix_cons_iff, List.cons.injEq, Char.reduceEq, false_and, true_and,
      false_or] at h_ends
    rcases h_ends with rfl | h_later
    · exact List.suffix_refl _
    · exact ((List.suffix_cons '/' back).trans (List.suffix_cons '*' _)).trans h_later
  · -- it begins in the words, so the blank is none of its two characters and it lies in them
    cases more with
    | nil => simp at h_tail
    | cons first more =>
      cases more with
      | nil => simp at h_tail
      | cons second more =>
        obtain ⟨rfl, rfl, -⟩ : '*' = first ∧ '/' = second ∧ _ := by simpa using h_tail
        exact absurd ⟨front, more, by simp [commentEnd]⟩ h_body

/-- A comment with its end behind a blank closes there only when nothing before it does. -/
theorem closesAtEnd_iff {comment : String} {body rest : List Char}
    (h_comment : comment.toList = body ++ ' ' :: '*' :: '/' :: rest)
    (h_rest : ∀ c ∈ rest, Text.isBlank c = true) :
    ClosesAtEnd comment ↔ Avoids commentEnd.toList body := by
  have h_end : commentEnd.toList = ['*', '/'] := rfl
  have h_star : Text.isBlank '*' = false := by decide
  constructor
  · rintro ⟨-, h_behind⟩ ⟨front, back, h_body⟩
    -- behind an end in the words there is the star of the last one, which is no blank
    have h_blank := h_behind (String.ofList front)
      (String.ofList (back ++ ' ' :: '*' :: '/' :: rest))
      (String.toList_inj.mp (by simp [h_comment, ← h_body])) '*' (by simp)
    rw [h_star] at h_blank
    cases h_blank
  · intro h_body
    constructor
    · rw [Text.contains_iff, h_comment, h_end]
      exact ⟨body ++ [' '], rest, by simp⟩
    · intro front back h_eq c h_c
      -- any other end is that one, or it stands behind it among the blanks
      have h_chars : body ++ ' ' :: '*' :: '/' :: rest = front.toList ++ '*' :: '/' :: back.toList := by
        rw [← h_comment, h_eq]
        simp [commentEnd]
      exact h_rest c ((suffix_of_closed h_body h_chars).subset h_c)

/-! ## Comments -/

/-- Words that are written line by line, each behind an opening, avoid the end of a comment when they
    avoid it as a whole. -/
theorem avoids_docLines_iff (words : List Char) :
    Avoids commentEnd.toList
        (['\n'].intercalate ((words.splitOn '\n').map (" * ".toList ++ ·))) ↔
      Avoids commentEnd.toList words := by
  have h_line (line : List Char) :
      Avoids commentEnd.toList (" * ".toList ++ line) ↔ Avoids commentEnd.toList line := by
    have h_lead : Avoids commentEnd.toList " *".toList := by decide
    have h_split : " * ".toList ++ line = " *".toList ++ ' ' :: line := rfl
    rw [h_split, Avoids.append_cons_iff blank_not_mem, and_iff_right h_lead]
  rw [Avoids.intercalate_iff newline_not_mem (by simp), List.forall_mem_map,
    Avoids.splitOn_iff newline_not_mem words]
  simp only [h_line]

/-- The block above a declaration or a property closes at its end unless the words close it. -/
theorem docComment_closesAtEnd_iff (words : String) :
    ClosesAtEnd (docComment words) ↔ Text.contains commentEnd words = false := by
  have h_lead : Avoids commentEnd.toList "/**".toList := by decide
  have h_tail : Avoids commentEnd.toList [] := by decide
  have h_rest : ∀ c ∈ ['\n'], Text.isBlank c = true := by decide
  rw [← Text.avoids_iff_contains, ← avoids_docLines_iff,
    ← Avoids.between_iff newline_not_mem newline_not_mem h_lead h_tail]
  refine closesAtEnd_iff ?_ h_rest
  rw [toList_docComment]
  simp

/-- So does a comment in one line. -/
theorem lineComment_closesAtEnd_iff (words : String) :
    ClosesAtEnd (Endpoint.lineComment words) ↔ Text.contains commentEnd words = false := by
  have h_lead : Avoids commentEnd.toList "/**".toList := by decide
  have h_comment : (Endpoint.lineComment words).toList =
      ("/**".toList ++ ' ' :: words.toList) ++ ' ' :: '*' :: '/' :: [] := by
    simp [Endpoint.lineComment]
  rw [closesAtEnd_iff h_comment nofun, Avoids.append_cons_iff blank_not_mem, and_iff_right h_lead,
    Text.avoids_iff_contains]

/-! ## Comments of functions -/

/-- What is put at the front of the second line is no end of a comment, and makes none. -/
theorem avoids_continueFirstLine_iff (words : String) :
    Avoids commentEnd.toList (Resolver.continueFirstLine words).toList ↔
      Avoids commentEnd.toList words.toList := by
  have h_star : Avoids commentEnd.toList ['*'] := by decide
  rw [Resolver.continueFirstLine, Text.replaceFirst, String.toList_ofList]
  rcases Text.Chars.replaceFirst_cases '\n' "\n* ".toList words.toList with
    ⟨-, h_kept⟩ | ⟨front, back, h_words, h_put⟩
  · have h_eq : Text.Chars.replaceFirst "\n".toList "\n* ".toList words.toList = words.toList :=
      h_kept
    rw [h_eq]
  · have h_eq : Text.Chars.replaceFirst "\n".toList "\n* ".toList words.toList =
        front ++ '\n' :: (['*'] ++ ' ' :: back) := h_put
    rw [h_eq, h_words, Avoids.append_cons_iff newline_not_mem,
      Avoids.append_cons_iff newline_not_mem, Avoids.append_cons_iff blank_not_mem,
      and_iff_right h_star]

/-- The comment of a function that has one text. -/
theorem shortComment_closesAtEnd_iff (words : String) :
    ClosesAtEnd ("\n      /**\n       * " ++ Resolver.continueFirstLine words ++ "\n       */\n") ↔
      Text.contains commentEnd words = false := by
  have h_lead : Avoids commentEnd.toList "\n      /**\n       *".toList := by decide
  have h_tail : Avoids commentEnd.toList "      ".toList := by decide
  have h_rest : ∀ c ∈ ['\n'], Text.isBlank c = true := by decide
  rw [← Text.avoids_iff_contains, ← avoids_continueFirstLine_iff,
    ← Avoids.between_iff blank_not_mem newline_not_mem h_lead h_tail]
  refine closesAtEnd_iff ?_ h_rest
  simp

/-- The comment of a function that has a summary and a description. -/
theorem longComment_closesAtEnd_iff (summary description : String) :
    ClosesAtEnd ("\n        /**\n         * " ++ Resolver.continueFirstLine summary ++
        "\n         *\n         * @description " ++ Resolver.continueFirstLine description ++
        "\n         */\n") ↔
      Text.contains commentEnd summary = false ∧ Text.contains commentEnd description = false := by
  have h_lead : Avoids commentEnd.toList "\n        /**\n         *".toList := by decide
  have h_middle : Avoids commentEnd.toList "         *\n         * @description".toList := by decide
  have h_tail : Avoids commentEnd.toList "        ".toList := by decide
  have h_rest : ∀ c ∈ ['\n'], Text.isBlank c = true := by decide
  have h_comment : ("\n        /**\n         * " ++ Resolver.continueFirstLine summary ++
      "\n         *\n         * @description " ++ Resolver.continueFirstLine description ++
      "\n         */\n").toList =
      ("\n        /**\n         *".toList ++ ' ' :: ((Resolver.continueFirstLine summary).toList ++
        '\n' :: ("         *\n         * @description".toList ++ ' ' ::
          ((Resolver.continueFirstLine description).toList ++ '\n' :: "        ".toList)))) ++
        ' ' :: '*' :: '/' :: ['\n'] := by
    simp
  rw [closesAtEnd_iff h_comment h_rest, Avoids.append_cons_iff blank_not_mem, and_iff_right h_lead,
    Avoids.append_cons_iff newline_not_mem,
    Avoids.between_iff blank_not_mem newline_not_mem h_middle h_tail, avoids_continueFirstLine_iff,
    avoids_continueFirstLine_iff, Text.avoids_iff_contains, Text.avoids_iff_contains]

end TypeScript

namespace Resolver

open TypeScript (ClosesAtEnd commentEnd)

/-- An empty text has no end of a comment, so it makes no difference that it is left out. -/
theorem forall_filled_iff (text : Option String) :
    (∀ words, text.filter (fun words => words ≠ "") = some words →
        Text.contains commentEnd words = false) ↔
      ∀ words, text = some words → Text.contains commentEnd words = false := by
  have h_empty : Text.contains commentEnd "" = false := by decide
  constructor
  · intro h_filled words h_text
    by_cases h_words : words = ""
    · rw [h_words, h_empty]
    · exact h_filled words (by simp [h_text, h_words])
  · intro h_all words h_filled
    exact h_all words (Option.filter_eq_some_iff.mp h_filled).1

/-- The comment of a function closes at its end unless the description or the summary closes it. A
    text that is empty is left out. -/
theorem functionComment_closesAtEnd_iff {description summary : Option String} {comment : String}
    (h_comment : functionComment? description summary = some comment) :
    ClosesAtEnd comment ↔
      ∀ words, (description = some words ∨ summary = some words) →
        Text.contains commentEnd words = false := by
  simp only [or_imp, forall_and]
  rw [← forall_filled_iff description, ← forall_filled_iff summary]
  -- one text makes a short comment, two make a long one
  unfold functionComment? at h_comment
  cases h_description : description.filter fun words => words ≠ "" with
  | none =>
    cases h_summary : summary.filter fun words => words ≠ "" with
    | none => simp only [h_description, h_summary, Option.map_none, reduceCtorEq] at h_comment
    | some summed =>
      simp only [h_description, h_summary, Option.map_none, Option.map_some,
        Option.some.injEq] at h_comment
      rw [← h_comment, TypeScript.shortComment_closesAtEnd_iff]
      simp
  | some described =>
    cases h_summary : summary.filter fun words => words ≠ "" with
    | none =>
      simp only [h_description, h_summary, Option.map_none, Option.map_some,
        Option.some.injEq] at h_comment
      rw [← h_comment, TypeScript.shortComment_closesAtEnd_iff]
      simp
    | some summed =>
      simp only [h_description, h_summary, Option.map_some, Option.some.injEq] at h_comment
      rw [← h_comment, TypeScript.longComment_closesAtEnd_iff]
      simp [and_comm]

end Resolver

namespace TypeScript

theorem newline_not_mem_marker : '\n' ∉ Definitions.marker.toList := by decide

theorem slash_not_mem_marker : '/' ∉ Definitions.marker.toList := by decide

theorem marker_ne_nil : Definitions.marker.toList ≠ [] := by decide

/-- The marker goes from each line of the words, and nothing else of a comment block has it. -/
theorem replaceAll_docComment (words : String) :
    replaceAll [Definitions.marker.toList] [] (docComment words).toList =
      (docComment (Text.replaceAll Definitions.marker "" words)).toList := by
  have h_words : (Text.replaceAll Definitions.marker "" words).toList =
      replaceAll [Definitions.marker.toList] [] words.toList := String.toList_ofList
  -- the marker begins with an underscore, so it does not begin in what stands before a line
  have h_line (line : List Char) :
      replaceAll [Definitions.marker.toList] [] (" * ".toList ++ line) =
        " * ".toList ++ replaceAll [Definitions.marker.toList] [] line :=
    replaceAll_append_of_head marker_ne_nil (by decide) [] line
  have h_lead : replaceAll [Definitions.marker.toList] [] "/**".toList = "/**".toList := by
    decide +kernel
  have h_tail : replaceAll [Definitions.marker.toList] [] (" */".toList ++ ['\n']) =
      " */".toList ++ ['\n'] := by decide +kernel
  rw [toList_docComment, toList_docComment, h_words,
    replaceAll_append_cons marker_ne_nil newline_not_mem_marker,
    replaceAll_append_cons marker_ne_nil newline_not_mem_marker,
    replaceAll_intercalate marker_ne_nil newline_not_mem_marker,
    splitOn_replaceAll marker_ne_nil newline_not_mem_marker List.not_mem_nil,
    h_lead, h_tail, List.map_map, List.map_map]
  simp only [Function.comp_def, h_line]

/-- A text without aliases of placeholders keeps its comment blocks when it is scrubbed. Each is the
    block of its words without the marker then, so it closes at its end only when these have no end
    of a comment. -/
theorem scrub_docComment {front back words : String}
    (h_text : Avoids Schema.aliasClosing (front ++ docComment words ++ back).toList) :
    Schema.scrub (front ++ docComment words ++ back) =
      Schema.scrub front ++ docComment (Text.replaceAll Definitions.marker "" words) ++
        Schema.scrub back := by
  -- a block begins with a slash and ends in a line feed, which the marker has not
  obtain ⟨middle, h_block⟩ : ∃ middle, (docComment words).toList = '/' :: (middle ++ ['\n']) :=
    ⟨"**\n".toList ++ (['\n'].intercalate ((words.toList.splitOn '\n').map (" * ".toList ++ ·)) ++
      "\n */".toList), by rw [toList_docComment]; simp⟩
  have h_front : Avoids Schema.aliasClosing front.toList :=
    h_text.within ⟨[], (docComment words).toList ++ back.toList, by simp⟩
  have h_back : Avoids Schema.aliasClosing back.toList :=
    h_text.within ⟨front.toList ++ (docComment words).toList, [], by simp⟩
  have h_middle := replaceAll_docComment words
  rw [h_block, ← List.nil_append ('/' :: _),
    replaceAll_append_cons marker_ne_nil slash_not_mem_marker,
    replaceAll_append_cons marker_ne_nil newline_not_mem_marker] at h_middle
  rw [Schema.scrub_eq, Schema.scrub_eq, Schema.scrub_eq, Schema.dealias_of_avoids h_text,
    Schema.dealias_of_avoids h_front, Schema.dealias_of_avoids h_back]
  apply String.toList_inj.mp
  have h_whole : (front ++ docComment words ++ back).toList =
      front.toList ++ '/' :: (middle ++ '\n' :: back.toList) := by
    simp [h_block]
  rw [h_whole, replaceAll_append_cons marker_ne_nil slash_not_mem_marker,
    replaceAll_append_cons marker_ne_nil newline_not_mem_marker, String.toList_ofList,
    String.toList_append, String.toList_append, ← h_middle]
  simp [replaceAll]

/-- Words that have no end of a comment have one when the marker between its characters is gone. -/
example :
    Schema.typeScript.clean (.object [("type", .text "string"),
        ("description", .text "*_____OpenapiGenRequestAnyToReplace/ x")]) "note" ⟨[], []⟩ =
      .ok "/**\n * */ x\n */\nexport type Note = string\n" := by decide +kernel

end TypeScript

end OpenApiTs
