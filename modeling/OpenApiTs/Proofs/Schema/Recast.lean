/-
  OpenApiTs.Proofs.Schema.Recast

  The text of one schema compiled under two names. Nothing that is looked for in the text of
  declarations, neither brackets nor the aliases and markers of placeholders, reaches into the words
  for the root; so the two texts are the same but for these words, placeholders scrubbed or not.
-/
import OpenApiTs.Proofs.Schema.Aliases
import OpenApiTs.Proofs.Schema.Rerooted
import OpenApiTs.Proofs.Text.Renamed

namespace OpenApiTs.Schema

open OpenApiTs.Definitions (marker)
open OpenApiTs.Outcome (Corresponds)
open OpenApiTs.Text (KeepsOff KeepsOffAll Renamed Renames charPairs)
open OpenApiTs.Text.Renamed (exists_after exists_before)
open OpenApiTs.TypeScript

variable {definitions : Definitions} {pairs : List (String × String)} {name name' : String}
  {schema schema' : Json} {words : List (List Char × List Char)} {word text text' line line' :
  List Char} {lines lines' : List (List Char)}

/-! ## Words for the root -/

/-- Whether words can stand for each other as names of declarations: they are on one line, and nothing
    that is looked for in the text of declarations reaches into them. -/
structure Interchangeable (pairs : List (String × String)) : Prop where
  flat : ∀ pair ∈ charPairs pairs, '\n' ∉ pair.1 ∧ '\n' ∉ pair.2
  signs : ∀ sign ∈ [" | ", " & ", "(", ")", "\x7b"], KeepsOffAll sign.toList (charPairs pairs)
  marker : KeepsOffAll Definitions.marker.toList (charPairs pairs)
  opening : KeepsOffAll aliasOpening (charPairs pairs)
  closing : KeepsOffAll aliasClosing (charPairs pairs)

/-- Replacing such words is respected by all that types are written with. -/
theorem Interchangeable.congruent (h_words : Interchangeable pairs) : Congruent (Renames pairs) where
  refl := Renames.refl pairs
  append := Renames.append
  signs h_text :=
    { empty_iff := h_text.eq_empty_iff (h_words.signs "(" (by simp))
      union := h_text.contains_eq (h_words.signs " | " (by simp))
      intersection := h_text.contains_eq (h_words.signs " & " (by simp))
      opening := h_text.opensWith_eq (h_words.signs "(" (by simp))
      closing := h_text.closesWith_eq (h_words.signs ")" (by simp))
      brace := h_text.opensWith_eq (h_words.signs "\x7b" (by simp)) }

/-! ## Openings of aliases -/

/-- Without an opening that something follows, the search goes on behind the first character. -/
theorem beforeOpening?_cons {c : Char}
    (h_none : ∀ rest, c :: text = aliasOpening ++ rest → rest = []) :
    beforeOpening? (c :: text) = (beforeOpening? text).map (c :: ·) := by
  rw [beforeOpening?]
  split
  · next d rest h_after =>
    have h_nil := h_none _ (Text.Chars.after?_eq_some_iff.mp h_after)
    cases h_nil
  · rfl

/-- No alias opens in a word that its opening keeps off. -/
theorem beforeOpening?_word (h_off : KeepsOff aliasOpening word) (text : List Char) :
    beforeOpening? (word ++ text) = (beforeOpening? text).map (word ++ ·) := by
  -- for each tail of the word, since the opening is looked for character by character
  have h_tails : ∀ tail, tail <:+ word →
      beforeOpening? (tail ++ text) = (beforeOpening? text).map (tail ++ ·) := by
    intro tail
    induction tail with
    | nil => exact fun _ => Option.map_id'.symm
    | cons c tail ih =>
      intro h_tail
      rw [List.cons_append, beforeOpening?_cons, ih ((List.suffix_cons c tail).trans h_tail),
        Option.map_map]
      · rfl
      · intro rest h_rest
        exact absurd ⟨rest, h_rest.symm⟩
          (h_off.not_opens h_tail (List.cons_ne_nil c tail) text)
  exact h_tails word (List.suffix_refl word)

/-- What is made of renamed texts in a renaming way is renamed. -/
theorem rel_map {f g : List Char → List Char} {front front' : Option (List Char)}
    (h_fronts : Option.Rel (Renamed words) front front')
    (h_made : ∀ own own', Renamed words own own' → Renamed words (f own) (g own')) :
    Option.Rel (Renamed words) (front.map f) (front'.map g) := by
  cases h_fronts with
  | some h_own => exact .some (h_made _ _ h_own)
  | none => exact .none

/-- What stands before the opening of an alias corresponds. -/
theorem beforeOpening?_renamed (h_off : KeepsOffAll aliasOpening words)
    (h_text : Renamed words text text') :
    Option.Rel (Renamed words) (beforeOpening? text) (beforeOpening? text') := by
  induction h_text with
  | nil => exact .none
  | @same text text' c h_text ih =>
    -- an opening begins here on one side exactly when it begins here on the other
    by_cases h_opens : ∃ rest, c :: text = aliasOpening ++ rest ∧ rest ≠ []
    · obtain ⟨rest, h_rest, h_some⟩ := h_opens
      obtain ⟨rest', h_rest', h_renamed⟩ := exists_after h_off (.same c h_text) h_rest
      rw [h_rest, h_rest', beforeOpening?_append h_some,
        beforeOpening?_append (mt (h_renamed.eq_nil_iff h_off).mpr h_some)]
      exact .some .nil
    · push Not at h_opens
      have h_opens' : ∀ rest, c :: text' = aliasOpening ++ rest → rest = [] := by
        intro rest' h_rest'
        obtain ⟨rest, h_rest, h_renamed⟩ :=
          exists_after h_off.swap (Renamed.same c h_text).swap h_rest'
        exact (h_renamed.eq_nil_iff h_off.swap).mpr (h_opens rest h_rest)
      rw [beforeOpening?_cons h_opens, beforeOpening?_cons h_opens']
      exact rel_map ih fun _ _ => .same c
  | word h_pair h_text ih =>
    obtain ⟨h_word, h_word'⟩ := h_off _ h_pair
    rw [beforeOpening?_word h_word, beforeOpening?_word h_word']
    exact rel_map ih fun _ _ => .word h_pair

/-! ## Scrubbing -/

/-- What is left of the lines of aliases corresponds. -/
theorem aliasRest?_renamed (h_opening : KeepsOffAll aliasOpening words)
    (h_closing : KeepsOffAll aliasClosing words) (h_line : Renamed words line line') :
    Option.Rel (Renamed words) (aliasRest? line) (aliasRest? line') := by
  rw [aliasRest?, aliasRest?]
  -- the end of an alias ends both lines or neither
  by_cases h_closes : aliasClosing <:+ line
  · obtain ⟨front, h_front⟩ := h_closes
    obtain ⟨front', h_front', h_renamed⟩ := exists_before h_closing h_line h_front.symm
    rw [Text.Chars.before?_eq_some_iff.mpr h_front.symm, Text.Chars.before?_eq_some_iff.mpr h_front']
    exact beforeOpening?_renamed h_opening h_renamed
  · have h_closes' := mt (h_line.suffix_iff h_closing).mpr h_closes
    have h_none {own : List Char} (h_own : ¬ aliasClosing <:+ own) :
        Text.Chars.before? aliasClosing own = none := by
      rw [Option.eq_none_iff_forall_ne_some]
      intro front h_front
      exact h_own ⟨front, (Text.Chars.before?_eq_some_iff.mp h_front).symm⟩
    rw [h_none h_closes, h_none h_closes']
    exact .none

/-- A line is kept or cut on both sides, and what is kept of it is renamed. -/
theorem keptLine_renamed (h_opening : KeepsOffAll aliasOpening words)
    (h_closing : KeepsOffAll aliasClosing words) (h_line : Renamed words line line') :
    Renamed words (keptLine line) (keptLine line') := by
  have h_rest := aliasRest?_renamed h_opening h_closing h_line
  rw [keptLine, keptLine]
  generalize aliasRest? line = rest at h_rest ⊢
  generalize aliasRest? line' = rest' at h_rest ⊢
  cases h_rest with
  | some h_rest => exact h_rest
  | none => exact h_line.append (.refl words ['\n'])

/-- Of renamed lines the same are kept. -/
theorem withoutAliases_renamed (h_opening : KeepsOffAll aliasOpening words)
    (h_closing : KeepsOffAll aliasClosing words) (h_lines : List.Forall₂ (Renamed words) lines lines') :
    Renamed words (withoutAliases lines) (withoutAliases lines') := by
  induction h_lines with
  | nil => exact .nil
  | cons h_line h_others ih =>
    -- the last line is never cut
    cases h_others with
    | nil => exact h_line
    | cons h_next h_more =>
      exact (keptLine_renamed h_opening h_closing h_line).append ih

/-- Texts that are the same but for such words are so once placeholders are scrubbed. -/
theorem Interchangeable.scrub {text text' : String} (h_words : Interchangeable pairs)
    (h_text : Renames pairs text text') : Renames pairs (scrub text) (scrub text') := by
  have h_kept : Renamed (charPairs pairs) (dealias text.toList) (dealias text'.toList) := by
    rw [dealias, dealias, Text.Chars.pieces_eq_splitOn, Text.Chars.pieces_eq_splitOn]
    exact withoutAliases_renamed h_words.opening h_words.closing
      (Renamed.splitOn h_words.flat h_text)
  rw [Renames, scrub_eq, scrub_eq, String.toList_ofList, String.toList_ofList]
  exact h_kept.replaceAll_nil (by decide) h_words.marker

/-! ## Compiled texts -/

/-- Whether two failures are of compilations, for one reason, with names that stand for each other. -/
inductive CompileFailures (pairs : List (String × String)) : Failure → Failure → Prop where
  | compile {name name' : String} (h_names : Renames pairs name name') (message : String) :
      CompileFailures pairs (.compile name message) (.compile name' message)

/-- A schema compiled under two names that stand for each other comes to texts that are the same but
    for the two, or fails for one reason. -/
theorem clean_corresponds (h_words : Interchangeable pairs) (h_schema : schema.WellFormed)
    (h_schema' : schema'.WellFormed) (h_definitions : Json.WellFormedFields definitions.schemas)
    (h_comparable : Comparable definitions (Renames pairs) (Name.identifier name)
      (Name.identifier name') schema schema') :
    Corresponds (CompileFailures pairs) (Renames pairs) (typeScript.clean schema name definitions)
      (typeScript.clean schema' name' definitions) := by
  have h_texts : Corresponds (CompileFailures pairs) (Renames pairs)
      (typeScript schema name definitions) (typeScript schema' name' definitions) := by
    have h_compile := compile_corresponds h_schema h_schema' h_definitions h_comparable
    rw [typeScript, typeScript]
    generalize compile definitions name schema = outcome at h_compile ⊢
    generalize compile definitions name' schema' = outcome' at h_compile ⊢
    -- both compilations fail with the same fault, or make declarations that are renamed
    cases h_compile with
    | error h_malformed =>
      simp only [Malformed.failure, h_malformed.fault]
      exact .error (.compile h_malformed.name _)
    | ok h_made => exact .ok (h_words.congruent.renders h_made)
  exact h_texts.map fun _ _ => h_words.scrub

end OpenApiTs.Schema
