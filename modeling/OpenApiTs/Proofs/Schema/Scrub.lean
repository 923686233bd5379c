/-
  OpenApiTs.Proofs.Schema.Scrub

  The text that a schema is compiled to, and what scrubbing leaves of it. Text in which no alias of
  a placeholder ends keeps its lines, and text that does not hold the marker of placeholders is left
  as it is.
-/
import OpenApiTs.Proofs.Outcome
import OpenApiTs.Proofs.Text.Avoids
import OpenApiTs.Proofs.Text.Lines
import OpenApiTs.Schema.Scrub

namespace OpenApiTs

open OpenApiTs.Text (Avoids)
open OpenApiTs.Text.Chars (occurs replaceAll)

variable {needle text line : List Char} {lines : List (List Char)}

/-! ## Occurrences -/

namespace Text.Chars

/-- Nothing is replaced where the needle does not occur. -/
theorem replaceAll_of_not_occurs (put : List Char) (h_absent : occurs needle text = false) :
    replaceAll [needle] put text = text := by
  apply replaceAll_eq_self
  intro own h_own
  rw [List.mem_singleton.mp h_own, ← occurs_iff_infix, h_absent]
  exact Bool.false_ne_true

end Text.Chars

namespace Schema

/-! ## Compiled text -/

section Compiled

variable {definitions : Definitions} {name written : String} {schema : Json}

/-- A compiled text is the text of a compilation. -/
theorem typeScript_eq_ok_iff :
    typeScript schema name definitions = .ok written ↔
      ∃ compilation, compile definitions name schema = .ok compilation ∧
        compilation.render = written := by
  unfold typeScript
  cases compile definitions name schema with
  | ok compilation => simp
  | error malformed => simp

/-- Compiling fails as the compilation does. -/
theorem typeScript_eq_error_iff {failure : Failure} :
    typeScript schema name definitions = .error failure ↔
      ∃ malformed, compile definitions name schema = .error malformed ∧
        malformed.failure = failure := by
  unfold typeScript
  cases compile definitions name schema with
  | ok compilation => simp
  | error malformed => simp

/-- A clean text is what scrubbing leaves of the text of a compilation. -/
theorem clean_eq_ok_iff :
    typeScript.clean schema name definitions = .ok written ↔
      ∃ compilation, compile definitions name schema = .ok compilation ∧
        scrub compilation.render = written := by
  rw [Compiler.clean, Outcome.map_eq_ok_iff]
  constructor
  · rintro ⟨compiled, h_compiled, h_scrub⟩
    obtain ⟨compilation, h_compile, rfl⟩ := typeScript_eq_ok_iff.mp h_compiled
    exact ⟨compilation, h_compile, h_scrub⟩
  · rintro ⟨compilation, h_compile, h_scrub⟩
    exact ⟨compilation.render, typeScript_eq_ok_iff.mpr ⟨compilation, h_compile, rfl⟩, h_scrub⟩

end Compiled

/-! ## Text without aliases -/

/-- The text without the lines that declare the aliases of placeholders. -/
def dealias (text : List Char) : List Char :=
  withoutAliases (Text.Chars.pieces (· == '\n') text)

/-- Scrubbing takes the aliases away first and the marker afterwards. -/
theorem scrub_eq (text : String) :
    scrub text = String.ofList (replaceAll [Definitions.marker.toList] [] (dealias text.toList)) :=
  rfl

/-- A line in which no alias ends declares none. -/
theorem aliasRest?_of_avoids (h_line : Avoids aliasClosing line) : aliasRest? line = none := by
  rw [aliasRest?, Option.bind_eq_none_iff]
  intro front h_front
  rw [Text.Chars.before?_eq_some_iff] at h_front
  exact absurd ⟨front, [], by rw [h_front, List.append_nil]⟩ h_line

/-- Lines that declare no alias are put together as they were. -/
theorem withoutAliases_eq_intercalate (h_lines : ∀ line ∈ lines, aliasRest? line = none) :
    withoutAliases lines = ['\n'].intercalate lines := by
  induction lines with
  | nil => rfl
  | cons line lines ih =>
    rw [List.forall_mem_cons] at h_lines
    cases lines with
    | nil => rw [withoutAliases, List.intercalate_singleton]
    | cons next others =>
      rw [withoutAliases, h_lines.1, ih h_lines.2,
        List.intercalate_cons_of_ne_nil (List.cons_ne_nil next others)]

/-- A text in which no alias ends stays as it is. -/
theorem dealias_of_avoids (h_text : Avoids aliasClosing text) : dealias text = text := by
  rw [dealias, Text.Chars.pieces_eq_splitOn, withoutAliases_eq_intercalate,
    List.intercalate_splitOn]
  intro line h_line
  have h_inside := Text.Chars.infix_intercalate ['\n'] h_line
  rw [List.intercalate_splitOn] at h_inside
  exact aliasRest?_of_avoids (h_text.within h_inside)

/-- Text without the marker is left as it is. -/
theorem scrub_of_not_contains {text : String}
    (h_absent : Text.contains Definitions.marker text = false) : scrub text = text := by
  rw [Text.contains] at h_absent
  have h_marker : Avoids Definitions.marker.toList text.toList := by
    rwa [Avoids, ← Text.Chars.occurs_iff_infix, Bool.not_eq_true]
  -- the end of an alias has the marker in it
  have h_closing : Avoids aliasClosing text.toList :=
    h_marker.of_part ⟨[], " = any".toList, by rw [aliasClosing, String.toList_append]; rfl⟩
  rw [scrub_eq, dealias_of_avoids h_closing, Text.Chars.replaceAll_of_not_occurs [] h_absent,
    String.ofList_toList]

end Schema

end OpenApiTs
