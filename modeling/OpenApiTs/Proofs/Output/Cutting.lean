/-
  OpenApiTs.Proofs.Output.Cutting

  Where a compiled text is cut. Lines made of blocks, each with one export and perhaps a comment right
  above it, are cut into exactly these blocks.

  The inductions go over the blocks from the first on; what stands before a block matters only by its
  last line, which closes no comment.
-/
import OpenApiTs.Output.Shared
import Mathlib.Data.List.Basic

namespace OpenApiTs.Output

/-! ## Blocks -/

/-- Whether a line exports something. -/
def isExport (line : String) : Bool := Text.opensWith "export " line

/-- The lines of one declaration: a comment or none, the line of the export, and the lines inside
    it. -/
structure Block where
  comment : List String
  head : String
  tail : List String
  comment_eq : comment = [] ∨ ∃ words, comment = "/**" :: words ++ [" */"] ∧ "/**" ∉ words
  comment_silent : ∀ line ∈ comment, isExport line = false
  head_opens : isExport head = true
  tail_silent : ∀ line ∈ tail, isExport line = false
  last_ne : (head :: tail).getLast? ≠ some " */"

/-- The lines of a block. -/
def Block.lines (block : Block) : List String := block.comment ++ block.head :: block.tail

/-- The lines of blocks, one block after the other. -/
def linesOf (blocks : List Block) : List String := blocks.flatMap Block.lines

variable {front back lines : List String} {blocks : List Block} {wanted : String} {place : Nat}

theorem getLast?_lines_ne (block : Block) : block.lines.getLast? ≠ some " */" := by
  rw [Block.lines, List.getLast?_append_of_ne_nil _ (List.cons_ne_nil _ _)]
  exact block.last_ne

/-- A block does not end in the end of a comment, so what follows it has no comment above but its
    own. -/
theorem getLast?_append_lines_ne (front : List String) (block : Block) :
    (front ++ block.lines).getLast? ≠ some " */" := by
  have h_some : block.lines ≠ [] := by simp [Block.lines]
  rw [List.getLast?_append_of_ne_nil _ h_some]
  exact getLast?_lines_ne block

/-! ## Places of exports -/

theorem exportPlaces_eq (lines : List String) :
    exportPlaces lines =
      (List.range lines.length).filter fun place => (lines[place]?.map isExport).getD false := by
  unfold exportPlaces
  congr 1
  funext place
  cases lines[place]? <;> rfl

/-- The places of exports in a second text are counted on from the first. -/
theorem exportPlaces_append (front back : List String) :
    exportPlaces (front ++ back) =
      exportPlaces front ++ (exportPlaces back).map (front.length + ·) := by
  rw [exportPlaces_eq, exportPlaces_eq, exportPlaces_eq, List.length_append, List.range_add,
    List.filter_append, List.filter_map]
  congr 1
  · apply List.filter_congr
    intro place h_place
    rw [List.getElem?_append_left (List.mem_range.mp h_place)]
  · congr 1
    apply List.filter_congr
    intro place _
    simp only [Function.comp_apply]
    rw [List.getElem?_append_right (Nat.le_add_right _ _), Nat.add_sub_cancel_left]

theorem exportPlaces_of_silent (h_silent : ∀ line ∈ lines, isExport line = false) :
    exportPlaces lines = [] := by
  rw [exportPlaces_eq, List.filter_eq_nil_iff]
  intro place h_place
  rw [List.getElem?_eq_getElem (List.mem_range.mp h_place)]
  simp [h_silent _ (List.getElem_mem _)]

theorem exportPlaces_cons_of_export {head : String} (h_head : isExport head = true)
    (h_silent : ∀ line ∈ lines, isExport line = false) : exportPlaces (head :: lines) = [0] := by
  have h_split := exportPlaces_append [head] lines
  rw [exportPlaces_of_silent h_silent, List.map_nil, List.append_nil] at h_split
  rw [List.singleton_append] at h_split
  rw [h_split, exportPlaces_eq]
  simp [h_head]

/-- A block has its export after its comment. -/
theorem exportPlaces_lines (block : Block) :
    exportPlaces block.lines = [block.comment.length] := by
  rw [Block.lines, exportPlaces_append, exportPlaces_of_silent block.comment_silent,
    exportPlaces_cons_of_export block.head_opens block.tail_silent]
  rfl

/-! ## Starts of blocks -/

theorem lastPlace?_eq_none (h_none : lastPlace? wanted lines = none) :
    lines[place]? ≠ some wanted := by
  intro h_wanted
  have h_within := (List.getElem?_eq_some_iff.mp h_wanted).1
  have h_differs := List.find?_eq_none.mp h_none place
    (List.mem_reverse.mpr (List.mem_range.mpr h_within))
  exact h_differs (by simp [h_wanted])

/-- The place that is found has the wanted line, and no later one has it. -/
theorem lastPlace?_spec (h_last : lastPlace? wanted lines = some place) :
    lines[place]? = some wanted ∧ ∀ later, place < later → lines[later]? ≠ some wanted := by
  obtain ⟨h_place, after, before, h_range, h_after⟩ := List.find?_eq_some_iff_append.mp h_last
  refine ⟨by simpa using h_place, ?_⟩
  intro later h_later h_wanted
  have h_within : later ∈ (List.range lines.length).reverse := by
    rw [List.mem_reverse, List.mem_range]
    exact (List.getElem?_eq_some_iff.mp h_wanted).1
  -- the places are looked at from the last one on
  have h_descends := List.pairwise_reverse.mpr (List.pairwise_lt_range (n := lines.length))
  rw [h_range] at h_within h_descends
  rcases List.mem_append.mp h_within with h_seen | h_rest
  · simpa [h_wanted] using h_after later h_seen
  · have h_below := (List.pairwise_cons.mp (List.pairwise_append.mp h_descends).2.1).1
    rcases List.mem_cons.mp h_rest with rfl | h_rest
    · exact Nat.lt_irrefl _ h_later
    · exact Nat.lt_asymm h_later (h_below later h_rest)

/-- The last place of a line has it, and no later place does. -/
theorem lastPlace?_eq_some_iff : lastPlace? wanted lines = some place ↔
    lines[place]? = some wanted ∧ ∀ later, place < later → lines[later]? ≠ some wanted := by
  refine ⟨lastPlace?_spec, ?_⟩
  rintro ⟨h_place, h_none⟩
  cases h_last : lastPlace? wanted lines with
  | none => exact absurd h_place (lastPlace?_eq_none h_last)
  | some other =>
    obtain ⟨h_other, h_later⟩ := lastPlace?_spec h_last
    rcases Nat.lt_trichotomy place other with h_less | h_same | h_more
    · exact absurd h_other (h_none other h_less)
    · rw [h_same]
    · exact absurd h_place (h_later place h_more)

/-- The last place of a line is the one before lines that are all different from it. -/
theorem lastPlace?_append (front : List String) (h_back : wanted ∉ back) :
    lastPlace? wanted (front ++ wanted :: back) = some front.length := by
  rw [lastPlace?_eq_some_iff]
  refine ⟨by simp, fun later h_later h_wanted => ?_⟩
  obtain ⟨distance, rfl⟩ := Nat.exists_eq_add_of_lt h_later
  rw [List.getElem?_append_right (by omega), Nat.add_assoc, Nat.add_sub_cancel_left,
    List.getElem?_cons_succ] at h_wanted
  exact h_back (List.mem_of_getElem? h_wanted)

/-- The export of a block starts where the block does. -/
theorem startOf_block (h_front : front.getLast? ≠ some " */") (block : Block)
    (back : List String) :
    startOf (front ++ (block.lines ++ back)) (front.length + block.comment.length) =
      front.length := by
  unfold startOf
  rcases block.comment_eq with h_none | ⟨words, h_comment, h_words⟩
  · -- no comment: the line above is the last before the block, or there is none
    rw [h_none, List.length_nil, Nat.add_zero, if_neg]
    rintro ⟨h_some, h_above⟩
    rw [List.getElem?_append_left (by omega), ← List.getLast?_eq_getElem?] at h_above
    exact h_front h_above
  · -- a comment: it opens at the last opening above the line that closes it
    have h_whole : front ++ (block.lines ++ back) =
        front ++ "/**" :: words ++ " */" :: (block.head :: block.tail ++ back) := by
      simp [Block.lines, h_comment]
    have h_length : front.length + block.comment.length - 1 =
        (front ++ "/**" :: words).length := by
      simp [h_comment]
    rw [h_length, h_whole, if_pos]
    · rw [List.take_left, lastPlace?_append front h_words, Option.getD_some]
    · have h_some : 0 < block.comment.length := by simp [h_comment]
      refine ⟨Nat.add_pos_right _ h_some, ?_⟩
      rw [List.getElem?_append_right (Nat.le_refl _), Nat.sub_self, List.getElem?_cons_zero]

/-- The places where blocks start, the first of them at `start`. -/
def startsFrom (start : Nat) : List Block → List Nat
  | [] => []
  | block :: blocks => start :: startsFrom (start + block.lines.length) blocks

theorem map_startOf_exportPlaces (blocks : List Block) :
    ∀ front : List String, front.getLast? ≠ some " */" →
      ((exportPlaces (linesOf blocks)).map (front.length + ·)).map
        (startOf (front ++ linesOf blocks)) = startsFrom front.length blocks := by
  induction blocks with
  | nil =>
    intro front _
    rfl
  | cons block blocks ih =>
    intro front h_front
    -- for the other blocks, this one stands in front
    have h_rest := ih (front ++ block.lines) (getLast?_append_lines_ne front block)
    have h_lines : linesOf (block :: blocks) = block.lines ++ linesOf blocks := rfl
    rw [h_lines, exportPlaces_append, exportPlaces_lines, List.map_append, List.map_append,
      List.map_singleton, List.map_singleton, startOf_block h_front, startsFrom,
      ← List.length_append, ← h_rest, List.append_assoc, List.map_map, List.map_map,
      List.map_map, List.singleton_append]
    congr 2
    funext place
    simp [Nat.add_assoc]

/-- The pieces of laid out blocks start where the blocks do. -/
theorem starts_linesOf (blocks : List Block) :
    starts (linesOf blocks) = startsFrom 0 blocks := by
  have h_starts := map_startOf_exportPlaces blocks [] (by simp)
  simp only [List.length_nil, Nat.zero_add, List.map_id', List.nil_append] at h_starts
  rw [starts, h_starts]
  -- the first piece starts at the first line, as the first block does
  cases blocks with
  | nil => rfl
  | cons block blocks => rfl

/-! ## Cutting -/

/-- Cutting there gives the lines of each block back. -/
theorem cutAt?_startsFrom (blocks : List Block) : ∀ front : List String,
    cutAt? (front ++ linesOf blocks) (startsFrom front.length blocks) =
      some (blocks.map Block.lines) := by
  induction blocks with
  | nil =>
    intro front
    rfl
  | cons block blocks ih =>
    intro front
    have h_rest := ih (front ++ block.lines)
    have h_lines : linesOf (block :: blocks) = block.lines ++ linesOf blocks := rfl
    -- the last block reaches to the end, any other to the start of the next
    cases blocks with
    | nil =>
      simp [startsFrom, cutAt?, linesOf]
    | cons next blocks =>
      rw [List.append_assoc, List.length_append] at h_rest
      rw [h_lines, startsFrom, startsFrom, cutAt?, if_neg (by omega), ← startsFrom, h_rest,
        List.drop_left, Nat.add_sub_cancel_left, List.take_left]
      rfl

/-- Lines made of blocks are cut into these blocks. -/
theorem cutAt?_linesOf (blocks : List Block) :
    cutAt? (linesOf blocks) (starts (linesOf blocks)) = some (blocks.map Block.lines) := by
  rw [starts_linesOf]
  exact cutAt?_startsFrom blocks []

end OpenApiTs.Output
