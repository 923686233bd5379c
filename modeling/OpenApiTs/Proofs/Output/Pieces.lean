/-
  OpenApiTs.Proofs.Output.Pieces

  When a compiled text can be cut, whatever it says. A declaration starts at the comment right above
  its export, and that comment is looked for backwards past everything, other exports included. So
  the starts of declarations are within the lines, but they stand in order only when no such comment
  opens above an export that has to start a piece itself. The pieces then hold every line once, in
  order.

  The starts are compared two at a time: exports stand in order, and a start that falls behind an
  earlier one falls behind its export.
-/
import OpenApiTs.Proofs.Output.Cutting
import Mathlib.Data.List.Chain

namespace OpenApiTs.Output

variable {lines : List String} {place next opener : Nat}

/-! ## Comments above exports -/

/-- Whether the comment that ends right above a place opens at `opener`: no later line before its
    end opens one. -/
structure CommentAbove (lines : List String) (place opener : Nat) : Prop where
  inside : opener + 1 < place
  closes : lines[place - 1]? = some " */"
  opens : lines[opener]? = some "/**"
  last : ∀ later, opener < later → later + 1 < place → lines[later]? ≠ some "/**"

theorem getElem?_take_iff {line : String} {count : Nat} :
    (lines.take count)[place]? = some line ↔ place < count ∧ lines[place]? = some line := by
  rw [List.getElem?_take]
  split
  · next h_before => simp [h_before]
  · next h_after => simp [h_after]

/-- A declaration starts where the comment right above its export opens, and at its export when
    there is no such comment. -/
theorem startOf_spec (lines : List String) (place : Nat) :
    CommentAbove lines place (startOf lines place) ∨
      startOf lines place = place ∧ ∀ opener, ¬ CommentAbove lines place opener := by
  unfold startOf
  split
  · next h_above =>
    -- above the closing line the opening is looked for, and may be missing
    cases h_last : lastPlace? "/**" (lines.take (place - 1)) with
    | some opener =>
      obtain ⟨h_opens, h_later⟩ := lastPlace?_eq_some_iff.mp h_last
      obtain ⟨h_before, h_opens⟩ := getElem?_take_iff.mp h_opens
      refine .inl ⟨by simpa using (by omega : opener + 1 < place), h_above.2, h_opens, ?_⟩
      intro later h_behind h_inside h_open
      exact h_later later h_behind (getElem?_take_iff.mpr ⟨by omega, h_open⟩)
    | none =>
      refine .inr ⟨rfl, fun opener h_comment => ?_⟩
      have h_inside := h_comment.inside
      exact lastPlace?_eq_none h_last (getElem?_take_iff.mpr ⟨by omega, h_comment.opens⟩)
  · next h_none =>
    refine .inr ⟨rfl, fun opener h_comment => h_none ⟨?_, h_comment.closes⟩⟩
    have h_inside := h_comment.inside
    omega

/-- One place at most opens the comment above an export. -/
theorem CommentAbove.unique {other : Nat} (h_comment : CommentAbove lines place opener)
    (h_other : CommentAbove lines place other) : opener = other := by
  rcases Nat.lt_trichotomy opener other with h_less | h_same | h_more
  · exact absurd h_other.opens (h_comment.last other h_less h_other.inside)
  · exact h_same
  · exact absurd h_comment.opens (h_other.last opener h_more h_comment.inside)

/-- A piece with a comment above starts at the comment's opening. -/
theorem CommentAbove.startOf_eq (h_comment : CommentAbove lines place opener) :
    startOf lines place = opener := by
  rcases startOf_spec lines place with h_start | ⟨-, h_bare⟩
  · exact h_start.unique h_comment
  · exact absurd h_comment (h_bare opener)

theorem startOf_le (lines : List String) (place : Nat) : startOf lines place ≤ place := by
  rcases startOf_spec lines place with h_comment | ⟨h_start, -⟩
  · have h_inside := h_comment.inside
    omega
  · exact Nat.le_of_eq h_start

/-- The start of a later export falls behind that of an earlier one exactly when its comment opens
    above the earlier export and that one has no comment itself. -/
theorem startOf_le_startOf_iff (h_before : place < next) :
    startOf lines place ≤ startOf lines next ↔
      ∀ opener, CommentAbove lines next opener → opener < place →
        ∃ own, CommentAbove lines place own := by
  constructor
  · intro h_order opener h_comment h_opener
    rcases startOf_spec lines place with h_own | ⟨h_start, -⟩
    · exact ⟨_, h_own⟩
    · rw [h_start, h_comment.startOf_eq] at h_order
      omega
  · intro h_own
    rcases startOf_spec lines next with h_comment | ⟨h_start, -⟩
    · rcases Nat.lt_or_ge (startOf lines next) place with h_above | h_below
      · obtain ⟨own, h_own⟩ := h_own _ h_comment h_above
        rw [h_own.startOf_eq]
        -- the comment of the later export opens at the last line that opens one
        by_contra h_behind
        have h_inside := h_own.inside
        exact h_comment.last own (by omega) (by omega) h_own.opens
      · exact (startOf_le lines place).trans h_below
    · rw [h_start]
      exact (startOf_le lines place).trans (Nat.le_of_lt h_before)

/-! ## Starts of declarations -/

theorem lt_of_mem_exportPlaces (h_place : place ∈ exportPlaces lines) : place < lines.length :=
  List.mem_range.mp (List.mem_of_mem_filter h_place)

theorem pairwise_exportPlaces (lines : List String) : (exportPlaces lines).Pairwise (· < ·) :=
  List.pairwise_lt_range.filter _

theorem exists_mem_exportPlaces {line : String} (h_line : line ∈ lines)
    (h_export : isExport line = true) : ∃ place, place ∈ exportPlaces lines := by
  obtain ⟨place, h_place⟩ := List.mem_iff_getElem?.mp h_line
  refine ⟨place, ?_⟩
  rw [exportPlaces_eq, List.mem_filter, List.mem_range, h_place]
  exact ⟨(List.getElem?_eq_some_iff.mp h_place).1, h_export⟩

/-- No start is behind the lines. -/
theorem starts_le_length : ∀ start ∈ starts lines, start ≤ lines.length := by
  intro start h_start
  unfold starts at h_start
  split at h_start
  · cases h_start
  · next first others h_places =>
    rcases List.mem_cons.mp h_start with rfl | h_start
    · exact Nat.zero_le _
    · have h_mem : start ∈ (exportPlaces lines).map (startOf lines) :=
        h_places ▸ List.mem_cons_of_mem first h_start
      obtain ⟨place, h_place, rfl⟩ := List.mem_map.mp h_mem
      exact (startOf_le lines place).trans (Nat.le_of_lt (lt_of_mem_exportPlaces h_place))

/-- The first declaration starts with the first line. -/
theorem exists_starts_eq (h_place : place ∈ exportPlaces lines) :
    ∃ others, starts lines = 0 :: others := by
  unfold starts
  cases h_places : exportPlaces lines with
  | nil =>
    rw [h_places] at h_place
    cases h_place
  | cons first others => exact ⟨_, rfl⟩

/-- A relation holds between the numbers of an ascending list in order when it holds from each one
    to every greater one. -/
theorem pairwise_iff_of_ascending {R : Nat → Nat → Prop} {numbers : List Nat}
    (h_ascending : numbers.Pairwise (· < ·)) :
    numbers.Pairwise R ↔ ∀ small ∈ numbers, ∀ great ∈ numbers, small < great → R small great := by
  induction h_ascending with
  | nil => simp
  | @cons first others h_first _ ih =>
    rw [List.pairwise_cons, ih]
    constructor
    · rintro ⟨h_head, h_tail⟩ small h_small great h_great h_less
      -- the first number is the least, so nothing is small beside it
      have h_least : ∀ number ∈ first :: others, first ≤ number :=
        List.forall_mem_cons.mpr ⟨Nat.le_refl _, fun number h => Nat.le_of_lt (h_first number h)⟩
      have h_behind : great ∈ others := by
        refine (List.mem_cons.mp h_great).resolve_left fun h_same => ?_
        have h_floor := h_least small h_small
        omega
      rcases List.mem_cons.mp h_small with rfl | h_small
      · exact h_head great h_behind
      · exact h_tail small h_small great h_behind h_less
    · intro h_all
      refine ⟨fun great h_great => ?_, fun small h_small great h_great => ?_⟩
      · exact h_all first List.mem_cons_self great (List.mem_cons_of_mem _ h_great)
          (h_first great h_great)
      · exact h_all small (List.mem_cons_of_mem _ h_small) great (List.mem_cons_of_mem _ h_great)

/-- Whether the comment above an export opens behind every earlier export that starts a piece
    itself: the first export need not, as its piece has everything above it, nor need those that
    have a comment of their own. -/
def CommentsApart (lines : List String) : Prop :=
  ∀ place ∈ exportPlaces lines, ∀ next ∈ exportPlaces lines, place < next →
    ∀ opener, CommentAbove lines next opener → opener < place →
      (∃ own, CommentAbove lines place own) ∨ ∀ other ∈ exportPlaces lines, place ≤ other

/-- The pieces start in ascending order exactly when no comment reaches over an export. -/
theorem pairwise_starts_iff (lines : List String) :
    (starts lines).Pairwise (· ≤ ·) ↔ CommentsApart lines := by
  have h_ascending := pairwise_exportPlaces lines
  unfold starts CommentsApart
  cases h_places : exportPlaces lines with
  | nil => simp
  | cons first others =>
    rw [h_places, List.pairwise_cons] at h_ascending
    obtain ⟨h_first, h_others⟩ := h_ascending
    simp only [List.map_cons, List.pairwise_cons, Nat.zero_le, implies_true, true_and]
    rw [List.pairwise_map, pairwise_iff_of_ascending h_others]
    have h_least : ∀ other ∈ first :: others, first ≤ other :=
      List.forall_mem_cons.mpr ⟨Nat.le_refl _, fun other h => Nat.le_of_lt (h_first other h)⟩
    constructor
    · intro h_order place h_place next h_next h_before opener h_comment h_opener
      have h_behind : next ∈ others := by
        refine (List.mem_cons.mp h_next).resolve_left fun h_same => ?_
        have h_floor := h_least place h_place
        omega
      -- the first export starts at the first line, whatever its comment says
      rcases List.mem_cons.mp h_place with rfl | h_place
      · exact .inr h_least
      · have h_start := h_order place h_place next h_behind h_before
        exact .inl ((startOf_le_startOf_iff h_before).mp h_start opener h_comment h_opener)
    · intro h_apart place h_place next h_next h_before
      refine (startOf_le_startOf_iff h_before).mpr fun opener h_comment h_opener => ?_
      rcases h_apart place (List.mem_cons_of_mem _ h_place) next (List.mem_cons_of_mem _ h_next)
        h_before opener h_comment h_opener with h_own | h_least
      · exact h_own
      · exact absurd (h_first place h_place) (Nat.not_lt.mpr (h_least first List.mem_cons_self))

/-! ## Pieces -/

/-- Lines are cut at places in order, and the pieces have all lines from the first place on. -/
theorem exists_cutAt? (lines : List String) {start : Nat} {others : List Nat}
    (h_order : (start :: others).IsChain (· ≤ ·)) :
    ∃ pieces, cutAt? lines (start :: others) = some pieces ∧ pieces.flatten = lines.drop start := by
  induction others generalizing start with
  | nil => exact ⟨[lines.drop start], rfl, List.append_nil _⟩
  | cons next others ih =>
    obtain ⟨h_first, h_rest⟩ := List.isChain_cons_cons.mp h_order
    obtain ⟨pieces, h_cut, h_lines⟩ := ih h_rest
    refine ⟨(lines.drop start).take (next - start) :: pieces, ?_, ?_⟩
    · rw [cutAt?, if_neg (Nat.not_lt.mpr h_first), h_cut, Option.map_some]
    · -- what the first piece leaves is where the next one starts
      have h_left : lines.drop next = (lines.drop start).drop (next - start) := by
        rw [List.drop_drop, Nat.add_sub_cancel' h_first]
      rw [List.flatten_cons, h_lines, h_left, List.take_append_drop]

/-- Only ascending starts can be cut at. -/
theorem isChain_of_cutAt? {places : List Nat} {pieces : List (List String)}
    (h_cut : cutAt? lines places = some pieces) : places.IsChain (· ≤ ·) := by
  induction places generalizing pieces with
  | nil => exact .nil
  | cons start others ih =>
    cases others with
    | nil => exact .singleton _
    | cons next others =>
      rw [cutAt?] at h_cut
      split at h_cut
      · cases h_cut
      · next h_order =>
        obtain ⟨rest, h_rest, -⟩ := Option.map_eq_some_iff.mp h_cut
        exact List.isChain_cons_cons.mpr ⟨Nat.not_lt.mp h_order, ih h_rest⟩

/-- A compiled text is cut exactly when its comments are apart. -/
theorem splitDeclarations?_ne_none_iff (text : String) :
    splitDeclarations? text ≠ none ↔ CommentsApart (Text.lines text) := by
  rw [← pairwise_starts_iff, ← List.isChain_iff_pairwise, splitDeclarations?, ne_eq,
    Option.map_eq_none_iff]
  constructor
  · intro h_cut
    obtain ⟨pieces, h_pieces⟩ := Option.ne_none_iff_exists'.mp h_cut
    exact isChain_of_cutAt? h_pieces
  · intro h_order
    cases h_starts : starts (Text.lines text) with
    | nil => simp [cutAt?]
    | cons start others =>
      rw [h_starts] at h_order
      obtain ⟨pieces, h_pieces, -⟩ := exists_cutAt? (Text.lines text) h_order
      simp [h_pieces]

/-- When what the definitions are compiled to is not cut, there is no shared file. -/
theorem sharedFile?_eq_overlap {compiler : Schema.Compiler} {definitions : Definitions}
    {texts : List String}
    (h_texts : (definitions.schemas.mapM fun entry =>
      compiler.clean entry.2 entry.1 definitions) = .ok texts)
    (h_uncut : splitDeclarations? (String.join texts) = none) :
    sharedFile? compiler definitions = .error .overlap := by
  unfold sharedFile?
  rw [h_texts]
  simp only [bind, Except.bind, h_uncut]

/-- The text of a piece: its lines, without the blanks at the ends. -/
def pieceText (piece : List String) : String := Text.trim ("\n".intercalate piece)

/-- Whatever a compiler writes, its text is cut at places within its lines. These stand in order,
    and the text can be cut, exactly when its comments are apart; where some line exports something,
    every line is then in exactly one piece. -/
theorem pieces_cover_lines_iff (text : String) :
    (∀ start ∈ starts (Text.lines text), start ≤ (Text.lines text).length) ∧
      ((starts (Text.lines text)).Pairwise (· ≤ ·) ↔ CommentsApart (Text.lines text)) ∧
      (splitDeclarations? text ≠ none ↔ CommentsApart (Text.lines text)) ∧
      ((∃ line ∈ Text.lines text, Text.opensWith "export " line = true) →
        (CommentsApart (Text.lines text) ↔
          ∃ pieces, cutAt? (Text.lines text) (starts (Text.lines text)) = some pieces ∧
            pieces.flatten = Text.lines text ∧
            splitDeclarations? text =
              some ((pieces.map pieceText).filter fun piece => piece ≠ ""))) := by
  refine ⟨starts_le_length, pairwise_starts_iff _, splitDeclarations?_ne_none_iff text, ?_⟩
  rintro ⟨line, h_line, h_export⟩
  obtain ⟨place, h_place⟩ := exists_mem_exportPlaces h_line h_export
  obtain ⟨others, h_starts⟩ := exists_starts_eq h_place
  constructor
  · intro h_apart
    rw [← pairwise_starts_iff, ← List.isChain_iff_pairwise, h_starts] at h_apart
    obtain ⟨pieces, h_cut, h_lines⟩ := exists_cutAt? (Text.lines text) h_apart
    rw [h_starts]
    refine ⟨pieces, h_cut, h_lines, ?_⟩
    rw [splitDeclarations?, h_starts, h_cut]
    rfl
  · rintro ⟨pieces, -, -, h_split⟩
    exact (splitDeclarations?_ne_none_iff text).mp (by simp [h_split])

/-- An object with a comment inside it, and a type with a comment above it. -/
def commentedText : String :=
  "export interface A \x7b\n/**\n * id\n */\nid: string\n\x7d\n/**\n * b\n */\n" ++
    "export type B = number\n"

/-- The comment inside the object ends above no export, and that of the type opens behind the first
    export. -/
theorem commentedText_covered :
    (∃ line ∈ Text.lines commentedText, Text.opensWith "export " line = true) ∧
      CommentsApart (Text.lines commentedText) ∧
      ∃ pieces, cutAt? (Text.lines commentedText) (starts (Text.lines commentedText)) =
          some pieces ∧
        pieces.flatten = Text.lines commentedText ∧
        splitDeclarations? commentedText =
          some ((pieces.map pieceText).filter fun piece => piece ≠ "") := by
  obtain ⟨-, h_order, -, h_pieces⟩ := pieces_cover_lines_iff commentedText
  have h_export : ∃ line ∈ Text.lines commentedText, Text.opensWith "export " line = true := by
    decide +kernel
  have h_apart : CommentsApart (Text.lines commentedText) := h_order.mp (by decide +kernel)
  exact ⟨h_export, h_apart, (h_pieces h_export).mp h_apart⟩

/-- A text in which the comment above the last export has a line that exports something. -/
def exportInComment : String :=
  "export type A = 1\n/**\nexport type B = 2\n */\nexport type C = 3\n"

/-- That line is taken for an export, and the comment that it stands in starts above it: the starts
    are not in order, the text is not cut, and no shared file comes of a compiler that writes it. -/
theorem exportInComment_not_cut :
    starts (Text.lines exportInComment) = [0, 2, 1] ∧
      ¬ (starts (Text.lines exportInComment)).Pairwise (· ≤ ·) ∧
      splitDeclarations? exportInComment = none ∧
      sharedFile? (fun _ _ _ => .ok exportInComment) ⟨[("A", .null)], []⟩ = .error .overlap := by
  have h_starts : starts (Text.lines exportInComment) = [0, 2, 1] := by decide +kernel
  have h_split : splitDeclarations? exportInComment = none := by
    rw [splitDeclarations?, h_starts]
    rfl
  have h_scrub : Schema.scrub exportInComment = exportInComment := by decide +kernel
  have h_compiled : String.join [Schema.scrub exportInComment] = exportInComment := by
    rw [h_scrub, String.join_cons, String.join_nil, String.append_empty]
  refine ⟨h_starts, by rw [h_starts]; decide, h_split, ?_⟩
  refine @sharedFile?_eq_overlap _ _ [Schema.scrub exportInComment] rfl ?_
  rw [h_compiled, h_split]

end OpenApiTs.Output
