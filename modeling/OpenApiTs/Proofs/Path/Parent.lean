/-
  OpenApiTs.Proofs.Path.Parent

  The directory that a path stands in, as a path: what stands before the leaf, up to the last piece
  that names something. It leads where the way of the path leads, and has no other characters.
-/
import OpenApiTs.Proofs.Path.Route

namespace OpenApiTs.Path

variable {path directory parent : String} {c : Char}

/-! ## Joined paths -/

/-- A path that is joined to a directory keeps its last name. -/
theorem leaf_join (h_path : isAbsolute path = false) (directory : String) :
    leaf (join directory path) = leaf path := by
  obtain ⟨front, h_pieces, -⟩ := exists_pieces_join h_path directory
  rw [leaf, h_pieces, pieces_eq_concat path, ← List.append_assoc, List.getLastD_concat]

/-- The way to it is the directory and then its own. -/
theorem way_join (h_path : isAbsolute path = false) (directory : String) :
    way (join directory path) = parts directory ++ way path := by
  obtain ⟨front, h_pieces, h_directory⟩ := exists_pieces_join h_path directory
  -- the directory may end in a slash of its own, which leaves an empty piece
  have h_front : parts directory = front.filter isNamed := by
    rw [parts_eq]
    rcases h_directory with h_directory | h_directory <;> simp [h_directory, isNamed]
  rw [way, h_pieces, pieces_eq_concat path, ← List.append_assoc, List.dropLast_concat,
    List.filter_append, h_front]
  simp [way]

/-- Joining adds a slash and nothing else. -/
theorem mem_join (h_path : isAbsolute path = false) (h_c : c ∈ (join directory path).toList) :
    c ∈ directory.toList ∨ c = '/' ∨ c ∈ path.toList := by
  unfold join at h_c
  rw [if_neg (by simp [h_path])] at h_c
  split at h_c
  · rw [String.toList_append, List.mem_append] at h_c
    exact h_c.imp_right .inr
  · have h_slash : "/".toList = ['/'] := rfl
    simp only [String.toList_append, List.mem_append, h_slash, List.mem_singleton, or_assoc] at h_c
    exact h_c

/-- A path with a leaf does not close with a slash. -/
theorem closesWith_slash_of_leaf (h_leaf : leaf path ≠ "") : Text.closesWith "/" path = false := by
  rw [Bool.eq_false_iff]
  intro h_closed
  obtain ⟨front, h_front⟩ := List.isSuffixOf_iff_suffix.mp h_closed
  have h_path : path = String.ofList front ++ "/" ++ "" := by
    rw [← String.toList_inj, ← h_front]
    simp
  have h_nothing : Text.pieces '/' "" = [""] := rfl
  refine h_leaf ?_
  rw [leaf, h_path, pieces_append_slash, h_nothing, List.getLastD_concat]

/-! ## Parents -/

theorem isNamed_ofList (piece : List Char) : isNamed (String.ofList piece) = !isIdle piece := by
  have h_empty : String.ofList piece = "" ↔ piece = [] := by simp [← String.toList_inj]
  have h_dot : String.ofList piece = "." ↔ piece = ['.'] := by simp [← String.toList_inj]
  rw [Bool.eq_iff_iff]
  simp [isNamed, isIdle, h_empty, h_dot]

theorem mem_intercalate_iff {sep : Char} (h_c : c ≠ sep) (lines : List (List Char)) :
    c ∈ [sep].intercalate lines ↔ ∃ line ∈ lines, c ∈ line := by
  induction lines with
  | nil => simp
  | cons line lines ih =>
    by_cases h_last : lines = []
    · subst h_last
      simp
    · rw [List.intercalate_cons_of_ne_nil h_last, List.append_assoc, List.mem_append,
        List.mem_append, List.mem_singleton, or_iff_right h_c, ih]
      simp

/-- The characters of a path, but for the slashes, are those of its pieces. -/
theorem mem_iff_mem_pieces (h_c : c ≠ '/') (path : String) :
    c ∈ path.toList ↔ ∃ piece ∈ Text.pieces '/' path, c ∈ piece.toList := by
  have h_whole : ['/'].intercalate (path.toList.splitOn '/') = path.toList :=
    List.intercalate_splitOn '/'
  rw [← h_whole, mem_intercalate_iff h_c]
  simp [Text.pieces, Text.Chars.pieces_eq_splitOn]

/-- A path with a named leaf, in a named directory, has a parent: the pieces of the parent are those
    before the leaf, up to one that names something. -/
theorem exists_parent (h_leaf : isNamed (leaf path) = true) (h_way : way path ≠ []) :
    ∃ parent idle, parent? path = some parent ∧
      (Text.pieces '/' path).dropLast = Text.pieces '/' parent ++ idle ∧
      (∀ piece ∈ idle, isNamed piece = false) ∧ isNamed (leaf parent) = true := by
  obtain ⟨front, last, h_front⟩ := (List.eq_nil_or_concat' (path.toList.splitOn '/')).resolve_left
    (List.splitOn_ne_nil '/' path.toList)
  have h_pieces : Text.pieces '/' path = front.map String.ofList ++ [String.ofList last] := by
    rw [Text.pieces, Text.Chars.pieces_eq_splitOn, h_front]
    simp
  have h_last : isIdle last = false := by
    rw [leaf, h_pieces, List.getLastD_concat, isNamed_ofList] at h_leaf
    simpa using h_leaf
  -- what is kept of the pieces before the leaf ends in one that names something
  obtain ⟨kept, h_kept⟩ : ∃ kept, front.reverse.dropWhile isIdle = kept := ⟨_, rfl⟩
  obtain ⟨idle, h_idle⟩ : ∃ idle, front.reverse.takeWhile isIdle = idle := ⟨_, rfl⟩
  have h_split : front = kept.reverse ++ idle.reverse := by
    rw [← h_kept, ← h_idle, ← List.reverse_append, List.takeWhile_append_dropWhile,
      List.reverse_reverse]
  have h_unnamed : ∀ piece ∈ idle, isNamed (String.ofList piece) = false := by
    intro piece h_piece
    rw [← h_idle] at h_piece
    have h_isIdle := List.all_eq_true.mp List.all_takeWhile piece h_piece
    rw [isNamed_ofList, h_isIdle]
    rfl
  have h_some : kept ≠ [] := by
    rintro rfl
    refine h_way ?_
    rw [way, h_pieces, List.dropLast_concat, h_split, List.filter_eq_nil_iff]
    simpa using h_unnamed
  have h_flat : ∀ piece ∈ kept.reverse, '/' ∉ piece := by
    intro piece h_piece
    have h_mem : piece ∈ path.toList.splitOn '/' := by
      rw [h_front, h_split]
      simp only [List.mem_append, h_piece, true_or]
    exact Text.Chars.not_mem_of_mem_splitOn h_mem
  have h_parent : Text.pieces '/' (String.ofList (['/'].intercalate kept.reverse)) =
      kept.reverse.map String.ofList := by
    rw [Text.pieces, Text.Chars.pieces_eq_splitOn, String.toList_ofList,
      List.splitOn_intercalate '/' h_flat (by simpa using h_some)]
  refine ⟨String.ofList (['/'].intercalate kept.reverse), idle.reverse.map String.ofList, ?_, ?_, ?_,
    ?_⟩
  · rw [parent?, Text.Chars.pieces_eq_splitOn, h_front, List.reverse_append, List.reverse_singleton,
      List.singleton_append, List.dropWhile_cons_of_neg (by simp [h_last])]
    dsimp only
    rw [h_kept]
    split
    · exact absurd rfl h_some
    · rfl
  · rw [h_parent, h_pieces, List.dropLast_concat, h_split, List.map_append]
  · simpa using h_unnamed
  · obtain ⟨first, others, rfl⟩ := List.exists_cons_of_ne_nil h_some
    have h_first := List.head?_dropWhile_not isIdle front.reverse
    rw [h_kept, List.head?_cons] at h_first
    rw [leaf, h_parent, List.reverse_cons, List.map_append, List.map_singleton,
      List.getLastD_concat, isNamed_ofList]
    simpa using h_first

/-- The names of a parent are those that lead to the leaf. -/
theorem parts_of_pieces {idle : List String}
    (h_pieces : (Text.pieces '/' path).dropLast = Text.pieces '/' parent ++ idle)
    (h_idle : ∀ piece ∈ idle, isNamed piece = false) : parts parent = way path := by
  have h_none : idle.filter isNamed = [] := List.filter_eq_nil_iff.mpr (by simpa using h_idle)
  rw [way, h_pieces, List.filter_append, h_none, List.append_nil, parts_eq]

end OpenApiTs.Path
