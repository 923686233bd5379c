/-
  OpenApiTs.Proofs.FileTree.Calls

  The calls that change a file tree, for paths that only lead down: where no file is in the way a
  directory is made, in a directory a file is written, and a directory is removed with everything
  below it.
-/
import OpenApiTs.Proofs.FileTree.Directories
import OpenApiTs.Proofs.Path.Parent

namespace OpenApiTs.FileTree

variable {tree : FileTree} {path directory : String}

/-! ## Paths -/

/-- Whether a path can be handed to the system and only leads down: it has no zero character and no
    `..`, and each of its names is as short as a name must be. -/
structure LeadsDown (path : String) : Prop where
  zeroless : ∀ c ∈ path.toList, c.toNat ≠ 0
  down : ".." ∉ Path.parts path
  short : ∀ part ∈ Path.parts path, part.utf8ByteSize ≤ longestName

theorem takePath_of_zeroless (h_zero : ∀ c ∈ path.toList, c.toNat ≠ 0) : takePath path = .ok () := by
  have h_none : path.toList.any (·.toNat == 0) = false := by
    rw [List.any_eq_false]
    exact fun c h_c => by simpa using h_zero c h_c
  rw [takePath, h_none]
  rfl

/-- Joining puts the parts one after the other. -/
theorem partsOf_join (h_path : Path.isAbsolute path = false) (directory : String) :
    partsOf (Path.join directory path) = partsOf directory ++ partsOf path := by
  obtain ⟨front, h_pieces, h_directory⟩ := Path.exists_pieces_join h_path directory
  rw [partsOf, partsOf, partsOf, h_pieces, List.filter_append]
  rcases h_directory with h_directory | h_directory <;> simp [h_directory]

theorem partsOf_of_flat {name : String} (h_flat : '/' ∉ name.toList) (h_some : name ≠ "") :
    partsOf ("/" ++ name) = [name] := by
  have h_root : "/" ++ name = "" ++ "/" ++ name := by rw [String.empty_append]
  have h_empty : Text.pieces '/' "" = [""] := rfl
  rw [partsOf, h_root, Path.pieces_append_slash, h_empty, Path.pieces_of_flat h_flat]
  simp [h_some]

theorem names_partsOf (path : String) : names (partsOf path) = Path.parts path := by
  rw [names, partsOf, List.filter_filter, Path.parts]
  refine List.filter_congr fun part _ => ?_
  rw [Bool.eq_iff_iff]
  simp [and_comm]

namespace LeadsDown

theorem takePath (h_path : LeadsDown path) : takePath path = .ok () :=
  takePath_of_zeroless h_path.zeroless

theorem fits (h_path : LeadsDown path) : ∀ part ∈ partsOf path, Fits part := by
  intro part h_part
  by_cases h_dot : part = "."
  · rw [h_dot]
    exact ⟨by decide, by decide⟩
  · have h_mem : part ∈ Path.parts path := by
      rw [← names_partsOf]
      exact List.mem_filter.mpr ⟨h_part, by simpa using h_dot⟩
    exact ⟨fun h_up => h_path.down (h_up ▸ h_mem), h_path.short part h_mem⟩

theorem join (h_directory : LeadsDown directory) (h_path : LeadsDown path)
    (h_relative : Path.isAbsolute path = false) : LeadsDown (Path.join directory path) where
  zeroless := by
    intro c h_c
    rcases Path.mem_join h_relative h_c with h_c | rfl | h_c
    · exact h_directory.zeroless c h_c
    · decide
    · exact h_path.zeroless c h_c
  down := by
    rw [Path.parts_join h_relative, List.mem_append]
    exact not_or.mpr ⟨h_directory.down, h_path.down⟩
  short := by
    rw [Path.parts_join h_relative, List.forall_mem_append]
    exact ⟨h_directory.short, h_path.short⟩

/-- The path of the directory that a path stands in leads down when the path does. -/
theorem of_pieces {parent : String} {idle : List String} (h_path : LeadsDown path)
    (h_pieces : (Text.pieces '/' path).dropLast = Text.pieces '/' parent ++ idle)
    (h_idle : ∀ piece ∈ idle, Path.isNamed piece = false) : LeadsDown parent := by
  have h_parts : ∀ part ∈ Path.parts parent, part ∈ Path.parts path := by
    intro part h_part
    rw [Path.parts_of_pieces h_pieces h_idle] at h_part
    rw [Path.parts_eq_way_append]
    exact List.mem_append_left _ h_part
  refine ⟨?_, fun h_up => h_path.down (h_parts _ h_up),
    fun part h_part => h_path.short part (h_parts part h_part)⟩
  intro c h_c
  by_cases h_slash : c = '/'
  · rw [h_slash]
    decide
  · obtain ⟨piece, h_piece, h_c⟩ := (Path.mem_iff_mem_pieces h_slash parent).mp h_c
    refine h_path.zeroless c ((Path.mem_iff_mem_pieces h_slash path).mpr ⟨piece, ?_, h_c⟩)
    refine List.dropLast_subset _ ?_
    rw [h_pieces]
    exact List.mem_append_left _ h_piece

end LeadsDown

/-- A path with a named leaf has the leaf as its last part. -/
theorem exists_partsOf (h_leaf : Path.isNamed (Path.leaf path) = true) :
    ∃ before, partsOf path = before ++ [Path.leaf path] ∧ names before = Path.way path := by
  refine ⟨(Text.pieces '/' path).dropLast.filter fun part => part ≠ "", ?_, ?_⟩
  · have h_some : Path.leaf path ≠ "" := by
      intro h_empty
      rw [h_empty] at h_leaf
      exact absurd h_leaf (by decide)
    rw [partsOf, Path.pieces_eq_concat, List.filter_append, List.filter_singleton]
    simp [h_some]
  · rw [names, List.filter_filter, Path.way]
    refine List.filter_congr fun part _ => ?_
    rw [Bool.eq_iff_iff]
    simp [Path.isNamed, and_comm]

theorem isNamed_ne_dot {part : String} (h_named : Path.isNamed part = true) : part ≠ "." := by
  rintro rfl
  exact absurd h_named (by decide)

/-! ## System calls -/

/-- A directory at a path where no file is in the way. -/
theorem ensureDirectory_opened (h_path : LeadsDown path)
    (h_leaf : Path.isNamed (Path.leaf path) = true) (h_free : IsFree tree (Path.parts path)) :
    ∃ made, tree.ensureDirectory path = (.ok (), made) ∧ Opened (Path.parts path) tree made := by
  -- an empty path has no last name
  have h_some : path ≠ "" := by
    rintro rfl
    exact absurd h_leaf (by decide)
  obtain ⟨before, h_parts, -⟩ := exists_partsOf h_leaf
  rw [← names_partsOf, ← List.reverse_reverse (partsOf path)] at h_free ⊢
  have h_dot : (partsOf path).reverse.head? ≠ some "." := by
    rw [h_parts]
    simpa using isNamed_ne_dot h_leaf
  obtain ⟨made, h_made, h_opened⟩ := makeDirectories_opened
    (fun part h_part => h_path.fits part (List.mem_reverse.mp h_part)) h_dot h_free
  refine ⟨made, ?_, h_opened⟩
  rw [ensureDirectory, if_neg h_some, h_path.takePath]
  exact h_made

/-- A file at a path in a directory. -/
theorem writeFile_of_isOpen (h_path : LeadsDown path)
    (h_leaf : Path.isNamed (Path.leaf path) = true) (h_open : IsOpen tree (Path.way path))
    (h_node : tree.node? (Path.parts path) ≠ some .directory) (text : String) :
    tree.writeFile path text = .ok (tree.set (Path.parts path) (.file text)) := by
  obtain ⟨before, h_parts, h_before⟩ := exists_partsOf h_leaf
  have h_fits := h_path.fits
  rw [h_parts, List.forall_mem_append, List.forall_mem_singleton] at h_fits
  have h_whole : Path.parts path = Path.way path ++ [Path.leaf path] := by
    rw [Path.parts_eq_way_append, if_pos h_leaf]
  have h_dots : isDots (Path.leaf path) = false := by
    simp [isDots, isNamed_ne_dot h_leaf, h_fits.2.down]
  -- a path with a last name ends in no slash
  have h_slash : endsInSlash path = false := by
    refine Path.closesWith_slash_of_leaf fun h_empty => ?_
    rw [h_empty] at h_leaf
    exact absurd h_leaf (by decide)
  rw [← h_before] at h_open
  have h_walk := walk_of_isOpen h_fits.1 h_open
  have h_enter := enter_directory h_fits.2 h_open.at
  rw [h_whole, ← h_before] at h_node ⊢
  simp only [writeFile, h_path.takePath, h_parts, List.getLast?_concat, List.dropLast_concat, h_walk,
    bind, Except.bind, h_enter, h_dots, h_slash, Bool.false_eq_true, or_self, if_false]

/-! ## Removal -/

/-- What one tree is to another when a place and everything below it are gone. -/
def Removed (place : Place) (tree after : FileTree) : Prop :=
  ∀ other, after.node? other = if place <+: other then none else tree.node? other

/-- A directory that is emptied and removed leaves everything else as it was. -/
theorem removed_removeAt {place : Place} (h_place : place ≠ []) (tree : FileTree) :
    Removed place tree ((tree.emptyAt place).removeAt place) := by
  intro other
  rw [removeAt, emptyAt, node?_filter (fun here => !place.isPrefixOf here),
    node?_filter (fun here => !place.isPrefixOf here || here == place)]
  -- at or below the place everything is gone; the root is never below it
  by_cases h_below : place <+: other
  · have h_root : other ≠ [] := by
      rintro rfl
      exact h_place (List.prefix_nil.mp h_below)
    have h_upto : place.isPrefixOf other = true := List.isPrefixOf_iff_prefix.mpr h_below
    simp [h_below, h_upto, h_root]
  · have h_upto : place.isPrefixOf other = false := by
      rwa [Bool.eq_false_iff, ne_eq, List.isPrefixOf_iff_prefix]
    simp [h_below, h_upto]

/-- The directory of a place stays when the place is emptied. -/
theorem isOpen_emptyAt {place : Place} (h_open : IsOpen tree place) (name : String) :
    IsOpen (tree.emptyAt (place ++ [name])) place := by
  intro above h_above
  have h_below : (place ++ [name]).isPrefixOf above = false := by
    rw [Bool.eq_false_iff, ne_eq, List.isPrefixOf_iff_prefix]
    intro h_below
    have h_length := (h_below.trans h_above).length_le
    rw [List.length_append, List.length_singleton] at h_length
    omega
  rw [emptyAt,
    node?_filter (fun here => !(place ++ [name]).isPrefixOf here || here == place ++ [name])]
  simp [h_below, h_open above h_above]

/-- An open directory is found as one. -/
theorem stat_directory (h_path : LeadsDown path) (h_open : IsOpen tree (Path.parts path)) :
    tree.stat path = .ok (Path.parts path, .directory) := by
  rw [← names_partsOf] at h_open ⊢
  have h_walk := walk_of_isOpen h_path.fits h_open
  simp only [stat, h_path.takePath, h_walk, bind, Except.bind, h_open.at]

/-- Nothing is at a path when nothing is at its place. -/
theorem isThere_of_none (h_path : LeadsDown path) (h_free : IsFree tree (Path.parts path))
    (h_none : tree.node? (Path.parts path) = none) : tree.isThere path = false := by
  have h_closed : ¬ IsOpen tree (Path.parts path) := by
    intro h_open
    rw [h_open.at] at h_none
    cases h_none
  rw [← names_partsOf] at h_free h_none h_closed
  rcases walk_of_not_isOpen h_path.fits h_free h_closed with h_walk | ⟨h_walk, -⟩
  · simp only [isThere, stat, h_path.takePath, h_walk, bind, Except.bind]
  · simp only [isThere, stat, h_path.takePath, h_walk, bind, Except.bind, h_none]

/-- A directory is removed unless its path ends in `.`. -/
theorem removeDirectory_removed (h_path : LeadsDown path) (h_below : Path.parts path ≠ [])
    (h_dot : (partsOf path).getLast? ≠ some ".") (h_open : IsOpen tree (Path.parts path)) :
    ∃ after, tree.removeDirectory path = (.ok (), after) ∧
      Removed (Path.parts path) tree after := by
  refine ⟨(tree.emptyAt (Path.parts path)).removeAt (Path.parts path), ?_,
    removed_removeAt h_below tree⟩
  have h_stat := stat_directory h_path h_open
  obtain ⟨before, last, h_parts⟩ := (List.eq_nil_or_concat' (partsOf path)).resolve_left (by
    rintro h_none
    rw [← names_partsOf, h_none] at h_below
    exact h_below rfl)
  have h_last : last ≠ "." := by simpa [h_parts] using h_dot
  have h_fits := h_path.fits
  rw [h_parts, List.forall_mem_append, List.forall_mem_singleton] at h_fits
  have h_place : Path.parts path = names before ++ [last] := by
    rw [← names_partsOf, h_parts, names_concat, if_neg h_last]
  rw [h_place] at h_open h_stat ⊢
  -- the way to the directory is still there when it is empty, so its name is found and removed
  have h_before := isOpen_emptyAt (h_open.shortened (List.prefix_append _ [last])) last
  have h_walk := walk_of_isOpen h_fits.1 h_before
  have h_enter := enter_directory h_fits.2 h_before.at
  simp only [removeDirectory, h_stat, removeEmpty, h_parts, List.getLast?_concat,
    List.dropLast_concat, h_walk, h_enter, h_last, h_fits.2.down, if_false]

end OpenApiTs.FileTree
