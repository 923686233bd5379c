/-
  OpenApiTs.Proofs.Workspace.Output

  What an output leaves in a file tree. The output directory is removed, made again with its
  subdirectories, and filled with one file after the other. Afterwards it has the files of the output
  and their directories, whatever stood there before, and outside of it nothing has changed.

  `HasOutput` is the invariant of the loop over the files: it tells what every place of the tree has
  when some of them have been written. Each file adds itself and the directories above it, and is in
  nobody's way because no file stands at the place of another one or above it. It also tells that
  the directory may be written to once more, so that of many outputs the last one is left.
-/
import Mathlib.Control.Monad.Basic
import Mathlib.Logic.Relation
import OpenApiTs.Proofs.FileTree.Calls
import OpenApiTs.Workspace.Basic

namespace OpenApiTs.Workspace

open FileTree (Grounded IsFree IsOpen LeadsDown Opened Removed)

variable {tree before after made : FileTree} {directory banner path : String} {place : Place}
  {file : OutputFile} {done files : List OutputFile}

/-! ## Steps -/

theorem ensure_opened (h_path : LeadsDown path) (h_leaf : Path.isNamed (Path.leaf path) = true)
    (h_free : IsFree tree (Path.parts path)) :
    ∃ made, ensure tree path = (.ok (), made) ∧ Opened (Path.parts path) tree made := by
  obtain ⟨made, h_made, h_opened⟩ := FileTree.ensureDirectory_opened h_path h_leaf h_free
  exact ⟨made, by rw [ensure, h_made], h_opened⟩

/-- What an output directory may be: a path to something below the root where nothing or a directory
    stands, under directories that are there or can be made. The path of one that is there does not
    end in `.`. -/
structure IsTarget (tree : FileTree) (directory : String) : Prop where
  down : LeadsDown directory
  below : Path.parts directory ≠ []
  free : IsFree tree (Path.parts directory)
  removable : tree.node? (Path.parts directory) ≠ none →
    (FileTree.partsOf directory).getLast? ≠ some "."

/-- Clearing leaves nothing at the place of an output directory or below it. -/
theorem clear_removed (h_grounded : Grounded tree) (h_target : IsTarget tree directory) :
    ∃ after, clear tree directory = (.ok (), after) ∧
      Removed (Path.parts directory) tree after := by
  rcases h_target.free.cases with h_node | h_none
  · have h_open := h_grounded.isOpen h_node
    obtain ⟨after, h_after, h_removed⟩ := FileTree.removeDirectory_removed h_target.down
      h_target.below (h_target.removable (by simp [h_node])) h_open
    have h_there : tree.isThere directory = true := by
      rw [FileTree.isThere, FileTree.stat_directory h_target.down h_open]
    refine ⟨after, ?_, h_removed⟩
    rw [clear, if_pos h_there, h_after]
  · -- nothing is cleared where nothing is, and nothing is below
    have h_there := FileTree.isThere_of_none h_target.down h_target.free h_none
    refine ⟨tree, by simp [clear, h_there], fun other => ?_⟩
    split
    · next h_below => exact h_grounded.eq_none_below h_none h_below
    · rfl

/-! ## Entries -/

/-- Whether a path is that of something in a directory: a relative one that leads down to a name. -/
structure IsEntry (path : String) : Prop where
  relative : Path.isAbsolute path = false
  down : LeadsDown path
  named : Path.isNamed (Path.leaf path) = true

namespace IsEntry

theorem parts_eq (h_path : IsEntry path) : Path.parts path = Path.way path ++ [Path.leaf path] := by
  rw [Path.parts_eq_way_append, if_pos h_path.named]

theorem way_prefix_parts (h_path : IsEntry path) : Path.way path <+: Path.parts path := by
  rw [h_path.parts_eq]
  exact List.prefix_append _ _

theorem not_prefix_way (h_path : IsEntry path) : ¬ Path.parts path <+: Path.way path := by
  intro h_upto
  have h_length := h_upto.length_le
  rw [h_path.parts_eq, List.length_append, List.length_singleton] at h_length
  omega

theorem named_join (h_path : IsEntry path) (directory : String) :
    Path.isNamed (Path.leaf (Path.join directory path)) = true := by
  rw [Path.leaf_join h_path.relative]
  exact h_path.named

end IsEntry

theorem isEntry_of_mem_subdirectories {name : String} (h_name : name ∈ subdirectories) :
    IsEntry name ∧ Path.parts name = [name] := by
  have h_each : name = "apis" ∨ name = "types" := by simpa [subdirectories] using h_name
  rcases h_each with rfl | rfl
  · exact ⟨⟨by decide, ⟨by decide, by decide, by decide⟩, by decide⟩, by decide⟩
  · exact ⟨⟨by decide, ⟨by decide, by decide, by decide⟩, by decide⟩, by decide⟩

/-- Directories of a directory are made one after the other. -/
theorem ensureAll_opened (h_directory : LeadsDown directory) {names : List String}
    (h_names : ∀ name ∈ names, IsEntry name ∧ Path.parts name = [name])
    (h_free : ∀ name ∈ names, IsFree tree (Path.parts directory ++ [name])) :
    ∃ made, ensureAll directory names tree = (.ok (), made) ∧
      ∀ other, made.node? other =
        if ∃ name ∈ names, other <+: Path.parts directory ++ [name] then some .directory
        else tree.node? other := by
  induction names generalizing tree with
  | nil => exact ⟨tree, rfl, by simp⟩
  | cons name names ih =>
    rw [List.forall_mem_cons] at h_names h_free
    obtain ⟨⟨h_entry, h_name⟩, h_names⟩ := h_names
    have h_parts : Path.parts (Path.join directory name) = Path.parts directory ++ [name] := by
      rw [Path.parts_join h_entry.relative, h_name]
    obtain ⟨made, h_made, h_opened⟩ := ensure_opened
      (h_directory.join h_entry.down h_entry.relative) (h_entry.named_join directory)
      (by rw [h_parts]; exact h_free.1)
    rw [h_parts] at h_opened
    obtain ⟨grown, h_grown, h_others⟩ := ih h_names fun other h_other =>
      h_opened.isFree (h_free.2 other h_other)
    refine ⟨grown, ?_, fun other => ?_⟩
    · rw [ensureAll, h_made]
      exact h_grown
    · rw [h_others other, h_opened other]
      simp only [List.exists_mem_cons_iff]
      by_cases h_first : other <+: Path.parts directory ++ [name]
      · simp [h_first]
      · simp [h_first]

/-- A file where no file is in the way is written, with the directories above it. -/
theorem writeFile_written (h_directory : LeadsDown directory) (h_below : Path.parts directory ≠ [])
    (h_path : IsEntry file.path)
    (h_free : IsFree tree (Path.parts directory ++ Path.way file.path))
    (h_node : tree.node? (Path.parts directory ++ Path.parts file.path) ≠ some .directory) :
    ∃ after, writeFile directory banner file tree = (.ok (), after) ∧
      ∀ other, after.node? other =
        if other = Path.parts directory ++ Path.parts file.path then
          some (.file (banner ++ file.content))
        else if other <+: Path.parts directory ++ Path.way file.path then some .directory
        else tree.node? other := by
  have h_whole := h_directory.join h_path.down h_path.relative
  have h_named := h_path.named_join directory
  have h_way := Path.way_join h_path.relative directory
  -- the parent of the path leads where the way of the file leads from the directory
  obtain ⟨parent, idle, h_parent, h_pieces, h_idle, h_last⟩ :=
    Path.exists_parent h_named (by simp [h_way, h_below])
  have h_parts := Path.parts_of_pieces h_pieces h_idle
  rw [h_way] at h_parts
  obtain ⟨made, h_made, h_opened⟩ := ensure_opened (h_whole.of_pieces h_pieces h_idle) h_last
    (by rwa [h_parts])
  rw [h_parts] at h_opened
  have h_file : Path.parts (Path.join directory file.path) =
      Path.parts directory ++ Path.parts file.path := Path.parts_join h_path.relative directory
  -- the place of the file is below the directories that were made, so it is as it was
  have h_beyond : ¬ Path.parts directory ++ Path.parts file.path <+:
      Path.parts directory ++ Path.way file.path := by
    rw [List.prefix_append_right_inj]
    exact h_path.not_prefix_way
  have h_written := FileTree.writeFile_of_isOpen h_whole h_named
    (by rw [h_way]; exact h_opened.isOpen)
    (by rw [h_file, h_opened _, if_neg h_beyond]; exact h_node) (banner ++ file.content)
  rw [h_file] at h_written
  refine ⟨made.set (Path.parts directory ++ Path.parts file.path) (.file (banner ++ file.content)),
    ?_, fun other => ?_⟩
  · simp only [writeFile, h_parent, h_made, Written.then, h_written]
  · rw [FileTree.node?_set (by simp [h_below])]
    split
    · rfl
    · exact h_opened other

/-! ## Outputs -/

/-- Whether neither of two files stands at the place of the other or above it. -/
def Apart (file other : OutputFile) : Prop :=
  ¬ Path.parts file.path <+: Path.parts other.path ∧
    ¬ Path.parts other.path <+: Path.parts file.path

instance : DecidableRel Apart := fun _ _ => inferInstanceAs (Decidable (_ ∧ _))

/-- What the files of an output may be: files at paths of their own, none at the place of a
    subdirectory or of a directory of another file. -/
structure IsOutput (files : List OutputFile) : Prop where
  paths : ∀ file ∈ files, IsEntry file.path
  free : ∀ file ∈ files, ∀ name ∈ subdirectories, Path.parts file.path ≠ [name]
  apart : files.Pairwise Apart

/-- What a tree has at a place after an output was written there, when it was `before` otherwise: the
    files of the output with the banner in front, the subdirectories and the directories of the files,
    and nothing else. Outside only the directories above the place may be new. -/
structure HasOutput (before : FileTree) (place : Place) (banner : String) (files : List OutputFile)
    (after : FileTree) : Prop where
  file_iff : ∀ names text, after.node? (place ++ names) = some (.file text) ↔
    ∃ file ∈ files, Path.parts file.path = names ∧ text = banner ++ file.content
  directory_iff : ∀ names, after.node? (place ++ names) = some .directory ↔
    names = [] ∨ (∃ name ∈ subdirectories, names = [name]) ∨
      ∃ file ∈ files, names <+: Path.way file.path
  outside : ∀ other, ¬ place <+: other →
    after.node? other = if other <+: place then some .directory else before.node? other

/-- A place that is not below another one is above it when it is above something below it. -/
theorem prefix_append_iff {other names : Place} (h_outside : ¬ place <+: other) :
    other <+: place ++ names ↔ other <+: place := by
  refine ⟨fun h_upto => ?_, fun h_upto => h_upto.trans (List.prefix_append place names)⟩
  exact (List.prefix_or_prefix_of_prefix h_upto (List.prefix_append place names)).resolve_right
    h_outside

/-- Before the first file there are the subdirectories. -/
theorem hasOutput_nil (h_removed : Removed place before after)
    (h_made : ∀ other, made.node? other =
      if ∃ name ∈ subdirectories, other <+: place ++ [name] then some .directory
      else after.node? other) : HasOutput before place banner [] made := by
  have h_inside (names : Place) : made.node? (place ++ names) =
      if ∃ name ∈ subdirectories, names <+: [name] then some .directory else none := by
    rw [h_made, h_removed, if_pos (List.prefix_append place names)]
    simp only [List.prefix_append_right_inj]
  have h_each (names : Place) : (∃ name ∈ subdirectories, names <+: [name]) ↔
      names = [] ∨ ∃ name ∈ subdirectories, names = [name] := by
    have h_single (name : String) : names <+: [name] ↔ names = [] ∨ names = [name] := by
      simp [List.prefix_cons_iff]
    simp only [subdirectories, List.exists_mem_cons_iff, List.not_mem_nil, false_and, exists_false,
      or_false, h_single]
    tauto
  constructor
  · intro names text
    rw [h_inside]
    split <;> simp
  · intro names
    rw [h_inside, ← or_assoc, ← h_each]
    simp
  · intro other h_outside
    rw [h_made, h_removed, if_neg h_outside]
    simp only [prefix_append_iff h_outside]
    simp [subdirectories]

section File

variable (h_files : IsOutput (done ++ [file]))

include h_files

theorem IsOutput.isEntry : IsEntry file.path :=
  h_files.paths file (List.mem_append_right _ (List.mem_singleton_self file))

theorem IsOutput.apart_of_mem {other : OutputFile} (h_other : other ∈ done) : Apart other file :=
  (List.pairwise_append.mp h_files.apart).2.2 other h_other file (List.mem_singleton_self file)

/-- No directory of the files before stands where the next file shall. -/
theorem IsOutput.not_directory :
    ¬ (Path.parts file.path = [] ∨ (∃ name ∈ subdirectories, Path.parts file.path = [name]) ∨
      ∃ other ∈ done, Path.parts file.path <+: Path.way other.path) := by
  rintro (h_nil | ⟨name, h_name, h_parts⟩ | ⟨other, h_other, h_upto⟩)
  · rw [h_files.isEntry.parts_eq] at h_nil
    simp at h_nil
  · have h_mem : file ∈ done ++ [file] := List.mem_append_right _ (List.mem_singleton_self file)
    exact h_files.free file h_mem name h_name h_parts
  · have h_entry := h_files.paths other (List.mem_append_left _ h_other)
    exact (h_files.apart_of_mem h_other).2 (h_upto.trans h_entry.way_prefix_parts)

/-- No file before stands where the next file shall, or a directory of it. -/
theorem IsOutput.not_file {names : Place} (h_above : names <+: Path.parts file.path) :
    ¬ ∃ other ∈ done, Path.parts other.path = names := by
  rintro ⟨other, h_other, rfl⟩
  exact (h_files.apart_of_mem h_other).1 h_above

namespace HasOutput

variable (h_output : HasOutput before place banner done tree)

include h_output

/-- No file is in the way of the next one. -/
theorem isFree : IsFree tree (place ++ Path.way file.path) := by
  intro above h_above text h_node
  by_cases h_inside : place <+: above
  · obtain ⟨names, rfl⟩ := h_inside
    obtain ⟨other, h_other, h_parts, -⟩ := (h_output.file_iff names text).mp h_node
    have h_way := (List.prefix_append_right_inj place).mp h_above
    exact h_files.not_file (h_way.trans h_files.isEntry.way_prefix_parts) ⟨other, h_other, h_parts⟩
  · rw [h_output.outside above h_inside, if_pos ((prefix_append_iff h_inside).mp h_above)] at h_node
    cases h_node

/-- One more file. -/
theorem concat (h_after : ∀ other, after.node? other =
      if other = place ++ Path.parts file.path then some (.file (banner ++ file.content))
      else if other <+: place ++ Path.way file.path then some .directory
      else tree.node? other) : HasOutput before place banner (done ++ [file]) after := by
  have h_inside (names : Place) : after.node? (place ++ names) =
      if names = Path.parts file.path then some (.file (banner ++ file.content))
      else if names <+: Path.way file.path then some .directory
      else tree.node? (place ++ names) := by
    rw [h_after]
    simp only [List.append_cancel_left_eq, List.prefix_append_right_inj]
  have h_new (P : OutputFile → Prop) : (∃ other ∈ done ++ [file], P other) ↔
      (∃ other ∈ done, P other) ∨ P file := by
    simp only [List.mem_append, List.mem_singleton, or_and_right, exists_or, exists_eq_left]
  -- no file before is at the place of the new one or above it
  have h_none (names : Place) (text : String) (h_above : names <+: Path.parts file.path) :
      ¬ ∃ other ∈ done, Path.parts other.path = names ∧ text = banner ++ other.content := by
    rintro ⟨other, h_other, h_parts, -⟩
    exact h_files.not_file h_above ⟨other, h_other, h_parts⟩
  constructor
  · intro names text
    rw [h_inside, h_new]
    by_cases h_same : names = Path.parts file.path
    · rw [if_pos h_same, or_iff_right (h_none names text (h_same ▸ List.prefix_refl _))]
      simp [h_same, eq_comm]
    · rw [if_neg h_same, or_iff_left fun h_parts => h_same h_parts.1.symm]
      by_cases h_way : names <+: Path.way file.path
      · have h_above := h_way.trans h_files.isEntry.way_prefix_parts
        rw [if_pos h_way]
        exact iff_of_false (by simp) (h_none names text h_above)
      · rw [if_neg h_way]
        exact h_output.file_iff names text
  · intro names
    rw [h_inside, h_new]
    by_cases h_same : names = Path.parts file.path
    · subst h_same
      rw [if_pos rfl, ← or_assoc, ← or_assoc, or_iff_left h_files.isEntry.not_prefix_way, or_assoc]
      exact iff_of_false (by simp) h_files.not_directory
    · rw [if_neg h_same]
      by_cases h_way : names <+: Path.way file.path
      · rw [if_pos h_way]
        exact iff_of_true rfl (.inr (.inr (.inr h_way)))
      · rw [if_neg h_way, or_iff_left h_way]
        exact h_output.directory_iff names
  · intro other h_outside
    have h_file : other ≠ place ++ Path.parts file.path := by
      rintro rfl
      exact h_outside (List.prefix_append _ _)
    rw [h_after, if_neg h_file, h_output.outside other h_outside]
    simp only [prefix_append_iff h_outside]
    split <;> rfl

end HasOutput

end File

theorem IsOutput.shortened (h_files : IsOutput (done ++ files)) : IsOutput done where
  paths file h_file := h_files.paths file (List.mem_append_left _ h_file)
  free file h_file := h_files.free file (List.mem_append_left _ h_file)
  apart := (List.pairwise_append.mp h_files.apart).1

/-- Each file of an output is written, and the ones before it stay. -/
theorem writeFiles_hasOutput (h_directory : LeadsDown directory)
    (h_below : Path.parts directory ≠ []) (h_files : IsOutput (done ++ files))
    (h_output : HasOutput before (Path.parts directory) banner done tree) :
    ∃ after, writeFiles directory banner files tree = (.ok (), after) ∧
      HasOutput before (Path.parts directory) banner (done ++ files) after := by
  induction files generalizing done tree with
  | nil => exact ⟨tree, rfl, by rwa [List.append_nil]⟩
  | cons file files ih =>
    rw [List.append_cons] at h_files ⊢
    have h_next := h_files.shortened
    -- the invariant tells that nothing is in the way of the next file
    have h_node : tree.node? (Path.parts directory ++ Path.parts file.path) ≠ some .directory :=
      fun h_node => h_next.not_directory ((h_output.directory_iff _).mp h_node)
    obtain ⟨written, h_written, h_places⟩ := writeFile_written h_directory h_below h_next.isEntry
      (h_output.isFree h_next) h_node
    obtain ⟨after, h_after, h_whole⟩ := ih h_files (h_output.concat h_next h_places)
    refine ⟨after, ?_, h_whole⟩
    rw [writeFiles, h_written]
    exact h_after

/-- To an output without files any files may be added. -/
theorem HasOutput.filled (h_empty : HasOutput before (Path.parts directory) banner [] tree)
    (h_target : IsTarget before directory) (h_files : IsOutput files) :
    ∃ after, writeFiles directory banner files tree = (.ok (), after) ∧
      HasOutput before (Path.parts directory) banner files after := by
  rw [← List.nil_append files] at h_files
  exact writeFiles_hasOutput h_target.down h_target.below h_files h_empty

/-- Writing an output is writing its files to a tree that has an output without files. -/
theorem writeOutput_eq_writeFiles (h_grounded : Grounded tree) (h_target : IsTarget tree directory)
    (banner : String) (files : List OutputFile) :
    ∃ made, writeOutput tree directory banner files = writeFiles directory banner files made ∧
      HasOutput tree (Path.parts directory) banner [] made := by
  obtain ⟨cleared, h_cleared, h_removed⟩ := clear_removed h_grounded h_target
  have h_free : ∀ name ∈ subdirectories, IsFree cleared (Path.parts directory ++ [name]) := by
    intro name _ above h_above text h_node
    -- below the directory nothing is left, and above it no file stood before
    rw [h_removed above] at h_node
    split at h_node
    · cases h_node
    · next h_outside =>
      exact h_target.free above ((prefix_append_iff h_outside).mp h_above) text h_node
  obtain ⟨made, h_made, h_places⟩ := ensureAll_opened h_target.down
    (fun name => isEntry_of_mem_subdirectories) h_free
  refine ⟨made, ?_, hasOutput_nil h_removed h_places⟩
  rw [writeOutput, h_cleared]
  dsimp only [Written.then]
  rw [h_made]

/-- An output is written to any directory that it may be written to, whatever stood there before: the
    files and their directories are there then and nothing else, and everything outside is as it
    was. -/
theorem writeOutput_hasOutput (h_grounded : Grounded tree) (h_target : IsTarget tree directory)
    (h_files : IsOutput files) (banner : String) :
    ∃ after, writeOutput tree directory banner files = (.ok (), after) ∧
      HasOutput tree (Path.parts directory) banner files after := by
  obtain ⟨made, h_written, h_empty⟩ := writeOutput_eq_writeFiles h_grounded h_target banner files
  rw [h_written]
  exact h_empty.filled h_target h_files

/-- A directory with an older file in it, and a file next to it. -/
def olderTree : FileTree :=
  [(["work"], .directory), (["work", "keep"], .file "k"), (["work", "out"], .directory),
    (["work", "out", "old"], .file "o")]

/-- Two files, one in directories of its own. -/
def twoFiles : List OutputFile := [⟨"common.d.ts", "c"⟩, ⟨"types/pets/cats.d.ts", "t"⟩]

theorem writeOutput_over_olderTree :
    ∃ after, writeOutput olderTree "/work/out" "// " twoFiles = (.ok (), after) ∧
      HasOutput olderTree (Path.parts "/work/out") "// " twoFiles after := by
  have h_grounded : Grounded olderTree := Grounded.of_entries (by decide)
  refine writeOutput_hasOutput h_grounded ?_ ?_ "// "
  · exact ⟨⟨by decide, by decide, by decide⟩, by decide,
      (h_grounded.isOpen (by decide)).isFree, fun _ => by decide⟩
  · refine ⟨?_, by decide, by decide⟩
    intro file h_file
    have h_each : file = ⟨"common.d.ts", "c"⟩ ∨ file = ⟨"types/pets/cats.d.ts", "t"⟩ := by
      simpa [twoFiles] using h_file
    rcases h_each with rfl | rfl
    · exact ⟨by decide, ⟨by decide, by decide, by decide⟩, by decide⟩
    · exact ⟨by decide, ⟨by decide, by decide, by decide⟩, by decide⟩

namespace HasOutput

/-- A tree that stood on directories before an output stands on directories after it. -/
theorem grounded (h_grounded : Grounded before)
    (h_output : HasOutput before place banner files after) (h_files : IsOutput files) :
    Grounded after := by
  intro other name h_some
  by_cases h_inside : place <+: other
  · -- what is below the place is there for a file or is one, so its directory is there for the file
    obtain ⟨names, rfl⟩ := h_inside
    rw [List.append_assoc] at h_some
    rw [h_output.directory_iff]
    match h_node : after.node? (place ++ (names ++ [name])) with
    | none => exact absurd h_node h_some
    | some .directory =>
      rcases (h_output.directory_iff _).mp h_node with
        h_nil | ⟨_, -, h_name⟩ | ⟨file, h_file, h_way⟩
      · simp at h_nil
      · exact .inl (List.append_eq_singleton_iff.mp h_name |>.elim And.left (by simp))
      · exact .inr (.inr ⟨file, h_file, (List.prefix_append names _).trans h_way⟩)
    | some (.file text) =>
      obtain ⟨file, h_file, h_parts, -⟩ := (h_output.file_iff _ text).mp h_node
      rw [(h_files.paths file h_file).parts_eq] at h_parts
      have h_way := (List.append_inj' h_parts rfl).1
      exact .inr (.inr ⟨file, h_file, h_way ▸ List.prefix_refl _⟩)
  · rw [h_output.outside other h_inside]
    by_cases h_above : other <+: place
    · rw [if_pos h_above]
    · have h_outside : ¬ place <+: other ++ [name] := by
        intro h_upto
        rcases List.prefix_concat_iff.mp h_upto with rfl | h_upto
        · exact h_above (List.prefix_append other _)
        · exact h_inside h_upto
      have h_beside : ¬ other ++ [name] <+: place := fun h_upto =>
        h_above ((List.prefix_append other _).trans h_upto)
      rw [h_output.outside _ h_outside, if_neg h_beside] at h_some
      rw [if_neg h_above]
      exact h_grounded other name h_some

/-- An output that replaces another one leaves what it would have left without the other one. -/
theorem replaced {middle : FileTree} {first : String}
    (h_first : HasOutput before place first done middle)
    (h_second : HasOutput middle place banner files after) :
    HasOutput before place banner files after where
  file_iff := h_second.file_iff
  directory_iff := h_second.directory_iff
  outside other h_outside := by
    rw [h_second.outside other h_outside, h_first.outside other h_outside]
    split <;> rfl

/-- The directory of an output may be written to again. -/
theorem isTarget (h_output : HasOutput before (Path.parts directory) banner files after)
    (h_target : IsTarget before directory)
    (h_path : (FileTree.partsOf directory).getLast? ≠ some ".") : IsTarget after directory where
  down := h_target.down
  below := h_target.below
  free := by
    -- at the place and above it there are directories, which are in nobody's way
    intro above h_above text h_node
    by_cases h_inside : Path.parts directory <+: above
    · have h_place := (h_output.directory_iff []).mpr (.inl rfl)
      rw [List.append_nil, h_inside.eq_of_length_le h_above.length_le, h_node] at h_place
      cases h_place
    · rw [h_output.outside above h_inside, if_pos h_above] at h_node
      cases h_node
  removable _ := h_path

end HasOutput

/-! ## Runs -/

/-- Whether a tree comes from another one by writing an output to a directory. -/
def Rewrites (directory : String) (before after : FileTree) : Prop :=
  ∃ banner files, IsOutput files ∧
    writeOutput before directory banner files = (.ok (), after)

/-- What one more output leaves, told of the tree after it. -/
theorem Rewrites.exists_hasOutput (h_rewrites : Rewrites directory before after)
    (h_grounded : Grounded before) (h_target : IsTarget before directory) :
    ∃ banner files, IsOutput files ∧
      HasOutput before (Path.parts directory) banner files after := by
  obtain ⟨banner, files, h_files, h_after⟩ := h_rewrites
  obtain ⟨made, h_written, h_empty⟩ := writeOutput_eq_writeFiles h_grounded h_target banner files
  obtain ⟨filled, h_filled, h_output⟩ := h_empty.filled h_target h_files
  obtain rfl : after = filled := (Prod.mk.inj ((h_after.symm.trans h_written).trans h_filled)).2
  exact ⟨banner, files, h_files, h_output⟩

/-- What is written after any number of outputs is what would have been written without them: each
    leaves the tree so that the next may be written, and nothing of it stays. -/
theorem writeOutput_after_rewrites (h_grounded : Grounded before)
    (h_target : IsTarget before directory)
    (h_path : (FileTree.partsOf directory).getLast? ≠ some ".")
    (h_rewrites : Relation.ReflTransGen (Rewrites directory) before tree)
    (h_files : IsOutput files) (banner : String) :
    ∃ after, writeOutput tree directory banner files = (.ok (), after) ∧
      HasOutput before (Path.parts directory) banner files after := by
  induction h_rewrites using Relation.ReflTransGen.head_induction_on with
  | refl =>
    obtain ⟨made, h_written, h_empty⟩ := writeOutput_eq_writeFiles h_grounded h_target banner files
    rw [h_written]
    exact h_empty.filled h_target h_files
  | head h_first _ ih =>
    -- the first output is there before the others are written, and the last one replaces it
    obtain ⟨_, done, h_done, h_output⟩ := h_first.exists_hasOutput h_grounded h_target
    obtain ⟨after, h_after, h_last⟩ :=
      ih (h_output.grounded h_grounded h_done) (h_output.isTarget h_target h_path)
    exact ⟨after, h_after, h_output.replaced h_last⟩

/-- Nothing is made under a name that is longer than a name may be. -/
theorem writeOutput_of_long {name : String} (h_parts : FileTree.partsOf directory = [name])
    (h_zero : ∀ c ∈ directory.toList, c.toNat ≠ 0)
    (h_long : FileTree.longestName < name.utf8ByteSize) (tree : FileTree) (banner : String)
    (files : List OutputFile) :
    writeOutput tree directory banner files =
      (.error (.makingDirectory (Path.join directory "apis") .nameTooLong), tree) := by
  have h_entry : IsEntry "apis" := (isEntry_of_mem_subdirectories List.mem_cons_self).1
  have h_enter : FileTree.enter tree [] name = .error .nameTooLong := by
    rw [FileTree.enter, FileTree.node?_root]
    exact if_pos h_long
  have h_there : tree.isThere directory = false := by
    simp only [FileTree.isThere, FileTree.stat, FileTree.takePath_of_zeroless h_zero, h_parts,
      FileTree.walk, h_enter, bind, Except.bind]
  have h_apis : FileTree.partsOf (Path.join directory "apis") = [name, "apis"] := by
    rw [FileTree.partsOf_join h_entry.relative, h_parts]
    rfl
  have h_make : tree.ensureDirectory (Path.join directory "apis") = (.error .nameTooLong, tree) := by
    have h_take : FileTree.takePath (Path.join directory "apis") = .ok () := by
      refine FileTree.takePath_of_zeroless fun c h_c => ?_
      rcases Path.mem_join h_entry.relative h_c with h_c | rfl | h_c
      · exact h_zero c h_c
      · decide
      · exact h_entry.down.zeroless c h_c
    have h_some : Path.join directory "apis" ≠ "" := by
      intro h_empty
      rw [h_empty] at h_apis
      exact List.cons_ne_nil _ _ h_apis.symm
    rw [FileTree.ensureDirectory, if_neg h_some, h_take, h_apis]
    simp [FileTree.makeDirectories, FileTree.makeDirectory, FileTree.isDirectory, FileTree.walk,
      h_enter, bind, Except.bind]
  rw [writeOutput, clear, h_there]
  simp [Written.then, ensureAll, subdirectories, ensure, h_make]

/-- A name that is too long by one byte. -/
def longName : String := String.ofList (List.replicate 256 'a')

/-- Not every output is written. Where the path of a directory that is there ends in `.`, what is in
    the directory is lost and the directory stays. A path may lead to no name, or to the place of
    another file, and a name may be too long or have a zero character in it. -/
theorem outputs_not_written :
    writeOutput [(["out"], .directory), (["out", "old"], .file "o")] "/out/." "" [] =
        (.error (.removing "/out/." .invalidArgument), [(["out"], .directory)]) ∧
      (writeOutput [] "/out" "" [⟨"a/", "x"⟩]).1 = .error (.makingFile "/out/a/" .isADirectory) ∧
      (writeOutput [] "/out" "" [⟨"a", "x"⟩, ⟨"./a", "y"⟩]).2.node? ["out", "a"] =
        some (.file "y") ∧
      (writeOutput [] ("/" ++ longName) "" []).1 =
        .error (.makingDirectory (Path.join ("/" ++ longName) "apis") .nameTooLong) ∧
      (writeOutput [] "/out" "" [⟨"\x00", "x"⟩]).1 =
        .error (.makingFile "/out/\x00" .zeroInPath) := by
  have h_name : longName.toList = List.replicate 256 'a' := String.toList_ofList
  have h_long : FileTree.longestName < longName.utf8ByteSize := by decide +kernel
  have h_parts : FileTree.partsOf ("/" ++ longName) = [longName] := by
    refine FileTree.partsOf_of_flat (by rw [h_name, List.mem_replicate]; decide) fun h_empty => ?_
    rw [h_empty] at h_long
    exact absurd h_long (by decide)
  have h_zero : ∀ c ∈ ("/" ++ longName).toList, c.toNat ≠ 0 := by
    intro c h_c
    rw [String.toList_append, h_name, List.mem_append, List.mem_replicate] at h_c
    rcases h_c with h_c | ⟨-, rfl⟩
    · revert c
      decide
    · decide
  refine ⟨by decide +kernel, by decide +kernel, by decide +kernel, ?_, by decide +kernel⟩
  rw [writeOutput_of_long h_parts h_zero h_long]

end OpenApiTs.Workspace
