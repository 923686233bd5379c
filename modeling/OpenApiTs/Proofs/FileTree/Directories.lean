/-
  OpenApiTs.Proofs.FileTree.Directories

  New directories. Where no file is in the way, a directory is made together with those above it that
  are missing, and everything else stays as it was.

  The recursion goes up from the last part to the first directory that is there; on its way back every
  part finds the directory that it shall be made in.
-/
import OpenApiTs.Proofs.FileTree.Places

namespace OpenApiTs.FileTree

variable {tree : FileTree} {place above : Place} {last : String} {parts before : List String}

/-! ## Opened places -/

/-- What one tree is to another when a place and every place above it have become directories. -/
def Opened (place : Place) (tree made : FileTree) : Prop :=
  ∀ other, made.node? other = if other <+: place then some .directory else tree.node? other

theorem Opened.isOpen {made : FileTree} (h_opened : Opened place tree made) : IsOpen made place :=
  fun above h_above => by rw [h_opened above, if_pos h_above]

theorem opened_of_isOpen (h_open : IsOpen tree place) : Opened place tree tree := by
  intro other
  split
  · next h_above => exact h_open other h_above
  · rfl

/-- New directories are in nobody's way. -/
theorem Opened.isFree {made : FileTree} (h_opened : Opened above tree made)
    (h_free : IsFree tree place) : IsFree made place := by
  intro other h_other text h_node
  rw [h_opened other] at h_node
  split at h_node
  · cases h_node
  · exact h_free other h_other text h_node

/-- One more directory. -/
theorem opened_set {name : String} (h_open : IsOpen tree place) :
    Opened (place ++ [name]) tree (tree.set (place ++ [name]) .directory) := by
  intro other
  rw [node?_set (by simp)]
  by_cases h_other : other = place ++ [name]
  · rw [if_pos h_other, h_other, if_pos (List.prefix_refl _)]
  · rw [if_neg h_other]
    split
    · next h_above =>
      exact h_open other ((List.prefix_concat_iff.mp h_above).resolve_left h_other)
    · rfl

/-- What is opened in two steps is opened. -/
theorem Opened.trans {made grown : FileTree} (h_first : Opened above tree made)
    (h_second : Opened place made grown) (h_above : above <+: place) : Opened place tree grown := by
  intro other
  rw [h_second other]
  split
  · rfl
  · next h_other => rw [h_first other, if_neg fun h_upto => h_other (h_upto.trans h_above)]

theorem isDirectory_of_isOpen (h_fits : ∀ part ∈ parts, Fits part)
    (h_open : IsOpen tree (names parts)) : tree.isDirectory parts = true := by
  simp only [isDirectory, walk_of_isOpen h_fits h_open, h_open.at, beq_self_eq_true]

/-- In a directory a name makes a new one, or is taken. -/
theorem makeDirectory_of_isOpen (h_fits : ∀ part ∈ before ++ [last], Fits part) (h_dot : last ≠ ".")
    (h_open : IsOpen tree (names before)) :
    tree.makeDirectory (before ++ [last]) =
      match tree.node? (names before ++ [last]) with
      | some _ => .error .alreadyExists
      | none => .ok (tree.set (names before ++ [last]) .directory) := by
  rw [List.forall_mem_append, List.forall_mem_singleton] at h_fits
  have h_dots : isDots last = false := by simp [isDots, h_dot, h_fits.2.down]
  simp only [makeDirectory, List.getLast?_concat, List.dropLast_concat,
    walk_of_isOpen h_fits.1 h_open, bind, Except.bind, enter_directory h_fits.2 h_open.at, h_dots]
  rfl

/-- Without the directory that it shall be in, nothing is made. -/
theorem makeDirectory_of_not_isOpen (h_fits : ∀ part ∈ before ++ [last], Fits part)
    (h_free : IsFree tree (names before)) (h_closed : ¬ IsOpen tree (names before)) :
    tree.makeDirectory (before ++ [last]) = .error .notFound := by
  rw [List.forall_mem_append, List.forall_mem_singleton] at h_fits
  rcases walk_of_not_isOpen h_fits.1 h_free h_closed with h_walk | ⟨h_walk, h_none⟩
  · simp only [makeDirectory, List.getLast?_concat, List.dropLast_concat, h_walk, bind, Except.bind]
  · simp only [makeDirectory, List.getLast?_concat, List.dropLast_concat, h_walk, bind, Except.bind,
      enter_nothing h_none]

/-- A directory made, or found where one cannot be made. -/
def makeOrFind (tree : FileTree) (parts : List String) : Except SystemError Unit × FileTree :=
  match tree.makeDirectory parts with
  | .ok made => (.ok (), made)
  | .error error => if tree.isDirectory parts then (.ok (), tree) else (.error error, tree)

/-- In a directory a name is that of a directory in the end. -/
theorem makeOrFind_opened (h_fits : ∀ part ∈ before ++ [last], Fits part) (h_dot : last ≠ ".")
    (h_open : IsOpen tree (names before)) (h_free : IsFree tree (names before ++ [last])) :
    ∃ made, tree.makeOrFind (before ++ [last]) = (.ok (), made) ∧
      Opened (names before ++ [last]) tree made := by
  rw [makeOrFind, makeDirectory_of_isOpen h_fits h_dot h_open]
  rcases h_free.cases with h_node | h_none
  · have h_whole := isOpen_concat_iff.mpr ⟨h_open, h_node⟩
    have h_names : IsOpen tree (names (before ++ [last])) := by rwa [names_concat, if_neg h_dot]
    rw [h_node]
    exact ⟨tree, if_pos (isDirectory_of_isOpen h_fits h_names), opened_of_isOpen h_whole⟩
  · rw [h_none]
    exact ⟨_, rfl, opened_set h_open⟩

/-! ## Directories with those above them -/

/-- Dots at the end of a path name nothing. -/
theorem names_reverse_dropWhile (others : List String) :
    names (others.dropWhile (· == ".")).reverse = names others.reverse := by
  have h_dots : ∀ part ∈ others.takeWhile (· == "."), part = "." := fun part h_part =>
    beq_iff_eq.mp (List.all_eq_true.mp List.all_takeWhile part h_part)
  conv_rhs => rw [← List.takeWhile_append_dropWhile (p := (· == ".")) (l := others)]
  rw [List.reverse_append, names, names, List.filter_append]
  simpa using h_dots

theorem head?_dropWhile_ne (others : List String) :
    (others.dropWhile (· == ".")).head? ≠ some "." := by
  intro h_head
  have h_not := List.head?_dropWhile_not (· == ".") others
  rw [h_head] at h_not
  simp at h_not

theorem makeDirectories_of_found {reversed : List String}
    (h_found : tree.makeDirectory reversed.reverse ≠ .error .notFound) :
    tree.makeDirectories reversed = tree.makeOrFind reversed.reverse := by
  rw [makeDirectories, makeOrFind]
  -- any other error is what the call ends with
  cases h_make : tree.makeDirectory reversed.reverse with
  | ok made => rfl
  | error error =>
    have h_other : error ≠ .notFound := by
      rintro rfl
      exact h_found h_make
    exact if_neg h_other

/-- Where the directory above is missing it is made first, and then the last one. -/
theorem makeDirectories_of_missing {reversed above : List String} {made : FileTree}
    (h_missing : tree.makeDirectory reversed.reverse = .error .notFound)
    (h_above : above? reversed = some above) (h_made : tree.makeDirectories above = (.ok (), made)) :
    tree.makeDirectories reversed = made.makeOrFind reversed.reverse := by
  rw [makeDirectories, h_missing]
  dsimp only
  rw [if_pos rfl]
  -- the directory above is made first; the root has none above it
  split
  · next h_none =>
    rw [h_none] at h_above
    cases h_above
  · next h_some =>
    rw [h_some] at h_above
    cases h_above
    rw [h_made]
    rfl

/-- Where no file is in the way, a directory is made with those above it that are missing. -/
theorem makeDirectories_opened {reversed : List String} (h_fits : ∀ part ∈ reversed, Fits part)
    (h_dot : reversed.head? ≠ some ".") (h_free : IsFree tree (names reversed.reverse)) :
    ∃ made, tree.makeDirectories reversed = (.ok (), made) ∧
      Opened (names reversed.reverse) tree made := by
  induction h_length : reversed.length using Nat.strong_induction_on generalizing reversed with
  | _ length ih =>
    cases reversed with
    | nil =>
      refine ⟨tree, ?_, opened_of_isOpen (isOpen_nil tree)⟩
      rw [makeDirectories]
      simp [makeDirectory, isDirectory, walk]
    | cons last others =>
      have h_last : last ≠ "." := fun h_eq => h_dot (by rw [h_eq]; rfl)
      have h_whole : ∀ part ∈ others.reverse ++ [last], Fits part := by
        rw [← List.reverse_cons]
        exact fun part h_part => h_fits part (List.mem_reverse.mp h_part)
      rw [List.reverse_cons, names_concat, if_neg h_last] at h_free ⊢
      by_cases h_open : IsOpen tree (names others.reverse)
      · have h_found : tree.makeDirectory (last :: others).reverse ≠ .error .notFound := by
          rw [List.reverse_cons, makeDirectory_of_isOpen h_whole h_last h_open]
          split <;> simp
        rw [makeDirectories_of_found h_found, List.reverse_cons]
        exact makeOrFind_opened h_whole h_last h_open h_free
      · -- the directories above are made first, and then there is one to make the last in
        have h_above : above? (last :: others) = some (others.dropWhile (· == ".")) := by
          simp [above?, h_last]
        have h_before := h_free.shortened (List.prefix_append (names others.reverse) [last])
        have h_others : ∀ part ∈ others.dropWhile (· == "."), Fits part := fun part h_part =>
          h_fits part (List.mem_cons_of_mem _ ((List.dropWhile_subset _) h_part))
        obtain ⟨made, h_made, h_opened⟩ := ih _ (h_length ▸ length_of_above? h_above) h_others
          (head?_dropWhile_ne others) (by rwa [names_reverse_dropWhile]) rfl
        rw [names_reverse_dropWhile] at h_opened
        have h_missing := makeDirectory_of_not_isOpen h_whole h_before h_open
        rw [← List.reverse_cons] at h_missing
        obtain ⟨grown, h_grown, h_last⟩ := makeOrFind_opened h_whole h_last h_opened.isOpen
          (h_opened.isFree h_free)
        refine ⟨grown, ?_, h_opened.trans h_last (List.prefix_append _ _)⟩
        rw [makeDirectories_of_missing h_missing h_above h_made, List.reverse_cons, h_grown]

end OpenApiTs.FileTree
