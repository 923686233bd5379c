/-
  OpenApiTs.Proofs.FileTree.Places

  Places of a file tree: what stands at one after a change, and where parts lead. Parts that do not
  lead back lead to the place of their names when everything on the way is a directory, and find
  nothing when a directory on the way is missing.
-/
import OpenApiTs.FileTree.Basic
import Mathlib.Data.List.Basic
import Mathlib.Data.List.Infix

namespace OpenApiTs.FileTree

variable {tree : FileTree} {place above other : Place} {node : Node} {last : String}
  {parts before : List String}

/-! ## What stands at a place -/

@[simp] theorem node?_root (tree : FileTree) : tree.node? [] = some .directory := if_pos rfl

theorem lookup_cons (here : Place) (there : Node) (tree : FileTree) (other : Place) :
    List.lookup other ((here, there) :: tree) =
      if other = here then some there else tree.lookup other := by
  rw [List.lookup_cons]
  by_cases h_other : other = here
  · subst h_other
    rw [beq_self_eq_true, if_pos rfl]
  · rw [beq_false_of_ne h_other, if_neg h_other]

theorem lookup_set (tree : FileTree) (place other : Place) (node : Node) :
    (tree.set place node).lookup other = if other = place then some node else tree.lookup other := by
  induction tree with
  | nil => exact lookup_cons place node [] other
  | cons entry tree ih =>
    obtain ⟨here, there⟩ := entry
    rw [set]
    by_cases h_here : here = place
    · rw [if_pos h_here, lookup_cons, lookup_cons, h_here]
      split <;> rfl
    · rw [if_neg h_here, lookup_cons, lookup_cons, ih]
      by_cases h_other : other = place
      · rw [h_other, if_neg (Ne.symm h_here), if_pos rfl, if_pos rfl]
      · rw [if_neg h_other, if_neg h_other]

/-- Setting a node changes what stands at its place and nothing else. -/
theorem node?_set (h_place : place ≠ []) (tree : FileTree) (node : Node) (other : Place) :
    (tree.set place node).node? other = if other = place then some node else tree.node? other := by
  rw [node?, node?, lookup_set]
  -- the root is a directory whatever is recorded for it, so it is kept apart
  by_cases h_root : other = []
  · rw [if_pos h_root, if_neg (h_root ▸ h_place.symm), if_pos h_root]
  · rw [if_neg h_root, if_neg h_root]

theorem lookup_filter (keep : Place → Bool) (tree : FileTree) (other : Place) :
    List.lookup other (tree.filter fun entry => keep entry.1) =
      if keep other = true then tree.lookup other else none := by
  induction tree with
  | nil => simp
  | cons entry tree ih =>
    obtain ⟨here, there⟩ := entry
    rw [List.filter_cons, lookup_cons]
    by_cases h_other : other = here
    · subst h_other
      by_cases h_keep : keep other = true
      · rw [if_pos h_keep, lookup_cons, if_pos rfl, if_pos h_keep, if_pos rfl]
      · rw [if_neg h_keep, ih, if_neg h_keep, if_neg h_keep]
    · rw [if_neg h_other]
      split
      · rw [lookup_cons, if_neg h_other, ih]
      · exact ih

/-- A tree of which only some places are kept. The root always is. -/
theorem node?_filter (keep : Place → Bool) (tree : FileTree) (other : Place) :
    node? (tree.filter fun entry => keep entry.1) other =
      if other = [] ∨ keep other = true then tree.node? other else none := by
  rw [node?, node?, lookup_filter]
  by_cases h_root : other = []
  · rw [if_pos h_root, if_pos h_root, if_pos (.inl h_root)]
  · simp only [h_root, if_false, false_or]

/-! ## Trees that stand on directories -/

/-- Whether everything stands in a directory. -/
def Grounded (tree : FileTree) : Prop :=
  ∀ place name, tree.node? (place ++ [name]) ≠ none → tree.node? place = some .directory

/-- Whether a place and every place above it is a directory. -/
def IsOpen (tree : FileTree) (place : Place) : Prop :=
  ∀ above, above <+: place → tree.node? above = some .directory

/-- Whether no file stands at a place or above it. -/
def IsFree (tree : FileTree) (place : Place) : Prop :=
  ∀ above, above <+: place → ∀ text, tree.node? above ≠ some (.file text)

theorem IsOpen.shortened (h_open : IsOpen tree place) (h_above : above <+: place) :
    IsOpen tree above :=
  fun other h_other => h_open other (h_other.trans h_above)

theorem IsOpen.at (h_open : IsOpen tree place) : tree.node? place = some .directory :=
  h_open place (List.prefix_refl place)

theorem IsFree.shortened (h_free : IsFree tree place) (h_above : above <+: place) :
    IsFree tree above :=
  fun other h_other => h_free other (h_other.trans h_above)

/-- Where no file stands there is a directory or nothing. -/
theorem IsFree.cases (h_free : IsFree tree place) :
    tree.node? place = some .directory ∨ tree.node? place = none := by
  match h_node : tree.node? place with
  | some .directory => exact .inl rfl
  | some (.file text) => exact absurd h_node (h_free place (List.prefix_refl place) text)
  | none => exact .inr rfl

theorem IsOpen.isFree (h_open : IsOpen tree place) : IsFree tree place := by
  intro above h_above text h_node
  rw [h_open above h_above] at h_node
  cases h_node

theorem isOpen_nil (tree : FileTree) : IsOpen tree [] := by
  intro above h_above
  rw [List.prefix_nil.mp h_above, node?_root]

/-- A place is open when the one above is and it is a directory itself. -/
theorem isOpen_concat_iff {name : String} :
    IsOpen tree (place ++ [name]) ↔
      IsOpen tree place ∧ tree.node? (place ++ [name]) = some .directory := by
  constructor
  · exact fun h_open => ⟨h_open.shortened (List.prefix_append place _), h_open.at⟩
  · rintro ⟨h_open, h_node⟩ above h_above
    rcases List.prefix_concat_iff.mp h_above with rfl | h_above
    · exact h_node
    · exact h_open above h_above

namespace Grounded

/-- It is enough to look at what a tree lists. -/
theorem of_entries (h_entries : ∀ entry ∈ tree, tree.node? entry.1.dropLast = some .directory) :
    Grounded tree := by
  intro place name h_some
  rw [node?, if_neg (by simp), ne_eq, List.lookup_eq_none_iff, not_forall] at h_some
  obtain ⟨entry, h_entry⟩ := h_some
  rw [Classical.not_imp, bne_iff_ne, not_ne_iff] at h_entry
  have h_above := h_entries entry h_entry.1
  rwa [← h_entry.2, List.dropLast_concat] at h_above

/-- What is above something is a directory. -/
theorem isOpen (h_grounded : Grounded tree) (h_node : tree.node? place = some .directory) :
    IsOpen tree place := by
  induction place using List.reverseRecOn with
  | nil => exact isOpen_nil tree
  | append_singleton place name ih =>
    have h_place := h_grounded place name (by simp [h_node])
    exact isOpen_concat_iff.mpr ⟨ih h_place, h_node⟩

/-- Nothing is below a place where nothing is. -/
theorem eq_none_below (h_grounded : Grounded tree) (h_none : tree.node? place = none)
    (h_below : place <+: other) : tree.node? other = none := by
  induction other using List.reverseRecOn with
  | nil => rwa [List.prefix_nil.mp h_below] at h_none
  | append_singleton other name ih =>
    rcases List.prefix_concat_iff.mp h_below with rfl | h_below
    · exact h_none
    · by_contra h_some
      have h_other := h_grounded other name h_some
      rw [ih h_below] at h_other
      cases h_other

end Grounded

/-! ## Walking -/

/-- Whether a part can be looked for, and leads to the place itself or down from it. -/
structure Fits (part : String) : Prop where
  down : part ≠ ".."
  short : part.utf8ByteSize ≤ longestName

/-- The names among parts: `.` leads nowhere. -/
def names (parts : List String) : Place := parts.filter fun part => part ≠ "."

theorem names_concat (parts : List String) (last : String) :
    names (parts ++ [last]) = if last = "." then names parts else names parts ++ [last] := by
  by_cases h_dot : last = "." <;> simp [names, h_dot]

/-- A walk is one to the directory above and a last step. -/
theorem walk_concat (tree : FileTree) (place : Place) (parts : List String) (last : String) :
    tree.walk place (parts ++ [last]) = do
      let above ← tree.walk place parts
      tree.enter above last
      return next above last := by
  induction parts generalizing place with
  | nil =>
    rw [List.nil_append, walk]
    rfl
  | cons part parts ih =>
    rw [List.cons_append, walk, walk]
    cases h_enter : tree.enter place part with
    | error error => rfl
    | ok => exact ih (next place part)

theorem names_prefix_concat (parts : List String) (last : String) :
    names parts <+: names (parts ++ [last]) := by
  rw [names, names, List.filter_append]
  exact List.prefix_append _ _

theorem next_eq (h_fits : Fits last) (parts : List String) :
    next (names parts) last = names (parts ++ [last]) := by
  rw [next, names_concat, if_neg h_fits.down]

theorem enter_directory (h_fits : Fits last) (h_node : tree.node? place = some .directory) :
    tree.enter place last = .ok () := by
  rw [enter, h_node]
  exact if_neg (Nat.not_lt.mpr h_fits.short)

theorem enter_nothing (h_node : tree.node? place = none) (part : String) :
    tree.enter place part = .error .notFound := by
  rw [enter, h_node]

/-- Over directories parts lead to the place of their names. -/
theorem walk_of_isOpen (h_fits : ∀ part ∈ parts, Fits part) (h_open : IsOpen tree (names parts)) :
    tree.walk [] parts = .ok (names parts) := by
  induction parts using List.reverseRecOn with
  | nil => rfl
  | append_singleton parts last ih =>
    rw [List.forall_mem_append, List.forall_mem_singleton] at h_fits
    have h_parts := h_open.shortened (names_prefix_concat parts last)
    have h_walk := ih h_fits.1 h_parts
    have h_enter := enter_directory h_fits.2 h_parts.at
    simp only [walk_concat, h_walk, bind, Except.bind, h_enter, next_eq h_fits.2, pure, Except.pure]

/-- Where no file is on the way and not everything is a directory, either a directory on the way is
    missing or nothing is at the end. -/
theorem walk_of_not_isOpen (h_fits : ∀ part ∈ parts, Fits part) (h_free : IsFree tree (names parts))
    (h_closed : ¬ IsOpen tree (names parts)) :
    tree.walk [] parts = .error .notFound ∨
      tree.walk [] parts = .ok (names parts) ∧ tree.node? (names parts) = none := by
  induction parts using List.reverseRecOn with
  | nil => exact absurd (isOpen_nil tree) h_closed
  | append_singleton parts last ih =>
    rw [List.forall_mem_append, List.forall_mem_singleton] at h_fits
    by_cases h_parts : IsOpen tree (names parts)
    · -- only the last part leads to nothing
      right
      have h_walk := walk_of_isOpen h_fits.1 h_parts
      have h_enter := enter_directory h_fits.2 h_parts.at
      simp only [walk_concat, h_walk, bind, Except.bind, h_enter, next_eq h_fits.2, pure,
        Except.pure, true_and]
      refine h_free.cases.resolve_left fun h_node => h_closed ?_
      rw [names_concat] at h_node ⊢
      split at h_node
      · next h_dot => rwa [if_pos h_dot]
      · next h_dot =>
        rw [if_neg h_dot]
        exact isOpen_concat_iff.mpr ⟨h_parts, h_node⟩
    · left
      have h_before := h_free.shortened (names_prefix_concat parts last)
      rcases ih h_fits.1 h_before h_parts with h_walk | ⟨h_walk, h_none⟩
      · simp only [walk_concat, h_walk, bind, Except.bind]
      · simp only [walk_concat, h_walk, bind, Except.bind, enter_nothing h_none]

end OpenApiTs.FileTree
