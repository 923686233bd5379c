/-
  OpenApiTs.Proofs.Path.Route

  Where parts of a path lead, told from where they start: up over some places, then down through
  names. A route is found by going through the parts once, whatever place they are followed from, so
  what holds of the places that a path leads to can be said of its route.
-/
import OpenApiTs.Path
import OpenApiTs.Proofs.Text.Lines

namespace OpenApiTs.Path

variable {part name ending directory path : String} {others place : List String} {route : Route}

/-! ## Routes -/

/-- So many places up, and down from there through names. -/
structure Route where
  up : Nat
  down : List String
deriving DecidableEq, Repr

namespace Route

/-- A route with one part behind it: `..` takes back the last name, or goes up when there is none to
    take back. -/
def step (route : Route) (part : String) : Route :=
  if part = ".." then
    if route.down = [] then ⟨route.up + 1, []⟩ else ⟨route.up, route.down.dropLast⟩
  else ⟨route.up, route.down ++ [part]⟩

/-- The route that parts describe. -/
def ofParts (parts : List String) : Route := parts.foldl step ⟨0, []⟩

/-- The place that a route leads to. Above the root there is nothing but the root. -/
def follow (route : Route) (place : List String) : List String :=
  place.take (place.length - route.up) ++ route.down

/-- One step of a route, as it changes where the route leads. -/
theorem follow_step (route : Route) (place : List String) (part : String) :
    (route.step part).follow place =
      if part = ".." then (route.follow place).dropLast else route.follow place ++ [part] := by
  unfold step
  by_cases h_part : part = ".."
  · rw [if_pos h_part, if_pos h_part]
    -- a step back takes the last name below, or goes up when there is none
    by_cases h_down : route.down = []
    · rw [if_pos h_down, follow, follow, h_down, List.append_nil, List.append_nil,
        List.dropLast_eq_take, List.take_take, List.length_take]
      congr 1
      dsimp only
      omega
    · rw [if_neg h_down, follow, follow, List.dropLast_append_of_ne_nil h_down]
  · rw [if_neg h_part, if_neg h_part, follow, follow, List.append_assoc]

end Route

/-- Resolving parts from a place is following the route that they sum up to. -/
theorem resolveParts_follow (route : Route) (place parts : List String) :
    resolveParts (route.follow place) parts = (parts.foldl Route.step route).follow place := by
  induction parts generalizing route with
  | nil => rfl
  | cons part parts ih =>
    rw [List.foldl_cons, ← ih, Route.follow_step, resolveParts]
    by_cases h_part : part = ".."
    · rw [if_pos h_part, if_pos h_part]
    · rw [if_neg h_part, if_neg h_part]

/-- Following parts one by one comes to following their route. -/
theorem resolveParts_eq_follow (place parts : List String) :
    resolveParts place parts = (Route.ofParts parts).follow place := by
  have h_start : (⟨0, []⟩ : Route).follow place = place := by simp [Route.follow]
  rw [Route.ofParts, ← resolveParts_follow, h_start]

theorem resolveParts_append (place front back : List String) :
    resolveParts place (front ++ back) = resolveParts (resolveParts place front) back := by
  induction front generalizing place with
  | nil => rfl
  | cons part front ih =>
    rw [List.cons_append, resolveParts, resolveParts]
    split
    · exact ih _
    · exact ih _

theorem resolveParts_concat (place : List String) {name : String} (h_name : name ≠ "..")
    (front : List String) :
    resolveParts place (front ++ [name]) = resolveParts place front ++ [name] := by
  rw [resolveParts_append, resolveParts, if_neg h_name, resolveParts]

/-! ## Routes from a directory in a place -/

namespace Route

theorem follow_concat_zero (place down : List String) (name : String) :
    (⟨0, down⟩ : Route).follow (place ++ [name]) = place ++ name :: down := by
  rw [follow, Nat.sub_zero, List.take_length, List.append_assoc, List.singleton_append]

theorem follow_concat_succ (place down : List String) (name : String) (up : Nat) :
    (⟨up + 1, down⟩ : Route).follow (place ++ [name]) =
      place.take (place.length - up) ++ down := by
  have h_up : (place ++ [name]).length - (up + 1) = place.length - up := by
    rw [List.length_append, List.length_singleton]
    omega
  rw [follow, h_up, List.take_append_of_le_length (Nat.sub_le _ _)]

/-- Whether a route from a directory in a place comes back when it leaves the place: the names that
    it went up over are the first that it goes down through. -/
def Returns (place : List String) (route : Route) : Prop :=
  place.drop (place.length - (route.up - 1)) <+: route.down

instance (place : List String) (route : Route) : Decidable (route.Returns place) :=
  inferInstanceAs (Decidable (_ <+: _))

/-- A route that goes up once at most does not leave the place. -/
theorem returns_of_le (h_up : route.up ≤ 1) (place : List String) : route.Returns place := by
  have h_none : route.up - 1 = 0 := by omega
  rw [Returns, h_none, Nat.sub_zero, List.drop_length]
  exact List.nil_prefix

theorem concat_eq_append_iff {front back : List String} (last : String) :
    (∃ names, names ≠ [] ∧ back ++ [last] = front ++ names) ↔ front <+: back := by
  constructor
  · rintro ⟨names, h_names, h_eq⟩
    rw [← List.dropLast_append_getLast h_names, ← List.append_assoc] at h_eq
    exact ⟨names.dropLast, (List.append_inj_left' h_eq rfl).symm⟩
  · rintro ⟨names, rfl⟩
    exact ⟨names ++ [last], by simp, by rw [List.append_assoc]⟩

/-- What stands at the end of a route from a directory in a place stands below the place exactly when
    the route comes back. -/
theorem below_iff_returns (route : Route) (place : List String) (name last : String) :
    (∃ names, names ≠ [] ∧ route.follow (place ++ [name]) ++ [last] = place ++ names) ↔
      route.Returns place := by
  obtain ⟨up, down⟩ := route
  cases up with
  | zero =>
    rw [follow_concat_zero]
    refine iff_of_true ⟨name :: (down ++ [last]), List.cons_ne_nil _ _, ?_⟩
      (returns_of_le (Nat.zero_le 1) place)
    rw [List.append_assoc, List.cons_append]
  | succ up =>
    -- the place is what the route leaves of it, and the names that it goes up over
    rw [follow_concat_succ, Returns, ← concat_eq_append_iff last]
    refine exists_congr fun names => and_congr_right fun _ => ?_
    conv_lhs =>
      rhs
      rw [← List.take_append_drop (place.length - up) place]
    rw [List.append_assoc, List.append_assoc, List.append_cancel_left_eq]
    rfl

/-! ### Going the same way again -/

/-- Whether a route leads back to the height that it starts from. One that runs into the root does
    if it goes down less than up. -/
def IsLevel (place : List String) (route : Route) : Prop :=
  route.down.length = route.up ∨ (route.down.length < route.up ∧ place.length < route.up)

instance (place : List String) (route : Route) : Decidable (route.IsLevel place) :=
  inferInstanceAs (Decidable (_ ∨ _))

/-- From the end of a level route, a directory to the side and the route again lead where the route
    leads from that directory in the place. No other route does this. -/
theorem follow_aside_iff (route : Route) (place : List String) (near far : String) :
    route.follow ((route.follow (place ++ [near])).dropLast ++ [far]) =
        route.follow (place ++ [far]) ↔ route.IsLevel place := by
  obtain ⟨up, down⟩ := route
  cases up with
  | zero =>
    rw [follow_concat_zero, follow_concat_zero, follow_concat_zero, IsLevel]
    cases down with
    | nil => simp
    | cons first others =>
      refine iff_of_false (fun h_eq => ?_) (by simp)
      have h_length := congrArg List.length h_eq
      simp at h_length
  | succ up =>
    rw [follow_concat_succ, follow_concat_succ, follow_concat_succ, List.append_cancel_right_eq,
      IsLevel]
    constructor
    · intro h_eq
      have h_length := congrArg List.length h_eq
      simp only [List.length_take, List.length_dropLast, List.length_append] at h_length
      dsimp only
      omega
    · rintro (h_same | ⟨h_less, h_root⟩)
      · -- the names that the route goes down through are taken back again
        have h_down : down ≠ [] := by
          rintro rfl
          cases h_same
        rw [List.dropLast_append_of_ne_nil h_down]
        refine List.take_left' ?_
        simp only [List.length_append, List.length_take, List.length_dropLast]
        dsimp only at h_same
        omega
      · -- both are the root
        dsimp only at h_less h_root
        have h_first : ((place.take (place.length - up) ++ down).dropLast).length - up = 0 := by
          simp only [List.length_dropLast, List.length_append, List.length_take]
          omega
        have h_second : place.length - up = 0 := by omega
        rw [h_first, h_second, List.take_zero, List.take_zero]

/-- Whether a route from a directory in a place leads to a directory in it. -/
def IsInside (place : List String) (route : Route) : Prop :=
  (route.up = 0 ∧ route.down = []) ∨
    (0 < route.up ∧ route.down.dropLast = place.drop (place.length - (route.up - 1)) ∧
      (route.down = [] → place = []))

instance (place : List String) (route : Route) : Decidable (route.IsInside place) :=
  inferInstanceAs (Decidable (_ ∨ _))

/-- A route from a file leads into the file's directory exactly when it stays inside. -/
theorem dropLast_follow_iff (route : Route) (place : List String) (name : String) :
    (route.follow (place ++ [name])).dropLast = place ↔ route.IsInside place := by
  obtain ⟨up, down⟩ := route
  -- without a step up the file's own name is still on the way
  cases up with
  | zero =>
    rw [follow_concat_zero, IsInside, List.dropLast_append_of_ne_nil (List.cons_ne_nil _ _)]
    cases down <;> simp
  | succ up =>
    rw [follow_concat_succ, IsInside]
    by_cases h_down : down = []
    · subst h_down
      by_cases h_root : place = []
      · subst h_root
        simp
      · have h_pos : 0 < place.length := List.length_pos_of_ne_nil h_root
        refine iff_of_false (fun h_eq => ?_) (by simp [h_root])
        have h_length := congrArg List.length h_eq
        simp only [List.append_nil, List.length_dropLast, List.length_take] at h_length
        omega
    · rw [List.dropLast_append_of_ne_nil h_down]
      conv_lhs =>
        rhs
        rw [← List.take_append_drop (place.length - up) place]
      rw [List.append_cancel_left_eq]
      simp [h_down]

end Route

/-! ## Parts -/

/-- Whether a part is none of those that name nothing. -/
def isNamed (part : String) : Bool := part ≠ "" ∧ part ≠ "."

theorem parts_eq (path : String) : parts path = (Text.pieces '/' path).filter isNamed := rfl

/-- A slash parts the pieces. -/
theorem pieces_append_slash (front back : String) :
    Text.pieces '/' (front ++ "/" ++ back) = Text.pieces '/' front ++ Text.pieces '/' back := by
  have h_slash : "/".toList = ['/'] := rfl
  simp only [Text.pieces, Text.Chars.pieces_eq_splitOn]
  rw [Text.toList_append_append, h_slash, List.singleton_append, List.splitOn_append_cons_self,
    List.map_append]

theorem parts_append_slash (front back : String) :
    parts (front ++ "/" ++ back) = parts front ++ parts back := by
  rw [parts_eq, pieces_append_slash, List.filter_append, ← parts_eq, ← parts_eq]

/-- The pieces of a path seen from a directory are those of the directory, but for an empty one at its
    end, and those of the path. -/
theorem exists_pieces_join (h_path : isAbsolute path = false) (directory : String) :
    ∃ front, Text.pieces '/' (join directory path) = front ++ Text.pieces '/' path ∧
      (Text.pieces '/' directory = front ∨ Text.pieces '/' directory = front ++ [""]) := by
  have h_nothing : Text.pieces '/' "" = [""] := rfl
  unfold join
  rw [if_neg (by simp [h_path])]
  by_cases h_closed : directory = "" ∨ Text.closesWith "/" directory = true
  · rw [if_pos h_closed]
    rcases h_closed with rfl | h_closed
    · exact ⟨[], by rw [String.empty_append, List.nil_append], .inr rfl⟩
    · -- the slash between the two is the one that the directory ends in
      obtain ⟨front, h_front⟩ := List.isSuffixOf_iff_suffix.mp h_closed
      have h_directory : directory = String.ofList front ++ "/" ++ "" := by
        rw [← String.toList_inj, ← h_front]
        simp
      have h_whole : directory ++ path = String.ofList front ++ "/" ++ path := by
        rw [h_directory, String.append_empty]
      refine ⟨Text.pieces '/' (String.ofList front), ?_, .inr ?_⟩
      · rw [h_whole, pieces_append_slash]
      · rw [h_directory, pieces_append_slash, h_nothing]
  · rw [if_neg h_closed]
    exact ⟨Text.pieces '/' directory, pieces_append_slash directory path, .inl rfl⟩

theorem parts_join (h_path : isAbsolute path = false) (directory : String) :
    parts (join directory path) = parts directory ++ parts path := by
  obtain ⟨front, h_pieces, h_directory⟩ := exists_pieces_join h_path directory
  rw [parts_eq, parts_eq, parts_eq, h_pieces, List.filter_append]
  rcases h_directory with h_directory | h_directory <;> simp [h_directory, isNamed]

/-- A path seen from a directory leads where its parts lead from there. -/
theorem normal_join (h_path : isAbsolute path = false) (directory : String) :
    normal (join directory path) = resolveParts (normal directory) (parts path) := by
  rw [normal, parts_join h_path, resolveParts_append, normal]

/-! ## Directories and leaves -/

/-- The parts of a path that lead to the directory of its last piece. -/
def way (path : String) : List String := (Text.pieces '/' path).dropLast.filter isNamed

/-- What follows the last slash of a path. -/
def leaf (path : String) : String := (Text.pieces '/' path).getLastD ""

/-- Only the last piece of a path changes when an ending is added. -/
theorem exists_pieces (path : String) : ∃ front last, ∀ ending, '/' ∉ ending.toList →
    Text.pieces '/' (path ++ ending) = front ++ [last ++ ending] := by
  simp only [Text.pieces, Text.Chars.pieces_eq_splitOn, String.toList_append]
  by_cases h_slash : '/' ∈ path.toList
  · -- the last slash is the first one from the end
    obtain ⟨last, front, h_split, h_last⟩ :=
      List.eq_append_cons_of_mem (List.mem_reverse.mpr h_slash)
    have h_path : path.toList = front.reverse ++ '/' :: last.reverse := by
      rw [← List.reverse_reverse path.toList, h_split]
      simp
    refine ⟨(front.reverse.splitOn '/').map String.ofList, String.ofList last.reverse, ?_⟩
    intro ending h_ending
    have h_flat : '/' ∉ last.reverse ++ ending.toList := by simp [h_last, h_ending]
    rw [h_path, List.append_assoc, List.cons_append, List.splitOn_append_cons_self,
      List.splitOn_eq_singleton h_flat]
    simp
  · refine ⟨[], path, fun ending h_ending => ?_⟩
    have h_flat : '/' ∉ path.toList ++ ending.toList := by simp [h_slash, h_ending]
    rw [List.splitOn_eq_singleton h_flat]
    simp

/-- A path with an ending goes the same way to a leaf that has the ending. -/
theorem pieces_append_ending (h_ending : '/' ∉ ending.toList) (path : String) :
    Text.pieces '/' (path ++ ending) =
      (Text.pieces '/' path).dropLast ++ [leaf path ++ ending] := by
  obtain ⟨front, last, h_pieces⟩ := exists_pieces path
  have h_own := h_pieces "" List.not_mem_nil
  rw [String.append_empty, String.append_empty] at h_own
  rw [h_pieces ending h_ending, leaf, h_own, List.dropLast_concat, List.getLastD_concat]

theorem pieces_eq_concat (path : String) :
    Text.pieces '/' path = (Text.pieces '/' path).dropLast ++ [leaf path] := by
  have h_empty : '/' ∉ "".toList := List.not_mem_nil
  have h_own := pieces_append_ending h_empty path
  rwa [String.append_empty, String.append_empty] at h_own

/-- An ending goes to the last name. -/
theorem parts_append_ending (h_ending : '/' ∉ ending.toList)
    (h_leaf : isNamed (leaf path ++ ending) = true) :
    parts (path ++ ending) = way path ++ [leaf path ++ ending] := by
  rw [parts_eq, pieces_append_ending h_ending, List.filter_append, way, List.filter_singleton,
    h_leaf]
  rfl

/-- The parts of a path are its way, and its leaf if that is named. -/
theorem parts_eq_way_append (path : String) :
    parts path = way path ++ if isNamed (leaf path) then [leaf path] else [] := by
  rw [parts_eq, pieces_eq_concat, List.filter_append, way, List.filter_singleton]
  cases isNamed (leaf path) <;> rfl

/-- An ending that does not close with a point makes any leaf the name of a file. -/
structure IsEnding (ending : String) : Prop where
  flat : '/' ∉ ending.toList
  long : ending.toList ≠ []
  closed : ending.toList.getLast? ≠ some '.'

theorem IsEnding.ne_of_last (h_ending : IsEnding ending) (text : String)
    (h_text : text.toList.getLast? = none ∨ text.toList.getLast? = some '.') (front : String) :
    front ++ ending ≠ text := by
  rintro rfl
  rw [String.toList_append, List.getLast?_append_of_ne_nil _ h_ending.long] at h_text
  rcases h_text with h_none | h_point
  · exact h_ending.long (List.getLast?_eq_none_iff.mp h_none)
  · exact h_ending.closed h_point

theorem IsEnding.isNamed (h_ending : IsEnding ending) (front : String) :
    isNamed (front ++ ending) = true := by
  have h_empty := h_ending.ne_of_last "" (.inl rfl) front
  have h_point := h_ending.ne_of_last "." (.inr rfl) front
  simp [Path.isNamed, h_empty, h_point]

/-- Whether a part is the name of something, and no step. -/
def IsName (part : String) : Prop := isNamed part = true ∧ part ≠ ".."

instance (part : String) : Decidable (IsName part) := inferInstanceAs (Decidable (_ ∧ _))

/-- A path whose leaf is a name leads to the leaf at the end of its way. -/
theorem resolveParts_of_isName (h_leaf : IsName (leaf path)) (place : List String) :
    resolveParts place (parts path) =
      (Route.ofParts (way path)).follow place ++ [leaf path] := by
  rw [parts_eq_way_append, if_pos h_leaf.1, resolveParts_concat _ h_leaf.2, resolveParts_eq_follow]

/-- A path whose leaf is no name leads no further than its way. -/
theorem length_resolveParts_of_not_isName (h_leaf : ¬ IsName (leaf path)) (place : List String) :
    (resolveParts place (parts path)).length ≤
      ((Route.ofParts (way path)).follow place).length := by
  rw [parts_eq_way_append]
  by_cases h_named : isNamed (leaf path) = true
  · -- the leaf is a step back
    have h_up : leaf path = ".." := by
      by_contra h_ne
      exact h_leaf ⟨h_named, h_ne⟩
    rw [if_pos h_named, resolveParts_append, h_up, resolveParts, if_pos rfl, resolveParts,
      resolveParts_eq_follow, List.length_dropLast]
    omega
  · rw [if_neg h_named, List.append_nil]
    exact Nat.le_of_eq (congrArg List.length (resolveParts_eq_follow _ _))

/-- The place of a file in a directory inside another one: a route leads to the directory that the
    file stands in. -/
theorem normal_join_inner {inner : String} (h_inner : parts inner = [inner]) (h_up : inner ≠ "..")
    (h_root : isAbsolute (inner ++ "/" ++ (path ++ ending)) = false) (h_ending : IsEnding ending)
    (directory : String) :
    normal (join directory (inner ++ "/" ++ (path ++ ending))) =
      (Route.ofParts (way path)).follow (normal directory ++ [inner]) ++ [leaf path ++ ending] := by
  have h_last := h_ending.ne_of_last ".." (.inr rfl) (leaf path)
  rw [normal_join h_root, parts_append_slash, h_inner,
    parts_append_ending h_ending.flat (h_ending.isNamed _), resolveParts_append,
    resolveParts_concat _ h_last, ← resolveParts_eq_follow, resolveParts, if_neg h_up, resolveParts]

theorem pieces_of_flat (h_path : '/' ∉ path.toList) : Text.pieces '/' path = [path] := by
  rw [Text.pieces, Text.Chars.pieces_eq_splitOn, List.splitOn_eq_singleton h_path]
  simp

theorem way_of_flat (h_path : '/' ∉ path.toList) : way path = [] ∧ leaf path = path := by
  simp [way, leaf, pieces_of_flat h_path]

/-! ## Plain paths -/

/-- Whether every piece of a path is a name. -/
def IsPlain (path : String) : Prop := ∀ piece ∈ Text.pieces '/' path, IsName piece

theorem IsPlain.isName_leaf (h_plain : IsPlain path) : IsName (leaf path) := by
  refine h_plain _ ?_
  rw [pieces_eq_concat]
  exact List.mem_append_right _ (List.mem_singleton_self _)

/-- A plain path only goes down. -/
theorem IsPlain.ofParts_way (h_plain : IsPlain path) :
    Route.ofParts (way path) = ⟨0, way path⟩ := by
  have h_names : ∀ part ∈ way path, part ≠ ".." := by
    intro part h_part
    have h_piece := List.dropLast_subset _ (List.mem_filter.mp h_part).1
    exact (h_plain part h_piece).2
  rw [Route.ofParts]
  generalize way path = names at h_names
  -- no part is a step back, so each of them is added below
  have h_run : ∀ down, names.foldl Route.step ⟨0, down⟩ = ⟨0, down ++ names⟩ := by
    induction names with
    | nil => exact fun down => by rw [List.append_nil]; rfl
    | cons name names ih =>
      rw [List.forall_mem_cons] at h_names
      intro down
      rw [List.foldl_cons, Route.step, if_neg h_names.1, ih h_names.2, List.append_assoc]
      rfl
  exact h_run []

theorem IsPlain.way_eq_nil_iff (h_plain : IsPlain path) : way path = [] ↔ '/' ∉ path.toList := by
  have h_way : way path = (Text.pieces '/' path).dropLast := by
    rw [way, List.filter_eq_self]
    exact fun part h_part => (h_plain part (List.dropLast_subset _ h_part)).1
  constructor
  · intro h_none h_slash
    obtain ⟨front, back, h_path⟩ := List.append_of_mem h_slash
    have h_cut : path = String.ofList front ++ "/" ++ String.ofList back := by
      rw [← String.toList_inj, h_path]
      simp
    -- a slash has a piece in front of it and one behind it
    have h_front : Text.pieces '/' (String.ofList front) ≠ [] := by
      simp [Text.pieces, Text.Chars.pieces_ne_nil]
    have h_back : Text.pieces '/' (String.ofList back) ≠ [] := by
      simp [Text.pieces, Text.Chars.pieces_ne_nil]
    rw [h_way, h_cut, pieces_append_slash, List.dropLast_append_of_ne_nil h_back] at h_none
    exact h_front (List.append_eq_nil_iff.mp h_none).1
  · exact fun h_flat => (way_of_flat h_flat).1

end OpenApiTs.Path
