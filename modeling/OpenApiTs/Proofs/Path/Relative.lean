/-
  OpenApiTs.Proofs.Path.Relative

  The relative path from a directory to a place. It leads back to the place; it goes up first, over
  what the directory does not share with the place, and then only down; and no path that leads from
  the directory to the place goes up less often.
-/
import OpenApiTs.Options.Basic
import OpenApiTs.Proofs.Path.Route

namespace OpenApiTs

namespace Path

variable {place source target front names others : List String} {name path directory : String}

/-! ## Names of a place -/

theorem mem_resolveParts (h_name : name ∈ resolveParts place others) :
    name ∈ place ∨ name ∈ others ∧ name ≠ ".." := by
  induction others generalizing place with
  | nil => exact .inl h_name
  | cons part others ih =>
    rw [resolveParts] at h_name
    split at h_name
    · -- a step back only takes a name away
      rcases ih h_name with h_place | ⟨h_others, h_down⟩
      · exact .inl (List.dropLast_subset _ h_place)
      · exact .inr ⟨List.mem_cons_of_mem _ h_others, h_down⟩
    · next h_part =>
      rcases ih h_name with h_place | ⟨h_others, h_down⟩
      · rcases List.mem_append.mp h_place with h_place | h_last
        · exact .inl h_place
        · obtain rfl := List.mem_singleton.mp h_last
          exact .inr ⟨List.mem_cons_self, h_part⟩
      · exact .inr ⟨List.mem_cons_of_mem _ h_others, h_down⟩

/-- A place has names only: nothing in it is a step, and nothing in it has a slash. -/
theorem isName_of_mem_normal (h_name : name ∈ normal path) :
    IsName name ∧ '/' ∉ name.toList := by
  obtain ⟨h_part, h_down⟩ := (mem_resolveParts h_name).resolve_left List.not_mem_nil
  rw [parts_eq, List.mem_filter] at h_part
  obtain ⟨h_piece, h_named⟩ := h_part
  refine ⟨⟨h_named, h_down⟩, ?_⟩
  simp only [Text.pieces, Text.Chars.pieces_eq_splitOn, List.mem_map] at h_piece
  obtain ⟨piece, h_piece, rfl⟩ := h_piece
  rw [String.toList_ofList]
  exact Text.Chars.not_mem_of_mem_splitOn h_piece

theorem up_not_mem_normal (path : String) : ".." ∉ normal path :=
  fun h_up => (isName_of_mem_normal h_up).1.2 rfl

/-! ## Shared names -/

theorem sharedLength_le_source (source target : List String) :
    sharedLength source target ≤ source.length := by
  fun_induction sharedLength source target with
  | case1 others more name ih =>
    rw [List.length_cons]
    omega
  | case2 => exact Nat.zero_le _
  | case3 => exact Nat.zero_le _

/-- Both routes begin with the same names as far as they share them. -/
theorem take_sharedLength (source target : List String) :
    source.take (sharedLength source target) = target.take (sharedLength source target) := by
  fun_induction sharedLength source target with
  | case1 others more name ih => rw [List.take_succ_cons, List.take_succ_cons, ih]
  | case2 => rfl
  | case3 => rfl

/-- The names that two places share are the longest common beginning of both. -/
theorem le_sharedLength (h_source : front <+: source) (h_target : front <+: target) :
    front.length ≤ sharedLength source target := by
  induction front generalizing source target with
  | nil => exact Nat.zero_le _
  | cons name front ih =>
    obtain ⟨back, rfl⟩ := h_source
    obtain ⟨rest, rfl⟩ := h_target
    rw [List.cons_append, List.cons_append, sharedLength, if_pos rfl, List.length_cons]
    exact Nat.succ_le_succ (ih (List.prefix_append front back) (List.prefix_append front rest))

theorem sharedLength_le_target (source target : List String) :
    sharedLength source target ≤ target.length := by
  have h_length := congrArg List.length (take_sharedLength source target)
  have h_source := sharedLength_le_source source target
  rw [List.length_take, List.length_take] at h_length
  omega

/-! ## Steps -/

theorem up_not_mem_drop (h_names : ".." ∉ names) (count : Nat) : ".." ∉ names.drop count :=
  fun h_up => h_names (List.mem_of_mem_drop h_up)

/-- Steps back take names from the end of the place. -/
theorem resolveParts_replicate (place : List String) (count : Nat) :
    resolveParts place (List.replicate count "..") = place.take (place.length - count) := by
  induction count generalizing place with
  | zero => rw [List.replicate_zero, Nat.sub_zero, List.take_length, resolveParts]
  | succ count ih =>
    rw [List.replicate_succ, resolveParts, if_pos rfl, ih, List.dropLast_eq_take, List.take_take,
      List.length_take]
    congr 1
    omega

theorem resolveParts_names (h_names : ".." ∉ names) (place : List String) :
    resolveParts place names = place ++ names := by
  induction names generalizing place with
  | nil => rw [List.append_nil, resolveParts]
  | cons name names ih =>
    rw [List.mem_cons, not_or] at h_names
    rw [resolveParts, if_neg (Ne.symm h_names.1), ih h_names.2, List.append_assoc,
      List.singleton_append]

/-- The steps from one place to another lead there. -/
theorem resolveParts_steps (h_target : ".." ∉ target) (source : List String) :
    resolveParts source (steps source target) = target := by
  have h_drop := up_not_mem_drop h_target (sharedLength source target)
  have h_height : source.length - (source.length - sharedLength source target) =
      sharedLength source target := by
    have h_source := sharedLength_le_source source target
    omega
  -- up to what is shared, and from there down through what is left of the target
  rw [steps, resolveParts_append, resolveParts_replicate, resolveParts_names h_drop, h_height,
    take_sharedLength, List.take_append_drop]

/-- The steps back are those out of what is not shared. -/
theorem count_steps (h_target : ".." ∉ target) (source : List String) :
    (steps source target).count ".." = source.length - sharedLength source target := by
  have h_drop := up_not_mem_drop h_target (sharedLength source target)
  rw [steps, List.count_append, List.count_replicate_self, List.count_eq_zero.mpr h_drop,
    Nat.add_zero]

/-! ## Going up -/

/-- No route goes up more often than it has steps back. -/
theorem up_foldl_step_le (route : Route) (parts : List String) :
    (parts.foldl Route.step route).up ≤ route.up + parts.count ".." := by
  induction parts generalizing route with
  | nil => exact Nat.le_refl _
  | cons part parts ih =>
    have h_rest := ih (route.step part)
    -- a step back goes up only when nothing is left to take away
    have h_step : (route.step part).up ≤ route.up + if part = ".." then 1 else 0 := by
      unfold Route.step
      split
      · split
        · exact Nat.le_refl _
        · exact Nat.le_succ _
      · exact Nat.le_refl _
    have h_count : (part :: parts).count ".." = parts.count ".." + if part = ".." then 1 else 0 := by
      rw [List.count_cons]
      simp only [beq_iff_eq]
    rw [List.foldl_cons]
    omega

/-- Whatever leads from one place to another goes up over all that is not shared: what a route leaves
    of the place that it starts from is a beginning of both. -/
theorem le_count_of_resolveParts (h_leads : resolveParts source others = target) :
    source.length - sharedLength source target ≤ others.count ".." := by
  rw [resolveParts_eq_follow] at h_leads
  have h_up : (Route.ofParts others).up ≤ 0 + others.count ".." := up_foldl_step_le ⟨0, []⟩ others
  generalize Route.ofParts others = route at h_leads h_up
  have h_left : source.take (source.length - route.up) <+: target := by
    rw [← h_leads]
    exact List.prefix_append _ _
  have h_shared := le_sharedLength (List.take_prefix _ source) h_left
  rw [List.length_take] at h_shared
  omega

/-! ## Relative paths -/

/-- Names without slashes are the pieces of the path that is made of them. -/
theorem pieces_intercalate (h_some : names ≠ []) (h_flat : ∀ name ∈ names, '/' ∉ name.toList) :
    Text.pieces '/' ("/".intercalate names) = names := by
  have h_texts : names.map String.toList ≠ [] := fun h_none => h_some (List.map_eq_nil_iff.mp h_none)
  have h_split : (names.map String.toList).flatMap (List.splitOn '/') = names.map String.toList := by
    rw [List.flatMap_map, List.map_eq_flatMap]
    apply List.flatMap_congr
    intro name h_name
    exact List.splitOn_eq_singleton (h_flat name h_name)
  have h_slash : "/".toList = ['/'] := rfl
  rw [Text.pieces, Text.Chars.pieces_eq_splitOn, String.toList_intercalate, h_slash,
    Text.Chars.splitOn_intercalate_flatMap h_texts, h_split, List.map_map]
  simp

/-- Every step from one place to another is a part of a path, and has no slash. -/
theorem isNamed_of_mem_steps (h_step : name ∈ steps source (normal path)) :
    isNamed name = true ∧ '/' ∉ name.toList := by
  rcases List.mem_append.mp h_step with h_up | h_down
  · obtain rfl := List.eq_of_mem_replicate h_up
    decide
  · obtain ⟨h_name, h_flat⟩ := isName_of_mem_normal (List.mem_of_mem_drop h_down)
    exact ⟨h_name.1, h_flat⟩

/-- Between the slashes of a relative path there are its steps. A path without any, that of a place
    to itself, is empty. -/
theorem pieces_relative (source target : String) :
    Text.pieces '/' (relative source target) = steps (normal source) (normal target) ∨
      steps (normal source) (normal target) = [] ∧ relative source target = "" := by
  by_cases h_some : steps (normal source) (normal target) = []
  · refine .inr ⟨h_some, ?_⟩
    rw [relative, h_some]
    rfl
  · exact .inl (pieces_intercalate h_some fun name h_step => (isNamed_of_mem_steps h_step).2)

/-- The relative path has the steps as its parts. -/
theorem parts_relative (source target : String) :
    parts (relative source target) = steps (normal source) (normal target) := by
  -- the path from a place to itself is empty
  rcases pieces_relative source target with h_pieces | ⟨h_none, h_empty⟩
  · rw [parts_eq, h_pieces, List.filter_eq_self]
    exact fun name h_step => (isNamed_of_mem_steps h_step).1
  · rw [h_none, h_empty]
    rfl

theorem point_not_mem_relative (source target : String) :
    "." ∉ Text.pieces '/' (relative source target) := by
  rcases pieces_relative source target with h_pieces | ⟨-, h_empty⟩
  · rw [h_pieces]
    intro h_step
    exact absurd (isNamed_of_mem_steps h_step).1 (by decide)
  · rw [h_empty]
    decide

/-- An absolute path has nothing before its first slash. -/
theorem head?_pieces_of_isAbsolute (h_path : isAbsolute path = true) :
    (Text.pieces '/' path).head? = some "" := by
  obtain ⟨rest, h_rest⟩ := List.isPrefixOf_iff_prefix.mp h_path
  rw [Text.pieces, ← h_rest]
  rfl

theorem isAbsolute_relative (source target : String) :
    isAbsolute (relative source target) = false := by
  rw [← Bool.not_eq_true]
  intro h_absolute
  have h_head := head?_pieces_of_isAbsolute h_absolute
  rcases pieces_relative source target with h_pieces | ⟨-, h_empty⟩
  · rw [h_pieces] at h_head
    exact absurd (isNamed_of_mem_steps (List.mem_of_head? h_head)).1 (by decide)
  · rw [h_empty] at h_absolute
    exact absurd h_absolute (by decide)

/-- How often a path goes up. -/
def climbs (path : String) : Nat := (parts path).count ".."

/-- Whether a path from a directory to a target is a relative path in normal form, with no step up
    that another one could do without. -/
structure LeadsStraight (directory target path : String) : Prop where
  /-- From the place of the directory it leads to the place of the target. -/
  leads : resolveParts (normal directory) (parts path) = normal target
  relative : isAbsolute path = false
  pointless : "." ∉ Text.pieces '/' path
  /-- All steps up come first. -/
  upFirst : ∃ names, parts path = List.replicate (climbs path) ".." ++ names ∧ ".." ∉ names
  /-- What the two places share is no longer than either of them. -/
  shared_le : sharedLength (normal directory) (normal target) ≤ (normal directory).length ∧
    sharedLength (normal directory) (normal target) ≤ (normal target).length
  /-- It is the longest beginning that both have. -/
  shared : (normal directory).take (sharedLength (normal directory) (normal target)) =
      (normal target).take (sharedLength (normal directory) (normal target)) ∧
    ∀ front, front <+: normal directory → front <+: normal target →
      front.length ≤ sharedLength (normal directory) (normal target)
  /-- It goes up over what the directory does not share with the target. -/
  climbs_eq : climbs path =
    (normal directory).length - sharedLength (normal directory) (normal target)
  /-- Every relative path from the directory to the target goes up at least as often. -/
  least (other : String) (h_other : isAbsolute other = false)
    (h_leads : resolveParts (normal directory) (parts other) = normal target) :
    climbs path ≤ climbs other

/-- The relative path from a directory to a target leads straight there. -/
theorem leadsStraight_relative (directory target : String) :
    LeadsStraight directory target (relative directory target) := by
  have h_target := up_not_mem_normal target
  have h_climbs : climbs (relative directory target) =
      (normal directory).length - sharedLength (normal directory) (normal target) := by
    rw [climbs, parts_relative, count_steps h_target]
  exact
    { leads := by rw [parts_relative, resolveParts_steps h_target]
      relative := isAbsolute_relative directory target
      pointless := point_not_mem_relative directory target
      -- the names behind the steps back are those of the target, which has no step back
      upFirst := by
        refine ⟨(normal target).drop (sharedLength (normal directory) (normal target)), ?_,
          up_not_mem_drop h_target _⟩
        rw [h_climbs, parts_relative, steps]
      shared_le := ⟨sharedLength_le_source _ _, sharedLength_le_target _ _⟩
      shared := ⟨take_sharedLength _ _, fun front => le_sharedLength⟩
      climbs_eq := h_climbs
      least := by
        intro other _ h_leads
        rw [h_climbs, climbs]
        exact le_count_of_resolveParts h_leads }

end Path

/-! ## Settings -/

namespace Options

variable {options : Options} {compiler : Schema.Compiler} {definitions : Definitions}
  {cwd target : String}

/-- An absolute path of the module with `request` becomes the relative path that leads straight there
    from the directory of the request functions. -/
theorem axiosFilePath_leadsStraight (compiler : Schema.Compiler) (definitions : Definitions)
    (cwd : String) (h_valid : options.outputFault? = none)
    (h_target : options.axiosFilePath = some target) (h_absolute : Path.isAbsolute target = true) :
    ∃ settings, options.settings compiler definitions cwd = .ok settings ∧
      settings.outputDir = Path.join cwd (options.outputDir.getD "") ∧
      Path.LeadsStraight (Path.join settings.outputDir "apis") target settings.axiosFilePath := by
  -- an absolute path is not empty, so the option is not defaulted
  have h_some : target ≠ "" := by
    rintro rfl
    exact absurd h_absolute (by decide)
  have h_module : orDefault options.axiosFilePath defaultAxiosFilePath = target := by
    rw [h_target, orDefault, Option.filter_some, decide_eq_true h_some]
    rfl
  rw [settings, h_valid]
  refine ⟨_, rfl, rfl, ?_⟩
  simp only [h_module, h_absolute, if_true]
  exact Path.leadsStraight_relative _ target

/-- Options with a relative output directory and an absolute module path. -/
def tidyOptions : Options :=
  { source := none
    outputDir := some "src/../out/./api"
    axiosFilePath := some "/work//out/lib/request"
    requestTemplate := none
    successResponseTemplate := none
    bannerComment := none
    prettierConfig := none
    convention := .plain
    header := false
    cookie := false
    overrides := .none }

theorem tidyOptions_leadsStraight :
    tidyOptions.outputFault? = none ∧
      tidyOptions.axiosFilePath = some "/work//out/lib/request" ∧
      Path.isAbsolute "/work//out/lib/request" = true ∧
      Path.relative "/work/src/../out/./api/apis" "/work//out/lib/request" = "../../lib/request" ∧
      ∃ settings, tidyOptions.settings Schema.typeScript ⟨[], []⟩ "/work" = .ok settings ∧
        settings.outputDir = "/work/src/../out/./api" ∧
        Path.LeadsStraight (Path.join settings.outputDir "apis") "/work//out/lib/request"
          settings.axiosFilePath := by
  have h_valid : tidyOptions.outputFault? = none := by decide
  have h_absolute : Path.isAbsolute "/work//out/lib/request" = true := by decide
  obtain ⟨settings, h_settings, h_output, h_leads⟩ :=
    axiosFilePath_leadsStraight Schema.typeScript ⟨[], []⟩ "/work" h_valid rfl h_absolute
  exact ⟨h_valid, rfl, h_absolute, by rfl, settings, h_settings, h_output, h_leads⟩

end Options

end OpenApiTs
