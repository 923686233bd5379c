/-
  OpenApiTs.Proofs.Output.Groups

  The files of a run, group by group. The texts of endpoints can be collected by group in one pass,
  where each goes behind what its group has so far; this comes to the same as going through the
  groups in the order in which they are first met, and through the endpoints of each in turn. So an
  endpoint stands in the two files of its group, once in each and in no other, behind the endpoints
  of the group that come before it.
-/
import OpenApiTs.Proofs.Entries
import OpenApiTs.Proofs.FirstSeen
import OpenApiTs.Proofs.Generation.Success

namespace OpenApiTs.Output

variable {compiler : Schema.Compiler} {definitions : Definitions} {settings : Settings}
  {endpoint : Endpoint} {endpoints : List Endpoint} {group : String}

/-! ## One pass -/

/-- Texts by group with one more: it goes behind what its group has, or, when the group is new,
    behind the opening of the group, which goes to the end. -/
def addText (opening : String → String) (texts : Entries String) (group text : String) :
    Entries String :=
  texts.put group ((texts.lookup group).getD (opening group) ++ text)

/-- The texts of endpoints by group, collected from the first endpoint to the last. -/
def collect (opening : String → String) (text : Endpoint → String) (endpoints : List Endpoint) :
    Entries String :=
  endpoints.foldl (fun texts endpoint => addText opening texts (groupOf endpoint) (text endpoint)) []

/-- The texts of the endpoints of a group behind its opening, in the order of the endpoints. -/
def textOf (opening : String → String) (text : Endpoint → String) (endpoints : List Endpoint)
    (group : String) : String :=
  opening group ++ String.join ((members endpoints group).map text)

/-! ## One endpoint more -/

theorem groups_concat (endpoints : List Endpoint) (endpoint : Endpoint) :
    groups (endpoints ++ [endpoint]) =
      if groupOf endpoint ∈ groups endpoints then groups endpoints
      else groups endpoints ++ [groupOf endpoint] := by
  rw [groups, List.map_append, List.map_singleton, eraseDups_concat]
  simp only [groups, List.mem_eraseDups]

/-- An endpoint at the end is the last member of its group. -/
theorem members_concat (endpoints : List Endpoint) (endpoint : Endpoint) (group : String) :
    members (endpoints ++ [endpoint]) group =
      if groupOf endpoint = group then members endpoints group ++ [endpoint]
      else members endpoints group := by
  rw [members, members, List.filter_append]
  by_cases h_group : groupOf endpoint = group
  · simp [h_group]
  · simp [h_group]

theorem members_of_not_mem (h_group : group ∉ groups endpoints) : members endpoints group = [] := by
  rw [members, List.filter_eq_nil_iff]
  intro endpoint h_endpoint h_own
  rw [groups, List.mem_eraseDups] at h_group
  exact h_group (List.mem_map.mpr ⟨endpoint, h_endpoint, beq_iff_eq.mp h_own⟩)

theorem textOf_concat (opening : String → String) (text : Endpoint → String)
    (endpoints : List Endpoint) (endpoint : Endpoint) (group : String) :
    textOf opening text (endpoints ++ [endpoint]) group =
      if group = groupOf endpoint then textOf opening text endpoints group ++ text endpoint
      else textOf opening text endpoints group := by
  rw [textOf, members_concat]
  by_cases h_group : groupOf endpoint = group
  · rw [if_pos h_group, if_pos h_group.symm, textOf, List.map_append, String.join_append,
      List.map_singleton, String.join_cons, String.join_nil, String.append_empty,
      String.append_assoc]
  · rw [if_neg h_group, if_neg (Ne.symm h_group), textOf]

/-- What is found for a group is its text; a group without members has its opening. -/
theorem lookup_texts (opening : String → String) (text : Endpoint → String)
    (endpoints : List Endpoint) (group : String) :
    (List.lookup group
        ((groups endpoints).map fun own => (own, textOf opening text endpoints own))).getD
      (opening group) = textOf opening text endpoints group := by
  -- no group is listed twice, so a group that is listed is found as itself
  by_cases h_group : group ∈ groups endpoints
  · have h_names : (Entries.names ((groups endpoints).map fun own =>
        (own, textOf opening text endpoints own))).Nodup := by
      rw [Entries.names_map_make]
      exact nodup_eraseDups _
    rw [Entries.lookup_of_mem h_names (List.mem_map.mpr ⟨group, h_group, rfl⟩), Option.getD_some]
  · have h_none : group ∉ Entries.names ((groups endpoints).map fun own =>
        (own, textOf opening text endpoints own)) := by
      rwa [Entries.names_map_make]
    rw [Entries.lookup_eq_none_iff.mpr h_none, Option.getD_none, textOf,
      members_of_not_mem h_group, List.map_nil, String.join_nil, String.append_empty]

/-- Collecting in one pass gives every group its texts, in the order in which the groups are first
    met. -/
theorem collect_eq (opening : String → String) (text : Endpoint → String)
    (endpoints : List Endpoint) :
    collect opening text endpoints =
      (groups endpoints).map fun group => (group, textOf opening text endpoints group) := by
  induction endpoints using List.reverseRecOn with
  | nil => rfl
  | append_singleton endpoints endpoint ih =>
    have h_step : collect opening text (endpoints ++ [endpoint]) =
        addText opening (collect opening text endpoints) (groupOf endpoint) (text endpoint) := by
      rw [collect, List.foldl_append]
      rfl
    rw [h_step, addText, ih, lookup_texts, groups_concat]
    have h_nodup : (groups endpoints).Nodup := nodup_eraseDups _
    by_cases h_group : groupOf endpoint ∈ groups endpoints
    · -- the group has texts already, and only they change
      rw [if_pos h_group, Entries.put_map_of_mem h_nodup h_group]
      refine List.map_congr_left fun group _ => ?_
      rw [textOf_concat]
      split
      · next h_own => rw [h_own]
      · rfl
    · -- the group is new, and its text goes to the end
      have h_new : groupOf endpoint ∉
          Entries.names ((groups endpoints).map fun own =>
            (own, textOf opening text endpoints own)) := by
        rwa [Entries.names_map_make]
      rw [if_neg h_group, Entries.put_of_not_mem h_new, List.map_append, List.map_singleton,
        textOf_concat, if_pos rfl]
      congr 1
      refine List.map_congr_left fun group h_own => ?_
      rw [textOf_concat, if_neg fun h_eq : group = groupOf endpoint => h_group (h_eq ▸ h_own)]

/-! ## Nothing lost -/

/-- The endpoints of groups without duplicates that cover them, group by group, are the endpoints. -/
theorem flatMap_members_perm {listed : List String} (h_nodup : listed.Nodup)
    (h_cover : ∀ endpoint ∈ endpoints, groupOf endpoint ∈ listed) :
    (listed.flatMap (members endpoints)).Perm endpoints := by
  induction listed generalizing endpoints with
  | nil =>
    have h_empty : endpoints = [] :=
      List.eq_nil_iff_forall_not_mem.mpr fun endpoint h_endpoint =>
        List.not_mem_nil (h_cover endpoint h_endpoint)
    rw [h_empty]
    exact List.Perm.refl _
  | cons group others ih =>
    obtain ⟨h_new, h_others⟩ := List.nodup_cons.mp h_nodup
    let rest := endpoints.filter fun endpoint => !(groupOf endpoint == group)
    -- the groups that follow have all their endpoints among those of other groups than the first
    have h_kept : others.flatMap (members endpoints) = others.flatMap (members rest) := by
      refine List.flatMap_congr fun other h_other => ?_
      have h_ne : other ≠ group := fun h_eq => h_new (h_eq ▸ h_other)
      rw [members, members, List.filter_filter]
      refine List.filter_congr fun endpoint _ => ?_
      by_cases h_own : groupOf endpoint = other
      · simp [h_own, h_ne]
      · simp [h_own]
    have h_rest : (others.flatMap (members rest)).Perm rest := by
      refine ih h_others fun endpoint h_endpoint => ?_
      obtain ⟨h_mem, h_other⟩ := List.mem_filter.mp h_endpoint
      refine (List.mem_cons.mp (h_cover endpoint h_mem)).resolve_left fun h_own => ?_
      simp [h_own] at h_other
    rw [List.flatMap_cons, h_kept]
    exact (h_rest.append_left _).trans (List.filter_append_perm _ _)

/-! ## The files -/

/-- Groups of endpoints as they are met first, the endpoints of each in order, and each endpoint in
    one of them. -/
structure Grouping (endpoints : List Endpoint) (listed : List String) : Prop where
  firstSeen : FirstSeen (endpoints.map groupOf) listed
  own : ∀ group, ∀ endpoint ∈ members endpoints group, groupOf endpoint = group
  inOrder : ∀ group, (members endpoints group).Sublist endpoints
  parted : (listed.flatMap (members endpoints)).Perm endpoints

/-- The groups part the endpoints, each kept in order. -/
theorem grouping_groups (endpoints : List Endpoint) : Grouping endpoints (groups endpoints) where
  firstSeen := firstSeen_eraseDups _
  own _ _ h_endpoint := beq_iff_eq.mp (List.mem_filter.mp h_endpoint).2
  inOrder _ := List.filter_sublist
  parted := flatMap_members_perm (nodup_eraseDups _) fun _ h_endpoint =>
    List.mem_eraseDups.mpr (List.mem_map_of_mem h_endpoint)

/-- The file with the types of a group, made from the text of its endpoints' types. -/
def typesFileOf (settings : Settings) (group body : String) : OutputFile where
  path := "types/" ++ group ++ ".d.ts"
  content :=
    (if Text.contains "Types" body then "import Types from '../common';\n" else "") ++
      envelope settings ++ "export namespace " ++ Name.pascal group ++ " \x7b\n " ++ body ++
        "\n\x7d\nexport default " ++ Name.pascal group

/-- The two lines that a file of request functions begins with. -/
def requestsOpening (settings : Settings) (group : String) : String :=
  requestImport settings ++ "\nimport Api from '../types/" ++ group ++ "'\n"

/-- The text of an endpoint's request function, a line feed behind it. -/
def requestText (endpoint : Endpoint) : String := requestFunction endpoint ++ "\n"

/-- The files of a run are the shared declarations, if there are any, the index of the groups in the
    order in which they are met, their types and their request functions. The types of a group are
    those of its endpoints one after the other, its requests theirs behind two lines of imports, and
    both come to what collecting the endpoints in one pass gives. -/
theorem files_by_group (h_files : files compiler definitions settings endpoints = .ok made) :
    ∃ shared listed,
      sharedFile? compiler definitions = .ok shared ∧
      (∀ file ∈ shared, file.path = "common.d.ts") ∧
      Grouping endpoints listed ∧
      made =
        shared.toList ++
        [⟨"types.d.ts",
          "\n".intercalate (listed.map fun group => "export * from './types/" ++ group ++ "'")⟩] ++
        (listed.map fun group => typesFileOf settings group
          (String.join ((members endpoints group).map (typeBlock settings)))) ++
        (listed.map fun group => OutputFile.mk ("apis/" ++ group ++ ".ts")
          (requestsOpening settings group ++
            String.join ((members endpoints group).map requestText))) ∧
      made =
        shared.toList ++ [typesIndex endpoints] ++
        ((collect (fun _ => "") (typeBlock settings) endpoints).map fun entry =>
          typesFileOf settings entry.1 entry.2) ++
        ((collect (requestsOpening settings) requestText endpoints).map fun entry =>
          OutputFile.mk ("apis/" ++ entry.1 ++ ".ts") entry.2) := by
  obtain ⟨shared, h_shared, h_made⟩ := Outcome.bind_eq_ok_iff.mp h_files
  obtain rfl := Except.ok.inj h_made
  refine ⟨shared, groups endpoints, h_shared, path_of_sharedFile? h_shared,
    grouping_groups endpoints, ?_, ?_⟩
  · rw [typesFiles, requestsFiles, List.append_cons]
    rfl
  · -- the texts were gathered in one pass over the endpoints; group by group they are the same
    have h_types : (groups endpoints).map (typesFile settings endpoints) =
        (collect (fun _ => "") (typeBlock settings) endpoints).map fun entry =>
          typesFileOf settings entry.1 entry.2 := by
      rw [collect_eq, List.map_map]
      refine List.map_congr_left fun group _ => ?_
      rw [Function.comp_apply, textOf, String.empty_append]
      rfl
    have h_requests : requestsFiles settings endpoints =
        (collect (requestsOpening settings) requestText endpoints).map fun entry =>
          OutputFile.mk ("apis/" ++ entry.1 ++ ".ts") entry.2 := by
      rw [collect_eq, List.map_map]
      rfl
    rw [typesFiles, List.append_cons, h_types, h_requests]

/-- An endpoint with no more than a group and the name of its function. -/
def namedEndpoint (group name : String) : Endpoint :=
  { (default : Endpoint) with fileName := some group, fnName := some name }

/-- Settings that leave everything to the defaults. -/
def bareSettings : Settings :=
  ⟨"out", defaultAxiosFilePath, none, none, defaultBanner, none, fun _ _ => .ok none⟩

/-- Endpoints of two groups by turns. -/
def interleaved : List Endpoint :=
  [namedEndpoint "user" "addUser", namedEndpoint "pet" "addPet", namedEndpoint "user" "dropUser"]

theorem files_by_group_interleaved :
    ∃ made, files Schema.typeScript ⟨[], []⟩ bareSettings interleaved = .ok made ∧
      made.map OutputFile.path =
        ["types.d.ts", "types/user.d.ts", "types/pet.d.ts", "apis/user.ts", "apis/pet.ts"] := by
  have h_files : files Schema.typeScript ⟨[], []⟩ bareSettings interleaved =
      .ok (typesFiles bareSettings interleaved ++ requestsFiles bareSettings interleaved) := rfl
  obtain ⟨shared, listed, h_shared, -, -, -, h_collected⟩ := files_by_group h_files
  obtain rfl : none = shared := Except.ok.inj h_shared
  refine ⟨_, h_files, ?_⟩
  rw [h_collected]
  rfl

end OpenApiTs.Output
