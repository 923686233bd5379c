/-
  OpenApiTs.Proofs.Schema.Roster

  What a roster of names keeps. Claims only add entries, so the owner of a name is its owner for
  good; the candidates for a title are all different, so one that nothing else holds is found after
  at most one try for each claim and definition; and a titled node whose claim is settled claims
  nothing more, however the roster grows.
-/
import OpenApiTs.Proofs.Entries
import OpenApiTs.Proofs.Json.Equality
import OpenApiTs.Schema.Roster
import Mathlib.Data.List.Perm.Subperm

namespace OpenApiTs.Schema.Roster

variable {definitions : Definitions} {roster later : Roster} {name base title root target : String}
  {schema node owner : Json}

/-! ## Growth -/

/-- A claim takes nothing away and moves nothing. -/
theorem prefix_claim (roster : Roster) (name : String) (schema : Json) :
    roster <+: roster.claim name schema := by
  unfold claim
  split
  · exact List.prefix_refl roster
  · exact List.prefix_append roster [(name, schema)]

theorem claim_of_mem (h_claimed : name ∈ Entries.names roster) :
    roster.claim name schema = roster := by
  rw [claim, if_pos (Entries.has_iff_mem_names.mpr h_claimed)]

theorem claim_of_not_mem (h_free : name ∉ Entries.names roster) :
    roster.claim name schema = roster ++ [(name, schema)] := by
  rw [claim, if_neg (mt Entries.has_iff_mem_names.mp h_free)]

theorem mem_names_claim (roster : Roster) (name : String) (schema : Json) :
    name ∈ Entries.names (roster.claim name schema) := by
  by_cases h_claimed : name ∈ Entries.names roster
  · rwa [claim_of_mem h_claimed]
  · simp [claim_of_not_mem h_claimed, Entries.names]

/-- An entry after a claim was there before or is the claim. -/
theorem mem_claim {entry : String × Json} (h_entry : entry ∈ roster.claim name schema) :
    entry ∈ roster ∨ entry = (name, schema) := by
  rw [claim] at h_entry
  split at h_entry
  · exact .inl h_entry
  · exact (List.mem_append.mp h_entry).imp_right List.mem_singleton.mp

/-- No name is held twice. -/
theorem names_nodup_claim (h_names : (Entries.names roster).Nodup) :
    (Entries.names (roster.claim name schema)).Nodup := by
  by_cases h_claimed : name ∈ Entries.names roster
  · rwa [claim_of_mem h_claimed]
  · rw [claim_of_not_mem h_claimed, Entries.names, List.map_append]
    -- the name is new, so it differs from all others
    refine List.nodup_append.mpr ⟨h_names, by simp, ?_⟩
    intro other h_other own h_own h_eq
    rw [List.map_singleton, List.mem_singleton] at h_own
    rw [h_eq, h_own] at h_other
    exact h_claimed h_other

/-- The owner of a name stays. -/
theorem lookup_of_grown (h_grown : roster <+: later) (h_owner : roster.lookup name = some owner) :
    later.lookup name = some owner :=
  h_grown.lookup_eq_some h_owner

theorem mem_names_of_grown (h_grown : roster <+: later) (h_mem : name ∈ Entries.names roster) :
    name ∈ Entries.names later :=
  (h_grown.map Prod.fst).subset h_mem

/-- A name that was free belongs to the schema that claims it. -/
theorem lookup_claim_of_not_mem (h_free : name ∉ Entries.names roster) :
    (roster.claim name schema).lookup name = some schema := by
  rw [claim_of_not_mem h_free, List.lookup_append, Entries.lookup_eq_none_iff.mpr h_free]
  simp

/-! ## Candidates -/

theorem candidate_zero (base : String) : candidate base 0 = base := rfl

theorem candidate_of_ne_zero {number : Nat} (h_number : number ≠ 0) :
    candidate base number = base ++ String.ofList (Nat.toDigits 10 number) := by
  rw [candidate, if_neg h_number]

/-- Different numbers make different candidates: the digits after the base tell the number. -/
theorem candidate_injective (base : String) : Function.Injective (candidate base) := by
  have h_numbered {number : Nat} (h_number : number ≠ 0) : candidate base number ≠ base := by
    intro h_eq
    rw [candidate_of_ne_zero h_number, String.append_eq_left_iff] at h_eq
    have h_digits : Nat.toDigits 10 number = [] := by simpa using congrArg String.toList h_eq
    exact Nat.toDigits_ne_nil h_digits
  intro first second h_eq
  by_cases h_first : first = 0
  · subst h_first
    by_contra h_ne
    exact h_numbered (Ne.symm h_ne) h_eq.symm
  · by_cases h_second : second = 0
    · subst h_second
      exact absurd h_eq (h_numbered h_first)
    · -- both have digits after the base, and digits tell their number
      rw [candidate_of_ne_zero h_first, candidate_of_ne_zero h_second] at h_eq
      have h_digits : Nat.toDigits 10 first = Nat.toDigits 10 second := by
        simpa using congrArg String.toList h_eq
      calc
        first = Nat.ofDigitChars 10 (Nat.toDigits 10 first) 0 :=
          Nat.ofDigitChars_ten_toDigits.symm
        _ = Nat.ofDigitChars 10 (Nat.toDigits 10 second) 0 := by rw [h_digits]
        _ = second := Nat.ofDigitChars_ten_toDigits

/-! ## Taken names -/

theorem taken_of_lookup (h_owner : roster.lookup name = some owner) :
    taken definitions roster schema name = !owner.same schema := by
  simp [taken, h_owner]

/-- Only names of claims and definitions are taken. -/
theorem mem_of_taken (h_taken : taken definitions roster schema name = true) :
    name ∈ Entries.names roster ++ Entries.names definitions.schemas := by
  rw [List.mem_append]
  by_contra h_absent
  rw [not_or] at h_absent
  have h_unclaimed := Entries.lookup_eq_none_iff.mpr h_absent.1
  have h_undefined : definitions.get? name = none := Entries.lookup_eq_none_iff.mpr h_absent.2
  simp [taken, h_unclaimed, h_undefined] at h_taken

/-- One of the first candidates is not taken: they are all different and more of them than names
    that may be taken. -/
theorem exists_not_taken (definitions : Definitions) (roster : Roster) (schema : Json)
    (base : String) :
    ∃ number ≤ roster.length + definitions.schemas.length,
      taken definitions roster schema (candidate base number) = false := by
  by_contra h_none
  push Not at h_none
  -- one candidate more than there are names that may be taken
  let candidates := (List.range (roster.length + definitions.schemas.length + 1)).map
    (candidate base)
  have h_different : candidates.Nodup := List.nodup_range.map (candidate_injective base)
  have h_inside : candidates ⊆ Entries.names roster ++ Entries.names definitions.schemas := by
    intro name h_name
    obtain ⟨number, h_number, rfl⟩ := List.mem_map.mp h_name
    rw [List.mem_range] at h_number
    exact mem_of_taken (eq_true_of_ne_false (h_none number (by omega)))
  have h_length := (h_different.subperm h_inside).length_le
  simp only [candidates, Entries.names, List.length_map, List.length_range,
    List.length_append] at h_length
  omega

/-- A search that may try as many candidates as it needs stops at the first that is not taken. -/
theorem firstFree_eq {free : Nat}
    (h_free : taken definitions roster schema (candidate base free) = false) :
    ∀ fuel number, number ≤ free → free ≤ number + fuel →
      ∃ first, firstFree definitions roster schema base fuel number = candidate base first ∧
        number ≤ first ∧ first ≤ free ∧
        taken definitions roster schema (candidate base first) = false ∧
        ∀ earlier, number ≤ earlier → earlier < first →
          taken definitions roster schema (candidate base earlier) = true := by
  intro fuel
  induction fuel with
  | zero =>
    -- without fuel the search stands at `free` itself
    intro number h_from h_to
    obtain rfl : number = free := by omega
    exact ⟨number, rfl, Nat.le_refl _, Nat.le_refl _, h_free, fun earlier _ _ => by omega⟩
  | succ fuel ih =>
    intro number h_from h_to
    rw [firstFree]
    by_cases h_taken : taken definitions roster schema (candidate base number) = true
    · have h_ne : number ≠ free := by
        rintro rfl
        simp [h_taken] at h_free
      obtain ⟨first, h_eq, h_first, h_last, h_found, h_before⟩ :=
        ih (number + 1) (by omega) (by omega)
      rw [if_pos h_taken]
      refine ⟨first, h_eq, by omega, h_last, h_found, ?_⟩
      intro earlier h_earlier h_less
      rcases Nat.eq_or_lt_of_le h_earlier with rfl | h_earlier
      · exact h_taken
      · exact h_before earlier h_earlier h_less
    · rw [if_neg h_taken]
      exact ⟨number, rfl, Nat.le_refl _, h_from, eq_false_of_ne_true h_taken, fun _ _ _ => by omega⟩

/-- The name for a titled node is the first candidate that nothing else holds. -/
theorem nameTitled_first (definitions : Definitions) (title : String) (node : Json)
    (roster : Roster) :
    ∃ number ≤ roster.length + definitions.schemas.length,
      (nameTitled definitions title node roster).1 =
        candidate (Name.identifier title) number ∧
      taken definitions roster node (candidate (Name.identifier title) number) = false ∧
      ∀ earlier < number,
        taken definitions roster node (candidate (Name.identifier title) earlier) = true := by
  obtain ⟨free, h_bound, h_free⟩ :=
    exists_not_taken definitions roster node (Name.identifier title)
  obtain ⟨first, h_name, -, h_first, h_found, h_before⟩ :=
    firstFree_eq h_free (roster.length + definitions.schemas.length) 0 (by omega) (by omega)
  exact ⟨first, by omega, h_name, h_found, fun earlier => h_before earlier (by omega)⟩

theorem nameTitled_snd (definitions : Definitions) (title : String) (node : Json)
    (roster : Roster) : (nameTitled definitions title node roster).2 =
      roster.claim (nameTitled definitions title node roster).1 node :=
  rfl

/-! ## Mentions -/

/-- The schema that the declaration under the name of a mention is to have. A placeholder, an
    unknown reference and the reference to the root stand for none and claim nothing. -/
def standsFor? (definitions : Definitions) : Mention → Option Json
  | .titled title node =>
    match placeholderOf? definitions title with
    | some _ => none
    | none => some node
  | .reference target => definition? definitions target

/-- A titled node stands for itself unless its title is that of a placeholder. -/
theorem standsFor?_titled_iff :
    standsFor? definitions (.titled title node) = some schema ↔
      placeholderOf? definitions title = none ∧ node = schema := by
  rw [standsFor?]
  cases placeholderOf? definitions title with
  | some own => simp
  | none => simp

theorem definition?_root (definitions : Definitions) : definition? definitions "#" = none := rfl

/-- A known reference is a key of the definitions behind their root. -/
theorem definition?_eq_some_iff {definition : Json} :
    definition? definitions target = some definition ↔
      ∃ key, target = Reference.definitionRoot ++ key ∧ definitions.get? key = some definition := by
  simp only [definition?, Option.bind_eq_some_iff, Text.after?_eq_some_iff]

/-- What follows the last separator does not depend on what stands before any of them. -/
theorem lastPiece_append_cons {sep : Char → Bool} {c : Char} (h_sep : sep c = true)
    (front back : List Char) :
    Text.Chars.lastPiece sep (front ++ c :: back) = Text.Chars.lastPiece sep back := by
  -- the last piece is taken from the end, so the search stops inside the back or at the separator
  simp only [Text.Chars.lastPiece, List.reverse_append, List.reverse_cons, List.append_assoc]
  rw [List.takeWhile_append]
  split
  · next h_whole =>
    rw [(List.takeWhile_prefix _).eq_of_length h_whole]
    simp [h_sep]
  · rfl

/-- The name that references to the definition of a key are written with. -/
def definitionName (key : String) : String := Name.identifier (Text.lastPiece '/' key)

/-- A definition is named by the last piece of its key, as a reference to it is. -/
theorem lastPiece_definitionRoot (key : String) :
    Text.lastPiece '/' (Reference.definitionRoot ++ key) = Text.lastPiece '/' key := by
  have h_root : (Reference.definitionRoot ++ key).toList =
      "#/definitions".toList ++ '/' :: key.toList := by
    rw [String.toList_append]
    rfl
  rw [Text.lastPiece, h_root, lastPiece_append_cons (by rfl), Text.lastPiece]

/-- What a title chooses when it is no placeholder's. -/
theorem choose_titled (h_title : placeholderOf? definitions title = none) :
    choose definitions root (.titled title node) roster =
      nameTitled definitions title node roster := by
  simp only [choose, h_title]

/-- A reference to a definition chooses the name of the definition, whether there is one or not. -/
theorem choose_definition (definitions : Definitions) (root key : String) (roster : Roster) :
    (choose definitions root (.reference (Reference.definitionRoot ++ key)) roster).1 =
      definitionName key := by
  -- the reference to the root is shorter than any to a definition
  have h_root : Reference.definitionRoot ++ key ≠ "#" := by
    intro h_eq
    have h_length := congrArg (List.length ∘ String.toList) h_eq
    simp [Reference.definitionRoot] at h_length
  simp only [choose, nameReference]
  rw [if_neg h_root, lastPiece_definitionRoot]
  cases definition? definitions (Reference.definitionRoot ++ key) with
  | some definition => rfl
  | none => rfl

/-- A mention that stands for a schema claims its name for it, any other claims nothing. -/
theorem choose_snd (definitions : Definitions) (root : String) (mention : Mention)
    (roster : Roster) :
    (choose definitions root mention roster).2 =
      match standsFor? definitions mention with
      | some schema => roster.claim (choose definitions root mention roster).1 schema
      | none => roster := by
  cases mention with
  | titled title node =>
    simp only [choose, standsFor?]
    cases placeholderOf? definitions title with
    | some own => rfl
    | none => rfl
  | reference target =>
    simp only [choose, standsFor?, nameReference]
    by_cases h_root : target = "#"
    · -- the root stands for no definition, so nothing is claimed for it
      subst h_root
      simp [definition?_root]
    · rw [if_neg h_root]
      cases definition? definitions target with
      | some schema => rfl
      | none => rfl

/-- Choosing a name only adds to the roster, if anything. -/
theorem prefix_choose (definitions : Definitions) (root : String) (mention : Mention)
    (roster : Roster) : roster <+: (choose definitions root mention roster).2 := by
  rw [choose_snd]
  cases standsFor? definitions mention with
  | some schema => exact prefix_claim roster _ schema
  | none => exact List.prefix_refl roster

/-- Choosing a name keeps names apart. -/
theorem names_nodup_choose {mention : Mention} (h_names : (Entries.names roster).Nodup) :
    (Entries.names (choose definitions root mention roster).2).Nodup := by
  rw [choose_snd]
  cases standsFor? definitions mention with
  | some schema => exact names_nodup_claim h_names
  | none => exact h_names

/-- The name of a mention that stands for a schema is claimed. -/
theorem mem_names_choose {mention : Mention}
    (h_stands : standsFor? definitions mention = some schema) :
    (choose definitions root mention roster).1 ∈
      Entries.names (choose definitions root mention roster).2 := by
  rw [choose_snd, h_stands]
  exact mem_names_claim roster _ schema

/-- What is new in the roster after a mention is its name, which was free, for the schema it stands
    for. -/
theorem mem_choose {mention : Mention} {entry : String × Json}
    (h_entry : entry ∈ (choose definitions root mention roster).2) :
    entry ∈ roster ∨
      (choose definitions root mention roster).1 = entry.1 ∧
        standsFor? definitions mention = some entry.2 ∧ entry.1 ∉ Entries.names roster := by
  rw [choose_snd] at h_entry
  cases h_stands : standsFor? definitions mention with
  | none =>
    rw [h_stands] at h_entry
    exact .inl h_entry
  | some schema =>
    rw [h_stands] at h_entry
    dsimp only at h_entry
    -- a claim for a held name adds nothing
    by_cases h_claimed : (choose definitions root mention roster).1 ∈ Entries.names roster
    · rw [claim_of_mem h_claimed] at h_entry
      exact .inl h_entry
    · rw [claim_of_not_mem h_claimed, List.mem_append, List.mem_singleton] at h_entry
      rcases h_entry with h_entry | rfl
      · exact .inl h_entry
      · exact .inr ⟨rfl, rfl, h_claimed⟩

/-! ## Titled nodes -/

/-- A titled node gets a name whose owner equals it. -/
theorem owner_nameTitled (definitions : Definitions) (title : String) (roster : Roster)
    (h_node : node.WellFormed) :
    ∃ owner, (nameTitled definitions title node roster).2.lookup
        (nameTitled definitions title node roster).1 = some owner ∧ owner.same node = true := by
  obtain ⟨number, -, h_name, h_free, -⟩ := nameTitled_first definitions title node roster
  rw [← h_name] at h_free
  set own := (nameTitled definitions title node roster).1 with h_own
  have h_roster : (nameTitled definitions title node roster).2 = roster.claim own node := rfl
  rw [h_roster]
  -- the name is shared with an equal schema, or free and claimed for the node itself
  by_cases h_claimed : own ∈ Entries.names roster
  · obtain ⟨owner, h_owner⟩ := Entries.exists_lookup_of_mem_names h_claimed
    rw [taken_of_lookup h_owner] at h_free
    exact ⟨owner, lookup_of_grown (prefix_claim roster own node) h_owner, by simpa using h_free⟩
  · exact ⟨node, lookup_claim_of_not_mem h_claimed, Json.same_refl h_node⟩

/-- The claim of a titled node is settled when one of its candidates belongs to an equal schema, and
    every earlier one is claimed or kept by a definition: the search cannot reach a new name. -/
def Settled (definitions : Definitions) (roster : Roster) (title : String) (node : Json) : Prop :=
  ∃ number owner, roster.lookup (candidate (Name.identifier title) number) = some owner ∧
    owner.same node = true ∧
    ∀ earlier < number, candidate (Name.identifier title) earlier ∈ Entries.names roster ∨
      taken definitions [] node (candidate (Name.identifier title) earlier) = true

/-- What is taken is claimed, or kept by a definition that nobody claimed yet. -/
theorem mem_names_or_taken (h_taken : taken definitions roster node name = true) :
    name ∈ Entries.names roster ∨ taken definitions [] node name = true := by
  by_cases h_claimed : name ∈ Entries.names roster
  · exact .inl h_claimed
  · rw [taken, Entries.lookup_eq_none_iff.mpr h_claimed] at h_taken
    exact .inr h_taken

/-- A settled claim stays settled: its name keeps its owner, and the candidates before it stay
    held. -/
theorem Settled.mono (h_settled : Settled definitions roster title node)
    (h_grown : roster <+: later) : Settled definitions later title node := by
  obtain ⟨number, owner, h_owner, h_same, h_before⟩ := h_settled
  refine ⟨number, owner, lookup_of_grown h_grown h_owner, h_same, ?_⟩
  intro earlier h_less
  exact (h_before earlier h_less).imp_left (mem_names_of_grown h_grown)

/-- Naming a node settles its claim, since no candidate before the chosen one could be had. -/
theorem settled_nameTitled (h_node : node.WellFormed) :
    Settled definitions (nameTitled definitions title node roster).2 title node := by
  obtain ⟨number, -, h_name, -, h_before⟩ := nameTitled_first definitions title node roster
  obtain ⟨owner, h_owner, h_same⟩ := owner_nameTitled definitions title roster h_node
  rw [h_name] at h_owner
  refine ⟨number, owner, h_owner, h_same, ?_⟩
  intro earlier h_less
  -- what could not be had before the claim cannot be had after it
  have h_grown : roster <+: (nameTitled definitions title node roster).2 := prefix_claim _ _ _
  exact (mem_names_or_taken (h_before earlier h_less)).imp_left (mem_names_of_grown h_grown)

/-- A titled node whose claim is settled claims nothing more. -/
theorem nameTitled_of_settled (h_settled : Settled definitions roster title node) :
    (nameTitled definitions title node roster).2 = roster := by
  obtain ⟨number, owner, h_owner, h_same, h_before⟩ := h_settled
  obtain ⟨first, -, h_name, h_free, h_earlier⟩ := nameTitled_first definitions title node roster
  apply claim_of_mem
  change (nameTitled definitions title node roster).1 ∈ Entries.names roster
  rw [h_name]
  rcases Nat.lt_trichotomy first number with h_less | rfl | h_more
  · -- an earlier candidate that is free by now has been claimed since
    rcases h_before first h_less with h_claimed | h_kept
    · exact h_claimed
    · by_contra h_unclaimed
      rw [taken, Entries.lookup_eq_none_iff.mpr h_unclaimed] at h_free
      rw [taken, List.lookup_nil, h_free] at h_kept
      cases h_kept
  · exact Entries.mem_names_of_mem (Entries.mem_of_lookup h_owner)
  · -- the settled candidate is not taken, so the search does not pass it
    have h_taken := h_earlier number h_more
    rw [taken_of_lookup h_owner, h_same] at h_taken
    cases h_taken

end OpenApiTs.Schema.Roster
