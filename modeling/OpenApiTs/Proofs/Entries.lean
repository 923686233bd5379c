/-
  OpenApiTs.Proofs.Entries

  Looking up a name among entries, against the list itself: what is found is an entry, and an entry
  is found when no other has its name. Putting entries keeps the names different, and what is found
  afterwards is what was put last.
-/
import OpenApiTs.Entries
import Mathlib.Data.List.Forall2
import Mathlib.Data.List.Nodup

namespace OpenApiTs.Entries

variable {α : Type} {entries : Entries α} {name : String} {value : α}

theorem mem_of_lookup (h_found : entries.lookup name = some value) : (name, value) ∈ entries := by
  obtain ⟨before, after, h_split, -⟩ := List.lookup_eq_some_iff.mp h_found
  rw [h_split]
  simp

theorem mem_names_of_mem (h_mem : (name, value) ∈ entries) : name ∈ names entries :=
  List.mem_map.mpr ⟨(name, value), h_mem, rfl⟩

/-- A name has no value exactly when it is not among the names. -/
theorem lookup_eq_none_iff : entries.lookup name = none ↔ name ∉ names entries := by
  rw [List.lookup_eq_none_iff]
  constructor
  · intro h_none h_mem
    obtain ⟨entry, h_entry, rfl⟩ := List.mem_map.mp h_mem
    simpa using h_none entry h_entry
  · intro h_absent entry h_entry
    have h_ne : name ≠ entry.1 := by
      rintro rfl
      exact h_absent (List.mem_map.mpr ⟨entry, h_entry, rfl⟩)
    simpa using h_ne

theorem has_iff_mem_names : has entries name = true ↔ name ∈ names entries := by
  rw [has, Option.isSome_iff_ne_none, ne_eq, lookup_eq_none_iff, not_not]

theorem exists_lookup_of_mem_names (h_mem : name ∈ names entries) :
    ∃ value, entries.lookup name = some value :=
  Option.isSome_iff_exists.mp (has_iff_mem_names.mpr h_mem)

/-- An entry is found under its name when the names are all different. -/
theorem lookup_of_mem (h_names : (names entries).Nodup) (h_mem : (name, value) ∈ entries) :
    entries.lookup name = some value := by
  obtain ⟨found, h_found⟩ := exists_lookup_of_mem_names (mem_names_of_mem h_mem)
  have h_entry := mem_of_lookup h_found
  have h_same := List.inj_on_of_nodup_map h_names h_entry h_mem rfl
  rw [h_found, (Prod.mk.inj h_same).2]

/-- What is found does not depend on the order of entries with different names. -/
theorem lookup_perm {others : Entries α} (h_names : (names entries).Nodup)
    (h_perm : entries.Perm others) (name : String) : entries.lookup name = others.lookup name := by
  have h_others : (names others).Nodup := (h_perm.map Prod.fst).nodup_iff.mp h_names
  cases h_found : others.lookup name with
  | some value => exact lookup_of_mem h_names (h_perm.mem_iff.mpr (mem_of_lookup h_found))
  | none =>
    rw [lookup_eq_none_iff] at h_found ⊢
    rwa [names, (h_perm.map Prod.fst).mem_iff]

theorem lookup_map {β : Type} (f : String → α → β) (entries : Entries α) (name : String) :
    List.lookup name (entries.map fun entry => (entry.1, f entry.1 entry.2)) =
      (entries.lookup name).map (f name) := by
  induction entries with
  | nil => rfl
  | cons entry others ih =>
    rw [List.map_cons, List.lookup_cons, List.lookup_cons, ih]
    cases h_name : name == entry.1 with
    | true => rw [beq_iff_eq.mp h_name]; rfl
    | false => rfl

/-! ## Putting an entry -/

theorem lookup_cons (entry : String × α) (others : Entries α) (own : String) :
    List.lookup own (entry :: others) =
      if own = entry.1 then some entry.2 else others.lookup own := by
  rw [List.lookup_cons]
  by_cases h_own : own = entry.1
  · simp [h_own]
  · simp [h_own, beq_eq_false_iff_ne.mpr h_own]

/-- A name that is kept is found as before. -/
theorem lookup_filter {keep : String → Bool} (h_name : keep name = true) (entries : Entries α) :
    List.lookup name (entries.filter fun entry => keep entry.1) = entries.lookup name := by
  induction entries with
  | nil => rfl
  | cons entry entries ih =>
    rw [lookup_cons, ← ih, List.filter_cons]
    split
    · rw [lookup_cons]
    · next h_drop =>
      have h_other : name ≠ entry.1 := by
        rintro rfl
        exact h_drop h_name
      rw [if_neg h_other]

section FilterMap

variable {β : Type} {keep : String × α → Option (String × β)}

/-- A name under which every value is kept and changed is found with the value changed. -/
theorem lookup_filterMap {make : α → β}
    (h_names : ∀ entry own, keep entry = some own → own.1 = entry.1)
    (h_kept : ∀ value, keep (name, value) = some (name, make value)) (entries : Entries α) :
    List.lookup name (entries.filterMap keep) = (entries.lookup name).map make := by
  induction entries with
  | nil => rfl
  | cons entry entries ih =>
    obtain ⟨key, value⟩ := entry
    rw [lookup_cons, List.filterMap_cons]
    -- `keep` changes no name, so what it makes of other entries is passed over
    by_cases h_key : name = key
    · subst h_key
      rw [h_kept value, if_pos rfl]
      exact (lookup_cons _ _ _).trans (if_pos rfl)
    · rw [if_neg h_key, ← ih]
      cases h_own : keep (key, value) with
      | none => rfl
      | some own =>
        have h_name : own.1 = key := h_names _ own h_own
        exact (lookup_cons _ _ _).trans (if_neg (h_name ▸ h_key))

/-- A name under which no value is kept is not found. -/
theorem lookup_filterMap_of_none
    (h_names : ∀ entry own, keep entry = some own → own.1 = entry.1)
    (h_dropped : ∀ value, keep (name, value) = none) (entries : Entries α) :
    List.lookup name (entries.filterMap keep) = none := by
  rw [lookup_eq_none_iff]
  intro h_mem
  obtain ⟨own, h_own, rfl⟩ := List.mem_map.mp h_mem
  obtain ⟨⟨key, value⟩, -, h_keep⟩ := List.mem_filterMap.mp h_own
  have h_name : own.1 = key := h_names _ own h_keep
  have h_none := h_dropped value
  rw [h_name, h_keep] at h_none
  cases h_none

end FilterMap

/-- The value that was put is found under its name, and every other name keeps its own. -/
theorem lookup_put (entries : Entries α) (name : String) (value : α) (own : String) :
    (entries.put name value).lookup own = if own = name then some value else entries.lookup own := by
  induction entries with
  | nil => rw [put, lookup_cons]
  | cons entry others ih =>
    rw [put, lookup_cons]
    -- the entry at hand is replaced, or the value goes further down
    split
    · next h_key =>
      rw [lookup_cons, h_key]
      split <;> rfl
    · next h_key =>
      rw [lookup_cons, ih]
      by_cases h_own : own = entry.1
      · rw [if_pos h_own, if_pos h_own, if_neg (h_own ▸ h_key)]
      · rw [if_neg h_own, if_neg h_own]

theorem mem_put {entry : String × α} (h_mem : entry ∈ entries.put name value) :
    entry = (name, value) ∨ entry ∈ entries := by
  induction entries with
  | nil => exact .inl (List.mem_singleton.mp h_mem)
  | cons first others ih =>
    rw [put] at h_mem
    split at h_mem
    · exact (List.mem_cons.mp h_mem).imp_right (List.mem_cons_of_mem first)
    · rcases List.mem_cons.mp h_mem with rfl | h_mem
      · exact .inr List.mem_cons_self
      · exact (ih h_mem).imp_right (List.mem_cons_of_mem first)

/-- A new name goes to the end. -/
theorem put_of_not_mem (h_new : name ∉ names entries) (value : α) :
    entries.put name value = entries ++ [(name, value)] := by
  induction entries with
  | nil => rfl
  | cons entry others ih =>
    rw [names, List.map_cons, List.mem_cons, not_or] at h_new
    rw [put, if_neg (Ne.symm h_new.1), ih h_new.2, List.cons_append]

/-- A name that is held keeps its place. -/
theorem names_put_of_mem (h_held : name ∈ names entries) (value : α) :
    names (entries.put name value) = names entries := by
  induction entries with
  | nil => cases h_held
  | cons entry others ih =>
    rw [put]
    split
    · next h_name => simp [names, h_name]
    · next h_name =>
      rw [names, List.map_cons, List.mem_cons] at h_held
      have h_others := ih (h_held.resolve_left (Ne.symm h_name))
      rw [names, List.map_cons, ← names, h_others]
      rfl

theorem names_map_make (listed : List String) (make : String → α) :
    names (listed.map fun own => (own, make own)) = listed := by
  rw [names, List.map_map]
  exact List.map_id' listed

/-- Among entries whose values are made from their names, one entry changes. -/
theorem put_map_of_mem {listed : List String} (h_listed : listed.Nodup) (h_held : name ∈ listed)
    (make : String → α) (value : α) :
    put (listed.map fun own => (own, make own)) name value =
      listed.map fun own => (own, if own = name then value else make own) := by
  induction listed with
  | nil => cases h_held
  | cons first listed ih =>
    rw [List.nodup_cons] at h_listed
    rw [List.map_cons, List.map_cons, put]
    by_cases h_first : first = name
    · subst h_first
      -- no other entry has the name
      have h_others : ∀ own ∈ listed,
          (own, make own) = (own, if own = first then value else make own) := by
        intro own h_own
        rw [if_neg fun h_eq : own = first => h_listed.1 (h_eq ▸ h_own)]
      rw [if_pos rfl, if_pos rfl, List.map_congr_left h_others]
    · have h_later := (List.mem_cons.mp h_held).resolve_left (Ne.symm h_first)
      rw [if_neg h_first, if_neg h_first, ih h_listed.2 h_later]

/-- Putting repeats no name. -/
theorem nodup_names_put (h_names : (names entries).Nodup) (name : String) (value : α) :
    (names (entries.put name value)).Nodup := by
  -- a name that is held is put in its place, and a new one behind all others
  by_cases h_held : name ∈ names entries
  · rwa [names_put_of_mem h_held]
  · rw [put_of_not_mem h_held, names, List.map_append, ← names, List.nodup_append]
    refine ⟨h_names, List.nodup_singleton name, ?_⟩
    intro own h_own last h_last
    rw [List.map_singleton, List.mem_singleton] at h_last
    rintro rfl
    rw [h_last] at h_own
    exact h_held h_own

theorem length_put_le (entries : Entries α) (name : String) (value : α) :
    (entries.put name value).length ≤ entries.length + 1 := by
  by_cases h_held : name ∈ names entries
  · have h_length := congrArg List.length (names_put_of_mem h_held value)
    rw [names, names, List.length_map, List.length_map] at h_length
    omega
  · have h_length : (entries.put name value).length = entries.length + 1 := by
      rw [put_of_not_mem h_held, List.length_append, List.length_singleton]
    exact Nat.le_of_eq h_length

/-! ## Putting many -/

section Many

variable {pairs : List (String × α)}

theorem putAll_cons (entries : Entries α) (pair : String × α) (pairs : List (String × α)) :
    entries.putAll (pair :: pairs) = (entries.put pair.1 pair.2).putAll pairs := rfl

/-- The last pair with a name decides, and the entries stand behind all pairs. -/
theorem lookup_putAll (entries : Entries α) (pairs : List (String × α)) (own : String) :
    (entries.putAll pairs).lookup own = (pairs.reverse.lookup own).or (entries.lookup own) := by
  induction pairs generalizing entries with
  | nil => simp [putAll]
  | cons pair pairs ih =>
    rw [putAll_cons, ih, lookup_put, List.reverse_cons, List.lookup_append, Option.or_assoc,
      lookup_cons]
    congr 1
    split <;> rfl

/-- Pairs with different names are found before the entries that they were put to. -/
theorem lookup_putAll_of_nodup (entries : Entries α) (h_names : (names pairs).Nodup)
    (own : String) :
    (entries.putAll pairs).lookup own = (List.lookup own pairs).or (entries.lookup own) := by
  rw [lookup_putAll, ← lookup_perm h_names (List.reverse_perm pairs).symm]

theorem mem_putAll {entry : String × α} (h_mem : entry ∈ entries.putAll pairs) :
    entry ∈ entries ∨ entry ∈ pairs := by
  induction pairs generalizing entries with
  | nil => exact .inl h_mem
  | cons pair pairs ih =>
    rw [putAll_cons] at h_mem
    rcases ih h_mem with h_entry | h_entry
    · rcases mem_put h_entry with rfl | h_entry
      · exact .inr List.mem_cons_self
      · exact .inl h_entry
    · exact .inr (List.mem_cons_of_mem pair h_entry)

theorem nodup_names_putAll (h_names : (names entries).Nodup) (pairs : List (String × α)) :
    (names (entries.putAll pairs)).Nodup := by
  induction pairs generalizing entries with
  | nil => exact h_names
  | cons pair pairs ih => exact ih (nodup_names_put h_names pair.1 pair.2)

/-- Pairs with new and different names are appended as they are. -/
theorem putAll_of_nodup (h_names : (names (entries ++ pairs)).Nodup) :
    entries.putAll pairs = entries ++ pairs := by
  induction pairs generalizing entries with
  | nil => rw [List.append_nil]; rfl
  | cons pair pairs ih =>
    have h_new : pair.1 ∉ names entries := by
      rw [names, List.map_append, List.nodup_append] at h_names
      intro h_held
      exact h_names.2.2 _ h_held _ (List.mem_map_of_mem List.mem_cons_self) rfl
    rw [putAll_cons, put_of_not_mem h_new, ih]
    · rw [List.append_assoc, List.singleton_append]
    · rwa [List.append_assoc, List.singleton_append]

/-- The names that are new go to the end, in order; all others keep their places. -/
theorem names_putAll (entries : Entries α) (h_pairs : (names pairs).Nodup) :
    names (entries.putAll pairs) =
      names entries ++ (names pairs).filter fun own => own ∉ names entries := by
  induction pairs generalizing entries with
  | nil => simp [putAll, names]
  | cons pair pairs ih =>
    have h_cons : names (pair :: pairs) = pair.1 :: names pairs := rfl
    rw [h_cons, List.nodup_cons] at h_pairs
    rw [putAll_cons, ih _ h_pairs.2, h_cons, List.filter_cons]
    by_cases h_held : pair.1 ∈ names entries
    · rw [names_put_of_mem h_held, if_neg (by simpa using h_held)]
    · -- the name is new, and no later pair has it
      have h_names : names (entries.put pair.1 pair.2) = names entries ++ [pair.1] := by
        rw [put_of_not_mem h_held, names, List.map_append]
        rfl
      have h_later : (names pairs).filter (fun own => own ∉ names entries ++ [pair.1]) =
          (names pairs).filter fun own => own ∉ names entries := by
        apply List.filter_congr
        intro own h_own
        have h_ne : own ≠ pair.1 := fun h_eq => h_pairs.1 (h_eq ▸ h_own)
        simp [h_ne]
      rw [h_names, h_later, if_pos (by simpa using h_held), List.append_assoc,
        List.singleton_append]

theorem length_putAll_le (entries : Entries α) (pairs : List (String × α)) :
    (entries.putAll pairs).length ≤ entries.length + pairs.length := by
  induction pairs generalizing entries with
  | nil => exact Nat.le_refl _
  | cons pair pairs ih =>
    have h_put := length_put_le entries pair.1 pair.2
    have h_rest := ih (entries.put pair.1 pair.2)
    rw [putAll_cons, List.length_cons]
    omega

/-- Entries grow by all the pairs only if no name comes twice. -/
theorem nodup_of_length_putAll (h_names : (names entries).Nodup)
    (h_length : (entries.putAll pairs).length = entries.length + pairs.length) :
    (names (entries ++ pairs)).Nodup := by
  induction pairs generalizing entries with
  | nil => rwa [List.append_nil]
  | cons pair pairs ih =>
    have h_rest := length_putAll_le (entries.put pair.1 pair.2) pairs
    -- a pair under a name that is held adds no entry, so the count would fall short
    have h_new : pair.1 ∉ names entries := by
      intro h_held
      have h_same := congrArg List.length (names_put_of_mem h_held pair.2)
      rw [names, names, List.length_map, List.length_map] at h_same
      rw [putAll_cons, List.length_cons] at h_length
      omega
    have h_put := ih (nodup_names_put h_names pair.1 pair.2)
    rw [putAll_cons, List.length_cons] at h_length
    rw [put_of_not_mem h_new, List.append_assoc, List.singleton_append] at h_put
    apply h_put
    rw [put_of_not_mem h_new] at h_length
    rw [h_length, List.length_append, List.length_singleton]
    omega

theorem nodup_names_ofPairs (pairs : List (String × α)) : (names (ofPairs pairs)).Nodup := by
  have h_none : (names ([] : Entries α)).Nodup := List.nodup_nil
  exact nodup_names_putAll h_none pairs

theorem mem_of_mem_ofPairs {entry : String × α} (h_mem : entry ∈ ofPairs pairs) : entry ∈ pairs :=
  (mem_putAll h_mem).resolve_left List.not_mem_nil

/-- Pairs that repeat no name are the entries already. -/
theorem ofPairs_of_nodup (h_names : (names pairs).Nodup) : ofPairs pairs = pairs :=
  putAll_of_nodup h_names

theorem nodup_of_length_ofPairs (h_length : (ofPairs pairs).length = pairs.length) :
    (names pairs).Nodup := by
  have h_none : (names ([] : Entries α)).Nodup := List.nodup_nil
  apply nodup_of_length_putAll h_none
  rw [List.length_nil, Nat.zero_add]
  exact h_length

/-- A choice of names can be made before an entry is put as well as after. -/
theorem filter_put (keep : String → Bool) (entries : Entries α) (name : String) (value : α) :
    (entries.put name value).filter (fun entry => keep entry.1) =
      if keep name then put (entries.filter fun entry => keep entry.1) name value
      else entries.filter fun entry => keep entry.1 := by
  induction entries with
  | nil => cases h_keep : keep name <;> simp [put, h_keep]
  | cons entry others ih =>
    rw [put]
    -- at the entry that is replaced the filter decides by the name, which stays
    by_cases h_same : entry.1 = name
    · subst h_same
      rw [if_pos rfl, List.filter_cons, List.filter_cons]
      cases keep entry.1 with
      | true => simp [put]
      | false => simp
    · rw [if_neg h_same, List.filter_cons, List.filter_cons, ih]
      cases h_keep : keep entry.1 with
      | true => cases keep name <;> simp [put, h_same]
      | false => simp

theorem filter_putAll (keep : String → Bool) (entries : Entries α) (pairs : List (String × α)) :
    (entries.putAll pairs).filter (fun entry => keep entry.1) =
      putAll (entries.filter fun entry => keep entry.1)
        (pairs.filter fun entry => keep entry.1) := by
  induction pairs generalizing entries with
  | nil => rfl
  | cons pair pairs ih =>
    rw [putAll_cons, ih, filter_put, List.filter_cons]
    cases keep pair.1 with
    | true => rfl
    | false => rfl

theorem filter_ofPairs (keep : String → Bool) (pairs : List (String × α)) :
    (ofPairs pairs).filter (fun entry => keep entry.1) =
      ofPairs (pairs.filter fun entry => keep entry.1) :=
  filter_putAll keep [] pairs

/-- A name under which all pairs have one value gets that value. -/
theorem lookup_putAll_of_unique (entries : Entries α) (h_mem : (name, value) ∈ pairs)
    (h_only : ∀ own, (name, own) ∈ pairs → own = value) :
    (entries.putAll pairs).lookup name = some value := by
  have h_held : name ∈ names pairs.reverse := by
    rw [names, List.map_reverse, List.mem_reverse]
    exact mem_names_of_mem h_mem
  obtain ⟨found, h_found⟩ := exists_lookup_of_mem_names h_held
  rw [lookup_putAll, h_found, h_only found (List.mem_reverse.mp (mem_of_lookup h_found)),
    Option.some_or]

theorem lookup_putAll_of_mem (entries : Entries α) (h_names : (names pairs).Nodup)
    (h_mem : (name, value) ∈ pairs) : (entries.putAll pairs).lookup name = some value := by
  apply lookup_putAll_of_unique entries h_mem
  intro own h_own
  have h_same := List.inj_on_of_nodup_map h_names h_own h_mem rfl
  exact (Prod.mk.inj h_same).2

end Many

/-! ## Removing an entry in place -/

/-- The entries without those called `name`; the others stand in order. -/
def without (entries : Entries α) (name : String) : Entries α :=
  entries.filter fun entry => entry.1 ≠ name

theorem lookup_without_of_ne {own : String} (h_own : own ≠ name) (entries : Entries α) :
    (entries.without name).lookup own = entries.lookup own := by
  let keep : String → Bool := fun other => other ≠ name
  have h_keep : keep own = true := by simpa [keep] using h_own
  exact lookup_filter h_keep entries

theorem not_mem_names_without (entries : Entries α) (name : String) :
    name ∉ names (entries.without name) := by
  rw [names, List.mem_map]
  rintro ⟨entry, h_entry, rfl⟩
  simp [without] at h_entry

/-! ## Removing an entry -/

theorem perm_last_cons_dropLast (others : Entries α) :
    (match others.getLast? with
      | none => []
      | some last => last :: others.dropLast).Perm others := by
  cases h_last : others.getLast? with
  | none => rw [List.getLast?_eq_none_iff.mp h_last]
  | some last =>
    obtain ⟨front, rfl⟩ := List.getLast?_eq_some_iff.mp h_last
    rw [List.dropLast_concat]
    exact (List.perm_append_singleton last front).symm

theorem mem_of_mem_remove {entry : String × α} (h_mem : entry ∈ entries.remove name) :
    entry ∈ entries := by
  induction entries with
  | nil => exact h_mem
  | cons first others ih =>
    rw [remove] at h_mem
    -- the entry is taken out here and the last of the others stands in its place
    split at h_mem
    · exact List.mem_cons_of_mem first ((perm_last_cons_dropLast others).mem_iff.mp h_mem)
    · rcases List.mem_cons.mp h_mem with rfl | h_mem
      · exact List.mem_cons_self
      · exact List.mem_cons_of_mem first (ih h_mem)

/-- Removing leaves the other entries, in some order. -/
theorem remove_perm (h_names : (names entries).Nodup) (name : String) :
    (entries.remove name).Perm (entries.filter fun entry => entry.1 ≠ name) := by
  induction entries with
  | nil => exact List.Perm.nil
  | cons entry others ih =>
    rw [names, List.map_cons, List.nodup_cons] at h_names
    rw [remove]
    split
    · next h_name =>
      -- no other entry has the name
      have h_others : others.filter (fun entry => entry.1 ≠ name) = others := by
        rw [List.filter_eq_self]
        intro other h_other
        have h_ne : other.1 ≠ name := by
          rintro rfl
          exact h_names.1 (h_name ▸ List.mem_map_of_mem h_other)
        simpa using h_ne
      rw [List.filter_cons_of_neg (by simp [h_name]), h_others]
      exact perm_last_cons_dropLast others
    · next h_name =>
      rw [List.filter_cons_of_pos (by simp [h_name])]
      exact (ih h_names.2).cons entry

/-- Taking a name out leaves none twice. -/
theorem nodup_names_remove (h_names : (names entries).Nodup) (name : String) :
    (names (entries.remove name)).Nodup := by
  -- up to the order the name is filtered out
  rw [names, ((remove_perm h_names name).map Prod.fst).nodup_iff]
  exact h_names.sublist (List.filter_sublist.map Prod.fst)

/-- What moves the last entry and what leaves the others in order come to the same fields. -/
theorem lookup_remove_eq (h_names : (names entries).Nodup) (name own : String) :
    (entries.remove name).lookup own = (entries.without name).lookup own :=
  lookup_perm (nodup_names_remove h_names name) (remove_perm h_names name) own

/-- Removing moves the last entry into the gap, which no lookup sees. -/
theorem lookup_remove_of_ne (h_names : (names entries).Nodup) {own : String} (h_own : own ≠ name) :
    (entries.remove name).lookup own = entries.lookup own := by
  rw [lookup_remove_eq h_names, lookup_without_of_ne h_own]

theorem lookup_remove (h_names : (names entries).Nodup) :
    (entries.remove name).lookup name = none := by
  rw [lookup_remove_eq h_names, lookup_eq_none_iff]
  exact not_mem_names_without entries name

theorem remove_of_not_mem (h_absent : name ∉ names entries) : entries.remove name = entries := by
  induction entries with
  | nil => rfl
  | cons entry others ih =>
    rw [names, List.map_cons, List.mem_cons, not_or] at h_absent
    rw [remove, if_neg (Ne.symm h_absent.1), ih h_absent.2]

/-! ## Entries related name by name -/

section Related

variable {β : Type} {R : α → β → Prop} {entries' : Entries β}

/-- Whether two entries are of one name, for values that `R` relates. -/
def Related (R : α → β → Prop) (entry : String × α) (entry' : String × β) : Prop :=
  entry.1 = entry'.1 ∧ R entry.2 entry'.2

theorem names_related (h_entries : List.Forall₂ (Related R) entries entries') :
    names entries = names entries' := by
  induction h_entries with
  | nil => rfl
  | cons h_entry _ ih => exact congrArg₂ List.cons h_entry.1 ih

/-- Related entries are related name by name. -/
theorem lookup_related (h_entries : List.Forall₂ (Related R) entries entries') (name : String) :
    Option.Rel R (entries.lookup name) (entries'.lookup name) := by
  induction h_entries with
  | nil => exact .none
  | cons h_entry _ ih =>
    rw [lookup_cons, lookup_cons, h_entry.1]
    split
    · exact .some h_entry.2
    · exact ih

theorem put_related {value' : β} (h_entries : List.Forall₂ (Related R) entries entries')
    (h_values : R value value') :
    List.Forall₂ (Related R) (entries.put name value) (entries'.put name value') := by
  induction h_entries with
  | nil => exact .cons ⟨rfl, h_values⟩ .nil
  | cons h_entry h_others ih =>
    rw [put, put, h_entry.1]
    split
    · exact .cons ⟨rfl, h_values⟩ h_others
    · exact .cons h_entry ih

theorem putAll_related {pairs : List (String × α)} {pairs' : List (String × β)}
    (h_entries : List.Forall₂ (Related R) entries entries')
    (h_pairs : List.Forall₂ (Related R) pairs pairs') :
    List.Forall₂ (Related R) (entries.putAll pairs) (entries'.putAll pairs') := by
  induction h_pairs generalizing entries entries' with
  | nil => exact h_entries
  | @cons pair pair' pairs pairs' h_pair _ ih =>
    have h_put : List.Forall₂ (Related R) (entries.put pair.1 pair.2)
        (entries'.put pair.1 pair'.2) :=
      put_related h_entries h_pair.2
    rw [putAll_cons, putAll_cons, ← h_pair.1]
    exact ih h_put

end Related

end OpenApiTs.Entries
