/-
  OpenApiTs.Proofs.Json.Reordered

  Values that are equal but for the order of fields, where the fields under `properties` stand in one
  order. What stands at one place of the two is related in the same way, so a comparison of the whole
  goes down to the parts.

  Two zeros are equal whatever their signs are, but they are not written alike. Where a number is
  written as a literal, under `const` and among the items of `enum`, the two values have the same one.
-/
import OpenApiTs.Proofs.Json.Pointer
import OpenApiTs.Proofs.Outcome
import OpenApiTs.TypeScript.Expr

namespace OpenApiTs.Json

theorem at?_field (fields : Entries Json) (name : String) :
    (object fields).at? [.field name] = fields.lookup name :=
  at?_concat_field (at?_nil _) name

/-- Whether a place is one whose value is written as a literal. -/
def HoldsLiteral (pointer : Pointer) : Prop :=
  ∃ front, pointer = front ++ [.field "const"] ∨
    ∃ place, pointer = front ++ [.field "enum", .item place]

/-- Whether two values are equal, list the fields under each `properties` in one order, and have the
    same numbers where these are literals. -/
structure Reordered (value other : Json) : Prop where
  wellFormed : value.WellFormed
  wellFormed' : other.WellFormed
  same : value.same other = true
  properties : ∀ pointer fields fields',
    value.at? (pointer ++ [.field "properties"]) = some (.object fields) →
      other.at? (pointer ++ [.field "properties"]) = some (.object fields') →
        Entries.names fields = Entries.names fields'
  literals : ∀ pointer number number', HoldsLiteral pointer →
    value.at? pointer = some (.number number) → other.at? pointer = some (.number number') →
      number = number'

namespace Reordered

variable {value other part : Json} {step : Step} {parts parts' : List Json}
  {fields fields' : Entries Json}

theorem refl (h_value : value.WellFormed) : Reordered value value where
  wellFormed := h_value
  wellFormed' := h_value
  same := same_refl h_value
  properties := by
    intro pointer fields fields' h_fields h_fields'
    cases h_fields.symm.trans h_fields'
    rfl
  literals := by
    intro pointer number number' _ h_number h_number'
    cases h_number.symm.trans h_number'
    rfl

theorem symm (h_values : Reordered value other) : Reordered other value where
  wellFormed := h_values.wellFormed'
  wellFormed' := h_values.wellFormed
  same := same_symm h_values.wellFormed h_values.wellFormed' h_values.same
  properties := fun pointer fields fields' h_fields h_fields' =>
    (h_values.properties pointer fields' fields h_fields' h_fields).symm
  literals := fun pointer number number' h_literal h_number h_number' =>
    (h_values.literals pointer number' number h_literal h_number' h_number).symm

/-- Reordered values are equal to the same values. -/
theorem same_eq {node node' : Json} (h_values : Reordered value other)
    (h_nodes : Reordered node node') : value.same node = other.same node' := by
  rw [Bool.eq_iff_iff]
  constructor
  · intro h_same
    exact same_trans (same_trans h_values.symm.same h_same) h_nodes.same
  · intro h_same
    exact same_trans (same_trans h_values.same h_same) h_nodes.symm.same

/-! ## Parts -/

/-- What is one step into the one value has a counterpart in the other. -/
theorem child (h_values : Reordered value other) (h_part : value.child? step = some part) :
    ∃ held, other.child? step = some held ∧ Reordered part held := by
  obtain ⟨held, h_held, h_same⟩ := exists_of_same_at? h_values.same
    (show value.at? [step] = some part by rw [at?_cons, h_part, Option.bind_some, at?_nil])
  have h_step : other.child? step = some held := by
    rw [at?_cons] at h_held
    obtain ⟨own, h_own, h_eq⟩ := Option.bind_eq_some_iff.mp h_held
    cases h_eq
    exact h_own
  -- a place in a part is a place in the whole, one step further
  have h_inside (pointer : Pointer) : value.at? (step :: pointer) = part.at? pointer := by
    rw [at?_cons, h_part, Option.bind_some]
  have h_inside' (pointer : Pointer) : other.at? (step :: pointer) = held.at? pointer := by
    rw [at?_cons, h_step, Option.bind_some]
  refine ⟨held, h_step, wellFormed_of_child? h_values.wellFormed h_part,
    wellFormed_of_child? h_values.wellFormed' h_step, h_same, ?_, ?_⟩
  · intro pointer fields fields' h_fields h_fields'
    refine h_values.properties (step :: pointer) fields fields' ?_ ?_
    · rw [List.cons_append, h_inside, h_fields]
    · rw [List.cons_append, h_inside', h_fields']
  · intro pointer number number' h_literal h_number h_number'
    refine h_values.literals (step :: pointer) number number' ?_ ?_ ?_
    · obtain ⟨front, rfl | ⟨place, rfl⟩⟩ := h_literal
      · exact ⟨step :: front, .inl rfl⟩
      · exact ⟨step :: front, .inr ⟨place, rfl⟩⟩
    · rw [h_inside, h_number]
    · rw [h_inside', h_number']

/-- A step leads into both values or into neither, and to values that are reordered again. -/
theorem child_rel (h_values : Reordered value other) (step : Step) :
    Option.Rel Reordered (value.child? step) (other.child? step) := by
  cases h_part : value.child? step with
  | some part =>
    obtain ⟨held, h_held, h_parts⟩ := h_values.child h_part
    rw [h_held]
    exact .some h_parts
  | none =>
    cases h_held : other.child? step with
    | none => exact .none
    | some held =>
      -- a step into the second value leads into the first, since the relation is symmetric
      obtain ⟨part, h_other, -⟩ := h_values.symm.child h_held
      cases h_part.symm.trans h_other

/-- The fields of one name are related, if there are any. -/
theorem lookup (h_values : Reordered (.object fields) (.object fields')) (name : String) :
    Option.Rel Reordered (fields.lookup name) (fields'.lookup name) :=
  h_values.child_rel (.field name)

theorem lookup_cases (h_values : Reordered (.object fields) (.object fields')) (name : String) :
    fields.lookup name = none ∧ fields'.lookup name = none ∨
      ∃ part held, fields.lookup name = some part ∧ fields'.lookup name = some held ∧
        Reordered part held :=
  Outcome.rel_cases (h_values.lookup name)

/-- The order of a list is kept, so its items are reordered one by one. -/
theorem items (h_values : Reordered (.array parts) (.array parts')) :
    List.Forall₂ Reordered parts parts' := by
  have h_length := (same_array_iff.mp h_values.same).length_eq
  refine List.forall₂_iff_get.mpr ⟨h_length, fun place h_place h_place' => ?_⟩
  -- an item is the child at its place
  have h_item := h_values.child_rel (.item place)
  simp only [child?, List.getElem?_eq_getElem h_place, List.getElem?_eq_getElem h_place'] at h_item
  cases h_item with
  | some h_parts => exact h_parts

end Reordered

/-! ## Kinds -/

/-- What two related values are, kind by kind. -/
inductive Paired : Json → Json → Prop where
  | null : Paired .null .null
  | bool (value : Bool) : Paired (.bool value) (.bool value)
  | number (value value' : Number.Value) : Paired (.number value) (.number value')
  | text (words : String) : Paired (.text words) (.text words)
  | array {items items' : List Json} (h_items : List.Forall₂ Reordered items items') :
      Paired (.array items) (.array items')
  | object {fields fields' : Entries Json}
      (h_fields : Reordered (.object fields) (.object fields')) :
      Paired (.object fields) (.object fields')

theorem Reordered.paired {value other : Json} (h_values : Reordered value other) :
    Paired value other := by
  have h_same := h_values.same
  -- equality decides the constructor of the other value; numbers may be written differently
  cases value with
  | null =>
    cases other with
    | null => exact .null
    | _ => simp [Json.same] at h_same
  | bool value =>
    cases other with
    | bool value' =>
      obtain rfl : value = value' := by simpa [Json.same] using h_same
      exact .bool value
    | _ => simp [Json.same] at h_same
  | number value =>
    cases other with
    | number value' => exact .number value value'
    | _ => simp [Json.same] at h_same
  | text words =>
    cases other with
    | text words' =>
      obtain rfl : words = words' := by simpa [Json.same] using h_same
      exact .text words
    | _ => simp [Json.same] at h_same
  | array items =>
    obtain ⟨items', rfl⟩ := exists_of_same_array h_same
    exact .array h_values.items
  | object fields =>
    obtain ⟨fields', rfl⟩ := exists_of_same_object h_same
    exact .object h_values

/-! ## Looking in -/

namespace Reordered

variable {value other : Json} {name : String} {fields fields' : Entries Json}

theorem text?_eq (h_values : Reordered value other) : value.text? = other.text? := by
  cases h_values.paired <;> rfl

theorem field?_rel (h_values : Reordered value other) (name : String) :
    Option.Rel Reordered (value.field? name) (other.field? name) := by
  rw [← child?_field, ← child?_field]
  exact h_values.child_rel (.field name)

/-- Texts are read alike from values that are reordered. -/
theorem textAt?_eq (h_values : Reordered value other) (name : String) :
    value.textAt? name = other.textAt? name := by
  rw [textAt?, textAt?]
  rcases Outcome.rel_cases (h_values.field?_rel name) with
    ⟨h_none, h_none'⟩ | ⟨held, held', h_held, h_held', h_parts⟩
  · rw [h_none, h_none']
  · rw [h_held, h_held']
    exact h_parts.text?_eq

theorem wordsAt?_eq (h_values : Reordered value other) (name : String) :
    value.wordsAt? name = other.wordsAt? name := by
  rw [wordsAt?, wordsAt?, h_values.textAt?_eq]

theorem texts_eq {items items' : List Json} (h_items : List.Forall₂ Reordered items items') :
    items.filterMap text? = items'.filterMap text? := by
  induction h_items with
  | nil => rfl
  | cons h_item _ ih => rw [List.filterMap_cons, List.filterMap_cons, h_item.text?_eq, ih]

theorem has_eq (h_fields : Reordered (.object fields) (.object fields')) (name : String) :
    Entries.has fields name = Entries.has fields' name := by
  rw [Entries.has, Entries.has]
  rcases h_fields.lookup_cases name with
    ⟨h_none, h_none'⟩ | ⟨held, held', h_held, h_held', -⟩
  · rw [h_none, h_none']
  · rw [h_held, h_held', Option.isSome_some, Option.isSome_some]

/-- Values that are written as literals are written alike. -/
theorem literal_eq (h_values : Reordered value other)
    (h_numbers : ∀ number number', value = .number number → other = .number number' →
      number = number') : TypeScript.literal value = TypeScript.literal other := by
  cases h_values.paired with
  | number value value' => rw [h_numbers value value' rfl rfl]
  | _ => rfl

/-- The fields under `properties` have related values under the same names in the same order. -/
theorem entries (h_fields : Reordered (.object fields) (.object fields'))
    {own own' : Entries Json} (h_own : fields.lookup "properties" = some (.object own))
    (h_own' : fields'.lookup "properties" = some (.object own')) :
    List.Forall₂ (Entries.Related Reordered) own own' := by
  have h_names : Entries.names own = Entries.names own' :=
    h_fields.properties [] own own' ((at?_field fields "properties").trans h_own)
      ((at?_field fields' "properties").trans h_own')
  have h_held : Reordered (.object own) (.object own') := by
    have h_rel := h_fields.lookup "properties"
    rwa [h_own, h_own', Option.rel_some_some] at h_rel
  have h_nodup := (wellFormed_object_iff.mp h_held.wellFormed).1
  have h_nodup' := (wellFormed_object_iff.mp h_held.wellFormed').1
  have h_length : own.length = own'.length := by
    simpa [Entries.names] using congrArg List.length h_names
  refine List.forall₂_iff_get.mpr ⟨h_length, fun place h_place h_place' => ?_⟩
  have h_name : (own.get ⟨place, h_place⟩).1 = (own'.get ⟨place, h_place'⟩).1 := by
    have h_at := congrArg (fun names => names[place]?) h_names
    simpa [Entries.names, h_place, h_place'] using h_at
  -- the entries of one place are those of one name
  have h_rel := h_held.lookup (own.get ⟨place, h_place⟩).1
  rw [Entries.lookup_of_mem h_nodup (List.get_mem own ⟨place, h_place⟩), h_name,
    Entries.lookup_of_mem h_nodup' (List.get_mem own' ⟨place, h_place'⟩)] at h_rel
  cases h_rel with
  | some h_parts => exact ⟨h_name, h_parts⟩

/-! ## Literals -/

/-- A constant gives one literal in both, which the condition on numbers is for. -/
theorem const_eq (h_fields : Reordered (.object fields) (.object fields')) :
    (fields.lookup "const").map TypeScript.literal =
      (fields'.lookup "const").map TypeScript.literal := by
  rcases h_fields.lookup_cases "const" with
    ⟨h_none, h_none'⟩ | ⟨value, value', h_const, h_const', h_values⟩
  · rw [h_none, h_none']
  · rw [h_const, h_const', Option.map_some, Option.map_some, h_values.literal_eq]
    rintro number number' rfl rfl
    exact h_fields.literals [.field "const"] number number' ⟨[], .inl rfl⟩
      ((at?_field fields "const").trans h_const) ((at?_field fields' "const").trans h_const')

/-- So do the members of an enumeration, in their order. -/
theorem enum_eq (h_fields : Reordered (.object fields) (.object fields')) :
    ((fields.lookup "enum").bind items?).map (List.map TypeScript.literal) =
      ((fields'.lookup "enum").bind items?).map (List.map TypeScript.literal) := by
  rcases h_fields.lookup_cases "enum" with
    ⟨h_none, h_none'⟩ | ⟨value, value', h_enum, h_enum', h_values⟩
  · rw [h_none, h_none']
  · rw [h_enum, h_enum', Option.bind_some, Option.bind_some]
    cases h_values.paired with
    | @array items items' h_items =>
      refine congrArg some (List.ext_getElem? fun place => ?_)
      rw [List.getElem?_map, List.getElem?_map]
      -- where a number stands in an item, the literals are to be the same
      have h_number (items : List Json) (fields : Entries Json)
          (h_items : fields.lookup "enum" = some (.array items)) :
          (object fields).at? [.field "enum", .item place] = items[place]? := by
        simp [at?_cons, child?, h_items]
      have h_place := h_fields.literals [.field "enum", .item place]
      rw [h_number items fields h_enum, h_number items' fields' h_enum'] at h_place
      rcases Outcome.rel_cases (h_values.child_rel (.item place)) with
        ⟨h_none, h_none'⟩ | ⟨own, own', h_own, h_own', h_parts⟩
      · rw [show items[place]? = none from h_none, show items'[place]? = none from h_none']
      · change items[place]? = some own at h_own
        change items'[place]? = some own' at h_own'
        rw [h_own, h_own'] at h_place
        rw [h_own, h_own', Option.map_some, Option.map_some, h_parts.literal_eq]
        rintro number number' rfl rfl
        exact h_place number number' ⟨[], .inr ⟨place, rfl⟩⟩ rfl rfl
    | _ => rfl

/-! ## Objects -/

/-- Objects are reordered when the values of one name are, and what stands at the top of them keeps
    to the order of properties and to the numbers of literals. -/
theorem of_fields (h_fields : WellFormed (.object fields)) (h_fields' : WellFormed (.object fields'))
    (h_held : ∀ name, Option.Rel Reordered (fields.lookup name) (fields'.lookup name))
    (h_properties : ∀ own own', fields.lookup "properties" = some (.object own) →
      fields'.lookup "properties" = some (.object own') → Entries.names own = Entries.names own')
    (h_literals : ∀ pointer number number',
      pointer = [.field "const"] ∨ (∃ place, pointer = [.field "enum", .item place]) →
        (object fields).at? pointer = some (.number number) →
          (object fields').at? pointer = some (.number number') → number = number') :
    Reordered (.object fields) (.object fields') := by
  have h_nodup := (wellFormed_object_iff.mp h_fields).1
  have h_nodup' := (wellFormed_object_iff.mp h_fields').1
  -- what is further in stands in values of one name
  have h_inside {name : String} {rest : Pointer} {part held : Json}
      (h_part : (object fields).at? (.field name :: rest) = some part)
      (h_other : (object fields').at? (.field name :: rest) = some held) :
      ∃ own own', Reordered own own' ∧ own.at? rest = some part ∧ own'.at? rest = some held := by
    obtain ⟨own, h_own, h_part⟩ := Option.bind_eq_some_iff.mp h_part
    obtain ⟨own', h_own', h_other⟩ := Option.bind_eq_some_iff.mp h_other
    have h_both := h_held name
    change fields.lookup name = some own at h_own
    change fields'.lookup name = some own' at h_own'
    rw [h_own, h_own'] at h_both
    cases h_both with
    | some h_values => exact ⟨own, own', h_values, h_part, h_other⟩
  -- the parts of equality first, then the two conditions: at the top, and further in
  refine ⟨h_fields, h_fields', same_object_iff.mpr ⟨?_, ?_⟩, ?_, ?_⟩
  · have h_names : (Entries.names fields).Perm (Entries.names fields') := by
      refine (List.perm_ext_iff_of_nodup h_nodup h_nodup').mpr fun name => ?_
      have h_both := h_held name
      rw [← Entries.has_iff_mem_names, ← Entries.has_iff_mem_names, Entries.has, Entries.has]
      generalize fields.lookup name = own at h_both
      generalize fields'.lookup name = own' at h_both
      cases h_both <;> rfl
    simpa [Entries.names] using h_names.length_eq
  · intro entry h_entry
    have h_both := h_held entry.1
    rw [Entries.lookup_of_mem h_nodup h_entry] at h_both
    generalize fields'.lookup entry.1 = own' at h_both
    cases h_both with
    | some h_values => exact ⟨_, rfl, h_values.same⟩
  · intro pointer own own' h_own h_own'
    cases pointer with
    | nil =>
      exact h_properties own own' ((at?_field fields "properties").symm.trans h_own)
        ((at?_field fields' "properties").symm.trans h_own')
    | cons step rest =>
      cases step with
      | item place => cases h_own
      | field name =>
        obtain ⟨part, held, h_values, h_part, h_other⟩ := h_inside h_own h_own'
        exact h_values.properties rest own own' h_part h_other
  · intro pointer number number' h_place h_number h_number'
    obtain ⟨front, h_pointer⟩ := h_place
    cases front with
    | nil => exact h_literals pointer number number' (h_pointer.imp_right id) h_number h_number'
    | cons step front =>
      cases step with
      | item place => rcases h_pointer with rfl | ⟨place, rfl⟩ <;> cases h_number
      | field name =>
        rcases h_pointer with rfl | ⟨place, rfl⟩
        · obtain ⟨part, held, h_values, h_part, h_other⟩ := h_inside h_number h_number'
          exact h_values.literals _ number number' ⟨front, .inl rfl⟩ h_part h_other
        · obtain ⟨part, held, h_values, h_part, h_other⟩ := h_inside h_number h_number'
          exact h_values.literals _ number number' ⟨front, .inr ⟨place, rfl⟩⟩ h_part h_other

/-- Objects in which the same values stand under the same names are reordered. -/
theorem of_lookup (h_fields : WellFormed (.object fields)) (h_fields' : WellFormed (.object fields'))
    (h_lookup : ∀ name, fields.lookup name = fields'.lookup name) :
    Reordered (.object fields) (.object fields') := by
  -- below a name both objects lead to the same value, so numbers there are the same
  have h_at {name : String} {rest : Pointer} :
      (object fields).at? (.field name :: rest) = (object fields').at? (.field name :: rest) := by
    rw [at?_cons, at?_cons, child?, child?, h_lookup]
  refine .of_fields h_fields h_fields' ?_ ?_ ?_
  · intro name
    rw [← h_lookup]
    cases h_found : fields.lookup name with
    | none => exact .none
    | some value =>
      have h_value := (wellFormed_object_iff.mp h_fields).2 _ (Entries.mem_of_lookup h_found)
      exact .some (.refl h_value)
  · intro own own' h_own h_own'
    rw [h_lookup, h_own'] at h_own
    cases h_own
    rfl
  · rintro pointer number number' (rfl | ⟨place, rfl⟩) h_number h_number'
    all_goals
      rw [h_at, h_number'] at h_number
      cases h_number
      rfl

theorem wellFormed_of_perm (h_fields : WellFormed (.object fields)) (h_perm : fields.Perm fields') :
    WellFormed (.object fields') := by
  rw [wellFormed_object_iff] at h_fields ⊢
  exact ⟨(h_perm.map Prod.fst).nodup_iff.mp h_fields.1,
    fun entry h_entry => h_fields.2 entry (h_perm.mem_iff.mpr h_entry)⟩

theorem of_perm (h_fields : WellFormed (.object fields)) (h_perm : fields.Perm fields') :
    Reordered (.object fields) (.object fields') :=
  .of_lookup h_fields (wellFormed_of_perm h_fields h_perm)
    (Entries.lookup_perm (wellFormed_object_iff.mp h_fields).1 h_perm)

end Reordered

/-- Whether two values are one, or objects with the same values under the same names: nothing but the
    order of the outermost fields differs. -/
inductive SameFields : Json → Json → Prop where
  | refl {value : Json} (h_value : value.WellFormed) : SameFields value value
  | object {fields fields' : Entries Json} (h_fields : WellFormed (.object fields))
      (h_fields' : WellFormed (.object fields'))
      (h_lookup : ∀ name, fields.lookup name = fields'.lookup name) :
      SameFields (.object fields) (.object fields')

theorem SameFields.symm {value other : Json} (h_values : SameFields value other) :
    SameFields other value := by
  cases h_values with
  | refl h_value => exact .refl h_value
  | object h_fields h_fields' h_lookup =>
    exact .object h_fields' h_fields fun name => (h_lookup name).symm

theorem SameFields.reordered {value other : Json} (h_values : SameFields value other) :
    Reordered value other := by
  cases h_values with
  | refl h_value => exact .refl h_value
  | object h_fields h_fields' h_lookup => exact .of_lookup h_fields h_fields' h_lookup

theorem wellFormed_without {fields : Entries Json} (h_fields : WellFormed (.object fields))
    (name : String) : WellFormed (.object (fields.without name)) := by
  rw [wellFormed_object_iff] at h_fields ⊢
  refine ⟨h_fields.1.sublist (List.filter_sublist.map Prod.fst), ?_⟩
  intro entry h_entry
  exact h_fields.2 entry (List.mem_filter.mp h_entry).1

/-- A field is removed with or without a change in the order of the others. -/
theorem sameFields_remove {fields : Entries Json} (h_fields : WellFormed (.object fields))
    (name : String) : SameFields (.object (fields.remove name)) (.object (fields.without name)) :=
  .object (wellFormed_remove h_fields name) (wellFormed_without h_fields name)
    (Entries.lookup_remove_eq (wellFormed_object_iff.mp h_fields).1 name)

end OpenApiTs.Json
