/-
  OpenApiTs.Proofs.Json.Pointer

  Places in a value. A pointer goes from a value to a part of it, by the names of fields and the
  numbers of items, so that one value can be compared with another place by place.
-/
import OpenApiTs.Proofs.Json.Nodes

namespace OpenApiTs.Json

/-- One step into a value. -/
inductive Step where
  | field (name : String)
  | item (place : Nat)
deriving DecidableEq, Repr

/-- The steps from a value to a part of it. -/
abbrev Pointer := List Step

/-- The part that is one step into a value. -/
def child? : Json → Step → Option Json
  | object fields, .field name => fields.lookup name
  | array items, .item place => items[place]?
  | _, _ => none

/-- The part that a pointer leads to. -/
def at? (value : Json) : Pointer → Option Json
  | [] => some value
  | step :: rest => (value.child? step).bind fun part => part.at? rest

/-- A value without its parts: its kind, the names of its fields in order, the number of its items,
    and a scalar as it is. -/
def shell : Json → Json
  | array items => array (items.map fun _ => null)
  | object fields => object (fields.map fun entry => (entry.1, null))
  | scalar => scalar

/-- The parts that are one step into a value, in order. -/
def children : Json → List (Step × Json)
  | object fields => fields.map fun entry => (.field entry.1, entry.2)
  | array items => items.zipIdx.map fun part => (.item part.2, part.1)
  | _ => []

variable {value other part held : Json} {step : Step} {pointer : Pointer} {words : String}

/-! ## Going along a pointer -/

@[simp] theorem at?_nil (value : Json) : value.at? [] = some value := rfl

theorem at?_cons (value : Json) (step : Step) (rest : Pointer) :
    value.at? (step :: rest) = (value.child? step).bind fun part => part.at? rest := rfl

/-- An address is followed in two stretches. -/
theorem at?_append (value : Json) (front back : Pointer) :
    value.at? (front ++ back) = (value.at? front).bind fun part => part.at? back := by
  induction front generalizing value with
  | nil => rfl
  | cons step front ih =>
    rw [List.cons_append, at?_cons, at?_cons]
    cases value.child? step with
    | none => rfl
    | some part => exact ih part

theorem child?_field (value : Json) (name : String) :
    value.child? (.field name) = value.field? name := by
  cases value <;> rfl

/-- What stands in a field of the object at a pointer. -/
theorem at?_concat_field {fields : Entries Json} (h_part : value.at? pointer = some (object fields))
    (name : String) : value.at? (pointer ++ [.field name]) = fields.lookup name := by
  simp [at?_append, h_part, at?_cons, child?]

/-- A text has no parts. -/
theorem eq_nil_of_at?_text (h_part : at? (text words) pointer = some part) : pointer = [] := by
  cases pointer with
  | nil => rfl
  | cons step rest => cases h_part

/-! ## Parts one step away -/

theorem wellFormed_of_child? (h_value : WellFormed value) (h_part : value.child? step = some part) :
    WellFormed part := by
  cases value with
  | object fields =>
    cases step with
    | field name => exact wellFormed_of_field? h_value h_part
    | item place => cases h_part
  | array items =>
    cases step with
    | field name => cases h_part
    | item place => exact wellFormed_array_iff.mp h_value part (List.mem_of_getElem? h_part)
  | _ => cases h_part

/-- Every part of a well-formed value is well-formed. -/
theorem wellFormed_of_at? (h_value : WellFormed value) (h_part : value.at? pointer = some part) :
    WellFormed part := by
  induction pointer generalizing value with
  | nil =>
    cases h_part
    exact h_value
  | cons step rest ih =>
    obtain ⟨child, h_child, h_rest⟩ := Option.bind_eq_some_iff.mp h_part
    exact ih (wellFormed_of_child? h_value h_child) h_rest

/-- The children that are listed are the ones that a step leads to. -/
theorem mem_children_iff (h_value : WellFormed value) :
    (step, part) ∈ children value ↔ value.child? step = some part := by
  cases value with
  | object fields =>
    have h_names := (wellFormed_object_iff.mp h_value).1
    rw [children, List.mem_map]
    constructor
    · rintro ⟨entry, h_entry, h_eq⟩
      cases h_eq
      exact Entries.lookup_of_mem h_names h_entry
    · intro h_part
      -- a field is stepped to by its name and an item by its place, never the other way
      cases step with
      | field name => exact ⟨(name, part), Entries.mem_of_lookup h_part, rfl⟩
      | item place => cases h_part
  | array items =>
    rw [children, List.mem_map]
    constructor
    · rintro ⟨own, h_own, h_eq⟩
      cases h_eq
      exact List.mem_zipIdx_iff_getElem?.mp h_own
    · intro h_part
      cases step with
      | field name => cases h_part
      | item place => exact ⟨(part, place), List.mem_zipIdx_iff_getElem?.mpr h_part, rfl⟩
  | _ => simp [children, child?]

/-- No two parts of a well-formed value are the same step away. -/
theorem nodup_steps_children (h_value : WellFormed value) :
    ((children value).map Prod.fst).Nodup := by
  cases value with
  | object fields =>
    have h_names := (wellFormed_object_iff.mp h_value).1
    have h_steps : (children (object fields)).map Prod.fst =
        (Entries.names fields).map Step.field := by
      rw [children, Entries.names, List.map_map, List.map_map]
      rfl
    -- the names of an object are different, as are the places in a list
    rw [h_steps]
    exact h_names.map fun first second h_eq => Step.field.inj h_eq
  | array items =>
    have h_steps : (children (array items)).map Prod.fst =
        (List.range' 0 items.length).map Step.item := by
      rw [children, List.map_map, ← List.zipIdx_map_snd, List.map_map]
      rfl
    rw [h_steps]
    exact (List.nodup_range' _).map fun first second h_eq => Step.item.inj h_eq
  | _ => simp [children]

/-! ## Places in parts -/

/-- Places in the parts of a value, by the places inside each part. -/
def within (inside : Step → Json → List Pointer) (value : Json) : List Pointer :=
  value.children.flatMap fun part => (inside part.1 part.2).map (part.1 :: ·)

variable {inside : Step → Json → List Pointer}

theorem mem_within_iff (h_value : WellFormed value) :
    pointer ∈ within inside value ↔
      ∃ step rest part, pointer = step :: rest ∧ value.child? step = some part ∧
        rest ∈ inside step part := by
  simp only [within, List.mem_flatMap, List.mem_map, Prod.exists, mem_children_iff h_value]
  constructor
  · rintro ⟨step, part, h_part, rest, h_rest, rfl⟩
    exact ⟨step, rest, part, rfl, h_part, h_rest⟩
  · rintro ⟨step, rest, part, rfl, h_part, h_rest⟩
    exact ⟨step, part, h_part, rest, h_rest, rfl⟩

theorem cons_mem_within (h_value : WellFormed value) (h_part : value.child? step = some part)
    (h_pointer : pointer ∈ inside step part) : step :: pointer ∈ within inside value :=
  (mem_within_iff h_value).mpr ⟨step, pointer, part, rfl, h_part, h_pointer⟩

/-- Places in different parts differ in their first step. -/
theorem nodup_within (h_value : WellFormed value)
    (h_inside : ∀ step part, value.child? step = some part → (inside step part).Nodup) :
    (within inside value).Nodup := by
  rw [within, List.nodup_flatMap]
  constructor
  · rintro ⟨step, part⟩ h_part
    exact (h_inside step part ((mem_children_iff h_value).mp h_part)).map (List.cons_injective)
  · refine (List.pairwise_map.mp (nodup_steps_children h_value)).imp ?_
    intro first second h_steps pointer h_first h_second
    obtain ⟨rest, -, rfl⟩ := List.mem_map.mp h_first
    obtain ⟨other, -, h_eq⟩ := List.mem_map.mp h_second
    exact h_steps (List.cons.inj h_eq).1.symm

/-! ## Shells -/

/-- A text is its own shell, and no other value has it. -/
theorem shell_eq_text_iff : value.shell = text words ↔ value = text words := by
  cases value <;> simp [shell]

theorem map_shell_eq_text_iff {held : Option Json} :
    held.map shell = some (text words) ↔ held = some (text words) := by
  simp only [Option.map_eq_some_iff, shell_eq_text_iff, exists_eq_right]

/-! ## Equal values -/

/-- Equal values are equal at every pointer. -/
theorem exists_of_same_at? (h_same : value.same other = true) (h_part : value.at? pointer = some part) :
    ∃ held, other.at? pointer = some held ∧ part.same held = true := by
  induction pointer generalizing value other with
  | nil =>
    cases h_part
    exact ⟨other, rfl, h_same⟩
  | cons step rest ih =>
    rw [at?_cons, Option.bind_eq_some_iff] at h_part
    obtain ⟨child, h_child, h_part⟩ := h_part
    -- the parts one step away are equal, whichever kind the values are of
    have h_next : ∃ next, other.child? step = some next ∧ child.same next = true := by
      cases value with
      | object fields =>
        obtain ⟨others, rfl⟩ := exists_of_same_object h_same
        cases step with
        | field name => exact (same_object_iff.mp h_same).2 _ (Entries.mem_of_lookup h_child)
        | item place => cases h_child
      | array items =>
        obtain ⟨others, rfl⟩ := exists_of_same_array h_same
        cases step with
        | field name => cases h_child
        | item place =>
          obtain ⟨h_length, h_items⟩ := List.forall₂_iff_get.mp (same_array_iff.mp h_same)
          obtain ⟨h_within, rfl⟩ := List.getElem?_eq_some_iff.mp h_child
          exact ⟨_, List.getElem?_eq_getElem (h_length ▸ h_within), h_items place h_within _⟩
      | _ => cases h_child
    obtain ⟨next, h_next, h_equal⟩ := h_next
    obtain ⟨held, h_held, h_result⟩ := ih h_equal h_part
    exact ⟨held, by rw [at?_cons, h_next, Option.bind_some, h_held], h_result⟩

end OpenApiTs.Json
