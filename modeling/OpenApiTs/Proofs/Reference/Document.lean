/-
  OpenApiTs.Proofs.Reference.Document

  Documents in normal form. The normal form of a document need not be its own normal form: a text or
  a key that is rewritten may get a new path that would be rewritten in turn. It is its own normal
  form exactly when all its texts and keys are settled.
-/
import OpenApiTs.Proofs.Json.Nodes
import OpenApiTs.Proofs.Reference.Path

namespace OpenApiTs

/-! ## Texts of a value -/

namespace Json

mutual

/-- The texts in a value and the keys of its objects, at any depth. -/
def strings : Json → List String
  | text words => [words]
  | array items => stringsInItems items
  | object fields => stringsInFields fields
  | _ => []

/-- The texts and keys in items. -/
def stringsInItems : List Json → List String
  | [] => []
  | item :: items => strings item ++ stringsInItems items

/-- The keys of fields and the texts and keys in their values. -/
def stringsInFields : List (String × Json) → List String
  | [] => []
  | (key, value) :: fields => key :: (strings value ++ stringsInFields fields)

end

theorem mem_strings_array_iff {items : List Json} {text : String} :
    text ∈ strings (array items) ↔ ∃ item ∈ items, text ∈ strings item := by
  rw [strings]
  induction items with
  | nil => simp [stringsInItems]
  | cons item items ih => simp [stringsInItems, ih]

theorem mem_strings_object_iff {fields : List (String × Json)} {text : String} :
    text ∈ strings (object fields) ↔
      ∃ entry ∈ fields, text = entry.1 ∨ text ∈ strings entry.2 := by
  rw [strings]
  induction fields with
  | nil => simp [stringsInFields]
  | cons entry fields ih => simp [stringsInFields, ih, or_assoc]

end Json

namespace Reference

open OpenApiTs.Text

/-! ## Parts of a normal form -/

theorem normalizeItems_eq_map (items : List Json) : normalizeItems items = items.map normalize := by
  induction items with
  | nil => rfl
  | cons item items ih => rw [normalizeItems, ih, List.map_cons]

theorem normalizeFields_eq_map (fields : List (String × Json)) :
    normalizeFields fields =
      fields.map fun entry => (normalKey entry.1 (normalize entry.2), normalize entry.2) := by
  induction fields with
  | nil => rfl
  | cons entry fields ih => rw [normalizeFields, ih, List.map_cons]

theorem normalize_array (items : List Json) :
    normalize (.array items) = .array (items.map normalize) := by
  rw [normalize, normalizeItems_eq_map]

/-- The fields of an object in normal form. -/
def normalFields (fields : List (String × Json)) : List (String × Json) :=
  fields.map fun entry => (normalKey entry.1 (normalize entry.2), normalize entry.2)

/-- An object is normalized field by field, and equal keys are merged. -/
theorem normalize_object (fields : List (String × Json)) :
    normalize (.object fields) = .object (Entries.ofPairs (normalFields fields)) := by
  rw [normalize, normalizeFields_eq_map, normalFields]

/-- Where a field of a normal form comes from. -/
theorem exists_of_mem_ofPairs {fields : List (String × Json)} {entry : String × Json}
    (h_entry : entry ∈ Entries.ofPairs (normalFields fields)) :
    ∃ own ∈ fields, entry = (normalKey own.1 (normalize own.2), normalize own.2) := by
  obtain ⟨own, h_own, h_eq⟩ := List.mem_map.mp (Entries.mem_of_mem_ofPairs h_entry)
  exact ⟨own, h_own, h_eq.symm⟩

/-- A normalized document repeats no name in any object, since its fields are put one after the
    other. -/
theorem wellFormed_normalize (document : Json) : Json.WellFormed (normalize document) := by
  induction document using Json.byParts with
  | array items ih =>
    rw [normalize_array, Json.wellFormed_array_iff]
    intro item h_item
    obtain ⟨own, h_own, rfl⟩ := List.mem_map.mp h_item
    exact ih own h_own
  | object fields ih =>
    rw [normalize_object, Json.wellFormed_object_iff]
    refine ⟨Entries.nodup_names_ofPairs _, ?_⟩
    intro entry h_entry
    obtain ⟨own, h_own, rfl⟩ := exists_of_mem_ofPairs h_entry
    exact ih own h_own
  | _ => simp [normalize, Json.WellFormed]

/-! ## Keys -/

/-- A text without slashes is settled. -/
theorem isSettled_of_not_mem {text : String} (h_slash : '/' ∉ text.toList) :
    isSettled text = true := by
  rw [isSettled, isRaw_of_not_mem h_slash]
  rfl

/-- A dotted name holds a point and nothing but points and words. -/
theorem of_isDotted {text : String} (h_dotted : isDotted text = true) :
    '.' ∈ text.toList ∧ ∀ c ∈ text.toList, isAsciiWord c = true ∨ c = '.' := by
  rw [isDotted, Bool.and_eq_true, decide_eq_true_iff, beq_iff_eq] at h_dotted
  obtain ⟨-, h_point, h_run⟩ := of_dottedLength_pos h_dotted.1
  rw [h_dotted.2, List.take_length] at h_run
  rw [h_run]
  exact ⟨h_point, fun c => of_mem_takeDotted⟩

/-- The Pascal case of a dotted name has neither slashes nor points. -/
theorem not_mem_ofDotted_of_isDotted {text : String} (h_dotted : isDotted text = true) {c : Char}
    (h_c : Name.isWordOrBlank c = false) : c ∉ (Name.ofDotted text).toList := by
  rw [Name.ofDotted, String.toList_ofList]
  exact Name.not_mem_ofDotted (of_isDotted h_dotted).2 h_c

/-- A key in normal form is no dotted name over an object. -/
theorem not_isDotted_normalKey {value : Json} (key : String) (h_object : value.isObject = true) :
    isDotted (normalKey key value) = false := by
  rw [Bool.eq_false_iff]
  intro h_dotted
  rw [normalKey] at h_dotted
  simp only [h_object, Bool.true_and] at h_dotted
  split at h_dotted
  · next h_path =>
    exact not_mem_ofDotted_of_isDotted h_path (by decide) (of_isDotted h_dotted).1
  · next h_path => exact h_path h_dotted

/-- A key is its own normal form when it is settled, provided it is no dotted name over an object. -/
theorem normalKey_eq_self_iff {key : String} {value : Json}
    (h_folded : value.isObject = true → isDotted key = false) :
    normalKey key value = key ↔ isSettled key = true := by
  rw [normalKey]
  constructor
  · intro h_kept
    split at h_kept
    · next h_path =>
      rw [← h_kept]
      rw [Bool.and_eq_true] at h_path
      exact isSettled_of_not_mem (not_mem_ofDotted_of_isDotted h_path.2 (by decide))
    · exact normalPath_eq_self_iff.mp h_kept
  · intro h_settled
    have h_path : (value.isObject && isDotted key) = false := by
      cases h_object : value.isObject with
      | false => rfl
      | true => rw [h_folded h_object]; rfl
    simp only [normalPath_eq_self_iff.mpr h_settled, h_path, Bool.false_eq_true, if_false]

/-! ## Values that are their own normal form -/

/-- What every normal form satisfies: the keys of an object are all different, and none over an
    object is a dotted name. -/
def KeysFolded (value : Json) : Prop :=
  ∀ fields, .object fields ∈ value.nodes → (Entries.names fields).Nodup ∧
    ∀ entry ∈ fields, entry.2.isObject = true → isDotted entry.1 = false

/-- The keys of a normalized document are folded, and none is repeated. -/
theorem keysFolded_normalize (document : Json) : KeysFolded (normalize document) := by
  induction document using Json.byParts with
  | array items ih =>
    intro fields h_node
    rw [normalize_array] at h_node
    obtain ⟨item, h_item, h_inside⟩ := Json.mem_nodes_array_iff.mp h_node
    obtain ⟨own, h_own, rfl⟩ := List.mem_map.mp h_item
    exact ih own h_own fields h_inside
  | object own ih =>
    intro fields h_node
    rw [normalize_object] at h_node
    rcases Json.mem_nodes_object_iff.mp h_node with h_eq | ⟨entry, h_entry, h_inside⟩
    · cases h_eq
      refine ⟨Entries.nodup_names_ofPairs _, ?_⟩
      intro entry h_entry h_object
      obtain ⟨field, -, rfl⟩ := exists_of_mem_ofPairs h_entry
      exact not_isDotted_normalKey field.1 h_object
    · obtain ⟨field, h_field, rfl⟩ := exists_of_mem_ofPairs h_entry
      exact ih field h_field fields h_inside
  | _ =>
    intro fields h_node
    simp [normalize, Json.nodes] at h_node

theorem map_eq_self_iff {α : Type} {f : α → α} {items : List α} :
    items.map f = items ↔ ∀ item ∈ items, f item = item := by
  have h_map := List.map_inj_left (l := items) (f := f) (g := id)
  rwa [List.map_id] at h_map

/-- Fields stay as they are when each of them does, and merging puts none of them away. -/
theorem ofPairs_normalFields_eq_iff {fields : List (String × Json)}
    (h_names : (Entries.names fields).Nodup) :
    Entries.ofPairs (normalFields fields) = fields ↔
      ∀ entry ∈ fields, (normalKey entry.1 (normalize entry.2), normalize entry.2) = entry := by
  rw [← map_eq_self_iff, ← normalFields]
  constructor
  · intro h_kept
    have h_length : (Entries.ofPairs (normalFields fields)).length = (normalFields fields).length := by
      rw [h_kept, normalFields, List.length_map]
    rw [Entries.ofPairs_of_nodup (Entries.nodup_of_length_ofPairs h_length)] at h_kept
    exact h_kept
  · intro h_kept
    rw [h_kept, Entries.ofPairs_of_nodup h_names]

/-- A field with a folded key stays as it is when the key is settled and the value stays. -/
theorem normalField_eq_self_iff {key : String} {value : Json}
    (h_folded : value.isObject = true → isDotted key = false) :
    (normalKey key (normalize value), normalize value) = (key, value) ↔
      isSettled key = true ∧ normalize value = value := by
  rw [Prod.mk.injEq]
  constructor
  · rintro ⟨h_key, h_same⟩
    rw [h_same, normalKey_eq_self_iff h_folded] at h_key
    exact ⟨h_key, h_same⟩
  · rintro ⟨h_settled, h_same⟩
    rw [h_same]
    exact ⟨(normalKey_eq_self_iff h_folded).mpr h_settled, rfl⟩

/-- A value with folded keys is its own normal form when its texts and keys are settled. -/
theorem normalize_eq_self_iff {value : Json} (h_keys : KeysFolded value) :
    normalize value = value ↔ ∀ text ∈ value.strings, isSettled text = true := by
  induction value using Json.byParts with
  | text words => simp [normalize, Json.strings, normalPath_eq_self_iff]
  | array items ih =>
    have h_item (item : Json) (h_item : item ∈ items) :
        normalize item = item ↔ ∀ text ∈ item.strings, isSettled text = true := by
      apply ih item h_item
      exact fun fields h_node => h_keys fields (Json.nodes_subset_of_mem_items h_item h_node)
    rw [normalize_array, Json.array.injEq, map_eq_self_iff]
    constructor
    · intro h_kept text h_text
      obtain ⟨item, h_mem, h_text⟩ := Json.mem_strings_array_iff.mp h_text
      exact (h_item item h_mem).mp (h_kept item h_mem) text h_text
    · intro h_settled item h_mem
      apply (h_item item h_mem).mpr
      exact fun text h_text => h_settled text (Json.mem_strings_array_iff.mpr ⟨item, h_mem, h_text⟩)
  | object fields ih =>
    obtain ⟨h_names, h_folded⟩ := h_keys fields (Json.mem_nodes_object_iff.mpr (.inl rfl))
    have h_value (entry : String × Json) (h_entry : entry ∈ fields) :
        normalize entry.2 = entry.2 ↔ ∀ text ∈ entry.2.strings, isSettled text = true := by
      apply ih entry h_entry
      exact fun own h_node =>
        h_keys own (Json.mem_nodes_object_iff.mpr (.inr ⟨entry, h_entry, h_node⟩))
    -- different keys are not merged, so each field stays for itself
    rw [normalize_object, Json.object.injEq, ofPairs_normalFields_eq_iff h_names]
    constructor
    · intro h_kept text h_text
      obtain ⟨entry, h_entry, h_text⟩ := Json.mem_strings_object_iff.mp h_text
      obtain ⟨h_key, h_same⟩ :=
        (normalField_eq_self_iff (h_folded entry h_entry)).mp (h_kept entry h_entry)
      rcases h_text with rfl | h_text
      · exact h_key
      · exact (h_value entry h_entry).mp h_same text h_text
    · intro h_settled entry h_entry
      refine (normalField_eq_self_iff (h_folded entry h_entry)).mpr ⟨?_, ?_⟩
      · exact h_settled entry.1 (Json.mem_strings_object_iff.mpr ⟨entry, h_entry, .inl rfl⟩)
      · apply (h_value entry h_entry).mpr
        exact fun text h_text =>
          h_settled text (Json.mem_strings_object_iff.mpr ⟨entry, h_entry, .inr h_text⟩)
  | _ => simp [normalize, Json.strings]

/-! ## Normal forms of normal forms -/

/-- The texts and keys of a normal form are normal forms of those of the document, or settled. -/
theorem exists_of_mem_strings_normalize {document : Json} {text : String}
    (h_text : text ∈ (normalize document).strings) :
    isSettled text = true ∨ ∃ own ∈ document.strings, text = normalPath own := by
  induction document using Json.byParts with
  | text words =>
    rw [normalize, Json.strings, List.mem_singleton] at h_text
    exact .inr ⟨words, List.mem_singleton_self words, h_text⟩
  | array items ih =>
    rw [normalize_array] at h_text
    obtain ⟨item, h_item, h_text⟩ := Json.mem_strings_array_iff.mp h_text
    obtain ⟨own, h_own, rfl⟩ := List.mem_map.mp h_item
    refine (ih own h_own h_text).imp_right ?_
    rintro ⟨words, h_words, h_eq⟩
    exact ⟨words, Json.mem_strings_array_iff.mpr ⟨own, h_own, h_words⟩, h_eq⟩
  | object fields ih =>
    rw [normalize_object] at h_text
    obtain ⟨entry, h_entry, h_text⟩ := Json.mem_strings_object_iff.mp h_text
    obtain ⟨own, h_own, rfl⟩ := exists_of_mem_ofPairs h_entry
    rcases h_text with rfl | h_text
    · -- a folded key has no slash left; any other is the normal form of its text
      rw [normalKey]
      simp only
      split
      · next h_path =>
        rw [Bool.and_eq_true] at h_path
        exact .inl (isSettled_of_not_mem (not_mem_ofDotted_of_isDotted h_path.2 (by decide)))
      · exact .inr ⟨own.1, Json.mem_strings_object_iff.mpr ⟨own, h_own, .inl rfl⟩, rfl⟩
    · refine (ih own h_own h_text).imp_right ?_
      rintro ⟨words, h_words, h_eq⟩
      exact ⟨words, Json.mem_strings_object_iff.mpr ⟨own, h_own, .inr h_words⟩, h_eq⟩
  | _ => simp [normalize, Json.strings] at h_text

/-- A normal form is its own normal form exactly when its texts and keys are settled. The normal form
    of a text is settled exactly when the folding of its dotted names uncovers no path, so a document
    in whose texts and keys it uncovers none is in normal form after one pass. -/
theorem normalize_idempotent_iff (document : Json) :
    (normalize (normalize document) = normalize document ↔
      ∀ text ∈ (normalize document).strings, isSettled text = true) ∧
    (∀ text, normalPath (normalPath text) = normalPath text ↔
      uncovers (moveComponents text.toList) = false) ∧
    ((∀ text ∈ document.strings, uncovers (moveComponents text.toList) = false) →
      normalize (normalize document) = normalize document) := by
  have h_document := normalize_eq_self_iff (keysFolded_normalize document)
  have h_text (text : String) : normalPath (normalPath text) = normalPath text ↔
      uncovers (moveComponents text.toList) = false := by
    rw [normalPath_eq_self_iff, isSettled_normalPath, Bool.not_eq_true']
  refine ⟨h_document, h_text, ?_⟩
  intro h_covered
  rw [h_document]
  intro text h_mem
  rcases exists_of_mem_strings_normalize h_mem with h_settled | ⟨own, h_own, rfl⟩
  · exact h_settled
  · exact normalPath_eq_self_iff.mp ((h_text own).mpr (h_covered own h_own))

/-- A schema of a name, and one that refers to it. -/
def schemasWith (name : String) : Entries Json :=
  [(name, .object [("type", .text "object")]),
    ("Holder", .object [("properties", .object
      [("held", .object [("$ref", .text ("#/components/schemas/" ++ name))])])])]

/-- A document with a schema of a name and a reference to it. -/
def documentWith (name : String) : Json :=
  .object [("components", .object [("schemas", .object (schemasWith name))])]

theorem normalize_dotted_idempotent :
    (∀ text ∈ (documentWith "foo.bar").strings, uncovers (moveComponents text.toList) = false) ∧
      normalize (normalize (documentWith "foo.bar")) = normalize (documentWith "foo.bar") := by
  have h_covered : ∀ text ∈ (documentWith "foo.bar").strings,
      uncovers (moveComponents text.toList) = false := by
    decide +kernel
  exact ⟨h_covered, (normalize_idempotent_iff (documentWith "foo.bar")).2.2 h_covered⟩

/-- A reference in which a dotted name ends in `definitions`, with another dotted name behind it. -/
def joiningReference : Json :=
  .object [("$ref", .text "#/definitions/core.typedefinitions/user.name")]

theorem normalize_joiningReference_not_idempotent :
    normalize (normalize joiningReference) ≠ normalize joiningReference := by
  have h_texts : (normalize (normalize joiningReference)).textAt? "$ref" ≠
      (normalize joiningReference).textAt? "$ref" := by
    decide +kernel
  intro h_same
  rw [h_same] at h_texts
  exact h_texts rfl

end Reference

end OpenApiTs
