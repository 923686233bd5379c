/-
  OpenApiTs.Proofs.Reference.Linked

  What the normal form of a document does to a shared schema and to the references to it. The key is
  put in Pascal case when all of the name is dotted, a reference when the name opens with a
  dotted name: a name such as `a.b-c` is kept as a key and changed in references.
-/
import OpenApiTs.Proofs.Definitions.Gather
import OpenApiTs.Proofs.Reference.Document

namespace OpenApiTs.Reference

open OpenApiTs.Text

variable {document schema value : Json} {schemas fields : List (String × Json)}
  {name key : String} {text : List Char}

/-! ## Keys that only they themselves become -/

theorem replaceAll_eq_self_or_put (needles : List (List Char)) (put text : List Char) :
    Chars.replaceAll needles put text = text ∨ put <:+: Chars.replaceAll needles put text := by
  fun_induction Chars.replaceAll needles put text with
  | case1 => exact .inl rfl
  | case2 c text needle h_found _ => exact .inr (List.prefix_append put _).isInfix
  | case3 c text h_none ih =>
    rcases ih with h_same | h_inside
    · exact .inl (by rw [h_same])
    · exact .inr (List.infix_cons h_inside)

/-- Folding leaves a text as it is, or the namespace is in the result. -/
theorem foldDotted_eq_self_or_namespace (text : List Char) :
    foldDotted text = text ∨ namespaceName <:+: foldDotted text := by
  induction text using folding_induction with
  | nil => exact .inl (by rw [foldDotted])
  | path rest h_name _ =>
    rw [foldDotted_path h_name, namespacePath_eq, List.append_assoc]
    exact .inr (List.prefix_append namespaceName _).isInfix
  | other c text h_none ih =>
    rw [foldDotted_other h_none]
    rcases ih with h_same | h_inside
    · exact .inl (by rw [h_same])
    · exact .inr (List.infix_cons h_inside)

/-- What a key has to be so that no other key has it as normal form. -/
structure IsPlainKey (key : String) : Prop where
  no_slash : '/' ∉ key.toList
  no_point : '.' ∉ key.toList
  no_namespace : ¬ namespaceName <:+: key.toList
  no_pascal : ∃ c ∈ key.toList.head?, c.isLower = true ∨ Name.isWordOrBlank c = false

theorem normalPath_eq_of_no_namespace {own : String}
    (h_namespace : ¬ namespaceName <:+: (normalPath own).toList) : normalPath own = own := by
  rw [normalPath, String.toList_ofList] at h_namespace
  have h_fold : foldDotted (moveComponents own.toList) = moveComponents own.toList :=
    (foldDotted_eq_self_or_namespace _).resolve_right h_namespace
  rw [h_fold] at h_namespace
  have h_move : moveComponents own.toList = own.toList :=
    (replaceAll_eq_self_or_put componentPaths namespaceName own.toList).resolve_right h_namespace
  rw [normalPath, h_fold, h_move, String.ofList_toList]

theorem not_isDotted_of_not_mem (h_point : '.' ∉ key.toList) : isDotted key = false := by
  rw [Bool.eq_false_iff]
  exact fun h_dotted => h_point (of_isDotted h_dotted).1

namespace IsPlainKey

theorem normalKey_eq_iff (h_plain : IsPlainKey key) {own : String} :
    normalKey own value = key ↔ own = key := by
  constructor
  · intro h_key
    rw [normalKey] at h_key
    split at h_key
    · next h_path =>
      -- the Pascal case of a dotted name begins otherwise
      rw [Bool.and_eq_true] at h_path
      obtain ⟨c, h_head, h_c⟩ := h_plain.no_pascal
      have h_shape := Name.ofDotted_shape (of_isDotted h_path.2).2
      rw [← h_key, Name.ofDotted, String.toList_ofList] at h_head
      rcases h_c with h_lower | h_out
      · rw [h_shape.2 c h_head] at h_lower
        cases h_lower
      · rw [h_shape.1 c (List.mem_of_mem_head? h_head)] at h_out
        cases h_out
    · rw [← h_key]
      have h_namespace := h_plain.no_namespace
      rw [← h_key] at h_namespace
      exact (normalPath_eq_of_no_namespace h_namespace).symm
  · rintro rfl
    apply (normalKey_eq_self_iff _).mpr (isSettled_of_not_mem h_plain.no_slash)
    exact fun _ => not_isDotted_of_not_mem h_plain.no_point

end IsPlainKey

theorem isPlainKey_components : IsPlainKey "components" :=
  ⟨by decide, by decide, by decide, 'c', rfl, .inl (by decide)⟩

theorem isPlainKey_schemas : IsPlainKey "schemas" :=
  ⟨by decide, by decide, by decide, 's', rfl, .inl (by decide)⟩

theorem isPlainKey_ref : IsPlainKey "$ref" :=
  ⟨by decide, by decide, by decide, '$', rfl, .inr (by decide)⟩

/-! ## Fields of a normal form -/

/-- A field whose key in normal form no other field shares is found under it. -/
theorem lookup_normalFields (h_names : (Entries.names fields).Nodup)
    (h_found : fields.lookup name = some value)
    (h_unshared : ∀ entry ∈ fields,
      normalKey entry.1 (normalize entry.2) = normalKey name (normalize value) → entry.1 = name) :
    (Entries.ofPairs (normalFields fields)).lookup (normalKey name (normalize value)) =
      some (normalize value) := by
  have h_mem := Entries.mem_of_lookup h_found
  apply Entries.lookup_putAll_of_unique []
  · exact List.mem_map.mpr ⟨(name, value), h_mem, rfl⟩
  · intro own h_own
    obtain ⟨entry, h_entry, h_eq⟩ := List.mem_map.mp h_own
    rw [Prod.mk.injEq] at h_eq
    have h_name := h_unshared entry h_entry h_eq.1
    have h_same : entry = (name, value) :=
      List.inj_on_of_nodup_map h_names h_entry h_mem h_name
    rw [← h_eq.2, h_same]

/-- A plain key holds the normal form of what it held. -/
theorem field?_normalize (h_value : value.WellFormed) (h_plain : IsPlainKey key) :
    (normalize value).field? key = (value.field? key).map normalize := by
  cases value with
  | object fields =>
    have h_names := (Json.wellFormed_object_iff.mp h_value).1
    rw [normalize_object]
    change (Entries.ofPairs (normalFields fields)).lookup key = (fields.lookup key).map normalize
    cases h_found : fields.lookup key with
    | some held =>
      have h_key : normalKey key (normalize held) = key := h_plain.normalKey_eq_iff.mpr rfl
      have h_lookup := lookup_normalFields h_names h_found
        (fun entry _ h_same => h_plain.normalKey_eq_iff.mp (h_same.trans h_key))
      rw [h_key] at h_lookup
      exact h_lookup
    | none =>
      rw [Option.map_none, Entries.lookup_eq_none_iff]
      intro h_mem
      obtain ⟨entry, h_entry, h_name⟩ := List.mem_map.mp h_mem
      obtain ⟨own, h_own, rfl⟩ := exists_of_mem_ofPairs h_entry
      rw [← h_plain.normalKey_eq_iff.mp h_name, Entries.lookup_eq_none_iff] at h_found
      exact h_found (Entries.mem_names_of_mem h_own)
  | _ => rfl

/-- A text under a plain key is normalized where it stands. -/
theorem textAt?_normalize (h_value : value.WellFormed) (h_plain : IsPlainKey key) {path : String}
    (h_text : value.textAt? key = some path) :
    (normalize value).textAt? key = some (normalPath path) := by
  rw [Json.textAt?, Option.bind_eq_some_iff] at h_text
  obtain ⟨held, h_held, h_path⟩ := h_text
  rw [Json.textAt?, field?_normalize h_value h_plain, h_held]
  cases held with
  | text words =>
    cases h_path
    rfl
  | _ => cases h_path

/-- The shared schemas of a document. -/
def sharedSchemas? (document : Json) : Option (Entries Json) :=
  (document.field? "components").bind fun all => all.fieldsAt? "schemas"

/-- The shared schemas are found in the normalized document, with their keys folded. -/
theorem sharedSchemas?_normalize (h_document : document.WellFormed)
    (h_schemas : sharedSchemas? document = some schemas) :
    Json.WellFormed (.object schemas) ∧
      sharedSchemas? (normalize document) = some (Entries.ofPairs (normalFields schemas)) := by
  obtain ⟨all, h_all, h_fields⟩ := Option.bind_eq_some_iff.mp h_schemas
  obtain ⟨held, h_held, h_object⟩ := Option.bind_eq_some_iff.mp h_fields
  have h_inside : all.WellFormed := Json.wellFormed_of_field? h_document h_all
  -- both steps lead through plain keys, which are not changed
  cases held with
  | object own =>
    cases h_object
    refine ⟨Json.wellFormed_of_field? h_inside h_held, ?_⟩
    rw [sharedSchemas?, field?_normalize h_document isPlainKey_components, h_all,
      Option.map_some, Option.bind_some, Json.fieldsAt?,
      field?_normalize h_inside isPlainKey_schemas, h_held, Option.map_some, Option.bind_some,
      normalize_object]
    rfl
  | _ => cases h_object

/-- Every node of a normal form is the normal form of a node. -/
theorem exists_of_mem_nodes_normalize {node : Json} (h_node : node ∈ (normalize document).nodes) :
    ∃ own ∈ document.nodes, node = normalize own := by
  induction document using Json.byParts with
  | array items ih =>
    rw [normalize_array] at h_node
    obtain ⟨item, h_item, h_inside⟩ := Json.mem_nodes_array_iff.mp h_node
    obtain ⟨own, h_own, rfl⟩ := List.mem_map.mp h_item
    obtain ⟨inner, h_inner, h_eq⟩ := ih own h_own h_inside
    exact ⟨inner, Json.mem_nodes_array_iff.mpr ⟨own, h_own, h_inner⟩, h_eq⟩
  | object fields ih =>
    rw [normalize_object] at h_node
    rcases Json.mem_nodes_object_iff.mp h_node with rfl | ⟨entry, h_entry, h_inside⟩
    · exact ⟨.object fields, Json.mem_nodes_object_iff.mpr (.inl rfl), (normalize_object fields).symm⟩
    · obtain ⟨own, h_own, rfl⟩ := exists_of_mem_ofPairs h_entry
      obtain ⟨inner, h_inner, h_eq⟩ := ih own h_own h_inside
      exact ⟨inner, Json.mem_nodes_object_iff.mpr (.inr ⟨own, h_own, h_inner⟩), h_eq⟩
  | _ => simp [normalize, Json.nodes] at h_node

/-! ## References to shared schemas -/

/-- How a reference to a shared schema begins. -/
def schemaRoot : String := "#/components/schemas/"

/-- A name with the dotted name that it opens with put in Pascal case, as references have it. -/
def foldFront (name : List Char) : List Char :=
  if opensDotted name then
    Name.Chars.ofDotted (name.take (dottedLength name)) ++ name.drop (dottedLength name)
  else name

theorem foldDotted_of_not_mem (h_slash : '/' ∉ text) : foldDotted text = text :=
  foldDotted_of_not_isRaw (isRaw_of_not_mem h_slash)

theorem foldDotted_namespacePath_append (h_slash : '/' ∉ text) :
    foldDotted (namespacePath ++ text) = namespacePath ++ foldFront text := by
  rw [foldFront]
  cases h_name : opensDotted text with
  | true =>
    have h_rest : '/' ∉ text.drop (dottedLength text) :=
      fun h_mem => h_slash (List.mem_of_mem_drop h_mem)
    rw [if_pos rfl, foldDotted_path h_name, foldDotted_of_not_mem h_rest]
  | false =>
    have h_settled : isRaw (namespacePath ++ text) = false := by
      rw [isRaw_namespacePath_append h_name, isRaw_of_not_mem h_slash]
    rw [if_neg Bool.false_ne_true, foldDotted_of_not_isRaw h_settled]

/-- A reference into the shared schemas is moved to the definitions. -/
theorem moveComponents_schemaRoot_append (h_slash : '/' ∉ text) :
    moveComponents (schemaRoot.toList ++ text) = '#' :: '/' :: (namespacePath ++ text) := by
  have h_rest : moveComponents ('/' :: text) = '/' :: text := by
    have h_paths : ∀ path ∈ componentPaths, '/' ∈ path ∧ path.head? = some 'c' := by decide
    apply moveComponents_of_unmoved
    intro path h_path h_inside
    have h_slash_path := h_paths path h_path
    rcases List.infix_cons_iff.mp h_inside with ⟨rest, h_opens⟩ | h_later
    · have h_head := congrArg List.head? h_opens
      rw [List.head?_append, h_slash_path.2] at h_head
      cases h_head
    · exact h_slash (h_later.subset h_slash_path.1)
  have h_at : moveComponents ("components/schemas".toList ++ '/' :: text) =
      namespaceName ++ moveComponents ('/' :: text) := by
    change Chars.replaceAll componentPaths namespaceName
      ('c' :: ("omponents/schemas".toList ++ '/' :: text)) = _
    rw [Chars.replaceAll]
    rfl
  change Chars.replaceAll componentPaths namespaceName
    ('#' :: '/' :: ("components/schemas".toList ++ '/' :: text)) = _
  rw [Chars.replaceAll]
  change '#' :: Chars.replaceAll componentPaths namespaceName
    ('/' :: ("components/schemas".toList ++ '/' :: text)) = _
  rw [Chars.replaceAll]
  change '#' :: '/' :: moveComponents ("components/schemas".toList ++ '/' :: text) = _
  rw [h_at, h_rest]
  rfl

/-- What a reference to a shared schema becomes. -/
theorem normalPath_schemaRoot_append (h_slash : '/' ∉ name.toList) :
    normalPath (schemaRoot ++ name) = definitionRoot ++ String.ofList (foldFront name.toList) := by
  rw [normalPath, String.toList_append, moveComponents_schemaRoot_append h_slash,
    foldDotted_other rfl, foldDotted_other rfl, foldDotted_namespacePath_append h_slash,
    ← String.toList_inj, String.toList_ofList, String.toList_append, String.toList_ofList]
  rfl

/-- What the key of a shared schema becomes. -/
theorem normalKey_of_isObject (h_slash : '/' ∉ name.toList) (h_object : value.isObject = true) :
    normalKey name value = if isDotted name then Name.ofDotted name else name := by
  have h_path : normalPath name = name := normalPath_eq_self_iff.mpr (isSettled_of_not_mem h_slash)
  rw [normalKey]
  simp only [h_path, h_object, Bool.true_and]

/-- A name is folded in references as it is as a key just when it is dotted as a whole or does not
    open with a dotted name. -/
theorem foldFront_eq_iff (h_slash : '/' ∉ name.toList) (h_object : value.isObject = true) :
    String.ofList (foldFront name.toList) = normalKey name value ↔
      opensDotted name.toList = false ∨ isDotted name = true := by
  rw [normalKey_of_isObject h_slash h_object, foldFront]
  cases h_opens : opensDotted name.toList with
  | false =>
    have h_dotted : isDotted name = false := by
      rw [isDotted, ← opensDotted, h_opens, Bool.false_and]
    simp [h_dotted]
  | true =>
    cases h_dotted : isDotted name with
    | true =>
      have h_size : dottedLength name.toList = name.toList.length := by
        rw [isDotted, Bool.and_eq_true, beq_iff_eq] at h_dotted
        exact h_dotted.2
      rw [if_pos rfl, if_pos rfl, h_size, List.take_length, List.drop_length, List.append_nil]
      simp [Name.ofDotted]
    | false =>
      -- the reference has lost points that the key keeps
      simp only [if_true, Bool.false_eq_true, if_false, or_false, Bool.true_eq_false, iff_false]
      intro h_same
      have h_less := marks_ofDotted_lt h_opens
      have h_split := marks_take_add_drop (dottedLength name.toList) name.toList
      have h_marks := congrArg (fun own => marks own.toList) h_same
      simp only [String.toList_ofList] at h_marks
      rw [marks_append] at h_marks
      omega

/-! ## Linking -/

/-- The characters of the names of shared components. -/
def isComponentChar (c : Char) : Bool := c.isAlphanum || c == '.' || c == '-' || c == '_'

theorem not_mem_of_isComponentChar (h_name : ∀ c ∈ name.toList, isComponentChar c = true) :
    '/' ∉ name.toList := by
  intro h_mem
  have h_slash := h_name '/' h_mem
  revert h_slash
  decide

theorem isObject_normalize (value : Json) : (normalize value).isObject = value.isObject := by
  cases value with
  | object fields =>
    rw [normalize_object]
    rfl
  | _ => simp [normalize, Json.isObject]

/-- Schemas that are no reference as a whole are collected from the normal form. -/
theorem components_normalize (h_document : document.WellFormed)
    (h_schemas : sharedSchemas? document = some schemas)
    (h_plain : Entries.has schemas "$ref" = false) :
    Definitions.components (normalize document) "schemas" =
      Entries.ofPairs (normalFields schemas) := by
  obtain ⟨h_inside, h_normal⟩ := sharedSchemas?_normalize h_document h_schemas
  have h_reference : (Entries.ofPairs (normalFields schemas)).lookup "$ref" =
      (schemas.lookup "$ref").map normalize := by
    have h_field := field?_normalize h_inside isPlainKey_ref
    rwa [normalize_object] at h_field
  have h_plain_normal : Entries.has (Entries.ofPairs (normalFields schemas)) "$ref" = false := by
    rw [Entries.has] at h_plain ⊢
    rw [h_reference, Option.isSome_map, h_plain]
  rw [Definitions.components, ← sharedSchemas?, h_normal]
  simp only [h_plain_normal, Bool.false_eq_true, if_false]

/-- A shared schema whose key in normal form no other shares is found, and collected, under that key.
    The references to its name lead to that key exactly when the name is dotted as a whole or does
    not open with a dotted name. -/
theorem references_to_schema_linked_iff (h_document : document.WellFormed)
    (h_schemas : sharedSchemas? document = some schemas)
    (h_schema : schemas.lookup name = some schema) (h_object : schema.isObject = true)
    (h_name : ∀ c ∈ name.toList, isComponentChar c = true)
    (h_unshared : ∀ entry ∈ schemas,
      normalKey entry.1 (normalize entry.2) = normalKey name (normalize schema) → entry.1 = name) :
    (sharedSchemas? (normalize document)).bind
        (fun entries => entries.lookup (normalKey name (normalize schema))) =
      some (normalize schema) ∧
    (Entries.has schemas "$ref" = false →
      (Definitions.ofDocument (normalize document)).get? (normalKey name (normalize schema)) =
        some (Definitions.neutralize (normalKey name (normalize schema)) (normalize schema))) ∧
    (∀ node ∈ (normalize document).nodes, ∃ own ∈ document.nodes, node = normalize own) ∧
    ∀ node ∈ document.nodes, node.textAt? "$ref" = some (schemaRoot ++ name) →
      ((normalize node).textAt? "$ref" =
          some (definitionRoot ++ normalKey name (normalize schema)) ↔
        opensDotted name.toList = false ∨ isDotted name = true) := by
  have h_slash := not_mem_of_isComponentChar h_name
  obtain ⟨h_inside, h_normal⟩ := sharedSchemas?_normalize h_document h_schemas
  have h_names := (Json.wellFormed_object_iff.mp h_inside).1
  have h_found := lookup_normalFields h_names h_schema h_unshared
  refine ⟨?_, ?_, fun node => exists_of_mem_nodes_normalize, ?_⟩
  · rw [h_normal]
    exact h_found
  · intro h_plain
    have h_components := components_normalize h_document h_schemas h_plain
    have h_gather : (Definitions.gather (normalize document)).lookup
        (normalKey name (normalize schema)) = some (normalize schema) := by
      apply Definitions.lookup_gather
      · rw [h_components]
        exact Entries.nodup_names_ofPairs _
      · rw [h_components]
        exact Entries.mem_of_lookup h_found
    rw [Definitions.get?_ofDocument, h_gather]
    rfl
  · intro node h_node h_path
    have h_normal_object := (isObject_normalize schema).trans h_object
    rw [textAt?_normalize (Json.wellFormed_of_mem_nodes h_document h_node) isPlainKey_ref h_path,
      normalPath_schemaRoot_append h_slash, Option.some.injEq, String.append_right_inj,
      foldFront_eq_iff h_slash h_normal_object]

/-- The schema that `schemasWith` holds under the given name. -/
def plainSchema : Json := .object [("type", .text "object")]

/-- The reference that `schemasWith` holds to the given name. -/
def referenceTo (name : String) : Json := .object [("$ref", .text (schemaRoot ++ name))]

theorem wellFormed_documentWith (h_name : name ≠ "Holder") : (documentWith name).WellFormed := by
  simp [documentWith, schemasWith, Json.WellFormed, Json.WellFormedFields, h_name]

theorem referenceTo_mem_nodes (name : String) : referenceTo name ∈ (documentWith name).nodes := by
  simp [documentWith, schemasWith, referenceTo, schemaRoot]

/-- The name `foo.bar` is dotted as a whole. -/
theorem dotted_reference_linked :
    (Definitions.ofDocument (normalize (documentWith "foo.bar"))).get?
        (normalKey "foo.bar" (normalize plainSchema)) =
      some (Definitions.neutralize (normalKey "foo.bar" (normalize plainSchema))
        (normalize plainSchema)) ∧
    (normalize (referenceTo "foo.bar")).textAt? "$ref" =
      some (definitionRoot ++ normalKey "foo.bar" (normalize plainSchema)) := by
  have h_document : (documentWith "foo.bar").WellFormed := wellFormed_documentWith (by decide)
  have h_unshared : ∀ entry ∈ schemasWith "foo.bar",
      normalKey entry.1 (normalize entry.2) = normalKey "foo.bar" (normalize plainSchema) →
        entry.1 = "foo.bar" := by
    decide +kernel
  have h_schemas : sharedSchemas? (documentWith "foo.bar") = some (schemasWith "foo.bar") := rfl
  have h_schema : (schemasWith "foo.bar").lookup "foo.bar" = some plainSchema := rfl
  obtain ⟨-, h_get, -, h_refs⟩ := references_to_schema_linked_iff h_document
    h_schemas h_schema rfl (List.all_eq_true.mp (by decide)) h_unshared
  refine ⟨h_get rfl, ?_⟩
  exact (h_refs _ (referenceTo_mem_nodes "foo.bar") rfl).mpr (.inr (by decide +kernel))

/-- The name `a.b-c` opens with a dotted name and goes on with a dash. -/
theorem dashed_reference_not_linked :
    (documentWith "a.b-c").WellFormed ∧
    sharedSchemas? (documentWith "a.b-c") = some (schemasWith "a.b-c") ∧
    (schemasWith "a.b-c").lookup "a.b-c" = some plainSchema ∧
    (∀ c ∈ "a.b-c".toList, isComponentChar c = true) ∧
    (∀ entry ∈ schemasWith "a.b-c",
      normalKey entry.1 (normalize entry.2) = normalKey "a.b-c" (normalize plainSchema) →
        entry.1 = "a.b-c") ∧
    referenceTo "a.b-c" ∈ (documentWith "a.b-c").nodes ∧
    (normalize (referenceTo "a.b-c")).textAt? "$ref" ≠
      some (definitionRoot ++ normalKey "a.b-c" (normalize plainSchema)) := by
  refine ⟨wellFormed_documentWith (by decide), rfl, rfl, List.all_eq_true.mp (by decide),
    by decide +kernel, referenceTo_mem_nodes "a.b-c", by decide +kernel⟩

end OpenApiTs.Reference
