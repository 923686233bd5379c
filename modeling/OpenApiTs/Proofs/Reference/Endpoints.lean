/-
  OpenApiTs.Proofs.Reference.Endpoints

  The endpoints of a document and of its normal form. The address of a path is a key and is put in
  normal form like any other; the keys of methods stay as they are.
-/
import OpenApiTs.Proofs.Operation.Listed
import OpenApiTs.Proofs.Reference.Linked
import Mathlib.Data.Set.Finite.Lemmas

namespace OpenApiTs.Reference

variable {document item value : Json} {fields paths : Entries Json} {key : String}

/-! ## Endpoints -/

/-- The endpoints of a document: the address of each of its operations, in order. -/
def endpoints (document : Json) : List (String × String) :=
  (Operation.listOfDocument document).map Operation.address

/-- The paths of a document. -/
def pathsOf (document : Json) : Entries Json := (document.fieldsAt? "paths").getD []

/-- The method of a key over an object. -/
def methodAt? (entry : String × Json) : Option Method :=
  if entry.2.isObject then Method.ofKey? entry.1 else none

/-- The methods of a path, in order. -/
def methodsOf (item : Json) : List Method := (item.fields?.getD []).filterMap methodAt?

/-- The endpoints under a path. -/
def endpointsUnder (path : String × Json) : List (String × String) :=
  (methodsOf path.2).map fun method => (path.1, method.key)

theorem address_ofFields (url : String) (fields : Entries Json) :
    (Listed.ofFields url fields).map Listed.address =
      (fields.filterMap methodAt?).map fun method => (url, method.key) := by
  rw [Listed.ofFields, List.map_filterMap, List.map_filterMap]
  congr 1
  funext entry
  obtain ⟨name, value⟩ := entry
  rw [Listed.ofField?, methodAt?]
  cases Method.ofKey? name with
  | none => cases value <;> rfl
  | some method => cases value <;> rfl

/-- The endpoints of a document are read from its paths, one after the other. -/
theorem endpoints_eq (document : Json) :
    endpoints document = (pathsOf document).flatMap endpointsUnder := by
  rw [endpoints, Listed.listOfDocument_eq, List.map_map, Listed.ofDocument, List.map_flatMap]
  congr 1
  funext path
  exact address_ofFields path.1 (path.2.fields?.getD [])

/-! ## Fields that keep their keys -/

/-- Where all fields under some names keep their keys, and no other field takes one of the names,
    the normal form has these fields in the same order. -/
theorem filter_ofPairs_normalFields {keep : String → Bool} (h_names : (Entries.names fields).Nodup)
    (h_keep : ∀ entry ∈ fields, keep (normalKey entry.1 (normalize entry.2)) = keep entry.1)
    (h_fixed : ∀ entry ∈ fields, keep entry.1 = true →
      normalKey entry.1 (normalize entry.2) = entry.1) :
    (Entries.ofPairs (normalFields fields)).filter (fun entry => keep entry.1) =
      (fields.filter fun entry => keep entry.1).map fun entry => (entry.1, normalize entry.2) := by
  have h_kept : (normalFields fields).filter (fun entry => keep entry.1) =
      (fields.filter fun entry => keep entry.1).map fun entry => (entry.1, normalize entry.2) := by
    rw [normalFields, List.filter_map]
    simp only [Function.comp_def]
    rw [List.filter_congr h_keep]
    apply List.map_congr_left
    intro entry h_entry
    rw [List.mem_filter] at h_entry
    rw [h_fixed entry h_entry.1 h_entry.2]
  rw [Entries.filter_ofPairs, h_kept, Entries.ofPairs_of_nodup]
  rw [Entries.names, List.map_map]
  exact h_names.sublist (List.filter_sublist.map Prod.fst)

/-! ## Methods -/

theorem isPlainKey_method (method : Method) : IsPlainKey method.key := by
  cases method <;> exact ⟨by decide, by decide, by decide, _, rfl, .inl (by decide)⟩

theorem ofKey?_normalKey (key : String) (value : Json) :
    Method.ofKey? (normalKey key value) = Method.ofKey? key := by
  apply Option.ext
  intro method
  rw [Method.ofKey?_eq_some_iff, Method.ofKey?_eq_some_iff,
    (isPlainKey_method method).normalKey_eq_iff]

theorem filterMap_methodAt?_filter (fields : Entries Json) :
    (fields.filter fun entry => (Method.ofKey? entry.1).isSome).filterMap methodAt? =
      fields.filterMap methodAt? := by
  rw [List.filterMap_filter]
  congr 1
  funext entry
  rw [methodAt?]
  cases Method.ofKey? entry.1 <;> simp

/-- A path has the methods that it had. -/
theorem methodsOf_normalize (h_item : item.WellFormed) :
    methodsOf (normalize item) = methodsOf item := by
  -- methods have plain keys, which stay where they are
  cases item with
  | object fields =>
    have h_kept := @filter_ofPairs_normalFields fields (fun key => (Method.ofKey? key).isSome)
      (Json.wellFormed_object_iff.mp h_item).1
      (fun entry _ => by rw [ofKey?_normalKey])
      (by
        intro entry _ h_method
        obtain ⟨method, h_method⟩ := Option.isSome_iff_exists.mp h_method
        rw [Method.ofKey?_eq_some_iff.mp h_method]
        exact (isPlainKey_method method).normalKey_eq_iff.mpr rfl)
    rw [normalize_object, methodsOf, methodsOf]
    change (Entries.ofPairs (normalFields fields)).filterMap methodAt? = fields.filterMap methodAt?
    rw [← filterMap_methodAt?_filter, h_kept, List.filterMap_map,
      ← filterMap_methodAt?_filter fields]
    congr 1
    funext entry
    rw [Function.comp_apply, methodAt?, methodAt?, isObject_normalize]
  | _ => rfl

/-! ## Addresses -/

/-- Where a key is put in another form, slashes or points are gone. -/
theorem marks_normalKey_lt (h_changed : normalKey key value ≠ key) :
    marks (normalKey key value).toList < marks key.toList := by
  rw [normalKey] at h_changed ⊢
  split
  · next h_path =>
    rw [Bool.and_eq_true] at h_path
    have h_none : marks (Name.ofDotted (normalPath key)).toList = 0 := by
      rw [marks, List.countP_eq_zero]
      intro c h_c h_mark
      rw [Bool.or_eq_true, beq_iff_eq, beq_iff_eq] at h_mark
      rcases h_mark with rfl | rfl <;>
        exact not_mem_ofDotted_of_isDotted h_path.2 (by decide) h_c
    have h_point : 0 < marks (normalPath key).toList :=
      List.countP_pos_iff.mpr ⟨'.', (of_isDotted h_path.2).1, rfl⟩
    by_cases h_same : normalPath key = key
    · rwa [h_none, ← h_same]
    · have h_less := marks_normalPath_lt h_same
      omega
  · next h_path =>
    rw [if_neg h_path] at h_changed
    exact marks_normalPath_lt h_changed

/-- The key of an object stays when neither the path in it nor its name is changed. -/
theorem normalKey_eq_iff_of_isObject (h_object : value.isObject = true) :
    normalKey key value = key ↔ isSettled key = true ∧ isDotted key = false := by
  constructor
  · intro h_same
    have h_folded := not_isDotted_normalKey key h_object
    rw [h_same] at h_folded
    exact ⟨(normalKey_eq_self_iff fun _ => h_folded).mp h_same, h_folded⟩
  · rintro ⟨h_settled, h_folded⟩
    exact (normalKey_eq_self_iff fun _ => h_folded).mpr h_settled

/-- A path with methods is an object. -/
theorem isObject_of_methodsOf (h_methods : methodsOf item ≠ []) : item.isObject = true := by
  cases item with
  | object fields => rfl
  | _ => exact absurd rfl h_methods

/-- Whether a path has methods, and its address is not its own normal form. -/
def Moves (path : String × Json) : Prop :=
  methodsOf path.2 ≠ [] ∧ normalKey path.1 (normalize path.2) ≠ path.1

/-- Every endpoint of the normalized paths comes from a path with its methods. -/
theorem exists_of_mem_endpoints {address : String × String}
    (h_values : ∀ path ∈ paths, path.2.WellFormed)
    (h_address : address ∈ (Entries.ofPairs (normalFields paths)).flatMap endpointsUnder) :
    ∃ path ∈ paths, methodsOf path.2 ≠ [] ∧ normalKey path.1 (normalize path.2) = address.1 := by
  obtain ⟨entry, h_entry, h_under⟩ := List.mem_flatMap.mp h_address
  obtain ⟨path, h_path, rfl⟩ := exists_of_mem_ofPairs h_entry
  obtain ⟨method, h_method, rfl⟩ := List.mem_map.mp h_under
  rw [methodsOf_normalize (h_values path h_path)] at h_method
  exact ⟨path, h_path, List.ne_nil_of_mem h_method, rfl⟩

/-- Where the endpoints are the same, no path with methods moves: the address with the most slashes
    and points among those that move would have to come from one with more. -/
theorem not_moves_of_endpoints (h_names : (Entries.names paths).Nodup)
    (h_values : ∀ path ∈ paths, path.2.WellFormed)
    (h_same : (Entries.ofPairs (normalFields paths)).flatMap endpointsUnder =
      paths.flatMap endpointsUnder) :
    ∀ path ∈ paths, ¬ Moves path := by
  intro path h_path h_moves
  -- among the paths that move, one with the most marks; what it would be called has fewer
  have h_finite : {path | path ∈ paths ∧ Moves path}.Finite :=
    (List.finite_toSet paths).subset fun path h_path => h_path.1
  obtain ⟨most, ⟨h_most, h_busy, h_changed⟩, h_max⟩ := Set.exists_max_image _
    (fun path : String × Json => marks path.1.toList) h_finite ⟨path, h_path, h_moves⟩
  obtain ⟨method, h_method⟩ := List.exists_mem_of_ne_nil _ h_busy
  have h_address : (most.1, method.key) ∈ paths.flatMap endpointsUnder :=
    List.mem_flatMap.mpr ⟨most, h_most, List.mem_map.mpr ⟨method, h_method, rfl⟩⟩
  rw [← h_same] at h_address
  obtain ⟨own, h_own, h_methods, h_key⟩ := exists_of_mem_endpoints h_values h_address
  by_cases h_kept : normalKey own.1 (normalize own.2) = own.1
  · have h_equal := List.inj_on_of_nodup_map h_names h_own h_most (h_kept.symm.trans h_key)
    rw [h_equal] at h_kept
    exact h_changed h_kept
  · have h_less := marks_normalKey_lt h_kept
    rw [h_key] at h_less
    exact absurd (h_max own ⟨h_own, h_methods, h_kept⟩) (Nat.not_le.mpr h_less)

/-- Whether a key is the address of a path with methods. -/
def isCalled (paths : Entries Json) (key : String) : Bool :=
  paths.any fun path => path.1 == key && !(methodsOf path.2).isEmpty

theorem isCalled_iff :
    isCalled paths key = true ↔ ∃ path ∈ paths, path.1 = key ∧ methodsOf path.2 ≠ [] := by
  simp [isCalled]

theorem isCalled_iff_of_mem (h_names : (Entries.names paths).Nodup) {path : String × Json}
    (h_path : path ∈ paths) : isCalled paths path.1 = true ↔ methodsOf path.2 ≠ [] := by
  rw [isCalled_iff]
  constructor
  · rintro ⟨own, h_own, h_key, h_methods⟩
    rwa [List.inj_on_of_nodup_map h_names h_own h_path h_key] at h_methods
  · exact fun h_methods => ⟨path, h_path, rfl, h_methods⟩

theorem flatMap_endpointsUnder_filter {keep : String → Bool}
    (h_dropped : ∀ path ∈ paths, methodsOf path.2 ≠ [] → keep path.1 = true) :
    (paths.filter fun path => keep path.1).flatMap endpointsUnder =
      paths.flatMap endpointsUnder := by
  induction paths with
  | nil => rfl
  | cons path paths ih =>
    have h_rest := ih fun own h_own => h_dropped own (List.mem_cons_of_mem path h_own)
    rw [List.filter_cons, List.flatMap_cons]
    split
    · rw [List.flatMap_cons, h_rest]
    · next h_keep =>
      have h_none : methodsOf path.2 = [] := by
        by_contra h_methods
        exact h_keep (h_dropped path List.mem_cons_self h_methods)
      rw [h_rest, endpointsUnder, h_none]
      rfl

/-- Where no path with methods moves, and none without takes the address of one, the endpoints are
    the same. -/
theorem endpoints_of_not_moves (h_names : (Entries.names paths).Nodup)
    (h_values : ∀ path ∈ paths, path.2.WellFormed)
    (h_idle : ∀ idle ∈ paths, methodsOf idle.2 = [] → ∀ path ∈ paths, methodsOf path.2 ≠ [] →
      normalKey idle.1 (normalize idle.2) ≠ path.1)
    (h_still : ∀ path ∈ paths, ¬ Moves path) :
    (Entries.ofPairs (normalFields paths)).flatMap endpointsUnder =
      paths.flatMap endpointsUnder := by
  have h_fixed (path : String × Json) (h_path : path ∈ paths) (h_methods : methodsOf path.2 ≠ []) :
      normalKey path.1 (normalize path.2) = path.1 := by
    by_contra h_changed
    exact h_still path h_path ⟨h_methods, h_changed⟩
  have h_kept := @filter_ofPairs_normalFields paths (isCalled paths) h_names
    (by
      intro path h_path
      by_cases h_methods : methodsOf path.2 = []
      · have h_own : ¬ isCalled paths path.1 = true :=
          fun h_called => (isCalled_iff_of_mem h_names h_path).mp h_called h_methods
        rw [Bool.not_eq_true] at h_own
        rw [h_own, Bool.eq_false_iff]
        intro h_called
        obtain ⟨other, h_other, h_key, h_busy⟩ := isCalled_iff.mp h_called
        exact h_idle path h_path h_methods other h_other h_busy h_key.symm
      · rw [h_fixed path h_path h_methods])
    (fun path h_path h_called =>
      h_fixed path h_path ((isCalled_iff_of_mem h_names h_path).mp h_called))
  have h_normal : ∀ path ∈ Entries.ofPairs (normalFields paths), methodsOf path.2 ≠ [] →
      isCalled paths path.1 = true := by
    intro path h_path h_methods
    obtain ⟨own, h_own, rfl⟩ := exists_of_mem_ofPairs h_path
    rw [methodsOf_normalize (h_values own h_own)] at h_methods
    rw [h_fixed own h_own h_methods]
    exact (isCalled_iff_of_mem h_names h_own).mpr h_methods
  rw [← flatMap_endpointsUnder_filter h_normal, h_kept,
    ← @flatMap_endpointsUnder_filter paths _ fun path h_path =>
      (isCalled_iff_of_mem h_names h_path).mpr,
    List.flatMap_map]
  apply List.flatMap_congr
  intro path h_path
  rw [endpointsUnder, endpointsUnder,
    methodsOf_normalize (h_values path (List.mem_of_mem_filter h_path))]

/-! ## Documents -/

theorem isPlainKey_paths : IsPlainKey "paths" :=
  ⟨by decide, by decide, by decide, 'p', rfl, .inl (by decide)⟩

theorem pathsOf_normalize (h_document : document.WellFormed) :
    pathsOf (normalize document) = Entries.ofPairs (normalFields (pathsOf document)) := by
  rw [pathsOf, pathsOf, Json.fieldsAt?, Json.fieldsAt?,
    field?_normalize h_document isPlainKey_paths]
  cases document.field? "paths" with
  | none => rfl
  | some value =>
    cases value with
    | object fields =>
      rw [Option.map_some, normalize_object]
      rfl
    | _ => rfl

theorem wellFormed_pathsOf (h_document : document.WellFormed) :
    Json.WellFormed (.object (pathsOf document)) := by
  rw [pathsOf, Json.fieldsAt?]
  cases h_paths : document.field? "paths" with
  | none => exact ⟨List.nodup_nil, trivial⟩
  | some value =>
    have h_value := Json.wellFormed_of_field? h_document h_paths
    cases value with
    | object fields => exact h_value
    | _ => exact ⟨List.nodup_nil, trivial⟩

/-- Whether the address of each path with methods is its own normal form. -/
def AddressesSettled (document : Json) : Prop :=
  ∀ path ∈ pathsOf document, methodsOf path.2 ≠ [] →
    isSettled path.1 = true ∧ isDotted path.1 = false

/-- Whether no path without methods takes the address of one with methods. -/
def IdleApart (document : Json) : Prop :=
  ∀ idle ∈ pathsOf document, methodsOf idle.2 = [] →
    ∀ path ∈ pathsOf document, methodsOf path.2 ≠ [] →
      normalKey idle.1 (normalize idle.2) ≠ path.1

/-- The addresses are settled when no path under which something is called moves. -/
theorem addressesSettled_iff : AddressesSettled document ↔
    ∀ path ∈ pathsOf document, ¬ Moves path := by
  apply forall₂_congr
  intro path _
  rw [Moves, not_and, not_not]
  apply imp_congr_right
  intro h_methods
  rw [normalKey_eq_iff_of_isObject ((isObject_normalize path.2).trans
    (isObject_of_methodsOf h_methods))]

/-- A normal form calls the same endpoints only if the address of each path with methods is settled,
    and it does if besides no other path takes one of these addresses. -/
theorem endpoints_normalize_settled (h_document : document.WellFormed) :
    (endpoints (normalize document) = endpoints document → AddressesSettled document) ∧
      (IdleApart document → AddressesSettled document →
        endpoints (normalize document) = endpoints document) := by
  obtain ⟨h_names, h_values⟩ := Json.wellFormed_object_iff.mp (wellFormed_pathsOf h_document)
  rw [endpoints_eq, endpoints_eq, pathsOf_normalize h_document, addressesSettled_iff]
  exact ⟨not_moves_of_endpoints h_names h_values,
    fun h_idle => endpoints_of_not_moves h_names h_values h_idle⟩

/-- A document with one endpoint. -/
def endpointDocument (url : String) : Json :=
  .object [("openapi", .text "3.0.0"),
    ("paths", .object [(url, .object [("get", .object [])])])]

theorem wellFormed_endpointDocument (url : String) : (endpointDocument url).WellFormed := by
  simp [endpointDocument, Json.WellFormed, Json.WellFormedFields]

theorem endpoints_normalize_pets :
    (endpointDocument "/pets").WellFormed ∧ IdleApart (endpointDocument "/pets") ∧
      AddressesSettled (endpointDocument "/pets") ∧
      endpoints (normalize (endpointDocument "/pets")) = endpoints (endpointDocument "/pets") := by
  have h_document := wellFormed_endpointDocument "/pets"
  have h_paths : pathsOf (endpointDocument "/pets") = [("/pets", .object [("get", .object [])])] :=
    rfl
  have h_idle : IdleApart (endpointDocument "/pets") := by
    intro idle h_mem h_none
    rw [h_paths, List.mem_singleton] at h_mem
    rw [h_mem] at h_none
    exact absurd h_none (List.cons_ne_nil _ _)
  have h_settled : AddressesSettled (endpointDocument "/pets") := by
    intro path h_mem _
    rw [h_paths, List.mem_singleton] at h_mem
    rw [h_mem]
    exact ⟨by decide +kernel, by decide +kernel⟩
  exact ⟨h_document, h_idle, h_settled, (endpoints_normalize_settled h_document).2 h_idle h_settled⟩

/-- An address that has a component path in it becomes another. -/
theorem endpoints_normalize_schemas :
    (endpointDocument "/components/schemas").WellFormed ∧
      endpoints (endpointDocument "/components/schemas") = [("/components/schemas", "get")] ∧
      endpoints (normalize (endpointDocument "/components/schemas")) =
        [("/definitions", "get")] ∧
      endpoints (normalize (endpointDocument "/components/schemas")) ≠
        endpoints (endpointDocument "/components/schemas") := by
  have h_own : endpoints (endpointDocument "/components/schemas") =
      [("/components/schemas", "get")] := by decide +kernel
  have h_normal : endpoints (normalize (endpointDocument "/components/schemas")) =
      [("/definitions", "get")] := by decide +kernel
  refine ⟨wellFormed_endpointDocument _, h_own, h_normal, ?_⟩
  rw [h_own, h_normal]
  decide

end OpenApiTs.Reference
