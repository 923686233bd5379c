/-
  OpenApiTs.Proofs.Schema.Members

  The members of an object type. Each listed property becomes one of them, in order, and what is
  written before its type is settled before names are chosen. As different keys are written
  differently, no two properties of an object come out under one key.
-/
import OpenApiTs.Proofs.Json.Nodes
import OpenApiTs.Proofs.Schema.Neutral
import OpenApiTs.Proofs.TypeScript.Keys
import OpenApiTs.Schema.Roster

namespace OpenApiTs.Schema

open OpenApiTs.TypeScript

variable {fields properties : Entries Json} {required : List String}
  {members : List (MemberHead × TypeExpr Mention)} {type : TypeExpr Mention}

/-! ## Members -/

/-- The loop over properties: each one becomes a member with its key, its comment and its type. -/
theorem forall₂_of_propertiesShape (h_shape : propertiesShape required properties = .ok members) :
    List.Forall₂ (fun entry member =>
      member.1 = .property (description? entry.2) entry.1 (!required.contains entry.1) ∧
        shape entry.2 = .ok member.2) properties members := by
  induction properties generalizing members with
  | nil =>
    rw [propertiesShape] at h_shape
    obtain rfl := Except.ok.inj h_shape
    exact .nil
  | cons entry others ih =>
    rw [propertiesShape] at h_shape
    obtain ⟨type, h_type, h_shape⟩ := Outcome.bind_eq_ok_iff.mp h_shape
    obtain ⟨rest, h_rest, h_made⟩ := Outcome.bind_eq_ok_iff.mp h_shape
    obtain rfl := Except.ok.inj h_made
    exact .cons ⟨rfl, h_type⟩ (ih h_rest)

/-- Choosing names leaves what stands before the types of members. -/
theorem map_fst_renameMembers {ν κ σ : Type} (choose : ν → σ → κ × σ)
    (members : List (MemberHead × TypeExpr ν)) (state : σ) :
    (TypeExpr.renameMembers choose members state).1.map Prod.fst = members.map Prod.fst := by
  induction members generalizing state with
  | nil => rfl
  | cons member members ih =>
    rw [TypeExpr.renameMembers, List.map_cons, List.map_cons, ih]

/-! ## Keys -/

/-- The keys of the properties among members, as they are written. -/
def writtenKeys (heads : List MemberHead) : List String :=
  heads.filterMap fun head =>
    match head with
    | .property _ key _ => some (propertyKey key)
    | .index => none

/-- The names of the listed properties. -/
def listedNames (fields : Entries Json) : List String :=
  match fields.lookup "properties" with
  | some (.object properties) => Entries.names properties
  | _ => []

/-- An object lists no property twice. -/
theorem listedNames_nodup (h_fields : (Json.object fields).WellFormed) :
    (listedNames fields).Nodup := by
  unfold listedNames
  split
  · next properties h_listed =>
    have h_properties := Json.wellFormed_of_field? h_fields h_listed
    exact (Json.wellFormed_object_iff.mp h_properties).1
  · exact List.nodup_nil

/-- Each property is written under its key, in the order of the properties. -/
theorem writtenKeys_of_propertiesShape
    (h_shape : propertiesShape required properties = .ok members) :
    writtenKeys (members.map Prod.fst) = (Entries.names properties).map propertyKey := by
  have h_members := forall₂_of_propertiesShape h_shape
  clear h_shape
  -- the members go along with the properties, so the induction is over both lists
  induction h_members with
  | nil => rfl
  | cons h_member _ ih =>
    rw [List.map_cons, writtenKeys, List.filterMap_cons, h_member.1, ← writtenKeys, ih]
    rfl

theorem writtenKeys_of_listedShape (h_shape : listedShape fields = .ok members) :
    writtenKeys (members.map Prod.fst) = (listedNames fields).map propertyKey := by
  rw [listedShape_eq] at h_shape
  unfold listedNames
  cases h_listed : fields.lookup "properties" with
  | none =>
    rw [h_listed] at h_shape
    cases h_shape
    rfl
  | some value =>
    rw [h_listed] at h_shape
    cases value with
    | object properties => exact writtenKeys_of_propertiesShape h_shape
    | _ =>
      cases h_shape
      rfl

/-- An index signature has no key. -/
theorem writtenKeys_of_indexShape (h_shape : indexShape fields = .ok members) :
    writtenKeys (members.map Prod.fst) = [] := by
  rw [indexShape_eq] at h_shape
  -- no signature, one for anything, or one with a type
  split at h_shape
  · cases h_shape
    rfl
  · cases h_shape
    rfl
  · cases h_shape
    rfl
  · obtain ⟨type, -, h_made⟩ := Outcome.bind_eq_ok_iff.mp h_shape
    cases h_made
    rfl

/-- An object is a record whose properties have the listed keys, in order. -/
theorem exists_members_of_recordShape (h_shape : recordShape fields = .ok type) :
    ∃ members, type = .record members ∧
      writtenKeys (members.map Prod.fst) = (listedNames fields).map propertyKey := by
  rw [recordShape] at h_shape
  obtain ⟨listed, h_listed, h_shape⟩ := Outcome.bind_eq_ok_iff.mp h_shape
  obtain ⟨index, h_index, h_made⟩ := Outcome.bind_eq_ok_iff.mp h_shape
  refine ⟨listed ++ index, (Except.ok.inj h_made).symm, ?_⟩
  have h_keys := writtenKeys_of_listedShape h_listed
  have h_none := writtenKeys_of_indexShape h_index
  rw [writtenKeys] at h_keys h_none ⊢
  rw [List.map_append, List.filterMap_append, h_keys, h_none, List.append_nil]

/-- Different keys are written differently, each on one line and without a character below the
    space. So an object type has one property for each listed name, in order and under keys that are
    all different, whatever names are chosen in it. -/
theorem property_keys_apart :
    Function.Injective propertyKey ∧
      (∀ key, (∀ c ∈ (propertyKey key).toList, 32 ≤ c.toNat) ∧
        Text.lines (propertyKey key) = [propertyKey key]) ∧
      ∀ (definitions : Definitions) (root : String) (roster : Roster) (fields : Entries Json)
        (type : TypeExpr Mention), (Json.object fields).WellFormed →
        recordShape fields = .ok type →
        ∃ members, (type.rename (Roster.choose definitions root) roster).1 = .record members ∧
          writtenKeys (members.map Prod.fst) = (listedNames fields).map propertyKey ∧
          (writtenKeys (members.map Prod.fst)).Nodup := by
  refine ⟨propertyKey_injective,
    fun key => ⟨fun c => le_code_of_mem_propertyKey, lines_propertyKey key⟩, ?_⟩
  intro definitions root roster fields type h_fields h_shape
  -- naming changes the types of members but not their heads
  obtain ⟨members, rfl, h_keys⟩ := exists_members_of_recordShape h_shape
  rw [← map_fst_renameMembers (Roster.choose definitions root) members roster] at h_keys
  refine ⟨_, rfl, h_keys, ?_⟩
  rw [h_keys]
  exact (listedNames_nodup h_fields).map propertyKey_injective

/-- Properties whose names are told apart by quotes, or have a line feed in them, or nothing. -/
def trickyFields : Entries Json :=
  [("properties", .object [("a", .object []), ("\"a\"", .object []),
    ("a\nexport b", .object []), ("", .object [])])]

theorem trickyFields_keys_apart :
    (Json.object trickyFields).WellFormed ∧ ∃ type, recordShape trickyFields = .ok type ∧
      ∃ members, (type.rename (Roster.choose ⟨[], []⟩ "Body") []).1 = .record members ∧
        writtenKeys (members.map Prod.fst) =
          ["a", "\"\\\"a\\\"\"", "\"a\\nexport b\"", "\"\""] ∧
        (writtenKeys (members.map Prod.fst)).Nodup := by
  have h_formed : (Json.object trickyFields).WellFormed := by
    simp [trickyFields, Json.WellFormed, Json.WellFormedFields]
  -- that there is a type is computed, its members come from the theorem
  have h_some : (recordShape trickyFields).toOption.any (fun _ => true) = true := by decide +kernel
  obtain ⟨type, h_shape, -⟩ := Outcome.exists_ok_of_any h_some
  obtain ⟨members, h_record, h_keys, h_apart⟩ :=
    property_keys_apart.2.2 ⟨[], []⟩ "Body" [] trickyFields type h_formed h_shape
  refine ⟨h_formed, type, h_shape, members, h_record, ?_, h_apart⟩
  rw [h_keys]
  decide +kernel

end OpenApiTs.Schema
