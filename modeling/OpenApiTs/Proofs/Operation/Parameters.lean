/-
  OpenApiTs.Proofs.Operation.Parameters

  The parameters that an extracted operation has. Values of the document are decoded one by one, and
  what is no parameter is left out; a parameter of the operation takes the place of one that its path
  shares under the same name and location; and each one that is left stands in the list of its
  location. Nothing is lost on the way, and nothing comes twice.
-/
import OpenApiTs.Proofs.Operation.Listed
import Mathlib.Data.List.Forall2
import Mathlib.Data.List.Nodup

namespace OpenApiTs

/-! ## Values that are decoded -/

/-- How a value names a location: by its word, or by the word as its one key, over null. -/
inductive Location.Named : Json → Location → Prop where
  | word (location : Location) : Named (.text location.word) location
  | key (location : Location) : Named (.object [(location.word, .null)]) location

namespace Location

theorem ofJson?_eq_some_iff {value : Json} {location : Location} :
    ofJson? value = some location ↔ Named value location := by
  constructor
  · intro h_value
    unfold ofJson? at h_value
    split at h_value
    · rw [ofWord?_eq_some_iff.mp h_value]
      exact .word location
    · rw [ofWord?_eq_some_iff.mp h_value]
      exact .key location
    · cases h_value
  · intro h_named
    cases h_named with
    | word => exact ofWord?_eq_some_iff.mpr rfl
    | key => exact ofWord?_eq_some_iff.mpr rfl

end Location

namespace Parameter

variable {value : Json} {held name location required description schema : Option Json}
  {parameter : Parameter}

/-- A flag that may be absent, and is false then. -/
inductive ReadsFlag : Option Json → Bool → Prop where
  | absent : ReadsFlag none false
  | given (flag : Bool) : ReadsFlag (some (.bool flag)) flag

/-- A text that may be absent, or null instead. -/
inductive ReadsText : Option Json → Option String → Prop where
  | absent : ReadsText none none
  | null : ReadsText (some .null) none
  | given (words : String) : ReadsText (some (.text words)) (some words)

/-- Any value that may be absent, or null instead. -/
inductive ReadsSchema : Option Json → Option Json → Prop where
  | absent : ReadsSchema none none
  | null : ReadsSchema (some .null) none
  | given {schema : Json} (h_schema : schema ≠ .null) : ReadsSchema (some schema) (some schema)

/-- The values that describe a parameter, each for one of its fields. -/
structure Describes (name location required description schema : Option Json)
    (parameter : Parameter) : Prop where
  name : name = some (.text parameter.name)
  location : ∃ value, location = some value ∧ Location.Named value parameter.location
  required : ReadsFlag required parameter.required
  description : ReadsText description parameter.description
  schema : ReadsSchema schema parameter.schema

/-- What a value is decoded to: an object describes a parameter by its keys, an array by its items in
    order, of which those at the end may be left out. -/
inductive Decodes : Json → Parameter → Prop where
  | object {fields : Entries Json} {parameter : Parameter}
      (h_fields : Describes (fields.lookup "name") (fields.lookup "in") (fields.lookup "required")
        (fields.lookup "description") (fields.lookup "schema") parameter) :
      Decodes (.object fields) parameter
  | array {items : List Json} {parameter : Parameter} (h_length : items.length ≤ 5)
      (h_items : Describes items[0]? items[1]? items[2]? items[3]? items[4]? parameter) :
      Decodes (.array items) parameter

/-- A flag is read where it is absent or given as one. -/
theorem optionalFlag?_eq_some_iff {flag : Bool} :
    optionalFlag? held = some flag ↔ ReadsFlag held flag := by
  constructor
  · intro h_held
    unfold optionalFlag? at h_held
    split at h_held
    · cases h_held
      exact .absent
    · cases h_held
      exact .given flag
    · cases h_held
  · rintro (_ | _) <;> rfl

theorem optionalText?_eq_some_iff {words : Option String} :
    optionalText? held = some words ↔ ReadsText held words := by
  constructor
  · intro h_held
    unfold optionalText? at h_held
    split at h_held
    · cases h_held
      exact .absent
    · cases h_held
      exact .null
    · cases h_held
      exact .given _
    · cases h_held
  · rintro (_ | _ | _) <;> rfl

theorem readsSchema_iff {own : Option Json} : ReadsSchema held own ↔ own = optionalSchema held := by
  constructor
  · intro h_held
    cases h_held with
    | absent => rfl
    | null => rfl
    | given h_schema =>
      unfold optionalSchema
      split
      · next h_null => exact absurd (Option.some.inj h_null) h_schema
      · rfl
  · rintro rfl
    unfold optionalSchema
    split
    · exact .null
    · next h_schema =>
      cases held with
      | none => exact .absent
      | some schema => exact .given fun h_null => h_schema (congrArg some h_null)

/-- A parameter is read from its fields exactly when these describe it. -/
theorem ofFields?_eq_some_iff :
    ofFields? name location required description schema = some parameter ↔
      Describes name location required description schema parameter := by
  constructor
  · intro h_fields
    -- the fields are read one after the other, and all of them have to be there
    obtain ⟨own, h_name, h_fields⟩ := Option.bind_eq_some_iff.mp h_fields
    obtain ⟨place, h_location, h_fields⟩ := Option.bind_eq_some_iff.mp h_fields
    obtain ⟨flag, h_required, h_fields⟩ := Option.bind_eq_some_iff.mp h_fields
    obtain ⟨words, h_description, h_made⟩ := Option.bind_eq_some_iff.mp h_fields
    obtain rfl := Option.some.inj h_made
    obtain ⟨value, rfl, h_text⟩ := Option.bind_eq_some_iff.mp h_name
    obtain ⟨word, rfl, h_word⟩ := Option.bind_eq_some_iff.mp h_location
    exact
      { name := by
          cases value with
          | text text => rw [Option.some.inj h_text]
          | _ => cases h_text
        location := ⟨word, rfl, Location.ofJson?_eq_some_iff.mp h_word⟩
        required := optionalFlag?_eq_some_iff.mp h_required
        description := optionalText?_eq_some_iff.mp h_description
        schema := readsSchema_iff.mpr rfl }
  · intro h_describes
    obtain ⟨rfl, ⟨value, rfl, h_location⟩, h_required, h_description, h_schema⟩ := h_describes
    rw [ofFields?, optionalFlag?_eq_some_iff.mpr h_required,
      optionalText?_eq_some_iff.mpr h_description, ← readsSchema_iff.mp h_schema,
      Option.bind_some, Option.bind_some, Location.ofJson?_eq_some_iff.mpr h_location]
    rfl

/-- A value is decoded exactly to what it describes. -/
theorem ofJson?_eq_some_iff : ofJson? value = some parameter ↔ Decodes value parameter := by
  cases value with
  | object fields =>
    rw [ofJson?, ofFields?_eq_some_iff]
    constructor
    · exact .object
    · rintro (h_fields | _)
      exact h_fields
  | array items =>
    rw [ofJson?]
    split
    · next h_long =>
      refine iff_of_false nofun ?_
      rintro (_ | ⟨h_length, -⟩)
      omega
    · next h_length =>
      rw [ofFields?_eq_some_iff]
      constructor
      · exact .array (Nat.le_of_not_lt h_length)
      · rintro (_ | ⟨-, h_items⟩)
        exact h_items
  | _ => exact iff_of_false nofun nofun

/-! ## Declared parameters -/

/-- Whether a value declares a parameter: it is no reference, and decoded to the parameter. -/
def Declares (value : Json) (parameter : Parameter) : Prop :=
  Reference.isReference value = false ∧ Decodes value parameter

/-- Whether a value declares some parameter. -/
def IsDeclaration (value : Json) : Prop := ∃ parameter, Declares value parameter

/-- A value in a list declares what is decoded from it, unless it is a reference. -/
theorem decoded_eq_some_iff :
    (if Reference.isReference value then none else ofJson? value) = some parameter ↔
      Declares value parameter := by
  rw [Declares, ← ofJson?_eq_some_iff]
  cases Reference.isReference value <;> simp

instance decidableIsDeclaration (value : Json) : Decidable (IsDeclaration value) :=
  decidable_of_iff ((if Reference.isReference value then none else ofJson? value).isSome = true) <| by
    rw [Option.isSome_iff_exists]
    exact exists_congr fun parameter => decoded_eq_some_iff

/-- Whether parameters are those that values declare, in order. -/
def Declared (values : List Json) (parameters : List Parameter) : Prop :=
  List.Forall₂ Declares (values.filter IsDeclaration) parameters

/-- The list under a key has the parameters that its items declare. -/
theorem declared_listOf (held : Option Json) :
    Declared ((held.bind Json.items?).getD []) (listOf held) := by
  rw [listOf]
  induction (held.bind Json.items?).getD [] with
  | nil => exact .nil
  | cons value values ih =>
    rw [Declared, List.filterMap_cons]
    split
    · next h_none =>
      -- a reference or an item that does not decode is no declaration
      have h_other : ¬ IsDeclaration value := by
        rintro ⟨parameter, h_declares⟩
        cases (decoded_eq_some_iff.mpr h_declares).symm.trans h_none
      rw [List.filter_cons_of_neg (by simpa using h_other)]
      exact ih
    · next parameter h_some =>
      have h_declares := decoded_eq_some_iff.mp h_some
      rw [List.filter_cons_of_pos (by simpa using ⟨parameter, h_declares⟩)]
      exact .cons h_declares ih

/-! ## Merged parameters -/

/-- What tells parameters apart. -/
def key (parameter : Parameter) : String × Location := (parameter.name, parameter.location)

/-- The parameters of a path that no parameter of the operation takes the place of, and those of the
    operation behind them. -/
def overlaid (shared own : List Parameter) : List Parameter :=
  (shared.filter fun parameter => parameter.key ∉ own.map key) ++ own

theorem clashes_iff {other : Parameter} : clashes other parameter = true ↔ other.key = parameter.key := by
  simp [clashes, key]

/-- The merge lays the own parameters over the shared ones. -/
theorem merge_eq_overlaid (shared own : List Parameter) : merge shared own = overlaid shared own := by
  rw [merge, overlaid]
  congr 2
  funext parameter
  have h_any : (own.any fun other => clashes other parameter) = true ↔
      parameter.key ∈ own.map key := by
    simp only [List.any_eq_true, clashes_iff, List.mem_map]
  rw [Bool.eq_iff_iff, Bool.not_eq_true', ← Bool.not_eq_true, h_any, decide_eq_true_iff]

/-- No two parameters have the same name and location unless two in one of the lists have. -/
theorem nodup_overlaid {shared own : List Parameter} (h_shared : (shared.map key).Nodup)
    (h_own : (own.map key).Nodup) : ((overlaid shared own).map key).Nodup := by
  rw [overlaid, List.map_append, List.nodup_append]
  refine ⟨h_shared.sublist (List.filter_sublist.map key), h_own, ?_⟩
  -- one that is left of the path has a key that the operation does not have
  intro first h_first second h_second h_same
  obtain ⟨parameter, h_parameter, rfl⟩ := List.mem_map.mp h_first
  have h_new := of_decide_eq_true (List.mem_filter.mp h_parameter).2
  exact h_new (h_same ▸ h_second)

/-- The parameters in one location, in order. -/
def inLocation (parameters : List Parameter) (location : Location) : List Parameter :=
  parameters.filter fun parameter => parameter.location = location

/-- The lists of the four locations have all parameters between them, each one once. -/
theorem perm_inLocation (parameters : List Parameter) :
    (inLocation parameters .path ++ (inLocation parameters .query ++
      (inLocation parameters .header ++ inLocation parameters .cookie))).Perm parameters := by
  induction parameters with
  | nil => exact .nil
  | cons parameter parameters ih =>
    have h_cons (location : Location) : inLocation (parameter :: parameters) location =
        if parameter.location = location then parameter :: inLocation parameters location
        else inLocation parameters location := by
      rw [inLocation, List.filter_cons]
      simp only [decide_eq_true_eq]
      rfl
    simp only [h_cons]
    -- the parameter stands at the front of one list, and goes from there to the front of all
    refine .trans ?_ (ih.cons parameter)
    cases parameter.location with
    | path => exact .refl _
    | query => exact List.perm_middle
    | header =>
      simp only [reduceCtorEq, if_false, if_true, ← List.append_assoc]
      exact List.perm_middle.append_right _
    | cookie =>
      simp only [reduceCtorEq, if_false, if_true, ← List.append_assoc]
      exact List.perm_middle

end Parameter

/-! ## Operations -/

/-- The parameters of an operation, those of one location after those of another. -/
def Operation.parameters (operation : Operation) : List Parameter :=
  operation.path ++ (operation.query ++ (operation.header ++ operation.cookie))

/-- Whether an operation has the parameters that a listed operation and its path declare: those of
    the path that the operation does not declare itself, then its own, each one in the list of its
    location and in no other, with its place among the rest of them. -/
def Listed.Gathers (listed : Listed) (operation : Operation) : Prop :=
  ∃ shared own,
    Parameter.Declared listed.sharedParameters shared ∧ Parameter.Declared listed.parameters own ∧
    operation.address = listed.address ∧
    (∀ location, operation.placed location =
      Parameter.inLocation (Parameter.overlaid shared own) location) ∧
    operation.parameters.Perm (Parameter.overlaid shared own) ∧
    ((shared.map Parameter.key).Nodup → (own.map Parameter.key).Nodup →
      (operation.parameters.map Parameter.key).Nodup)

namespace Listed

theorem gathers_operation (listed : Listed) : listed.Gathers listed.operation := by
  have h_placed (location : Location) : listed.operation.placed location =
      Parameter.inLocation (Parameter.overlaid (Parameter.listOf listed.shared)
        (Parameter.listOf (listed.fields.lookup "parameters"))) location := by
    rw [placed_operation, Parameter.merge_eq_overlaid]
    rfl
  -- the four places have the parameters between them, in an order of their own
  have h_perm : listed.operation.parameters.Perm
      (Parameter.overlaid (Parameter.listOf listed.shared)
        (Parameter.listOf (listed.fields.lookup "parameters"))) := by
    refine .trans (.of_eq ?_) (Parameter.perm_inLocation _)
    rw [← h_placed, ← h_placed, ← h_placed, ← h_placed]
    rfl
  refine ⟨_, _, Parameter.declared_listOf listed.shared, Parameter.declared_listOf _, rfl,
    h_placed, h_perm, ?_⟩
  intro h_shared h_own
  exact (h_perm.map Parameter.key).nodup_iff.mpr (Parameter.nodup_overlaid h_shared h_own)

end Listed

/-- The operations of a document have, one by one, the parameters that they and their paths
    declare. -/
theorem Operation.parameters_gathered (document : Json) :
    List.Forall₂ Listed.Gathers (Listed.ofDocument document) (listOfDocument document) := by
  rw [Listed.listOfDocument_eq, List.forall₂_map_right_iff, List.forall₂_same]
  exact fun listed _ => listed.gathers_operation

end OpenApiTs
