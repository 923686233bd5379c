/-
  OpenApiTs.Json.Basic

  JSON values whose objects keep the order of their fields, the ways to look into them, and equality
  that leaves that order aside.
-/
import OpenApiTs.Entries
import OpenApiTs.Number.Literal

namespace OpenApiTs

/-- A JSON value. The fields of an object stand in order; readers give them different names. -/
inductive Json where
  | null
  | bool (value : Bool)
  | number (value : Number.Value)
  | text (value : String)
  | array (items : List Json)
  | object (fields : List (String × Json))
deriving Repr, Inhabited

namespace Json

/-! ## Looking in -/

/-- The value of a field; none when there is no such field or the value is no object. -/
def field? (value : Json) (name : String) : Option Json :=
  match value with
  | object fields => fields.lookup name
  | _ => none

/-- The fields of an object. -/
def fields? : Json → Option (Entries Json)
  | object fields => some fields
  | _ => none

/-- The items of an array. -/
def items? : Json → Option (List Json)
  | array items => some items
  | _ => none

/-- The text of a text value. -/
def text? : Json → Option String
  | text value => some value
  | _ => none

/-- The value of a Boolean. -/
def bool? : Json → Option Bool
  | bool value => some value
  | _ => none

/-- Whether the value is an object. -/
def isObject : Json → Bool
  | object _ => true
  | _ => false

/-- The text of a field. -/
def textAt? (value : Json) (name : String) : Option String := (value.field? name).bind text?

/-- The fields of the object in a field. -/
def fieldsAt? (value : Json) (name : String) : Option (Entries Json) :=
  (value.field? name).bind fields?

/-- The items of the array in a field. -/
def itemsAt? (value : Json) (name : String) : Option (List Json) := (value.field? name).bind items?

/-- The text of a field, unless it is empty. -/
def wordsAt? (value : Json) (name : String) : Option String :=
  (value.textAt? name).filter fun words => words ≠ ""

theorem sizeOf_of_lookup {fields : List (String × Json)} {name : String} {value : Json}
    (h_field : fields.lookup name = some value) : sizeOf value < sizeOf fields := by
  induction fields with
  | nil => simp at h_field
  | cons entry others ih =>
    obtain ⟨key, own⟩ := entry
    rw [List.lookup_cons] at h_field
    split at h_field
    · cases h_field
      simp only [List.cons.sizeOf_spec, Prod.mk.sizeOf_spec]
      omega
    · have := ih h_field
      simp only [List.cons.sizeOf_spec, Prod.mk.sizeOf_spec]
      omega

/-! ## Equality up to the order of fields -/

mutual

/-- Whether two values are equal, the order of fields left aside. -/
def same : Json → Json → Bool
  | null, null => true
  | bool a, bool b => a == b
  | number a, number b => a.same b
  | text a, text b => a == b
  | array as, array bs => sameItems as bs
  | object as, object bs => as.length == bs.length && sameFields as bs
  | _, _ => false

/-- Whether two lists have equal items. -/
def sameItems : List Json → List Json → Bool
  | [], [] => true
  | a :: as, b :: bs => same a b && sameItems as bs
  | _, _ => false

/-- Whether each field of the first list has an equal one of its name in the second. -/
def sameFields : List (String × Json) → List (String × Json) → Bool
  | [], _ => true
  | (name, a) :: as, bs =>
    (match bs.lookup name with
      | some b => same a b
      | none => false) && sameFields as bs

end

/-! ## Values that documents give -/

mutual

/-- Whether the fields of every object in the value have different names, as every reader of
    documents ensures. -/
def WellFormed : Json → Prop
  | array items => WellFormedItems items
  | object fields => (fields.map Prod.fst).Nodup ∧ WellFormedFields fields
  | _ => True

/-- The items of an array are well formed. -/
def WellFormedItems : List Json → Prop
  | [] => True
  | item :: items => WellFormed item ∧ WellFormedItems items

/-- The values of fields are well formed. -/
def WellFormedFields : List (String × Json) → Prop
  | [] => True
  | (_, value) :: fields => WellFormed value ∧ WellFormedFields fields

end

end Json

end OpenApiTs
