/-
  OpenApiTs.Proofs.Operation.Listed

  The operations of a document as it lists them, path by path and method by method, before anything
  is read from their fields. Extraction takes each listed operation by itself, so what is done to a
  document can be followed operation by operation.
-/
import OpenApiTs.Operation.Extract

namespace OpenApiTs

/-! ## Methods -/

namespace Method

variable {method : Method} {key : String}

theorem ofKey?_key (method : Method) : ofKey? method.key = some method := by
  cases method <;> rfl

/-- A method is read from its own key only. -/
theorem ofKey?_eq_some_iff : ofKey? key = some method ↔ key = method.key := by
  constructor
  · intro h_found
    have h_same := List.find?_some h_found
    exact (beq_iff_eq.mp h_same).symm
  · rintro rfl
    exact ofKey?_key method

end Method

/-! ## Locations -/

theorem Location.ofWord?_eq_some_iff {word : String} {location : Location} :
    ofWord? word = some location ↔ word = location.word := by
  constructor
  · intro h_found
    have h_same := List.find?_some h_found
    exact (beq_iff_eq.mp h_same).symm
  · rintro rfl
    cases location <;> rfl

/-! ## Listed operations -/

/-- One method of one path as a document has it, with the parameters that the path shares. -/
structure Listed where
  url : String
  method : Method
  shared : Option Json
  fields : Entries Json

namespace Listed

/-- The operation under one key of a path: none when the key is no method or its value no object. -/
def ofField? (url : String) (shared : Option Json) (entry : String × Json) : Option Listed := do
  let method ← Method.ofKey? entry.1
  let fields ← entry.2.fields?
  return ⟨url, method, shared, fields⟩

/-- The operations under the fields of a path. -/
def ofFields (url : String) (fields : Entries Json) : List Listed :=
  fields.filterMap (ofField? url (fields.lookup "parameters"))

/-- The operations of a document, in order. -/
def ofDocument (document : Json) : List Listed :=
  ((document.fieldsAt? "paths").getD []).flatMap fun path =>
    ofFields path.1 (path.2.fields?.getD [])

/-- What is extracted of a listed operation. -/
def operation (listed : Listed) : Operation :=
  Operation.ofFields listed.url listed.method listed.shared listed.fields

/-- The path and the method of a listed operation. -/
def address (listed : Listed) : String × String := (listed.url, listed.method.key)

/-- The parameters of a listed operation as they stand in the document. -/
def parameters (listed : Listed) : List Json :=
  ((listed.fields.lookup "parameters").bind Json.items?).getD []

/-- The parameters that the path of a listed operation shares, as they stand in the document. -/
def sharedParameters (listed : Listed) : List Json :=
  (listed.shared.bind Json.items?).getD []

end Listed

/-- The path and the method of an operation. -/
def Operation.address (operation : Operation) : String × String := (operation.url, operation.method)

/-- The parameters of an operation in one location. -/
def Operation.placed (operation : Operation) : Location → List Parameter
  | .path => operation.path
  | .query => operation.query
  | .header => operation.header
  | .cookie => operation.cookie

/-! ## Extraction -/

namespace Listed

/-- The parameters in one location are those of the merged lists that name it. -/
theorem placed_operation (listed : Listed) (location : Location) :
    listed.operation.placed location =
      (Parameter.merge (Parameter.listOf listed.shared)
        (Parameter.listOf (listed.fields.lookup "parameters"))).filter fun parameter =>
          parameter.location == location := by
  cases location <;> rfl

/-- The operations of a path are those listed for its fields, with their parameters merged. -/
theorem listOfPath_eq (url : String) (path : Json) :
    Operation.listOfPath url path = (ofFields url (path.fields?.getD [])).map operation := by
  have h_shared : path.field? "parameters" = (path.fields?.getD []).lookup "parameters" := by
    cases path <;> rfl
  rw [Operation.listOfPath, ofFields, List.map_filterMap, h_shared]
  -- both go over the same fields, so they are compared field by field
  congr 1
  funext entry
  rw [Operation.ofMethodKey?, ofField?]
  cases Method.ofKey? entry.1 with
  | none => rfl
  | some method =>
    cases entry.2.fields? with
    | none => rfl
    | some own => rfl

/-- The operations of a document are what is extracted of each one that it lists. -/
theorem listOfDocument_eq (document : Json) :
    Operation.listOfDocument document = (ofDocument document).map operation := by
  rw [Operation.listOfDocument, ofDocument, List.map_flatMap]
  congr 1
  funext path
  exact listOfPath_eq path.1 path.2

end Listed

end OpenApiTs
