/-
  OpenApiTs.Proofs.Swagger.Operations

  What an operation has under each key once it is converted: the parameters that stay, the request
  body that the others make, and everything else as it was.
-/
import OpenApiTs.Proofs.Entries
import OpenApiTs.Proofs.Operation.Listed
import OpenApiTs.Swagger.Operation

namespace OpenApiTs.Swagger

variable {context : Context} {fields : Entries Json} {key : String}

/-! ## Stages -/

/-- The media types of the requests of an operation. -/
def Context.requestMedia (context : Context) (fields : Entries Json) : List String :=
  ownMedia fields "consumes" context.consumes

/-- What the parameters of an operation become. -/
def Context.slots (context : Context) (fields : Entries Json) : List Slot :=
  (((fields.lookup "parameters").bind Json.items?).getD []).map
    (context.slotOf (context.requestMedia fields))

/-- The fields of an operation that keep their places. -/
def Context.kept (context : Context) (fields : Entries Json) : Entries Json :=
  fields.filterMap (keptField? (ownMedia fields "produces" context.produces))

/-- The parameters that stay, if there are any. -/
def stayingParameters? (slots : List Slot) : Option Json :=
  match slots.filterMap Slot.parameter? with
  | [] => none
  | parameters => some (.array parameters)

/-- The fields of a converted operation but for its request body. -/
def Context.withoutBody (context : Context) (fields : Entries Json) : Entries Json :=
  match stayingParameters? (context.slots fields) with
  | some parameters => Entries.put (context.kept fields) "parameters" parameters
  | none => context.kept fields

theorem convertOperation_eq (context : Context) (fields : Entries Json) :
    context.convertOperation fields =
      match requestBody? (context.slots fields) (context.requestMedia fields) with
      | some body => Entries.put (context.withoutBody fields) "requestBody" body
      | none => context.withoutBody fields := by
  have h_staying : context.withoutBody fields =
      match (context.slots fields).filterMap Slot.parameter? with
      | [] => context.kept fields
      | parameters => Entries.put (context.kept fields) "parameters" (.array parameters) := by
    -- no list of parameters is written when none stays
    rw [Context.withoutBody, stayingParameters?]
    cases (context.slots fields).filterMap Slot.parameter? with
    | nil => rfl
    | cons parameter parameters => rfl
  rw [h_staying]
  rfl

/-! ## Keys -/

theorem key_of_keptField? {produces : List String} (entry own : String × Json)
    (h_kept : keptField? produces entry = some own) : own.1 = entry.1 := by
  rw [keptField?] at h_kept
  split at h_kept
  · cases h_kept
  · split at h_kept
    · cases h_kept
      rfl
    · cases h_kept
      rfl

/-- A field outside the five that are treated on their own is kept as it is. -/
theorem lookup_kept
    (h_key : key ∉ ["consumes", "produces", "schemes", "parameters", "responses"]) :
    (context.kept fields).lookup key = fields.lookup key := by
  have h_kept (value : Json) : keptField? (ownMedia fields "produces" context.produces)
      (key, value) = some (key, id value) := by
    simp only [List.mem_cons, List.not_mem_nil, or_false, not_or] at h_key
    simp [keptField?, h_key]
  rw [Context.kept, Entries.lookup_filterMap key_of_keptField? h_kept, Option.map_id]
  rfl

theorem lookup_kept_parameters : (context.kept fields).lookup "parameters" = none :=
  Entries.lookup_filterMap_of_none key_of_keptField? (fun _ => rfl) fields

/-- Without its body an operation has the parameters that stay, and the other kept fields. -/
theorem lookup_withoutBody (key : String) :
    (context.withoutBody fields).lookup key =
      if key = "parameters" then stayingParameters? (context.slots fields)
      else (context.kept fields).lookup key := by
  rw [Context.withoutBody]
  split
  · next h_staying => rw [Entries.lookup_put, h_staying]
  · next h_none =>
    split
    · next h_key => rw [h_key, h_none, lookup_kept_parameters]
    · rfl

/-- The request body of a converted operation is the one that its parameters make, else one that it
    had. -/
theorem lookup_convertOperation_body :
    (context.convertOperation fields).lookup "requestBody" =
      (requestBody? (context.slots fields) (context.requestMedia fields)).or
        (fields.lookup "requestBody") := by
  have h_own : (context.withoutBody fields).lookup "requestBody" = fields.lookup "requestBody" := by
    rw [lookup_withoutBody, if_neg (by decide), lookup_kept (by decide)]
  rw [convertOperation_eq]
  split
  · next body h_body => rw [Entries.lookup_put, if_pos rfl, h_body, Option.some_or]
  · next h_none => rw [h_own, h_none, Option.none_or]

theorem lookup_convertOperation_of_ne (h_key : key ≠ "requestBody") :
    (context.convertOperation fields).lookup key = (context.withoutBody fields).lookup key := by
  rw [convertOperation_eq]
  split
  · rw [Entries.lookup_put, if_neg h_key]
  · rfl

/-- The parameters of a converted operation are those that stay. -/
theorem lookup_convertOperation_parameters :
    (context.convertOperation fields).lookup "parameters" =
      stayingParameters? (context.slots fields) := by
  rw [lookup_convertOperation_of_ne (by decide), lookup_withoutBody, if_pos rfl]

/-- Keys that the conversion does not know keep their values. -/
theorem lookup_convertOperation (h_key : key ∉
      ["consumes", "produces", "schemes", "parameters", "responses", "requestBody"]) :
    (context.convertOperation fields).lookup key = fields.lookup key := by
  simp only [List.mem_cons, List.not_mem_nil, or_false, not_or] at h_key
  rw [lookup_convertOperation_of_ne h_key.2.2.2.2.2, lookup_withoutBody,
    if_neg h_key.2.2.2.1, lookup_kept (by simp [h_key])]

end OpenApiTs.Swagger
