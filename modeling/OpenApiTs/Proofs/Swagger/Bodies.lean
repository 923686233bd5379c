/-
  OpenApiTs.Proofs.Swagger.Bodies

  Which operations have a request body once a document is upgraded. The parameters of the operation
  itself make one; those that its path shares never do, since the conversion of a path only takes
  the bodies out of them.
-/
import OpenApiTs.Proofs.Swagger.Operations
import OpenApiTs.Proofs.Swagger.Upgraded

namespace OpenApiTs

/-- Whether a listed operation has a request body. -/
def Listed.HasBody (listed : Listed) : Prop :=
  (listed.fields.lookup "requestBody").isSome = true

namespace Swagger

variable {context : Context} {document upgraded parameter : Json} {consumes : List String}
  {slots : List Slot} {target : String}

/-! ## Parameters that stand for a body -/

/-- Whether a target is a shared parameter that is a body. -/
def Context.LeadsToBody (context : Context) (target : String) : Prop :=
  ∃ name shared, target = parameterRoot ++ name ∧
    (context.parameters.bind fun parameters => parameters.field? name) = some shared ∧
    shared.textAt? "in" = some "body"

/-- Whether a parameter is a body, by its own words or as a reference to a shared one. -/
def Context.IsBody (context : Context) (parameter : Json) : Prop :=
  match Reference.target? parameter with
  | some target => context.LeadsToBody target
  | none => parameter.textAt? "in" = some "body"

/-- Whether a parameter is a field of a form. -/
def IsFormField (parameter : Json) : Prop :=
  Reference.target? parameter = none ∧ parameter.textAt? "in" = some "formData"

/-- Whether an operation declares a body, itself or through its path. -/
def Context.DeclaresBody (context : Context) (listed : Listed) : Prop :=
  ∃ parameter ∈ listed.parameters ++ listed.sharedParameters, context.IsBody parameter

/-- Whether an operation itself brings what a request body is made of. -/
def Context.BringsBody (context : Context) (listed : Listed) : Prop :=
  (∃ parameter ∈ listed.parameters, context.IsBody parameter ∨ IsFormField parameter) ∨
    listed.HasBody

/-- Whether an operation brings a body itself in case its path shares one. -/
def Context.BringsShared (context : Context) (listed : Listed) : Prop :=
  (∃ parameter ∈ listed.sharedParameters, context.IsBody parameter) → context.BringsBody listed

theorem isSome_sharedBody?_iff :
    (context.sharedBody? target).isSome = true ↔ context.LeadsToBody target := by
  rw [Option.isSome_iff_exists]
  constructor
  · rintro ⟨own, h_own⟩
    obtain ⟨name, h_name, h_own⟩ := Option.bind_eq_some_iff.mp h_own
    obtain ⟨parameters, h_parameters, h_own⟩ := Option.bind_eq_some_iff.mp h_own
    obtain ⟨shared, h_shared, h_own⟩ := Option.bind_eq_some_iff.mp h_own
    refine ⟨name, shared, Text.after?_eq_some_iff.mp h_name,
      Option.bind_eq_some_iff.mpr ⟨parameters, h_parameters, h_shared⟩, ?_⟩
    by_contra h_in
    rw [if_neg h_in] at h_own
    cases h_own
  · rintro ⟨name, shared, h_target, h_shared, h_in⟩
    obtain ⟨parameters, h_parameters, h_field⟩ := Option.bind_eq_some_iff.mp h_shared
    refine ⟨name, Option.bind_eq_some_iff.mpr ⟨name, Text.after?_eq_some_iff.mpr h_target, ?_⟩⟩
    refine Option.bind_eq_some_iff.mpr ⟨parameters, h_parameters, ?_⟩
    exact Option.bind_eq_some_iff.mpr ⟨shared, h_field, if_pos h_in⟩

/-! ## Slots -/

/-- Sorting takes for a body exactly what is declared as one, directly or through a reference to a
    shared parameter. -/
theorem isSome_body?_slotOf_iff :
    (context.slotOf consumes parameter).body?.isSome = true ↔ context.IsBody parameter := by
  rw [Context.slotOf, Context.IsBody]
  -- the sorting follows a reference first and reads `in` only of a direct parameter
  cases Reference.target? parameter with
  | some target =>
    simp only [← isSome_sharedBody?_iff]
    cases context.sharedBody? target <;> simp [Slot.body?]
  | none =>
    simp only
    split <;> simp_all [Slot.body?]

theorem isSome_form?_slotOf_iff :
    (context.slotOf consumes parameter).form?.isSome = true ↔ IsFormField parameter := by
  rw [Context.slotOf, IsFormField]
  cases Reference.target? parameter with
  | some target =>
    simp only
    cases context.sharedBody? target <;> simp [Slot.form?]
  | none =>
    simp only
    split <;> simp_all [Slot.form?]

/-- There is a request body when some slot is a body or a form field. -/
theorem isSome_requestBody?_iff :
    (requestBody? slots consumes).isSome = true ↔
      ∃ slot ∈ slots, slot.body?.isSome = true ∨ slot.form?.isSome = true := by
  rw [requestBody?]
  -- a body is taken before the form, so the form is looked at only when there is none
  split
  · next body h_last =>
    obtain ⟨slot, h_slot, h_body⟩ := List.mem_filterMap.mp (List.mem_of_getLast? h_last)
    exact iff_of_true rfl ⟨slot, h_slot, .inl (Option.isSome_of_eq_some h_body)⟩
  · next h_last =>
    have h_bodies := List.filterMap_eq_nil_iff.mp (List.getLast?_eq_none_iff.mp h_last)
    split
    · next h_none =>
      have h_forms := List.filterMap_eq_nil_iff.mp h_none
      refine iff_of_false Bool.false_ne_true ?_
      rintro ⟨slot, h_slot, h_body | h_form⟩
      · rw [h_bodies slot h_slot] at h_body
        cases h_body
      · rw [h_forms slot h_slot] at h_form
        cases h_form
    · next h_some =>
      obtain ⟨field, h_field⟩ := List.exists_mem_of_ne_nil _ h_some
      obtain ⟨slot, h_slot, h_form⟩ := List.mem_filterMap.mp h_field
      exact iff_of_true rfl ⟨slot, h_slot, .inr (Option.isSome_of_eq_some h_form)⟩

/-! ## Operations -/

/-- A converted operation has a request body exactly when it brings one itself. -/
theorem hasBody_convertListed_iff (context : Context) (listed : Listed) :
    (context.convertListed listed).HasBody ↔ context.BringsBody listed := by
  have h_slots : (∃ slot ∈ context.slots listed.fields,
      slot.body?.isSome = true ∨ slot.form?.isSome = true) ↔
        ∃ parameter ∈ listed.parameters, context.IsBody parameter ∨ IsFormField parameter := by
    simp only [Context.slots, List.mem_map, exists_exists_and_eq_and, isSome_body?_slotOf_iff,
      isSome_form?_slotOf_iff]
    rfl
  rw [Listed.HasBody, Context.convertListed, lookup_movedUnder, Option.isSome_map,
    lookup_convertOperation_body, Option.isSome_or, Bool.or_eq_true, isSome_requestBody?_iff,
    h_slots]
  rfl

theorem declaresBody_iff {listed : Listed} : context.DeclaresBody listed ↔
    (∃ parameter ∈ listed.parameters, context.IsBody parameter) ∨
      ∃ parameter ∈ listed.sharedParameters, context.IsBody parameter := by
  simp only [Context.DeclaresBody, List.mem_append, or_and_right, exists_or]

/-- Only the bodies of a path are at stake: one that the operation declares itself is always
    brought. -/
theorem declared_kept_iff {listed : Listed} :
    (context.DeclaresBody listed → context.BringsBody listed) ↔ context.BringsShared listed := by
  rw [declaresBody_iff, Context.BringsShared]
  constructor
  · exact fun h_kept h_shared => h_kept (.inr h_shared)
  · rintro h_shared (⟨parameter, h_own, h_body⟩ | h_declared)
    · exact .inl ⟨parameter, h_own, .inl h_body⟩
    · exact h_shared h_declared

/-! ## Documents -/

/-- An upgraded operation has a request body exactly when it brings one itself. So the bodies that
    operations declare are all kept exactly when each one whose path shares a body brings one. -/
theorem bodies_kept_iff (h_swagger : IsSwagger document)
    (h_upgrade : upgrade document = .ok upgraded) :
    List.Forall₂ (fun listed later => later.address = listed.address ∧
        (later.HasBody ↔ (Context.ofDocument document).BringsBody listed))
      (Listed.ofDocument document) (Listed.ofDocument upgraded) ∧
    (List.Forall₂ (fun listed later => (Context.ofDocument document).DeclaresBody listed →
          later.HasBody) (Listed.ofDocument document) (Listed.ofDocument upgraded) ↔
      ∀ listed ∈ Listed.ofDocument document,
        (Context.ofDocument document).BringsShared listed) := by
  -- both lists are over the same operations, so the two relations are compared one by one
  rw [ofDocument_upgraded h_swagger h_upgrade, List.forall₂_map_right_iff,
    List.forall₂_map_right_iff, List.forall₂_same, List.forall₂_same]
  constructor
  · exact fun listed _ => ⟨rfl, hasBody_convertListed_iff _ listed⟩
  · apply forall₂_congr
    intro listed _
    rw [hasBody_convertListed_iff, declared_kept_iff]

/-- A body parameter. -/
def petParameter : Json :=
  .object [("name", .text "pet"), ("in", .text "body"), ("schema", .object [])]

/-- A document with one operation, its path and itself with parameters. -/
def bodyDocument (shared own : List Json) : Json :=
  .object [("swagger", .text "2.0"), ("paths", .object [("/pets", .object
    [("parameters", .array shared), ("post", .object [("parameters", .array own)])])])]

/-- The document once it is upgraded and nothing is left of the parameters but a body. -/
def upgradedBody (body : Option Json) : Json :=
  .object [("openapi", .text "3.0.0"), ("info", .object []), ("paths", .object [("/pets", .object
    [("parameters", .array []), ("post", .object (optionalField "requestBody" body))])]),
    ("components", .object [])]

/-- The body that the parameter makes. -/
def petBody : Json :=
  .object [("content", .object [("application/json", .object [("schema", .object [])])])]

theorem own_body_kept :
    IsSwagger (bodyDocument [] [petParameter]) ∧
      upgrade (bodyDocument [] [petParameter]) = .ok (upgradedBody (some petBody)) ∧
      ∀ listed ∈ Listed.ofDocument (bodyDocument [] [petParameter]),
        (Context.ofDocument (bodyDocument [] [petParameter])).BringsShared listed := by
  have h_swagger : IsSwagger (bodyDocument [] [petParameter]) := ⟨rfl, rfl⟩
  have h_upgrade : upgrade (bodyDocument [] [petParameter]) =
      .ok (upgradedBody (some petBody)) := by rfl
  refine ⟨h_swagger, h_upgrade, (bodies_kept_iff h_swagger h_upgrade).2.mp ?_⟩
  exact .cons (fun _ => rfl) .nil

/-- A body that a path shares is lost. -/
theorem shared_body_lost :
    IsSwagger (bodyDocument [petParameter] []) ∧
      upgrade (bodyDocument [petParameter] []) = .ok (upgradedBody none) ∧
      (∀ listed ∈ Listed.ofDocument (bodyDocument [petParameter] []),
        (Context.ofDocument (bodyDocument [petParameter] [])).DeclaresBody listed) ∧
      ∃ later ∈ Listed.ofDocument (upgradedBody none), ¬ later.HasBody := by
  have h_listed : Listed.ofDocument (bodyDocument [petParameter] []) =
      [⟨"/pets", .post, some (.array [petParameter]), [("parameters", .array [])]⟩] := rfl
  refine ⟨⟨rfl, rfl⟩, by rfl, ?_, ⟨"/pets", .post, some (.array []), []⟩,
    List.mem_singleton_self _, Bool.false_ne_true⟩
  rw [h_listed]
  intro listed h_only
  rw [List.mem_singleton.mp h_only]
  exact ⟨petParameter, List.mem_singleton_self petParameter, rfl⟩

end Swagger

end OpenApiTs
