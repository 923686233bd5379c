/-
  OpenApiTs.Proofs.Endpoint.Layers

  Rules in layers, and what the rules of a table make of operations. Layers may be put together
  before they are laid over a table, or laid over it one after the other; either way a field has the
  rule of the last layer that has one. Operations are resolved each by itself, and a run ends at the
  first rule that fails.
-/
import OpenApiTs.Proofs.Generation.Success

namespace OpenApiTs

variable {resolver table : Resolver} {operation : Operation} {operations : List Operation}
  {endpoint : Endpoint} {endpoints : List Endpoint} {failure inner : Failure} {field : Field}

/-! ## Layers -/

namespace Resolver

theorem merge_extend (table : Resolver) (lower upper : Overrides) :
    table.merge (lower.extend upper) = (table.merge lower).merge upper := by
  funext field
  exact Option.getD_or

/-- Layers put together over a first one come to the same as layers laid over the table one by
    one. -/
theorem merge_foldl_extend (table : Resolver) (lowest : Overrides) (layers : List Overrides) :
    table.merge (layers.foldl Overrides.extend lowest) =
      layers.foldl merge (table.merge lowest) := by
  induction layers generalizing lowest with
  | nil => rfl
  | cons layer layers ih => rw [List.foldl_cons, List.foldl_cons, ih, merge_extend]

/-- Each field follows the last layer that has a rule for it, or the table. -/
theorem foldl_merge_apply (table : Resolver) (layers : List Overrides) (field : Field) :
    layers.foldl merge table field =
      ((layers.filterMap fun layer => layer field).getLast?).getD (table field) := by
  induction layers generalizing table with
  | nil => rfl
  | cons layer layers ih =>
    rw [List.foldl_cons, ih, List.filterMap_cons, merge]
    cases layer field with
    | none => rfl
    | some rule => rw [List.getLast?_cons, Option.getD_some, Option.getD_some]

/-! ## One operation -/

/-- Whether every rule has an answer for an operation. -/
def Answers (resolver : Resolver) (operation : Operation) : Prop :=
  ∀ field, ∃ text, resolver field operation = .ok text

/-- Whether the first rule that fails for an operation is that of a field, and why it fails. -/
def FailsFirst (resolver : Resolver) (operation : Operation) (field : Field) (failure : Failure) :
    Prop :=
  ∃ before after, Field.all = before ++ field :: after ∧
    (∀ earlier ∈ before, ∃ text, resolver earlier operation = .ok text) ∧
    resolver field operation = .error failure

/-- The rules of an operation are applied one after the other, in the order of the fields. -/
theorem resolve_alike (resolver : Resolver) (operation : Operation) :
    Outcome.Alike (fun endpoint texts => texts = Field.all.map endpoint.get)
      (resolver.resolve operation) (Field.all.mapM fun field => resolver field operation) := by
  simp only [resolve, Field.all, List.mapM_cons, List.mapM_nil, bind_assoc, pure_bind]
  iterate 11
    refine .bind (.refl (fun _ => rfl) _) ?_
    rintro text _ rfl
  exact .ok rfl

/-- An operation is resolved exactly when every field's rule answers. -/
theorem resolve_eq_ok_iff : resolver.resolve operation = .ok endpoint ↔
    ∀ field, resolver field operation = .ok (endpoint.get field) := by
  refine ⟨resolve_get, fun h_fields => ?_⟩
  simp only [resolve, h_fields]
  rfl

theorem exists_resolve_iff :
    (∃ endpoint, resolver.resolve operation = .ok endpoint) ↔ resolver.Answers operation := by
  rw [(resolve_alike resolver operation).exists_ok_iff]
  constructor
  · -- the fields are all in the list that is gone through
    rintro ⟨texts, h_texts⟩ field
    have h_field : field ∈ Field.all := by cases field <;> decide
    obtain ⟨text, -, h_text⟩ := Outcome.exists_mem_of_mapM h_texts h_field
    exact ⟨text, h_text⟩
  · intro h_answers
    exact Outcome.exists_mapM_of_forall fun field _ => h_answers field

/-- It fails with the first field, in their order, whose rule fails. -/
theorem resolve_eq_error_iff : resolver.resolve operation = .error failure ↔
    ∃ field, resolver.FailsFirst operation field failure := by
  rw [(resolve_alike resolver operation).eq_error_iff, Outcome.mapM_eq_error_iff]
  constructor
  · rintro ⟨before, field, after, h_all, h_before, h_field⟩
    exact ⟨field, before, after, h_all, h_before, h_field⟩
  · rintro ⟨field, before, after, h_all, h_before, h_field⟩
    exact ⟨before, field, after, h_all, h_before, h_field⟩

/-! ## Operations in order -/

theorem resolveNamed_eq_ok_iff :
    resolver.resolveNamed operation = .ok endpoint ↔ resolver.resolve operation = .ok endpoint := by
  refine ⟨resolve_of_named, fun h_resolve => ?_⟩
  rw [resolveNamed, h_resolve]
  rfl

theorem resolveNamed_eq_error_iff : resolver.resolveNamed operation = .error failure ↔
    ∃ inner, resolver.resolve operation = .error inner ∧
      failure = .resolve operation.method operation.url inner := by
  rw [resolveNamed]
  cases resolver.resolve operation with
  | ok endpoint => simp [Except.mapError]
  | error inner => simp [Except.mapError, eq_comm]

theorem resolveAll_eq_ok_iff : resolver.resolveAll operations = .ok endpoints ↔
    List.Forall₂ (fun operation endpoint =>
      ∀ field, resolver field operation = .ok (endpoint.get field)) operations endpoints := by
  simp only [resolveAll, Outcome.mapM_eq_ok_iff, resolveNamed_eq_ok_iff, resolve_eq_ok_iff]

theorem exists_resolveAll_iff : (∃ endpoints, resolver.resolveAll operations = .ok endpoints) ↔
    ∀ operation ∈ operations, resolver.Answers operation := by
  constructor
  · rintro ⟨endpoints, h_endpoints⟩ operation h_operation field
    obtain ⟨endpoint, -, h_endpoint⟩ := exists_endpoint h_endpoints h_operation
    exact ⟨endpoint.get field, h_endpoint field⟩
  · intro h_answers
    refine Outcome.exists_mapM_of_forall fun operation h_operation => ?_
    obtain ⟨endpoint, h_endpoint⟩ := exists_resolve_iff.mpr (h_answers operation h_operation)
    exact ⟨endpoint, resolveNamed_eq_ok_iff.mpr h_endpoint⟩

/-- Among operations the first that fails decides, and the failure names it. -/
theorem resolveAll_eq_error_iff : resolver.resolveAll operations = .error failure ↔
    ∃ before operation after field inner, operations = before ++ operation :: after ∧
      (∀ earlier ∈ before, resolver.Answers earlier) ∧
      resolver.FailsFirst operation field inner ∧
      failure = .resolve operation.method operation.url inner := by
  have h_named (earlier : Operation) :
      (∃ endpoint, resolver.resolveNamed earlier = .ok endpoint) ↔ resolver.Answers earlier := by
    simp only [resolveNamed_eq_ok_iff, exists_resolve_iff]
  simp only [resolveAll, Outcome.mapM_eq_error_iff, h_named, resolveNamed_eq_error_iff,
    resolve_eq_error_iff]
  constructor
  · rintro ⟨before, operation, after, h_operations, h_before, inner, ⟨field, h_field⟩, h_failure⟩
    exact ⟨before, operation, after, field, inner, h_operations, h_before, h_field, h_failure⟩
  · rintro ⟨before, operation, after, field, inner, h_operations, h_before, h_field, h_failure⟩
    exact ⟨before, operation, after, h_operations, h_before, inner, ⟨field, h_field⟩, h_failure⟩

/-! ## Tables with layers -/

/-- Layers of rules put together and laid over a table are the layers laid over it one after the
    other: each field has the rule of the last layer that has one, and that of the table when none
    has. With these rules operations are resolved in order, each from its own rules alone, exactly
    when every rule has an answer for each of them; else the run ends with the method and the url of
    the first operation for which a rule fails, and with the failure of the first of its fields. -/
theorem layers_resolve_in_order (table : Resolver) (layers : List Overrides)
    (operations : List Operation) :
    table.merge (layers.foldl Overrides.extend .none) = layers.foldl merge table ∧
      (∀ field, layers.foldl merge table field =
        ((layers.filterMap fun layer => layer field).getLast?).getD (table field)) ∧
      (∀ endpoints, (layers.foldl merge table).resolveAll operations = .ok endpoints ↔
        List.Forall₂ (fun operation endpoint => ∀ field,
          layers.foldl merge table field operation = .ok (endpoint.get field))
          operations endpoints) ∧
      ((∃ endpoints, (layers.foldl merge table).resolveAll operations = .ok endpoints) ↔
        ∀ operation ∈ operations, (layers.foldl merge table).Answers operation) ∧
      ∀ failure, (layers.foldl merge table).resolveAll operations = .error failure ↔
        ∃ before operation after field inner, operations = before ++ operation :: after ∧
          (∀ earlier ∈ before, (layers.foldl merge table).Answers earlier) ∧
          (layers.foldl merge table).FailsFirst operation field inner ∧
          failure = .resolve operation.method operation.url inner := by
  refine ⟨merge_foldl_extend table .none layers, foldl_merge_apply table layers, ?_, ?_, ?_⟩
  · exact fun endpoints => resolveAll_eq_ok_iff
  · exact exists_resolveAll_iff
  · exact fun failure => resolveAll_eq_error_iff

end Resolver

end OpenApiTs
