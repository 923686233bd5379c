/-
  OpenApiTs.Proofs.Outcome

  Outcomes of steps that may fail: a sequence of steps succeeds when each of them does, and two
  sequences have corresponding outcomes when their steps do.
-/
import Mathlib.Data.List.Forall2

namespace OpenApiTs.Outcome

variable {ε α β : Type}

/-- A step and the rest succeed exactly when each of them does. -/
theorem bind_eq_ok_iff {first : Except ε α} {next : α → Except ε β} {result : β} :
    (first >>= next) = .ok result ↔ ∃ value, first = .ok value ∧ next value = .ok result := by
  cases first with
  | error fault => simp [bind, Except.bind]
  | ok value => simp [bind, Except.bind]

/-- They fail in the first step, or behind it in the second. -/
theorem bind_eq_error_iff {first : Except ε α} {next : α → Except ε β} {fault : ε} :
    (first >>= next) = .error fault ↔
      first = .error fault ∨ ∃ value, first = .ok value ∧ next value = .error fault := by
  cases first with
  | error fault => simp [bind, Except.bind]
  | ok value => simp [bind, Except.bind]

theorem map_eq_ok_iff {outcome : Except ε α} {f : α → β} {result : β} :
    outcome.map f = .ok result ↔ ∃ value, outcome = .ok value ∧ f value = result := by
  cases outcome with
  | error fault => simp [Except.map]
  | ok value => simp [Except.map]

/-- A loop succeeds exactly when each item does, with the results in order. -/
theorem mapM_eq_ok_iff {f : α → Except ε β} {items : List α} {results : List β} :
    items.mapM f = .ok results ↔
      List.Forall₂ (fun item result => f item = .ok result) items results := by
  induction items generalizing results with
  | nil =>
    rw [List.mapM_nil, List.forall₂_nil_left_iff]
    exact ⟨fun h => (Except.ok.inj h).symm, fun h => congrArg Except.ok h.symm⟩
  | cons item items ih =>
    rw [List.mapM_cons, bind_eq_ok_iff, List.forall₂_cons_left_iff]
    constructor
    · rintro ⟨result, h_result, h_rest⟩
      obtain ⟨others, h_others, h_eq⟩ := bind_eq_ok_iff.mp h_rest
      exact ⟨result, others, h_result, ih.mp h_others, (Except.ok.inj h_eq).symm⟩
    · rintro ⟨result, others, h_result, h_others, rfl⟩
      exact ⟨result, h_result, bind_eq_ok_iff.mpr ⟨others, ih.mpr h_others, rfl⟩⟩

/-- Steps that each succeed succeed one after the other. -/
theorem exists_mapM_of_forall {f : α → Except ε β} {items : List α}
    (h_each : ∀ item ∈ items, ∃ result, f item = .ok result) :
    ∃ results, items.mapM f = .ok results := by
  induction items with
  | nil => exact ⟨[], rfl⟩
  | cons item items ih =>
    rw [List.forall_mem_cons] at h_each
    obtain ⟨⟨result, h_result⟩, h_others⟩ := h_each
    obtain ⟨results, h_results⟩ := ih h_others
    refine ⟨result :: results, mapM_eq_ok_iff.mpr ?_⟩
    exact List.Forall₂.cons h_result (mapM_eq_ok_iff.mp h_results)

/-- Each item of a list has a partner in a list that matches it item by item. -/
theorem exists_partner {R : α → β → Prop} {items : List α} {results : List β}
    (h_match : List.Forall₂ R items results) {item : α} (h_item : item ∈ items) :
    ∃ result ∈ results, R item result := by
  induction h_match with
  | nil => simp at h_item
  | cons h_head _ ih =>
    rcases List.mem_cons.mp h_item with rfl | h_item
    · exact ⟨_, by simp, h_head⟩
    · obtain ⟨result, h_mem, h_result⟩ := ih h_item
      exact ⟨result, List.mem_cons_of_mem _ h_mem, h_result⟩

/-- The item at a place has its partner at the same place. -/
theorem exists_split_partner {R : α → β → Prop} {front back : List α} {item : α} {results : List β}
    (h_match : List.Forall₂ R (front ++ item :: back) results) :
    ∃ front' result back', results = front' ++ result :: back' ∧ front'.length = front.length ∧
      back'.length = back.length ∧ R item result := by
  induction front generalizing results with
  | nil =>
    obtain ⟨result, back', h_item, h_back, rfl⟩ := List.forall₂_cons_left_iff.mp h_match
    exact ⟨[], result, back', rfl, rfl, h_back.length_eq.symm, h_item⟩
  | cons first front ih =>
    obtain ⟨first', others, -, h_others, rfl⟩ := List.forall₂_cons_left_iff.mp h_match
    obtain ⟨front', result, back', rfl, h_front, h_back, h_item⟩ := ih h_others
    exact ⟨first' :: front', result, back', rfl, congrArg Nat.succ h_front, h_back, h_item⟩

/-- What a step gives for each item is among the results. -/
theorem exists_mem_of_mapM {f : α → Except ε β} {items : List α} {results : List β}
    (h_all : items.mapM f = .ok results) {item : α} (h_item : item ∈ items) :
    ∃ result ∈ results, f item = .ok result :=
  exists_partner (mapM_eq_ok_iff.mp h_all) h_item

/-- Every result is what the step gives for some item. -/
theorem exists_item_of_mapM {f : α → Except ε β} {items : List α} {results : List β}
    (h_all : items.mapM f = .ok results) {result : β} (h_result : result ∈ results) :
    ∃ item ∈ items, f item = .ok result :=
  exists_partner (mapM_eq_ok_iff.mp h_all).flip h_result

/-- A sequence of steps fails where the first of them fails. -/
theorem mapM_eq_error_iff {f : α → Except ε β} {items : List α} {fault : ε} :
    items.mapM f = .error fault ↔ ∃ before item after, items = before ++ item :: after ∧
      (∀ earlier ∈ before, ∃ result, f earlier = .ok result) ∧ f item = .error fault := by
  induction items with
  | nil =>
    rw [List.mapM_nil]
    simp [pure, Except.pure]
  | cons first items ih =>
    rw [List.mapM_cons]
    -- the first item fails, and then no other counts, or it is one of the earlier ones that do not
    cases h_first : f first with
    | error own =>
      constructor
      · intro h_fails
        obtain rfl := Except.error.inj h_fails
        exact ⟨[], first, items, rfl, by simp, h_first⟩
      · rintro ⟨before, item, after, h_items, h_before, h_item⟩
        rcases List.cons_eq_append_iff.mp h_items with ⟨rfl, h_eq⟩ | ⟨others, rfl, -⟩
        · obtain ⟨rfl, -⟩ := List.cons.inj h_eq
          rw [h_first] at h_item
          exact congrArg Except.error (Except.error.inj h_item)
        · obtain ⟨result, h_result⟩ := h_before first List.mem_cons_self
          cases h_first.symm.trans h_result
    | ok result =>
      have h_rest : (do let others ← items.mapM f; pure (result :: others)) = .error fault ↔
          items.mapM f = .error fault := by
        rw [bind_eq_error_iff]
        simp [pure, Except.pure]
      refine h_rest.trans (ih.trans ⟨?_, ?_⟩)
      · rintro ⟨before, item, after, rfl, h_before, h_item⟩
        refine ⟨first :: before, item, after, rfl, ?_, h_item⟩
        rw [List.forall_mem_cons]
        exact ⟨⟨result, h_first⟩, h_before⟩
      · rintro ⟨before, item, after, h_items, h_before, h_item⟩
        rcases List.cons_eq_append_iff.mp h_items with ⟨rfl, h_eq⟩ | ⟨others, rfl, rfl⟩
        · obtain ⟨rfl, -⟩ := List.cons.inj h_eq
          cases h_first.symm.trans h_item
        · rw [List.forall_mem_cons] at h_before
          exact ⟨others, item, after, rfl, h_before.2, h_item⟩

/-- A sequence of steps fails for what one of them fails for. -/
theorem exists_of_mapM_error {f : α → Except ε β} {items : List α} {fault : ε}
    (h_fails : items.mapM f = .error fault) : ∃ item ∈ items, f item = .error fault := by
  obtain ⟨before, item, after, rfl, -, h_item⟩ := mapM_eq_error_iff.mp h_fails
  exact ⟨item, by simp, h_item⟩

/-- A step that fails makes the sequence fail. -/
theorem mapM_fails {f : α → Except ε β} {items : List α} {item : α} (h_item : item ∈ items)
    (h_fails : ∃ fault, f item = .error fault) : ∃ fault, items.mapM f = .error fault := by
  cases h_all : items.mapM f with
  | error fault => exact ⟨fault, rfl⟩
  | ok results =>
    obtain ⟨result, -, h_result⟩ := exists_mem_of_mapM h_all h_item
    obtain ⟨fault, h_fault⟩ := h_fails
    cases h_result.symm.trans h_fault

theorem eq_ok_of_toOption {outcome : Except ε α} {result : α}
    (h_result : outcome.toOption = some result) : outcome = .ok result := by
  cases outcome with
  | error fault => cases h_result
  | ok own => exact congrArg Except.ok (Option.some.inj h_result)

/-- An outcome whose result is to pass a check, and does, is a result. -/
theorem exists_ok_of_any {outcome : Except ε α} {check : α → Bool}
    (h_passes : outcome.toOption.any check = true) :
    ∃ result, outcome = .ok result ∧ check result = true := by
  cases outcome with
  | error fault => cases h_passes
  | ok result => exact ⟨result, rfl, h_passes⟩

/-- Values that may be absent are related when both are absent, or both are there and related. -/
theorem rel_cases {R : α → β → Prop} {held : Option α} {held' : Option β}
    (h_held : Option.Rel R held held') :
    held = none ∧ held' = none ∨
      ∃ value value', held = some value ∧ held' = some value' ∧ R value value' := by
  cases h_held with
  | none => exact .inl ⟨rfl, rfl⟩
  | some h_values => exact .inr ⟨_, _, rfl, rfl, h_values⟩

/-! ## Results with a property -/

/-- Whether the result of an outcome, if there is one, has a property. -/
def Yields (P : α → Prop) (outcome : Except ε α) : Prop := ∀ result, outcome = .ok result → P result

namespace Yields

variable {P : α → Prop} {Q : β → Prop}

theorem ok {result : α} (h_result : P result) : Yields P (.ok result : Except ε α) := by
  rintro _ ⟨⟩
  exact h_result

theorem error (fault : ε) : Yields P (.error fault : Except ε α) := nofun

theorem bind {first : Except ε α} {next : α → Except ε β} (h_first : Yields P first)
    (h_next : ∀ result, P result → Yields Q (next result)) : Yields Q (first >>= next) := by
  intro result h_result
  obtain ⟨value, h_value, h_rest⟩ := bind_eq_ok_iff.mp h_result
  exact h_next value (h_first value h_value) result h_rest

theorem mapM {f : β → Except ε α} {items : List β} (h_each : ∀ item ∈ items, Yields P (f item)) :
    Yields (fun results => ∀ result ∈ results, P result) (items.mapM f) := by
  intro results h_results result h_result
  obtain ⟨item, h_item, h_own⟩ := exists_item_of_mapM h_results h_result
  exact h_each item h_item result h_own

end Yields

/-! ## Outcomes that correspond -/

/-- Whether two outcomes correspond: both are failures for the same reason, or both are results, and
    `R` relates these. -/
inductive Alike (R : α → β → Prop) : Except ε α → Except ε β → Prop where
  | error (fault : ε) : Alike R (.error fault) (.error fault)
  | ok {result : α} {other : β} (h_results : R result other) : Alike R (.ok result) (.ok other)

namespace Alike

variable {γ δ : Type} {R : α → β → Prop} {S : γ → δ → Prop}

theorem refl {R : α → α → Prop} (h_refl : ∀ result, R result result) (outcome : Except ε α) :
    Alike R outcome outcome := by
  cases outcome with
  | error fault => exact .error fault
  | ok result => exact .ok (h_refl result)

theorem bind {first : Except ε α} {second : Except ε β} {next : α → Except ε γ}
    {follow : β → Except ε δ} (h_first : Alike R first second)
    (h_next : ∀ result other, R result other → Alike S (next result) (follow other)) :
    Alike S (first >>= next) (second >>= follow) := by
  cases h_first with
  | error fault => exact .error fault
  | ok h_results => exact h_next _ _ h_results

/-- What relates the results may use where they come from. -/
theorem mono {S : α → β → Prop} {first : Except ε α} {second : Except ε β}
    (h_alike : Alike R first second)
    (h_results : ∀ result other, first = .ok result → R result other → S result other) :
    Alike S first second := by
  cases h_alike with
  | error fault => exact .error fault
  | ok h_related => exact .ok (h_results _ _ rfl h_related)

theorem eq_error_iff {first : Except ε α} {second : Except ε β} {fault : ε}
    (h_alike : Alike R first second) :
    first = .error fault ↔ second = .error fault := by
  cases h_alike with
  | error own => simp
  | ok h_results => simp

theorem exists_ok_iff {first : Except ε α} {second : Except ε β}
    (h_alike : Alike R first second) :
    (∃ result, first = .ok result) ↔ ∃ other, second = .ok other := by
  cases h_alike with
  | error fault => simp
  | ok h_results => simp

/-- Steps that correspond item by item give lists that do. -/
theorem mapM {f : γ → Except ε α} {g : γ → Except ε β} {items : List γ}
    (h_each : ∀ item ∈ items, Alike R (f item) (g item)) :
    Alike (List.Forall₂ R) (items.mapM f) (items.mapM g) := by
  induction items with
  | nil => exact .ok .nil
  | cons item items ih =>
    rw [List.forall_mem_cons] at h_each
    rw [List.mapM_cons, List.mapM_cons]
    apply bind h_each.1
    intro result other h_results
    apply bind (ih h_each.2)
    intro results others h_rest
    exact .ok (.cons h_results h_rest)

end Alike

/-- Whether two outcomes correspond, where failures need not be the same either: `E` relates two
    failures, `R` two results. -/
inductive Corresponds {ε' : Type} (E : ε → ε' → Prop) (R : α → β → Prop) :
    Except ε α → Except ε' β → Prop where
  | error {fault : ε} {fault' : ε'} (h_faults : E fault fault') :
      Corresponds E R (.error fault) (.error fault')
  | ok {result : α} {result' : β} (h_results : R result result') :
      Corresponds E R (.ok result) (.ok result')

namespace Corresponds

variable {ε' γ δ : Type} {E : ε → ε' → Prop} {R : α → β → Prop} {S : γ → δ → Prop}

theorem exists_ok {first : Except ε α} {second : Except ε' β} {result : α}
    (h_outcomes : Corresponds E R first second) (h_first : first = .ok result) :
    ∃ result', second = .ok result' ∧ R result result' := by
  cases h_outcomes with
  | error h_faults => cases h_first
  | ok h_results =>
    cases h_first
    exact ⟨_, rfl, h_results⟩

theorem exists_error {first : Except ε α} {second : Except ε' β} {fault : ε}
    (h_outcomes : Corresponds E R first second) (h_first : first = .error fault) :
    ∃ fault', second = .error fault' ∧ E fault fault' := by
  cases h_outcomes with
  | error h_faults =>
    cases h_first
    exact ⟨_, rfl, h_faults⟩
  | ok h_results => cases h_first

/-- What is made of corresponding results corresponds. -/
theorem map {outcome : Except ε α} {outcome' : Except ε' β} {f : α → γ} {g : β → δ}
    (h_outcomes : Corresponds E R outcome outcome')
    (h_results : ∀ result result', R result result' → S (f result) (g result')) :
    Corresponds E S (outcome.map f) (outcome'.map g) := by
  cases h_outcomes with
  | error h_faults => exact .error h_faults
  | ok h_related => exact .ok (h_results _ _ h_related)

theorem mono {R' : α → β → Prop} {first : Except ε α} {second : Except ε' β}
    (h_outcomes : Corresponds E R first second)
    (h_results : ∀ result result', R result result' → R' result result') :
    Corresponds E R' first second := by
  cases h_outcomes with
  | error h_faults => exact .error h_faults
  | ok h_related => exact .ok (h_results _ _ h_related)

theorem bind {first : Except ε α} {second : Except ε' β} {next : α → Except ε γ}
    {follow : β → Except ε' δ} (h_first : Corresponds E R first second)
    (h_next : ∀ result result', R result result' →
      Corresponds E S (next result) (follow result')) :
    Corresponds E S (first >>= next) (second >>= follow) := by
  cases h_first with
  | error h_faults => exact .error h_faults
  | ok h_results => exact h_next _ _ h_results

/-- Steps that correspond on related items give lists that do. -/
theorem mapM {Q : γ → δ → Prop} {f : γ → Except ε α} {g : δ → Except ε' β} {items : List γ}
    {items' : List δ} (h_items : List.Forall₂ Q items items')
    (h_each : ∀ item ∈ items, ∀ item', Q item item' → Corresponds E R (f item) (g item')) :
    Corresponds E (List.Forall₂ R) (items.mapM f) (items'.mapM g) := by
  induction h_items with
  | nil => exact .ok .nil
  | cons h_item _ ih =>
    rw [List.forall_mem_cons] at h_each
    rw [List.mapM_cons, List.mapM_cons]
    apply bind (h_each.1 _ h_item)
    intro result result' h_results
    apply bind (ih h_each.2)
    intro results results' h_rest
    exact .ok (.cons h_results h_rest)

end Corresponds

/-- Outcomes that are alike correspond, with one reason for both failures. -/
theorem Alike.corresponds {R : α → β → Prop} {first : Except ε α} {second : Except ε β}
    (h_alike : Alike R first second) : Corresponds (· = ·) R first second := by
  cases h_alike with
  | error fault => exact .error rfl
  | ok h_results => exact .ok h_results

end OpenApiTs.Outcome
