/-
  OpenApiTs.Proofs.Json.Equality

  Equality up to the order of fields is an equivalence on well-formed values. Reflexivity and
  symmetry need the fields of every object to have different names; transitivity does not.

  All three are inductions with the parts of a value as members of its list of items or fields, which
  is what `Json.byParts` packages.
-/
import OpenApiTs.Json.Basic
import OpenApiTs.Proofs.Entries
import Mathlib.Data.List.Perm.Subperm

namespace OpenApiTs

/-! ## Numbers -/

theorem Number.Binary64.same_iff {x y : Binary64} :
    x.same y = true ↔ x = y ∨ x.isZero = true ∧ y.isZero = true := by
  simp [same]

theorem Number.Value.same_refl (value : Value) : value.same value = true := by
  cases value with
  | whole value => simp [same]
  | double value => exact Binary64.same_iff.mpr (.inl rfl)

theorem Number.Value.same_symm {x y : Value} (h_same : x.same y = true) : y.same x = true := by
  cases x <;> cases y <;> simp only [same, beq_iff_eq, Bool.false_eq_true] at h_same ⊢
  · exact h_same.symm
  · rw [Binary64.same_iff] at h_same ⊢
    exact h_same.imp Eq.symm And.symm

theorem Number.Value.same_trans {x y z : Value} (h_xy : x.same y = true)
    (h_yz : y.same z = true) : x.same z = true := by
  cases x <;> cases y <;> cases z <;>
    simp only [same, beq_iff_eq, Bool.false_eq_true] at h_xy h_yz ⊢
  · exact h_xy.trans h_yz
  · rw [Binary64.same_iff] at h_xy h_yz ⊢
    rcases h_xy with rfl | ⟨h_x, h_y⟩
    · exact h_yz
    · rcases h_yz with rfl | ⟨-, h_z⟩
      · exact .inr ⟨h_x, h_y⟩
      · exact .inr ⟨h_x, h_z⟩

namespace Json

/-! ## Parts -/

/-- Induction on a value through its parts: the items of an array and the values of the fields of an
    object. -/
@[elab_as_elim]
theorem byParts {motive : Json → Prop} (null : motive .null) (bool : ∀ value, motive (.bool value))
    (number : ∀ value, motive (.number value)) (text : ∀ value, motive (.text value))
    (array : ∀ items, (∀ item ∈ items, motive item) → motive (.array items))
    (object : ∀ fields, (∀ entry ∈ fields, motive entry.2) → motive (.object fields))
    (value : Json) : motive value := by
  cases value with
  | null => exact null
  | bool value => exact bool value
  | number value => exact number value
  | text value => exact text value
  -- the values inside are smaller, which carries the recursion
  | array items =>
    apply array
    intro item h_item
    exact byParts null bool number text array object item
  | object fields =>
    apply object
    intro entry h_entry
    exact byParts null bool number text array object entry.2
termination_by sizeOf value
decreasing_by
  · have h_less := List.sizeOf_lt_of_mem h_item
    simp only [Json.array.sizeOf_spec]
    omega
  · obtain ⟨name, value⟩ := entry
    have h_less := List.sizeOf_lt_of_mem h_entry
    simp only [Prod.mk.sizeOf_spec] at h_less
    simp only [Json.object.sizeOf_spec]
    omega

theorem wellFormedItems_iff {items : List Json} :
    WellFormedItems items ↔ ∀ item ∈ items, WellFormed item := by
  induction items with
  | nil => simp [WellFormedItems]
  | cons item items ih => simp [WellFormedItems, ih]

theorem wellFormedFields_iff {fields : List (String × Json)} :
    WellFormedFields fields ↔ ∀ entry ∈ fields, WellFormed entry.2 := by
  induction fields with
  | nil => simp [WellFormedFields]
  | cons entry fields ih => simp [WellFormedFields, ih]

theorem wellFormed_array_iff {items : List Json} :
    WellFormed (array items) ↔ ∀ item ∈ items, WellFormed item := by
  rw [WellFormed, wellFormedItems_iff]

theorem wellFormed_object_iff {fields : List (String × Json)} :
    WellFormed (object fields) ↔
      (Entries.names fields).Nodup ∧ ∀ entry ∈ fields, WellFormed entry.2 := by
  rw [WellFormed, wellFormedFields_iff, Entries.names]

theorem sameItems_iff {as bs : List Json} :
    sameItems as bs = true ↔ List.Forall₂ (fun a b => same a b = true) as bs := by
  induction as generalizing bs with
  | nil => cases bs <;> simp [sameItems]
  | cons a as ih => cases bs <;> simp [sameItems, ih]

/-- Fields are compared by name: each of the first is looked up in the second. -/
theorem sameFields_iff {as bs : List (String × Json)} :
    sameFields as bs = true ↔
      ∀ entry ∈ as, ∃ value, bs.lookup entry.1 = some value ∧ same entry.2 value = true := by
  induction as with
  | nil => simp [sameFields]
  | cons entry as ih =>
    obtain ⟨name, a⟩ := entry
    rw [sameFields, Bool.and_eq_true, ih, List.forall_mem_cons]
    cases bs.lookup name <;> simp

theorem same_array_iff {as bs : List Json} :
    same (array as) (array bs) = true ↔ List.Forall₂ (fun a b => same a b = true) as bs := by
  rw [same, sameItems_iff]

/-- Objects are equal when they have as many fields and those of one are found in the other. -/
theorem same_object_iff {as bs : List (String × Json)} :
    same (object as) (object bs) = true ↔ as.length = bs.length ∧
      ∀ entry ∈ as, ∃ value, bs.lookup entry.1 = some value ∧ same entry.2 value = true := by
  rw [same, Bool.and_eq_true, sameFields_iff, beq_iff_eq]

theorem exists_of_same_array {as : List Json} {b : Json} (h_same : same (array as) b = true) :
    ∃ bs, b = array bs := by
  cases b with
  | array bs => exact ⟨bs, rfl⟩
  | _ => simp [same] at h_same

theorem exists_of_same_object {as : List (String × Json)} {b : Json}
    (h_same : same (object as) b = true) : ∃ bs, b = object bs := by
  cases b with
  | object bs => exact ⟨bs, rfl⟩
  | _ => simp [same] at h_same

/-! ## Equivalence -/

/-- A value is equal to itself when its objects repeat no name. Fields are looked up by name, so a
    second field of one name would be compared with the first. -/
theorem same_refl {value : Json} (h_value : WellFormed value) : same value value = true := by
  induction value using byParts with
  | null => rfl
  | bool value => simp [same]
  | number value => exact Number.Value.same_refl value
  | text value => simp [same]
  | array items ih =>
    rw [wellFormed_array_iff] at h_value
    rw [same_array_iff, List.forall₂_same]
    intro item h_item
    exact ih item h_item (h_value item h_item)
  | object fields ih =>
    rw [wellFormed_object_iff] at h_value
    refine same_object_iff.mpr ⟨rfl, ?_⟩
    intro entry h_entry
    -- no name is repeated, so an entry is what its name is looked up as
    exact ⟨entry.2, Entries.lookup_of_mem h_value.1 h_entry,
      ih entry h_entry (h_value.2 entry h_entry)⟩

/-- Equality carries over a third value, whether names are repeated or not. -/
theorem same_trans {a b c : Json} (h_ab : same a b = true) (h_bc : same b c = true) :
    same a c = true := by
  induction a using byParts generalizing b c with
  | null => cases b <;> cases c <;> simp [same] at h_ab h_bc ⊢
  | bool value => cases b <;> cases c <;> simp_all [same]
  | number value =>
    cases b <;> cases c <;> simp only [same, Bool.false_eq_true] at h_ab h_bc ⊢
    exact Number.Value.same_trans h_ab h_bc
  | text value => cases b <;> cases c <;> simp_all [same]
  | array as ih =>
    obtain ⟨bs, rfl⟩ := exists_of_same_array h_ab
    obtain ⟨cs, rfl⟩ := exists_of_same_array h_bc
    rw [same_array_iff] at h_ab h_bc ⊢
    -- along the items of both, since the claim for an item needs its partner
    induction h_ab generalizing cs with
    | nil => exact h_bc
    | cons h_head _ ih_tail =>
      cases h_bc with
      | cons h_next h_rest =>
        refine .cons (ih _ (by simp) h_head h_next) (ih_tail ?_ _ h_rest)
        intro item h_item
        exact ih item (List.mem_cons_of_mem _ h_item)
  | object as ih =>
    obtain ⟨bs, rfl⟩ := exists_of_same_object h_ab
    obtain ⟨cs, rfl⟩ := exists_of_same_object h_bc
    rw [same_object_iff] at h_ab h_bc ⊢
    refine ⟨h_ab.1.trans h_bc.1, ?_⟩
    intro entry h_entry
    obtain ⟨b, h_b, h_same⟩ := h_ab.2 entry h_entry
    obtain ⟨c, h_c, h_next⟩ := h_bc.2 (entry.1, b) (Entries.mem_of_lookup h_b)
    -- the name is found in the second object, and with that entry in the third
    exact ⟨c, h_c, ih entry h_entry h_same h_next⟩

/-- Of two equal objects the second has no name that the first has not, since it has no more
    fields. -/
theorem names_subset_of_same {as bs : List (String × Json)} (h_names : (Entries.names as).Nodup)
    (h_same : same (object as) (object bs) = true) : Entries.names bs ⊆ Entries.names as := by
  rw [same_object_iff] at h_same
  have h_forth : Entries.names as ⊆ Entries.names bs := by
    intro name h_name
    obtain ⟨entry, h_entry, rfl⟩ := List.mem_map.mp h_name
    obtain ⟨value, h_value, -⟩ := h_same.2 entry h_entry
    exact Entries.mem_names_of_mem (Entries.mem_of_lookup h_value)
  have h_length : (Entries.names bs).length ≤ (Entries.names as).length := by
    simp [Entries.names, h_same.1]
  exact ((List.subperm_of_subset h_names h_forth).perm_of_length_le h_length).symm.subset

/-- Equality is symmetric among values whose objects repeat no name. -/
theorem same_symm {a b : Json} (h_a : WellFormed a) (h_b : WellFormed b)
    (h_same : same a b = true) : same b a = true := by
  induction a using byParts generalizing b with
  | null => cases b <;> simp [same] at h_same ⊢
  | bool value => cases b <;> simp_all [same]
  | number value =>
    cases b <;> simp only [same, Bool.false_eq_true] at h_same ⊢
    exact Number.Value.same_symm h_same
  | text value => cases b <;> simp_all [same]
  | array as ih =>
    obtain ⟨bs, rfl⟩ := exists_of_same_array h_same
    rw [wellFormed_array_iff] at h_a h_b
    rw [same_array_iff] at h_same ⊢
    -- along the items of both, as for transitivity
    induction h_same with
    | nil => exact .nil
    | cons h_head _ ih_tail =>
      rw [List.forall_mem_cons] at h_a h_b
      refine .cons (ih _ (by simp) h_a.1 h_b.1 h_head) (ih_tail ?_ h_a.2 h_b.2)
      intro item h_item
      exact ih item (List.mem_cons_of_mem _ h_item)
  | object as ih =>
    obtain ⟨bs, rfl⟩ := exists_of_same_object h_same
    rw [wellFormed_object_iff] at h_a h_b
    have h_back := names_subset_of_same h_a.1 h_same
    rw [same_object_iff] at h_same ⊢
    refine ⟨h_same.1.symm, ?_⟩
    intro entry h_entry
    -- The field of `as` with this name is equal to the one that `bs` has, which is `entry`.
    obtain ⟨a, h_found⟩ :=
      Entries.exists_lookup_of_mem_names (h_back (Entries.mem_names_of_mem h_entry))
    have h_mem := Entries.mem_of_lookup h_found
    obtain ⟨b, h_other, h_ab⟩ := h_same.2 _ h_mem
    rw [Entries.lookup_of_mem h_b.1 h_entry, Option.some.injEq] at h_other
    subst h_other
    exact ⟨a, h_found, ih _ h_mem (h_a.2 _ h_mem) (h_b.2 entry h_entry) h_ab⟩

end Json

end OpenApiTs
