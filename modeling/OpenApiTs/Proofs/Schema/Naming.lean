/-
  OpenApiTs.Proofs.Schema.Naming

  The names of one declaration, chosen from left to right. The roster only grows under them, and an
  entry that is new after them is the name written for some mention, with the schema that the
  mention stands for.
-/
import OpenApiTs.Proofs.Outcome
import OpenApiTs.Proofs.Schema.Roster
import OpenApiTs.Proofs.TypeScript.Expr
import OpenApiTs.Schema.Compile

namespace OpenApiTs.Schema

open OpenApiTs.TypeScript
open OpenApiTs.TypeScript.TypeExpr (chooseAll chooseAll_append chooseAll_preserves
  exists_split_of_mem_zip rename_eq_chooseAll)

variable {definitions : Definitions} {root : String} {roster : Roster} {mentions : List Mention}
  {mention : Mention} {name : String} {schema : Json} {declaration : Declaration Mention}

namespace Roster

/-- The names for mentions in order, and the roster after them. -/
abbrev chooseEach (definitions : Definitions) (root : String) :
    List Mention → Roster → List String × Roster :=
  chooseAll (choose definitions root)

theorem prefix_chooseEach (definitions : Definitions) (root : String) (mentions : List Mention)
    (roster : Roster) : roster <+: (chooseEach definitions root mentions roster).2 := by
  refine chooseAll_preserves (P := fun later => roster <+: later) ?_ (List.prefix_refl roster)
  intro mention _ later h_later
  exact h_later.trans (prefix_choose definitions root mention later)

/-- A name that was written was chosen in a roster between the first and the last. -/
theorem exists_choose_of_mem_zip
    (h_mem : (mention, name) ∈ mentions.zip (chooseEach definitions root mentions roster).1) :
    ∃ before, roster <+: before ∧ (choose definitions root mention before).1 = name ∧
      (choose definitions root mention before).2 <+:
        (chooseEach definitions root mentions roster).2 := by
  obtain ⟨front, back, rfl, rfl⟩ := exists_split_of_mem_zip h_mem
  refine ⟨(chooseEach definitions root front roster).2,
    prefix_chooseEach definitions root front roster, rfl, ?_⟩
  rw [chooseEach, chooseAll_append, chooseAll]
  exact prefix_chooseEach definitions root back _

/-- What is new in the roster is the name written for a mention that stands for its schema. -/
theorem mem_chooseEach {entry : String × Json}
    (h_entry : entry ∈ (chooseEach definitions root mentions roster).2) :
    entry ∈ roster ∨
      ∃ mention, (mention, entry.1) ∈
          mentions.zip (chooseEach definitions root mentions roster).1 ∧
        standsFor? definitions mention = some entry.2 := by
  induction mentions generalizing roster with
  | nil => exact .inl h_entry
  | cons mention mentions ih =>
    rw [chooseEach, chooseAll, List.zip_cons_cons]
    -- the entry was claimed for the first mention, or for a later one
    rcases ih h_entry with h_before | ⟨later, h_later, h_stands⟩
    · rcases mem_choose h_before with h_old | ⟨h_name, h_stands, -⟩
      · exact .inl h_old
      · exact .inr ⟨mention, by rw [h_name]; exact List.mem_cons_self, h_stands⟩
    · exact .inr ⟨later, List.mem_cons_of_mem _ h_later, h_stands⟩

end Roster

open Roster

/-! ## One declaration -/

/-- The mentions in a named declaration are the names that were chosen for them in order. -/
theorem mentions_nameIn (definitions : Definitions) (root : String)
    (declaration : Declaration Mention) (roster : Roster) :
    (nameIn definitions root declaration roster).1.type.mentions =
      (chooseEach definitions root declaration.type.mentions roster).1 :=
  congrArg Prod.fst (rename_eq_chooseAll (choose definitions root) declaration.type roster)

/-- Naming a declaration leaves the roster that choosing for its mentions leaves. -/
theorem roster_nameIn (definitions : Definitions) (root : String)
    (declaration : Declaration Mention) (roster : Roster) :
    (nameIn definitions root declaration roster).2 =
      (chooseEach definitions root declaration.type.mentions roster).2 :=
  congrArg Prod.snd (rename_eq_chooseAll (choose definitions root) declaration.type roster)

theorem prefix_nameIn (definitions : Definitions) (root : String)
    (declaration : Declaration Mention) (roster : Roster) :
    roster <+: (nameIn definitions root declaration roster).2 := by
  rw [roster_nameIn]
  exact prefix_chooseEach definitions root declaration.type.mentions roster

/-- A declaration has the name of its claim. -/
theorem name_of_declare (h_declare : declare name schema = .ok declaration) :
    declaration.name = name := by
  unfold declare at h_declare
  split at h_declare
  · obtain ⟨type, -, h_made⟩ := Outcome.bind_eq_ok_iff.mp h_declare
    cases h_made
    rfl
  · obtain ⟨type, -, h_made⟩ := Outcome.bind_eq_ok_iff.mp h_declare
    cases h_made
    rfl

end OpenApiTs.Schema
