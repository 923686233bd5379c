/-
  OpenApiTs.Proofs.Schema.Hoisted

  Names chosen with definitions that know their placeholders, and with the same definitions when
  they do not. The first write the placeholder of a reference with the name of the definition and
  claim nothing. The second take it for a titled node: it claims that name with the marker behind
  it, which nothing else can hold. Everything else is written and claimed alike, so that the claims
  of the first are those of the second without the placeholders'.
-/
import OpenApiTs.Proofs.Schema.Aliases
import OpenApiTs.Proofs.Schema.Unmarked

namespace OpenApiTs

variable {definitions : Definitions} {own other name root title target : String} {schema node : Json}
  {fields : Entries Json} {entry : String × Json}

/-! ## Definitions that do not know their placeholders -/

namespace Definitions

/-- The definitions as if none of them had referred to itself. -/
def forgetful (definitions : Definitions) : Definitions :=
  { definitions with selfReferential := [] }

/-- The placeholder for a reference of `own` to itself that has no other fields. -/
def barePlaceholder (own : String) : Json :=
  .object [("type", .text "any"), ("title", .text (own ++ marker))]

/-- A reference that stands alone leaves a placeholder of the title only. -/
theorem placeholder_bare (own : String) (h_names : Entries.names fields = ["$ref"]) :
    Json.object (placeholder own fields) = barePlaceholder own := by
  obtain ⟨⟨key, value⟩, rfl⟩ := List.length_eq_one_iff.mp (by
    simpa [Entries.names] using congrArg List.length h_names)
  -- the one field there is must be the reference, which the title replaces
  obtain rfl : key = "$ref" := by simpa [Entries.names] using h_names
  rfl

theorem wellFormed_barePlaceholder (own : String) : (barePlaceholder own).WellFormed := by
  simp [barePlaceholder, Json.WellFormed, Json.WellFormedFields]

/-- The title and the fields of a placeholder that definitions have for a bare reference. -/
def BarePlanted (definitions : Definitions) (title : String) (fields : Entries Json) : Prop :=
  ∃ own ∈ definitions.selfReferential, title = own ++ marker ∧ .object fields = barePlaceholder own

/-- What definitions are to be for their placeholders to be told from everything else by their names:
    the placeholders are those of bare references, the marker stands nowhere else, and the names
    of definitions that referred to themselves are identifiers that stay apart. -/
structure Tellable (definitions : Definitions) : Prop where
  tidy : ∀ entry ∈ definitions.schemas, Tidy (BarePlanted definitions) entry.2
  names : ∀ entry ∈ definitions.schemas, Inert entry.1
  own : ∀ own ∈ definitions.selfReferential, Inert own ∧ Name.isIdentifier own = true
  apart : ∀ own ∈ definitions.selfReferential, ∀ other ∈ definitions.selfReferential,
    Name.identifier own = Name.identifier other → own = other

/-- Definitions that are tellable put back every placeholder that was planted bare. -/
theorem Tellable.putsBack (h_tellable : Tellable definitions) :
    Schema.PutsBack definitions (BarePlanted definitions) := by
  refine ⟨h_tellable.tidy, ?_⟩
  rintro title fields ⟨own, h_own, rfl, -⟩
  exact ⟨own, rfl, List.contains_iff_mem.mpr h_own, (h_tellable.own own h_own).1⟩

end Definitions

namespace Schema

open OpenApiTs.Definitions (BarePlanted Inert Tellable Tidy Unmarked barePlaceholder forgetful marker)
open OpenApiTs.Text (Bears)
open OpenApiTs.TypeScript

variable {roster roster' : Roster}

/-- The identifier for the title of a placeholder is that for the name of its definition, with the
    marker behind it. -/
theorem identifier_append_marker (h_own : Name.isIdentifier own = true) :
    Name.identifier (own ++ marker) = Name.identifier own ++ marker :=
  Name.identifier_append (Name.isWord_of_isIdentifier h_own)
    (Name.beginsWithDigit_of_isIdentifier h_own) inIdentifier_of_mem_marker (by decide) (by decide)

theorem placeholderOf?_forgetful (definitions : Definitions) (title : String) :
    Roster.placeholderOf? definitions.forgetful title = none := by
  rw [Roster.placeholderOf?, Option.filter_eq_none_iff]
  exact fun _ _ => Bool.false_ne_true

/-! ## Claims that correspond -/

/-- The claims under names without the marker. -/
def withoutHoisted (roster : Roster) : Roster := roster.filter fun entry => isUnmarked entry.1

/-- Whether the claims of the first roster are those of the second and claims for placeholders, each
    under the name of its definition with the marker behind it. -/
structure Hoists (definitions : Definitions) (roster' roster : Roster) : Prop where
  plain : withoutHoisted roster' = roster
  claims : ∀ entry ∈ roster', Unmarked entry.1 ∨
    ∃ own ∈ definitions.selfReferential,
      entry = (Name.identifier own ++ marker, barePlaceholder own)
  tidy : ∀ entry ∈ roster', Tidy (BarePlanted definitions) entry.2

theorem lookup_withoutHoisted (h_name : Unmarked name) (roster : Roster) :
    (withoutHoisted roster).lookup name = roster.lookup name :=
  Entries.lookup_filter (isUnmarked_iff.mpr h_name) roster

/-- A claim for an unmarked name is made among the others as well. -/
theorem withoutHoisted_claim_unmarked (h_name : Unmarked name) (roster : Roster) (schema : Json) :
    withoutHoisted (roster.claim name schema) = (withoutHoisted roster).claim name schema := by
  have h_has : Entries.has (withoutHoisted roster) name = Entries.has roster name := by
    rw [Entries.has, lookup_withoutHoisted h_name, Entries.has]
  rw [Roster.claim, Roster.claim, h_has]
  split
  · rfl
  · -- the new entry is not filtered out
    have h_kept : isUnmarked (name, schema).1 = true := isUnmarked_iff.mpr h_name
    rw [withoutHoisted, List.filter_append, List.filter_singleton, h_kept]
    rfl

/-- A claim for the name of a placeholder is none of the others. -/
theorem withoutHoisted_claim_marked (base : String) (roster : Roster) (schema : Json) :
    withoutHoisted (roster.claim (base ++ marker) schema) = withoutHoisted roster := by
  rw [Roster.claim]
  split
  · rfl
  · have h_gone : isUnmarked (base ++ marker, schema).1 = false := isUnmarked_append_marker base
    rw [withoutHoisted, List.filter_append, List.filter_singleton, h_gone]
    exact List.append_nil _

namespace Hoists

variable (h_hoists : Hoists definitions roster' roster)
include h_hoists

theorem lookup_eq (h_name : Unmarked name) : roster.lookup name = roster'.lookup name := by
  rw [← h_hoists.plain, lookup_withoutHoisted h_name]

/-- A name without the marker is claimed alike. -/
theorem claim (h_name : Unmarked name) (h_schema : Tidy (BarePlanted definitions) schema) :
    Hoists definitions (roster'.claim name schema) (roster.claim name schema) := by
  refine ⟨?_, fun entry h_entry => ?_, fun entry h_entry => ?_⟩
  · rw [withoutHoisted_claim_unmarked h_name, h_hoists.plain]
  · rcases Roster.mem_claim h_entry with h_old | rfl
    · exact h_hoists.claims entry h_old
    · exact .inl h_name
  · rcases Roster.mem_claim h_entry with h_old | rfl
    · exact h_hoists.tidy entry h_old
    · exact h_schema

/-- A placeholder claims its name where it is not known, and nothing where it is. -/
theorem claim_placeholder (h_own : own ∈ definitions.selfReferential)
    (h_node : Tidy (BarePlanted definitions) (barePlaceholder own)) :
    Hoists definitions (roster'.claim (Name.identifier own ++ marker) (barePlaceholder own))
      roster := by
  refine ⟨?_, fun entry h_entry => ?_, fun entry h_entry => ?_⟩
  · rw [withoutHoisted_claim_marked, h_hoists.plain]
  · rcases Roster.mem_claim h_entry with h_old | rfl
    · exact h_hoists.claims entry h_old
    · exact .inr ⟨own, h_own, rfl⟩
  · rcases Roster.mem_claim h_entry with h_old | rfl
    · exact h_hoists.tidy entry h_old
    · exact h_node

/-- A name without the marker is taken in both or in neither. -/
theorem taken_eq (h_name : Unmarked name) (schema : Json) :
    Roster.taken definitions.forgetful roster' schema name =
      Roster.taken definitions roster schema name := by
  rw [Roster.taken, Roster.taken, h_hoists.lookup_eq h_name]
  rfl

/-- A titled node whose title is inert gets one name in both. -/
theorem nameTitled_eq (h_title : Inert title) (node : Json) :
    (Roster.nameTitled definitions.forgetful title node roster').1 =
      (Roster.nameTitled definitions title node roster).1 := by
  obtain ⟨number', -, h_name', h_free', h_before'⟩ :=
    Roster.nameTitled_first definitions.forgetful title node roster'
  obtain ⟨number, -, h_name, h_free, h_before⟩ :=
    Roster.nameTitled_first definitions title node roster
  have h_taken (number : Nat) :=
    h_hoists.taken_eq (unmarked_candidate (unmarked_identifier h_title) number) node
  -- the first that is free in the one is the first that is free in the other
  rcases Nat.lt_trichotomy number' number with h_less | rfl | h_more
  · have h_passed := h_before number' h_less
    rw [← h_taken, h_free'] at h_passed
    cases h_passed
  · rw [h_name', h_name]
  · have h_passed := h_before' number h_more
    rw [h_taken, h_free] at h_passed
    cases h_passed

/-- The name that a placeholder claims where it is not known. -/
theorem not_taken_placeholder (h_tellable : Tellable definitions)
    (h_own : own ∈ definitions.selfReferential) :
    Roster.taken definitions.forgetful roster' (barePlaceholder own)
      (Name.identifier own ++ marker) = false := by
  have h_marked : ¬ Unmarked (Name.identifier own ++ marker) := by
    rw [← isUnmarked_iff, isUnmarked_append_marker]
    exact Bool.false_ne_true
  cases h_lookup : roster'.lookup (Name.identifier own ++ marker) with
  | some owner =>
    rw [Roster.taken_of_lookup h_lookup]
    -- whoever claimed it is the same placeholder
    rcases h_hoists.claims _ (Entries.mem_of_lookup h_lookup) with h_name | ⟨other, h_other, h_entry⟩
    · exact absurd h_name h_marked
    · obtain ⟨h_name, rfl⟩ := Prod.mk.inj h_entry
      obtain rfl := h_tellable.apart own h_own other h_other
        ((String.append_left_inj marker).mp h_name)
      rw [Json.same_refl (Definitions.wellFormed_barePlaceholder own)]
      rfl
  | none =>
    have h_unknown : definitions.forgetful.get? (Name.identifier own ++ marker) = none := by
      rw [Definitions.get?, Entries.lookup_eq_none_iff]
      intro h_name
      obtain ⟨entry, h_entry, h_eq⟩ := List.mem_map.mp h_name
      exact h_marked (h_eq ▸ (h_tellable.names entry h_entry).freeOf)
    rw [Roster.taken, h_lookup]
    simp only [h_unknown]

theorem nameTitled_placeholder (h_tellable : Tellable definitions)
    (h_own : own ∈ definitions.selfReferential) :
    (Roster.nameTitled definitions.forgetful (own ++ marker) (barePlaceholder own) roster').1 =
      Name.identifier own ++ marker := by
  obtain ⟨number, -, h_name, -, h_before⟩ :=
    Roster.nameTitled_first definitions.forgetful (own ++ marker) (barePlaceholder own) roster'
  rw [identifier_append_marker (h_tellable.own own h_own).2] at h_name h_before
  -- the name without a number is free, so that no number is tried
  cases number with
  | zero => exact h_name
  | succ number =>
    have h_passed := h_before 0 (Nat.succ_pos number)
    rw [Roster.candidate_zero, h_hoists.not_taken_placeholder h_tellable h_own] at h_passed
    cases h_passed

/-- Every mention is written alike, with the marker behind the name of a placeholder where that is not
    known, and leaves claims that correspond. -/
theorem choose (h_tellable : Tellable definitions) (h_root : Unmarked root) {mention : Mention}
    (h_said : mention.Said (BarePlanted definitions)) :
    Bears marker.toList (Roster.choose definitions.forgetful root mention roster').1
        (Roster.choose definitions root mention roster).1 ∧
      Hoists definitions (Roster.choose definitions.forgetful root mention roster').2
        (Roster.choose definitions root mention roster).2 := by
  have h_written := unmarked_choose h_tellable.putsBack h_root h_said roster
  cases mention with
  | reference target =>
    have h_known : Roster.definition? definitions.forgetful target =
        Roster.definition? definitions target := rfl
    simp only [Roster.choose, Roster.nameReference, h_known] at h_written ⊢
    split
    · exact ⟨Bears.refl _ _, h_hoists⟩
    · next h_other =>
      rw [if_neg h_other] at h_written
      cases h_found : Roster.definition? definitions target with
      | none => exact ⟨Bears.refl _ _, h_hoists⟩
      | some schema =>
        rw [h_found] at h_written
        obtain ⟨key, -, h_key⟩ := Roster.definition?_eq_some_iff.mp h_found
        exact ⟨Bears.refl _ _, h_hoists.claim h_written
          (h_tellable.tidy (key, schema) (Entries.mem_of_lookup h_key))⟩
  | titled title node =>
    rw [Roster.choose_titled (placeholderOf?_forgetful definitions title)]
    rcases h_said.2 with h_title | ⟨fields, rfl, own, h_own, rfl, h_node⟩
    · -- a title of the document is that of no placeholder, so both look for a free name
      rw [Roster.choose_titled (placeholderOf?_of_inert h_title)] at h_written ⊢
      have h_name := h_hoists.nameTitled_eq h_title node
      have h_claims := h_hoists.claim h_written h_said.1
      refine ⟨h_name ▸ Bears.refl _ _, ?_⟩
      rw [Roster.nameTitled_snd, h_name]
      exact h_claims
    · -- a planted title is that of a placeholder, which only the second puts back
      rw [h_node] at h_said ⊢
      have h_known : Roster.choose definitions root
          (.titled (own ++ marker) (barePlaceholder own)) roster = (Name.identifier own, roster) := by
        simp only [Roster.choose, placeholderOf?_append_marker (List.contains_iff_mem.mpr h_own)]
      rw [h_known, Roster.nameTitled_snd, h_hoists.nameTitled_placeholder h_tellable h_own]
      exact ⟨Bears.word marker (Name.isWord_identifier own),
        h_hoists.claim_placeholder h_own h_said.1⟩

end Hoists

end Schema

end OpenApiTs
