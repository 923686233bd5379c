/-
  OpenApiTs.Proofs.Schema.Lockstep

  Two compilations that go round by round. Whatever relates them after every round relates what they
  come to. When their claims are related place by place, and the declarations of related claims become
  one with their names chosen, the two make the same declarations.
-/
import OpenApiTs.Proofs.Schema.Termination
import OpenApiTs.Proofs.TypeScript.Matching

namespace OpenApiTs.Schema

open OpenApiTs.Outcome (Corresponds)
open OpenApiTs.TypeScript
open OpenApiTs.TypeScript.TypeExpr (ChosenAlike Matches rename_of_matches)

variable {definitions definitions' : Definitions} {root root' name name' : String}
  {schema schema' : Json} {compilation compilation' later : Compilation}

/-! ## Two runs -/

/-- Whether `P` takes two compilations from round to round: they come to their end together, they fail
    together, for reasons that `E` relates, and after a round of both it holds again. -/
structure Lockstep (definitions definitions' : Definitions) (root root' : String)
    (E : Malformed → Malformed → Prop) (P : Compilation → Compilation → Prop) : Prop where
  complete : ∀ {compilation compilation' : Compilation}, P compilation compilation' →
    compilation.roster[compilation.made.length]? = none →
      compilation'.roster[compilation'.made.length]? = none
  malformed : ∀ {compilation compilation' : Compilation} {name : String} {schema : Json}
    {fault : Fault}, P compilation compilation' →
    compilation.roster[compilation.made.length]? = some (name, schema) →
    declare name schema = .error fault →
      ∃ name' schema' fault', compilation'.roster[compilation'.made.length]? = some (name', schema') ∧
        declare name' schema' = .error fault' ∧ E ⟨name, fault⟩ ⟨name', fault'⟩
  round : ∀ {compilation compilation' later : Compilation}, P compilation compilation' →
    Round definitions root compilation later →
      ∃ later', Round definitions' root' compilation' later' ∧ P later later'

namespace Lockstep

variable {E : Malformed → Malformed → Prop} {P : Compilation → Compilation → Prop} {count : Nat}
  {outcome : Except Malformed Compilation}

/-- Two compilations in lockstep take as many rounds and come to related outcomes. -/
theorem declares (h_lockstep : Lockstep definitions definitions' root root' E P)
    (h_run : Declares definitions root compilation count outcome)
    (h_related : P compilation compilation') :
    ∃ outcome', Declares definitions' root' compilation' count outcome' ∧
      Corresponds E P outcome outcome' := by
  -- on the rounds of the one run, with the other one in any state that `P` allows
  induction h_run generalizing compilation' with
  | complete h_none =>
    exact ⟨_, .complete (h_lockstep.complete h_related h_none), .ok h_related⟩
  | malformed h_next h_declare =>
    obtain ⟨name', schema', fault', h_next', h_declare', h_faults⟩ :=
      h_lockstep.malformed h_related h_next h_declare
    exact ⟨_, .malformed h_next' h_declare', .error h_faults⟩
  | next h_round _ ih =>
    obtain ⟨later', h_round', h_later⟩ := h_lockstep.round h_related h_round
    obtain ⟨outcome', h_rest, h_outcomes⟩ := ih h_later
    exact ⟨outcome', .next h_round' h_rest, h_outcomes⟩

/-- As `declares`, for whole compilations. -/
theorem compile
    (h_lockstep : Lockstep definitions definitions' (Name.identifier name) (Name.identifier name')
      E P) (h_schema : schema.WellFormed) (h_schema' : schema'.WellFormed)
    (h_definitions : Json.WellFormedFields definitions.schemas)
    (h_definitions' : Json.WellFormedFields definitions'.schemas)
    (h_start : P ⟨[(Name.identifier name, schema)], []⟩ ⟨[(Name.identifier name', schema')], []⟩) :
    Corresponds E P (Schema.compile definitions name schema)
      (Schema.compile definitions' name' schema') := by
  obtain ⟨count, -, h_run⟩ := declares_compile name h_schema h_definitions
  obtain ⟨count', -, h_run'⟩ := declares_compile name' h_schema' h_definitions'
  obtain ⟨outcome', h_other, h_outcomes⟩ := h_lockstep.declares h_run h_start
  -- the other run comes to one outcome only, that of the other compilation
  rw [h_run'.unique h_other]
  exact h_outcomes

end Lockstep

/-! ## Related rosters -/

section Rosters

variable {C : String × Json → String × Json → Prop} {roster roster' : Roster}

/-- Rosters whose claims are related place by place. -/
abbrev RostersRelated (C : String × Json → String × Json → Prop) : Roster → Roster → Prop :=
  List.Forall₂ C

/-- Whether related claims are of one name. -/
def KeepsNames (C : String × Json → String × Json → Prop) : Prop :=
  ∀ entry entry', C entry entry' → entry.1 = entry'.1

/-- Related rosters hold the same names in the same order. -/
theorem RostersRelated.names_eq (h_keeps : KeepsNames C)
    (h_rosters : RostersRelated C roster roster') : Entries.names roster = Entries.names roster' := by
  induction h_rosters with
  | nil => rfl
  | cons h_claim _ ih => exact congrArg₂ List.cons (h_keeps _ _ h_claim) ih

/-- Related rosters have related claims in the same places. -/
theorem RostersRelated.getElem? (h_rosters : RostersRelated C roster roster') (place : Nat) :
    Option.Rel C roster[place]? roster'[place]? := by
  induction h_rosters generalizing place with
  | nil => exact .none
  | cons h_claim _ ih =>
    cases place with
    | zero => exact .some h_claim
    | succ place => exact ih place

/-- A claim is new in both rosters or in neither. -/
theorem RostersRelated.claim (h_keeps : KeepsNames C) (h_rosters : RostersRelated C roster roster')
    (h_claims : C (name, schema) (name', schema')) :
    RostersRelated C (roster.claim name schema) (roster'.claim name' schema') := by
  obtain rfl : name = name' := h_keeps _ _ h_claims
  -- the rosters hold the same names, so the claim is made on both sides or on neither
  by_cases h_claimed : name ∈ Entries.names roster
  · rw [Roster.claim_of_mem h_claimed]
    rw [h_rosters.names_eq h_keeps] at h_claimed
    rw [Roster.claim_of_mem h_claimed]
    exact h_rosters
  · rw [Roster.claim_of_not_mem h_claimed]
    rw [h_rosters.names_eq h_keeps] at h_claimed
    rw [Roster.claim_of_not_mem h_claimed]
    exact List.rel_append h_rosters (.cons h_claims .nil)

end Rosters

/-! ## Equal declarations -/

section Declarations

variable {E : Fault → Fault → Prop} {C : String × Json → String × Json → Prop}
  {entry : String × Json}

/-- Whether two declarations of a name become one with their names chosen, in rosters that are
    related, and leave related rosters. -/
def BecomeOne (definitions definitions' : Definitions) (root : String)
    (C : String × Json → String × Json → Prop) (name : String)
    (declaration declaration' : Declaration Mention) : Prop :=
  ∀ roster roster', RostersRelated C roster roster' → name ∈ Entries.names roster →
    (nameIn definitions root declaration roster).1 =
        (nameIn definitions' root declaration' roster').1 ∧
      RostersRelated C (nameIn definitions root declaration roster).2
        (nameIn definitions' root declaration' roster').2

/-- Declarations that are the same but for their mentions become one when these get the same
    names. -/
theorem BecomeOne.of_chosen {R : Mention → Mention → Prop}
    {declaration declaration' : Declaration Mention}
    (h_name : declaration.name = declaration'.name)
    (h_description : declaration.description = declaration'.description)
    (h_form : declaration.form = declaration'.form)
    (h_type : Matches R declaration.type declaration'.type)
    (h_chosen : ChosenAlike R
      (fun roster roster' => RostersRelated C roster roster' ∧ name ∈ Entries.names roster)
      (Roster.choose definitions root) (Roster.choose definitions' root)
      declaration.type.mentions) :
    BecomeOne definitions definitions' root C name declaration declaration' := by
  intro roster roster' h_rosters h_claimed
  -- mentions that match are chosen alike, one after the other through the type
  obtain ⟨h_renamed, h_after, -⟩ :=
    rename_of_matches declaration.type declaration'.type roster roster' h_type h_chosen
      ⟨h_rosters, h_claimed⟩
  refine ⟨?_, h_after⟩
  simp only [nameIn, h_name, h_description, h_form, h_renamed]

/-- Whether related claims are declared alike: they are of one name, and their schemas are malformed,
    for reasons that `E` relates, or give declarations that become one. -/
structure DeclaresAlike (definitions definitions' : Definitions) (root : String)
    (E : Fault → Fault → Prop) (C : String × Json → String × Json → Prop) : Prop where
  keepsNames : KeepsNames C
  declared : ∀ entry entry', C entry entry' →
    Corresponds E (BecomeOne definitions definitions' root C entry.1)
      (declare entry.1 entry.2) (declare entry'.1 entry'.2)

/-- Whether two compilations have related claims and equal declarations. -/
structure SameMade (C : String × Json → String × Json → Prop)
    (compilation compilation' : Compilation) : Prop where
  roster : RostersRelated C compilation.roster compilation'.roster
  made : compilation.made = compilation'.made

/-- The next claims of both are related, or both have none. -/
theorem SameMade.next (h_same : SameMade C compilation compilation') :
    Option.Rel C compilation.roster[compilation.made.length]?
      compilation'.roster[compilation'.made.length]? := by
  rw [← h_same.made]
  exact h_same.roster.getElem? compilation.made.length

/-- Where the one compilation comes next, the other one does. -/
theorem SameMade.exists_next (h_same : SameMade C compilation compilation')
    (h_some : compilation.roster[compilation.made.length]? = some entry) :
    ∃ entry', compilation'.roster[compilation'.made.length]? = some entry' ∧ C entry entry' := by
  have h_next := h_same.next
  rw [h_some] at h_next
  generalize compilation'.roster[compilation'.made.length]? = next' at h_next
  cases h_next with
  | some h_claims => exact ⟨_, rfl, h_claims⟩

/-- Whether two failures are in declarations of one name, for reasons that `E` relates. -/
structure Malformed.Related (E : Fault → Fault → Prop) (malformed malformed' : Malformed) : Prop where
  name : malformed.name = malformed'.name
  fault : E malformed.fault malformed'.fault

/-- Compilations whose claims are declared alike go in lockstep, and what they make is equal. -/
theorem DeclaresAlike.lockstep (h_alike : DeclaresAlike definitions definitions' root E C) :
    Lockstep definitions definitions' root root (Malformed.Related E) (SameMade C) where
  complete := by
    intro compilation compilation' h_same h_none
    -- as many declarations are made, and as many claims are there
    have h_next := h_same.next
    rw [h_none] at h_next
    generalize compilation'.roster[compilation'.made.length]? = next' at h_next
    cases h_next
    rfl
  malformed := by
    intro compilation compilation' name schema fault h_same h_next h_declare
    obtain ⟨⟨name', schema'⟩, h_next', h_claims⟩ := h_same.exists_next h_next
    obtain ⟨fault', h_declare', h_faults⟩ :=
      (h_alike.declared _ _ h_claims).exists_error h_declare
    exact ⟨name', schema', fault', h_next', h_declare', h_alike.keepsNames _ _ h_claims, h_faults⟩
  round := by
    rintro compilation compilation' later h_same ⟨h_next, h_declare⟩
    obtain ⟨⟨name', schema'⟩, h_next', h_claims⟩ := h_same.exists_next h_next
    obtain ⟨declaration', h_declare', h_one⟩ :=
      (h_alike.declared _ _ h_claims).exists_ok h_declare
    have h_claimed := Entries.mem_names_of_mem (List.mem_of_getElem? h_next)
    obtain ⟨h_made, h_rosters⟩ := h_one _ _ h_same.roster h_claimed
    refine ⟨_, .declare h_next' h_declare', h_rosters, ?_⟩
    rw [h_same.made, h_made]

/-- Schemas whose claims are related are compiled to the same declarations, or are both malformed. -/
theorem DeclaresAlike.compile
    (h_alike : DeclaresAlike definitions definitions' (Name.identifier name) E C)
    (h_schema : schema.WellFormed) (h_schema' : schema'.WellFormed)
    (h_definitions : Json.WellFormedFields definitions.schemas)
    (h_definitions' : Json.WellFormedFields definitions'.schemas)
    (h_claims : C (Name.identifier name, schema) (Name.identifier name, schema')) :
    Corresponds (Malformed.Related E) (SameMade C) (Schema.compile definitions name schema)
      (Schema.compile definitions' name schema') :=
  h_alike.lockstep.compile h_schema h_schema' h_definitions h_definitions'
    ⟨.cons h_claims .nil, rfl⟩

end Declarations

end OpenApiTs.Schema
