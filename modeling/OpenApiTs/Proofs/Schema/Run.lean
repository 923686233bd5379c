/-
  OpenApiTs.Proofs.Schema.Run

  A compilation round by round, without a bound on their number. A round gives the next claim its
  declaration; the names chosen in it may add claims. What every round preserves holds of a
  finished compilation, and what every choice of a name preserves holds of its roster.
-/
import OpenApiTs.Proofs.Schema.Mentions
import OpenApiTs.Proofs.Schema.Naming

namespace OpenApiTs.Schema

open OpenApiTs.TypeScript

variable {definitions : Definitions} {root : String} {schema : Json}
  {compilation later : Compilation} {count : Nat}

/-! ## Rounds -/

/-- One round: the next claim gets its declaration. -/
inductive Round (definitions : Definitions) (root : String) : Compilation → Compilation → Prop where
  | declare {compilation : Compilation} {name : String} {schema : Json}
      {plain : Declaration Mention}
      (h_next : compilation.roster[compilation.made.length]? = some (name, schema))
      (h_declare : Schema.declare name schema = .ok plain) :
      Round definitions root compilation
        ⟨(nameIn definitions root plain compilation.roster).2,
          compilation.made ++ [(nameIn definitions root plain compilation.roster).1]⟩

/-- What a compilation comes to when it goes on for as long as there are claims without a
    declaration, and how many declarations it attempts. -/
inductive Declares (definitions : Definitions) (root : String) :
    Compilation → Nat → Except Malformed Compilation → Prop where
  /-- Every claim has its declaration. -/
  | complete {compilation : Compilation}
      (h_none : compilation.roster[compilation.made.length]? = none) :
      Declares definitions root compilation 0 (.ok compilation)
  /-- The schema of the next claim is malformed. -/
  | malformed {compilation : Compilation} {name : String} {schema : Json} {fault : Fault}
      (h_next : compilation.roster[compilation.made.length]? = some (name, schema))
      (h_declare : declare name schema = .error fault) :
      Declares definitions root compilation 1 (.error ⟨name, fault⟩)
  /-- A round, and what follows it. -/
  | next {compilation later : Compilation} {count : Nat} {outcome : Except Malformed Compilation}
      (h_round : Round definitions root compilation later)
      (h_rest : Declares definitions root later count outcome) :
      Declares definitions root compilation (count + 1) outcome

/-- What every round preserves holds in the end, and then no claim is left. -/
theorem Declares.induction {P : Compilation → Prop} {final : Compilation}
    (h_run : Declares definitions root compilation count (.ok final))
    (h_round : ∀ before after, Round definitions root before after → P before → P after)
    (h_start : P compilation) :
    P final ∧ final.roster[final.made.length]? = none := by
  -- the index of the run has to be a variable for the induction
  generalize h_outcome : (Except.ok final : Except Malformed Compilation) = outcome at h_run
  induction h_run with
  | complete h_none =>
    cases h_outcome
    exact ⟨h_start, h_none⟩
  | malformed _ _ => cases h_outcome
  | next h_step _ ih => exact ih (h_round _ _ h_step h_start) h_outcome

/-- There is one round to go, if any. -/
theorem Round.unique {other : Compilation} (h_round : Round definitions root compilation later)
    (h_other : Round definitions root compilation other) : later = other := by
  obtain ⟨h_next, h_declare⟩ := h_round
  obtain ⟨h_next', h_declare'⟩ := h_other
  rw [h_next] at h_next'
  cases h_next'
  rw [h_declare] at h_declare'
  cases h_declare'
  rfl

/-- A compilation comes to one outcome only. -/
theorem Declares.unique {count' : Nat} {outcome outcome' : Except Malformed Compilation}
    (h_run : Declares definitions root compilation count outcome)
    (h_other : Declares definitions root compilation count' outcome') : outcome = outcome' := by
  -- what happens next depends on the compilation only, so the two runs take the same step or end in
  -- the same way
  induction h_run generalizing count' with
  | complete h_none =>
    cases h_other with
    | complete _ => rfl
    | malformed h_next _ => cases h_none.symm.trans h_next
    | next h_round _ =>
      obtain ⟨h_next, -⟩ := h_round
      cases h_none.symm.trans h_next
  | malformed h_next h_declare =>
    cases h_other with
    | complete h_none => cases h_none.symm.trans h_next
    | malformed h_next' h_declare' =>
      cases h_next.symm.trans h_next'
      cases h_declare.symm.trans h_declare'
      rfl
    | next h_round _ =>
      obtain ⟨h_next', h_declare'⟩ := h_round
      cases h_next.symm.trans h_next'
      cases h_declare.symm.trans h_declare'
  | next h_round _ ih =>
    cases h_other with
    | complete h_none =>
      obtain ⟨h_next, -⟩ := h_round
      cases h_none.symm.trans h_next
    | malformed h_next h_declare =>
      obtain ⟨h_next', h_declare'⟩ := h_round
      cases h_next.symm.trans h_next'
      cases h_declare.symm.trans h_declare'
    | next h_round' h_rest =>
      rw [← h_round.unique h_round'] at h_rest
      exact ih h_rest

/-- The bounded run is a run when its bound is enough: some property that rounds preserve keeps
    the claims below it. -/
theorem declares_declareFrom (P : Compilation → Prop) (bound : Nat)
    (h_round : ∀ before after, Round definitions root before after → P before → P after)
    (h_bound : ∀ compilation, P compilation → compilation.roster.length ≤ bound) :
    ∀ fuel compilation, P compilation → bound ≤ compilation.made.length + fuel →
      ∃ count ≤ fuel, Declares definitions root compilation count
        (declareFrom definitions root fuel compilation) := by
  intro fuel
  induction fuel with
  | zero =>
    -- the bound is reached, so there is no claim without a declaration
    intro compilation h_holds h_fuel
    have h_claims := h_bound compilation h_holds
    exact ⟨0, Nat.le_refl 0, .complete (List.getElem?_eq_none (by omega))⟩
  | succ fuel ih =>
    intro compilation h_holds h_fuel
    rw [declareFrom]
    split
    case h_1 h_none => exact ⟨0, Nat.zero_le _, .complete h_none⟩
    case h_2 name schema h_next =>
      split
      case h_1 fault h_fault => exact ⟨1, by omega, .malformed h_next h_fault⟩
      case h_2 plain h_plain =>
        have h_step : Round definitions root compilation _ := .declare h_next h_plain
        obtain ⟨count, h_count, h_rest⟩ := ih _ (h_round _ _ h_step h_holds) (by
          rw [List.length_append, List.length_singleton]
          omega)
        exact ⟨count + 1, by omega, .next h_step h_rest⟩

/-- What every round preserves holds of what a bounded run gives. -/
theorem declareFrom_induction {P : Compilation → Prop}
    (h_round : ∀ before after, Round definitions root before after → P before → P after) :
    ∀ fuel compilation final, P compilation →
      declareFrom definitions root fuel compilation = .ok final → P final := by
  intro fuel
  induction fuel with
  | zero =>
    intro compilation final h_holds h_run
    cases h_run
    exact h_holds
  | succ fuel ih =>
    intro compilation final h_holds h_run
    rw [declareFrom] at h_run
    split at h_run
    case h_1 =>
      cases h_run
      exact h_holds
    -- a claim is left: its declaration fails, or the round is made and the rest follows
    case h_2 name schema h_next =>
      split at h_run
      case h_1 => cases h_run
      case h_2 plain h_plain =>
        exact ih _ final (h_round _ _ (.declare h_next h_plain) h_holds) h_run

/-! ## The schemas of a compilation -/

/-- The root schema and the definitions in one value: whatever is declared is part of it. -/
def sources (definitions : Definitions) (schema : Json) : Json :=
  .array (schema :: definitions.schemas.map Prod.snd)

/-- The nodes of the schema are among those that a compilation draws from. -/
theorem nodes_subset_sources (definitions : Definitions) (schema : Json) :
    schema.nodes ⊆ (sources definitions schema).nodes :=
  Json.nodes_subset_of_mem_items List.mem_cons_self

theorem mem_sources_of_get? {key : String} {definition : Json}
    (h_key : definitions.get? key = some definition) :
    definition ∈ schema :: definitions.schemas.map Prod.snd :=
  List.mem_cons_of_mem schema
    (List.mem_map.mpr ⟨(key, definition), Entries.mem_of_lookup h_key, rfl⟩)

/-- What a compilation draws from is well formed when the schema and the definitions are. -/
theorem wellFormed_sources (h_schema : schema.WellFormed)
    (h_definitions : Json.WellFormedFields definitions.schemas) :
    (sources definitions schema).WellFormed := by
  rw [sources, Json.wellFormed_array_iff]
  intro item h_item
  rcases List.mem_cons.mp h_item with rfl | h_item
  · exact h_schema
  · obtain ⟨entry, h_entry, rfl⟩ := List.mem_map.mp h_item
    exact Json.wellFormedFields_iff.mp h_definitions entry h_entry

/-- The schema of a mention is part of the sources. -/
theorem nodes_subset_of_standsFor? {mention : Mention} {own : Json}
    (h_from : mention.From (sources definitions schema))
    (h_stands : Roster.standsFor? definitions mention = some own) :
    own.nodes ⊆ (sources definitions schema).nodes := by
  cases mention with
  | titled title node =>
    obtain ⟨-, rfl⟩ := Roster.standsFor?_titled_iff.mp h_stands
    exact Json.nodes_subset_of_mem_nodes h_from.1
  | reference target =>
    obtain ⟨key, -, h_key⟩ := Roster.definition?_eq_some_iff.mp h_stands
    exact Json.nodes_subset_of_mem_items (mem_sources_of_get? h_key)

/-- Every claim is for a schema of the sources. -/
def Inside (definitions : Definitions) (schema : Json) (roster : Roster) : Prop :=
  ∀ entry ∈ roster, entry.2.nodes ⊆ (sources definitions schema).nodes

/-- Choosing a name claims only what stands in the sources. -/
theorem inside_choose {mention : Mention} {roster : Roster}
    (h_from : mention.From (sources definitions schema))
    (h_inside : Inside definitions schema roster) :
    Inside definitions schema (Roster.choose definitions root mention roster).2 := by
  intro entry h_entry
  -- an entry was claimed before, or stands for the mention
  rcases Roster.mem_choose h_entry with h_old | ⟨-, h_stands, -⟩
  · exact h_inside entry h_old
  · exact nodes_subset_of_standsFor? h_from h_stands

/-- What a round declares mentions what stands in the sources. -/
theorem from_sources {name : String} {own : Json} {plain : Declaration Mention} {roster : Roster}
    (h_inside : Inside definitions schema roster) (h_claim : (name, own) ∈ roster)
    (h_declare : declare name own = .ok plain) :
    ∀ mention ∈ plain.type.mentions, mention.From (sources definitions schema) := by
  intro mention h_mention
  exact ((declare_draws h_declare).mentions mention h_mention).mono (h_inside _ h_claim)

/-- What every choice of a name preserves, every round does. -/
theorem Round.roster_preserves {P : Roster → Prop}
    (h_choose : ∀ mention roster, mention.From (sources definitions schema) →
      Inside definitions schema roster → P roster →
        P (Roster.choose definitions root mention roster).2)
    (h_round : Round definitions root compilation later)
    (h_inside : Inside definitions schema compilation.roster) (h_roster : P compilation.roster) :
    Inside definitions schema later.roster ∧ P later.roster := by
  obtain ⟨h_next, h_declare⟩ := h_round
  rename_i name own plain
  have h_from := from_sources h_inside (List.mem_of_getElem? h_next) h_declare
  simp only
  rw [roster_nameIn]
  -- both at once, since a choice is only looked at inside the sources
  refine TypeExpr.chooseAll_preserves
    (P := fun roster => Inside definitions schema roster ∧ P roster) ?_ ⟨h_inside, h_roster⟩
  intro mention h_mention roster h_before
  exact ⟨inside_choose (h_from mention h_mention) h_before.1,
    h_choose mention roster (h_from mention h_mention) h_before.1 h_before.2⟩

/-- At first only the schema itself is claimed. -/
theorem inside_start (definitions : Definitions) (root : String) (schema : Json) :
    Inside definitions schema [(root, schema)] := by
  intro entry h_entry
  rw [List.mem_singleton.mp h_entry]
  exact nodes_subset_sources definitions schema

/-- What every choice of a name preserves holds of the claims of a finished compilation. -/
theorem Declares.roster_induction {P : Roster → Prop} {final : Compilation}
    (h_run : Declares definitions root ⟨[(root, schema)], []⟩ count (.ok final))
    (h_choose : ∀ mention roster, mention.From (sources definitions schema) →
      Inside definitions schema roster → P roster →
        P (Roster.choose definitions root mention roster).2)
    (h_start : P [(root, schema)]) : P final.roster := by
  have h_final := h_run.induction
    (P := fun compilation => Inside definitions schema compilation.roster ∧ P compilation.roster)
    (fun before after h_round h_before =>
      h_round.roster_preserves h_choose h_before.1 h_before.2)
    ⟨inside_start definitions root schema, h_start⟩
  exact h_final.1.2

end OpenApiTs.Schema
