/-
  OpenApiTs.Proofs.Schema.Rerooted

  One schema compiled under two names. As long as nothing that is reached claims either name, the two
  compilations go on side by side: their rosters differ in the root only, and their declarations in
  the names that stand for it.
-/
import OpenApiTs.Proofs.Schema.Lockstep
import OpenApiTs.Proofs.Schema.Pulled
import OpenApiTs.Proofs.TypeScript.Marked

namespace OpenApiTs.Schema

open OpenApiTs.Outcome (Corresponds)
open OpenApiTs.TypeScript
open Roster (candidate definition? firstFree nameTitled placeholderOf? standsFor? taken)

variable {definitions : Definitions} {root root' name own base : String} {schema schema' node : Json}
  {roster roster' : Roster} {mention : Mention} {compilation compilation' later : Compilation}
  {T : String → String → Prop}

/-! ## Reached schemas -/

/-- The schemas that a compilation can come to: the schema itself, and what the mentions of a reached
    one stand for. -/
inductive Reaches (definitions : Definitions) (schema : Json) : Json → Prop where
  | start : Reaches definitions schema schema
  | step {node own : Json} {mention : Mention} (h_node : Reaches definitions schema node)
      (h_mention : mention ∈ mentionsOf node) (h_stands : standsFor? definitions mention = some own) :
      Reaches definitions schema own

/-- Where titled nodes claim nothing, only definitions are reached. -/
theorem Reaches.cases_of_claimsNoTitle (h_schema : ClaimsNoTitle definitions schema)
    (h_definitions : ∀ entry ∈ definitions.schemas, ClaimsNoTitle definitions entry.2)
    (h_reaches : Reaches definitions schema node) :
    node = schema ∨ ∃ entry ∈ definitions.schemas, entry.2 = node := by
  induction h_reaches with
  | start => exact .inl rfl
  | @step before own mention _ h_mention h_stands ih =>
    have h_before : ClaimsNoTitle definitions before := by
      rcases ih with rfl | ⟨entry, h_entry, rfl⟩
      · exact h_schema
      · exact h_definitions entry h_entry
    -- titles claim nothing here, so only references lead on, and they lead to definitions
    cases mention with
    | titled title inner =>
      have h_none := h_before _ h_mention
      rw [Mention.claimsTitle, h_stands] at h_none
      cases h_none
    | reference target =>
      obtain ⟨key, -, h_key⟩ := Roster.definition?_eq_some_iff.mp h_stands
      exact .inr ⟨(key, own), Entries.mem_of_lookup h_key, rfl⟩

/-! ## Names that nobody claims -/

/-- What the name for a mention is made from. -/
def Mention.words : Mention → String
  | .titled title _ => title
  | .reference target => Text.lastPiece '/' target

/-- Whether a mention asks for none of some names, or claims nothing at all. -/
def Mention.Avoids (definitions : Definitions) (names : List String) (mention : Mention) : Prop :=
  (standsFor? definitions mention).isSome = true → Name.identifier mention.words ∉ names

instance (definitions : Definitions) (names : List String) (mention : Mention) :
    Decidable (mention.Avoids definitions names) :=
  inferInstanceAs (Decidable (_ → _))

/-- Whether nothing that a schema reaches claims one of some names. -/
def LeavesFree (definitions : Definitions) (names : List String) (schema : Json) : Prop :=
  ∀ node, Reaches definitions schema node →
    ∀ mention ∈ mentionsOf node, mention.Avoids definitions names

/-- Where titled nodes claim nothing, names are left free when the schema and the definitions ask for
    none of them. -/
theorem leavesFree_of_claimsNoTitle {names : List String} (h_schema : ClaimsNoTitle definitions schema)
    (h_definitions : ∀ entry ∈ definitions.schemas, ClaimsNoTitle definitions entry.2)
    (h_own : ∀ mention ∈ mentionsOf schema, mention.Avoids definitions names)
    (h_others : ∀ entry ∈ definitions.schemas,
      ∀ mention ∈ mentionsOf entry.2, mention.Avoids definitions names) :
    LeavesFree definitions names schema := by
  intro node h_reaches
  rcases h_reaches.cases_of_claimsNoTitle h_schema h_definitions with rfl | ⟨entry, h_entry, rfl⟩
  · exact h_own
  · exact h_others entry h_entry

/-- Whether a name does not end in a digit, as the later candidates for a title do. -/
def Unnumbered (name : String) : Prop := ∀ c ∈ name.toList.getLast?, c.isDigit = false

instance (name : String) : Decidable (Unnumbered name) :=
  inferInstanceAs (Decidable (∀ c ∈ name.toList.getLast?, c.isDigit = false))

/-- A name without a digit at its end is the first candidate for a title, if it is one at all. -/
theorem eq_of_candidate_eq (h_name : Unnumbered name) {number : Nat}
    (h_candidate : candidate base number = name) : base = name := by
  by_cases h_number : number = 0
  · rwa [h_number, Roster.candidate_zero] at h_candidate
  · rw [Roster.candidate_of_ne_zero h_number] at h_candidate
    -- the last digit of the number would end the name
    have h_some : Nat.toDigits 10 number ≠ [] := Nat.toDigits_ne_nil
    have h_last : name.toList.getLast? = some ((Nat.toDigits 10 number).getLast h_some) := by
      rw [← h_candidate, String.toList_append, String.toList_ofList,
        List.getLast?_append_of_ne_nil _ h_some, List.getLast?_eq_some_getLast h_some]
    have h_digit := Nat.isDigit_of_mem_toDigits (by decide) (by decide)
      (List.getLast_mem h_some)
    rw [h_name _ h_last] at h_digit
    cases h_digit

theorem candidate_not_mem {names : List String} (h_names : ∀ name ∈ names, Unnumbered name)
    (h_base : base ∉ names) (number : Nat) : candidate base number ∉ names := by
  intro h_mem
  exact h_base ((eq_of_candidate_eq (h_names _ h_mem) rfl).symm ▸ h_mem)

/-! ## Rosters -/

/-- Whether two rosters differ in the root only, which nothing else has the name of in either. -/
inductive Rerooted (root root' : String) (schema schema' : Json) : Roster → Roster → Prop where
  | intro (rest : Roster) (h_root : root ∉ Entries.names rest)
      (h_root' : root' ∉ Entries.names rest) :
      Rerooted root root' schema schema' ((root, schema) :: rest) ((root', schema') :: rest)

namespace Rerooted

variable (h_rosters : Rerooted root root' schema schema' roster roster')
include h_rosters

theorem length_eq : roster.length = roster'.length := by
  obtain ⟨rest, -, -⟩ := h_rosters
  rfl

theorem lookup_eq (h_name : name ∉ [root, root']) : roster.lookup name = roster'.lookup name := by
  obtain ⟨rest, -, -⟩ := h_rosters
  rw [List.mem_cons, List.mem_singleton, not_or] at h_name
  rw [Entries.lookup_cons, Entries.lookup_cons, if_neg h_name.1, if_neg h_name.2]

/-- A claim for another name than the roots' is made on both sides or on neither. -/
theorem claim (h_name : name ∉ [root, root']) (node : Json) :
    Rerooted root root' schema schema' (roster.claim name node) (roster'.claim name node) := by
  have h_has : Entries.has roster name = Entries.has roster' name :=
    congrArg Option.isSome (h_rosters.lookup_eq h_name)
  rw [Roster.claim, Roster.claim, h_has]
  split
  · exact h_rosters
  · -- the claim goes behind the rest, which the rosters share
    obtain ⟨rest, h_root, h_root'⟩ := h_rosters
    rw [List.mem_cons, List.mem_singleton, not_or] at h_name
    refine .intro (rest ++ [(name, node)]) ?_ ?_
    · rw [Entries.names, List.map_append, List.mem_append, not_or]
      exact ⟨h_root, by simpa using Ne.symm h_name.1⟩
    · rw [Entries.names, List.map_append, List.mem_append, not_or]
      exact ⟨h_root', by simpa using Ne.symm h_name.2⟩

theorem taken_eq (h_name : name ∉ [root, root']) (node : Json) :
    taken definitions roster node name = taken definitions roster' node name := by
  rw [taken, taken, h_rosters.lookup_eq h_name]

/-- The search for a candidate takes the same course on both sides when it does not meet the
    roots. -/
theorem firstFree_eq (h_base : ∀ number, candidate base number ∉ [root, root']) (node : Json)
    (fuel number : Nat) :
    firstFree definitions roster node base fuel number =
      firstFree definitions roster' node base fuel number := by
  induction fuel generalizing number with
  | zero => rfl
  | succ fuel ih =>
    rw [firstFree, firstFree, h_rosters.taken_eq (h_base number), ih (number + 1)]

/-- A title gets the same name on both sides when none of its candidates is a root. -/
theorem nameTitled_eq {title : String}
    (h_base : ∀ number, candidate (Name.identifier title) number ∉ [root, root']) (node : Json) :
    (nameTitled definitions title node roster).1 = (nameTitled definitions title node roster').1 := by
  simp only [nameTitled]
  rw [h_rosters.length_eq, h_rosters.firstFree_eq h_base]

/-- A mention that asks for neither root gets one name under both, or it is written with the root in
    each; and the rosters still differ in the root only. -/
theorem choose (h_roots : ∀ name ∈ [root, root'], Unnumbered name)
    (h_avoids : mention.Avoids definitions [root, root']) :
    ((Roster.choose definitions root mention roster).1 =
        (Roster.choose definitions root' mention roster').1 ∨
      (Roster.choose definitions root mention roster).1 = root ∧
        (Roster.choose definitions root' mention roster').1 = root') ∧
      Rerooted root root' schema schema' (Roster.choose definitions root mention roster).2
        (Roster.choose definitions root' mention roster').2 := by
  cases mention with
  | titled title node =>
    simp only [Roster.choose]
    cases h_placeholder : placeholderOf? definitions title with
    | some own => exact ⟨.inl rfl, h_rosters⟩
    | none =>
      have h_stands : standsFor? definitions (.titled title node) = some node :=
        Roster.standsFor?_titled_iff.mpr ⟨h_placeholder, rfl⟩
      -- the title claims a name, so none of its candidates is a root
      have h_base := candidate_not_mem h_roots (h_avoids (by rw [h_stands]; rfl))
      have h_name : (nameTitled definitions title node roster).1 =
          (nameTitled definitions title node roster').1 := h_rosters.nameTitled_eq h_base node
      refine ⟨.inl h_name, ?_⟩
      obtain ⟨number, -, h_candidate, -⟩ :=
        Roster.nameTitled_first definitions title node roster
      rw [Roster.nameTitled_snd, Roster.nameTitled_snd, ← h_name]
      exact h_rosters.claim (h_candidate ▸ h_base number) node
  | reference target =>
    simp only [Roster.choose, Roster.nameReference]
    -- the reference to the root is where the two sides differ
    by_cases h_root : target = "#"
    · rw [if_pos h_root, if_pos h_root]
      exact ⟨.inr ⟨rfl, rfl⟩, h_rosters⟩
    · rw [if_neg h_root, if_neg h_root]
      cases h_known : definition? definitions target with
      | none => exact ⟨.inl rfl, h_rosters⟩
      | some own =>
        have h_stands : standsFor? definitions (.reference target) = some own := h_known
        exact ⟨.inl rfl, h_rosters.claim (h_avoids (by rw [h_stands]; rfl)) own⟩

end Rerooted

/-! ## Declarations of the root -/

/-- Whether two schemas are declared alike but for their names. -/
structure SameOutline (schema schema' : Json) : Prop where
  outline : Schema.outline schema = Schema.outline schema'
  form : formOf schema = formOf schema'
  description : description? schema = description? schema'

theorem SameOutline.refl (schema : Json) : SameOutline schema schema := ⟨rfl, rfl, rfl⟩

/-- The claim in one place of a roster has a counterpart: the same one, or the other root. -/
theorem Rerooted.exists_claim (h_rosters : Rerooted root root' schema schema' roster roster')
    (h_refl : ∀ text, T text text) (h_roots : T root root')
    (h_schemas : SameOutline schema schema') {place : Nat}
    (h_claim : roster[place]? = some (name, node)) :
    ∃ name' node', roster'[place]? = some (name', node') ∧ T name name' ∧
      SameOutline node node' := by
  obtain ⟨rest, -, -⟩ := h_rosters
  -- the roots stand in the first place, and behind them the rosters are one
  cases place with
  | zero =>
    cases h_claim
    exact ⟨root', schema', rfl, h_roots, h_schemas⟩
  | succ place =>
    rw [List.getElem?_cons_succ] at h_claim
    exact ⟨name, node, by rw [List.getElem?_cons_succ, h_claim], h_refl name, .refl node⟩

/-! ## Side by side -/

/-- What two compilations under two names keep to: their rosters differ in the root, whatever is
    claimed is reached from the schema, and their declarations differ in names for the root. -/
structure SideBySide (definitions : Definitions) (T : String → String → Prop)
    (root root' : String) (schema schema' : Json) (compilation compilation' : Compilation) :
    Prop where
  rosters : Rerooted root root' schema schema' compilation.roster compilation'.roster
  reached : ∀ entry ∈ compilation.roster, Reaches definitions schema entry.2
  made : List.Forall₂ (Declaration.Alike T) compilation.made compilation'.made

/-- Two names for one schema whose declarations are to be compared. -/
structure Comparable (definitions : Definitions) (T : String → String → Prop)
    (root root' : String) (schema schema' : Json) : Prop where
  refl : ∀ text, T text text
  roots : T root root'
  unnumbered : ∀ name ∈ [root, root'], Unnumbered name
  schemas : SameOutline schema schema'
  free : LeavesFree definitions [root, root'] schema

/-- Names are chosen alike for what a reached schema mentions. -/
theorem Comparable.choosesBoth (h_comparable : Comparable definitions T root root' schema schema')
    (h_node : Reaches definitions schema node) :
    TypeExpr.ChoosesBoth (· ∈ mentionsOf node) T
      (fun roster roster' => Rerooted root root' schema schema' roster roster' ∧
        ∀ entry ∈ roster, Reaches definitions schema entry.2)
      (Roster.choose definitions root) (Roster.choose definitions root') := by
  rintro mention h_mention roster roster' ⟨h_rosters, h_reached⟩
  obtain ⟨h_names, h_after⟩ := h_rosters.choose h_comparable.unnumbered
    (h_comparable.free node h_node mention h_mention)
  refine ⟨?_, h_after, ?_⟩
  · -- the same name, or that of the root on its side
    rcases h_names with h_same | ⟨h_root, h_root'⟩
    · rw [h_same]
      exact h_comparable.refl _
    · rw [h_root, h_root']
      exact h_comparable.roots
  · intro entry h_entry
    rcases Roster.mem_choose h_entry with h_old | ⟨-, h_stands, -⟩
    · exact h_reached entry h_old
    · exact .step h_node h_mention h_stands

namespace SideBySide

variable (h_comparable : Comparable definitions T root root' schema schema')
  (h_sides : SideBySide definitions T root root' schema schema' compilation compilation')
include h_comparable h_sides

/-- Where the one compilation comes next, the other one does. -/
theorem exists_next
    (h_next : compilation.roster[compilation.made.length]? = some (name, node)) :
    ∃ name' node', compilation'.roster[compilation'.made.length]? = some (name', node') ∧
      T name name' ∧ SameOutline node node' := by
  rw [← h_sides.made.length_eq]
  exact h_sides.rosters.exists_claim h_comparable.refl h_comparable.roots h_comparable.schemas
    h_next

/-- A round of the one compilation is followed by a round of the other. -/
theorem round (h_round : Round definitions root compilation later) :
    ∃ later', Round definitions root' compilation' later' ∧
      SideBySide definitions T root root' schema schema' later later' := by
  obtain ⟨h_next, h_declare⟩ := h_round
  rename_i name node plain
  have h_node := h_sides.reached _ (List.mem_of_getElem? h_next)
  have h_mentions := mentionsOf_eq h_declare
  obtain ⟨name', node', h_next', h_names, h_nodes⟩ := h_sides.exists_next h_comparable h_next
  -- both declare one type, each under its own name
  rw [declare_eq] at h_declare
  obtain ⟨type, h_type, rfl⟩ := Outcome.map_eq_ok_iff.mp h_declare
  have h_declare' : declare name' node' =
      .ok ⟨name', description? node', formOf node', type⟩ := by
    rw [declare_eq, ← h_nodes.outline, h_type]
    rfl
  have h_spelled : type.Spelled (fun _ => True) (· ∈ mentionsOf node) :=
    TypeExpr.spelled_of_mentions type fun mention h_mention => h_mentions ▸ h_mention
  obtain ⟨h_match, h_rosters, h_reached⟩ := TypeExpr.Spelled.rename_matches
    (h_comparable.choosesBoth h_node) type compilation.roster compilation'.roster h_spelled
    ⟨h_sides.rosters, h_sides.reached⟩
  refine ⟨_, .declare h_next' h_declare', h_rosters, h_reached, ?_⟩
  exact List.rel_append h_sides.made
    (.cons ⟨h_names, h_nodes.description, h_nodes.form, h_match⟩ .nil)

/-- Where the schema that comes next in the one compilation is malformed, it is in the other, for the
    same reason. -/
theorem malformed {fault : Fault}
    (h_next : compilation.roster[compilation.made.length]? = some (name, node))
    (h_declare : declare name node = .error fault) :
    ∃ name' node', compilation'.roster[compilation'.made.length]? = some (name', node') ∧
      T name name' ∧ declare name' node' = .error fault := by
  obtain ⟨name', node', h_next', h_names, h_nodes⟩ := h_sides.exists_next h_comparable h_next
  refine ⟨name', node', h_next', h_names, ?_⟩
  rw [declare_eq] at h_declare ⊢
  rw [← h_nodes.outline]
  -- both have the same outline, so both have the fault
  cases h_outline : outline node with
  | ok type =>
    rw [h_outline] at h_declare
    cases h_declare
  | error own =>
    rw [h_outline] at h_declare
    cases h_declare
    rfl

end SideBySide

/-! ## Runs -/

/-- Whether failures of two compilations are for one reason, under names for the root at most. -/
structure Malformed.Alike (T : String → String → Prop) (malformed malformed' : Malformed) : Prop where
  name : T malformed.name malformed'.name
  fault : malformed.fault = malformed'.fault

/-- Compilations that go on side by side come to the same end. -/
theorem Comparable.lockstep (h_comparable : Comparable definitions T root root' schema schema') :
    Lockstep definitions definitions root root' (Malformed.Alike T)
      (SideBySide definitions T root root' schema schema') where
  complete := by
    intro compilation compilation' h_sides h_none
    rw [List.getElem?_eq_none_iff] at h_none ⊢
    rwa [← h_sides.rosters.length_eq, ← h_sides.made.length_eq]
  malformed := by
    intro compilation compilation' name node fault h_sides h_next h_declare
    obtain ⟨name', node', h_next', h_names, h_declare'⟩ :=
      h_sides.malformed h_comparable h_next h_declare
    exact ⟨name', node', fault, h_next', h_declare', h_names, rfl⟩
  round := fun h_sides h_round => h_sides.round h_comparable h_round

/-- A schema compiled under two names comes to the same declarations but for the names of the root,
    or fails for one reason. -/
theorem compile_corresponds {name' : String} (h_schema : schema.WellFormed)
    (h_schema' : schema'.WellFormed) (h_definitions : Json.WellFormedFields definitions.schemas)
    (h_comparable : Comparable definitions T (Name.identifier name) (Name.identifier name') schema
      schema') :
    Corresponds (Malformed.Alike T)
      (fun final final' => List.Forall₂ (Declaration.Alike T) final.made final'.made)
      (compile definitions name schema) (compile definitions name' schema') := by
  -- at first each has claimed its root and nothing else
  have h_start : SideBySide definitions T (Name.identifier name) (Name.identifier name') schema
      schema' ⟨[(Name.identifier name, schema)], []⟩ ⟨[(Name.identifier name', schema')], []⟩ := by
    refine ⟨.intro [] List.not_mem_nil List.not_mem_nil, ?_, .nil⟩
    intro entry h_entry
    rw [List.mem_singleton.mp h_entry]
    exact .start
  exact (h_comparable.lockstep.compile h_schema h_schema' h_definitions h_definitions h_start).mono
    fun _ _ h_sides => h_sides.made

end OpenApiTs.Schema
