/-
  OpenApiTs.Proofs.Schema.Declared

  What a compilation consists of. Each declaration is rendered from the schema that claimed its name,
  no name is claimed twice, and every claim after that of the root was made for something that a
  declaration mentions under that name.
-/
import OpenApiTs.Proofs.Schema.Scrub
import OpenApiTs.Proofs.Schema.Termination

namespace OpenApiTs.Schema

open OpenApiTs.TypeScript
open Roster (standsFor? chooseEach)

variable {definitions : Definitions} {root name written : String} {schema own owner : Json}
  {compilation later : Compilation} {mention : Mention} {plain : Declaration Mention}
  {declaration : Declaration String}

/-! ## Claims and their declarations -/

/-- The mentions of a compilation in order, each with the name that is written in its place. -/
def Compilation.writings (compilation : Compilation) : List (Mention × String) :=
  (compilation.roster.zip compilation.made).flatMap fun pair =>
    match declare pair.1.1 pair.1.2 with
    | .ok plain => plain.type.mentions.zip pair.2.type.mentions
    | .error _ => []

/-- A claim of a compilation with its declaration, which is rendered from the schema that claimed
    the name. -/
structure Declared (definitions : Definitions) (root : String) (compilation : Compilation)
    (name : String) (schema : Json) (plain : Declaration Mention)
    (declaration : Declaration String) : Prop where
  claimed : ((name, schema), declaration) ∈ compilation.roster.zip compilation.made
  declared : declare name schema = .ok plain
  named : ∃ before, (nameIn definitions root plain before).1 = declaration ∧
    (nameIn definitions root plain before).2 <+: compilation.roster

/-- A claim and its declaration stand in one place. -/
theorem mem_zip_iff {claim : String × Json} :
    (claim, declaration) ∈ compilation.roster.zip compilation.made ↔
      ∃ place : Nat, compilation.roster[place]? = some claim ∧
        compilation.made[place]? = some declaration := by
  rw [List.mem_iff_getElem?]
  simp only [List.getElem?_zip_eq_some]

/-- Something is written where the declaration of a claim mentions it. -/
theorem mem_writings_iff :
    (mention, written) ∈ compilation.writings ↔
      ∃ name own declaration plain,
        ((name, own), declaration) ∈ compilation.roster.zip compilation.made ∧
        declare name own = .ok plain ∧
        (mention, written) ∈ plain.type.mentions.zip declaration.type.mentions := by
  rw [Compilation.writings, List.mem_flatMap]
  constructor
  · rintro ⟨⟨⟨name, own⟩, declaration⟩, h_pair, h_mem⟩
    -- only a claim whose schema has a declaration writes anything
    split at h_mem
    · next plain h_plain => exact ⟨name, own, declaration, plain, h_pair, h_plain, h_mem⟩
    · cases h_mem
  · rintro ⟨name, own, declaration, plain, h_pair, h_plain, h_mem⟩
    refine ⟨((name, own), declaration), h_pair, ?_⟩
    simp only [h_plain]
    exact h_mem

/-! ## Growth -/

theorem getElem?_of_grown {α : Type} {front whole : List α} {place : Nat} {item : α}
    (h_grown : front <+: whole) (h_item : front[place]? = some item) :
    whole[place]? = some item := by
  obtain ⟨back, rfl⟩ := h_grown
  rw [List.getElem?_append_left (List.getElem?_eq_some_iff.mp h_item).1, h_item]

/-- Whether a compilation goes on from another one. -/
structure Extends (later compilation : Compilation) : Prop where
  roster : compilation.roster <+: later.roster
  made : compilation.made <+: later.made

/-- A claim keeps its declaration. -/
theorem Extends.mem_zip (h_extends : Extends later compilation) {claim : String × Json}
    (h_mem : (claim, declaration) ∈ compilation.roster.zip compilation.made) :
    (claim, declaration) ∈ later.roster.zip later.made := by
  obtain ⟨place, h_claim, h_made⟩ := mem_zip_iff.mp h_mem
  exact mem_zip_iff.mpr ⟨place, getElem?_of_grown h_extends.roster h_claim,
    getElem?_of_grown h_extends.made h_made⟩

theorem Extends.mem_writings (h_extends : Extends later compilation)
    (h_mem : (mention, written) ∈ compilation.writings) : (mention, written) ∈ later.writings := by
  obtain ⟨name, own, declaration, plain, h_pair, h_rest⟩ := mem_writings_iff.mp h_mem
  exact mem_writings_iff.mpr
    ⟨name, own, declaration, plain, h_extends.mem_zip h_pair, h_rest⟩

/-- What is declared stays declared. -/
theorem Extends.declared (h_extends : Extends later compilation)
    (h_declared : Declared definitions root compilation name schema plain declaration) :
    Declared definitions root later name schema plain declaration := by
  obtain ⟨before, h_named, h_grown⟩ := h_declared.named
  exact ⟨h_extends.mem_zip h_declared.claimed, h_declared.declared, before, h_named,
    h_grown.trans h_extends.roster⟩

/-- A round goes on from the compilation before it. -/
theorem Round.extends (h_round : Round definitions root compilation later) :
    Extends later compilation := by
  obtain ⟨-, -⟩ := h_round
  exact ⟨prefix_nameIn definitions root _ _, List.prefix_append _ _⟩

/-! ## What every round preserves -/

/-- A compilation under way: the root claimed its name first, no name is claimed twice, every
    declaration is rendered from the schema of its claim, and every other claim was made for
    something that a declaration mentions. -/
structure Sound (definitions : Definitions) (root : String) (schema : Json)
    (compilation : Compilation) : Prop where
  start : [(root, schema)] <+: compilation.roster
  names_nodup : (Entries.names compilation.roster).Nodup
  length_le : compilation.made.length ≤ compilation.roster.length
  inside : Inside definitions schema compilation.roster
  declared : ∀ name own declaration,
    ((name, own), declaration) ∈ compilation.roster.zip compilation.made →
      ∃ plain, Declared definitions root compilation name own plain declaration
  origin : ∀ entry ∈ compilation.roster, entry = (root, schema) ∨
    ∃ mention, (mention, entry.1) ∈ compilation.writings ∧
      standsFor? definitions mention = some entry.2

/-- A compilation that has only claimed its root is sound. -/
theorem sound_start (definitions : Definitions) (root : String) (schema : Json) :
    Sound definitions root schema ⟨[(root, schema)], []⟩ := by
  refine ⟨List.prefix_refl _, by simp [Entries.names], by simp,
    inside_start definitions root schema, by simp, ?_⟩
  intro entry h_entry
  exact .inl (List.mem_singleton.mp h_entry)

/-- The pairs of a claim and its declaration after a round: those before it, and the new one. -/
theorem Round.mem_zip (h_round : Round definitions root compilation later)
    (h_length : compilation.made.length ≤ compilation.roster.length) {claim : String × Json}
    (h_mem : (claim, declaration) ∈ later.roster.zip later.made) :
    (claim, declaration) ∈ compilation.roster.zip compilation.made ∨
      ∃ plain, Declared definitions root later claim.1 claim.2 plain declaration := by
  have h_extends := h_round.extends
  obtain ⟨h_next, h_declare⟩ := h_round
  rename_i name own plain
  obtain ⟨place, h_claim, h_made⟩ := mem_zip_iff.mp h_mem
  simp only at h_claim h_made
  -- the declaration of a place before the end is an old one, that of the end is the new one
  rcases Nat.lt_trichotomy place compilation.made.length with h_old | rfl | h_beyond
  · rw [List.getElem?_append_left h_old] at h_made
    have h_within : place < compilation.roster.length := by omega
    have h_same := getElem?_of_grown h_extends.roster (List.getElem?_eq_getElem h_within)
    rw [h_same] at h_claim
    refine .inl (mem_zip_iff.mpr ⟨place, ?_, h_made⟩)
    rw [List.getElem?_eq_getElem h_within, h_claim]
  · rw [getElem?_of_grown h_extends.roster h_next] at h_claim
    rw [List.getElem?_concat_length] at h_made
    cases h_claim
    cases h_made
    exact .inr ⟨plain, h_mem, h_declare, compilation.roster, rfl, List.prefix_refl _⟩
  · rw [List.getElem?_eq_none (by
      rw [List.length_append, List.length_singleton]
      omega)] at h_made
    cases h_made

/-- A round adds the next claim with its declaration. -/
theorem mem_zip_nameIn {name : String} {own : Json}
    (h_next : compilation.roster[compilation.made.length]? = some (name, own))
    (plain : Declaration Mention) :
    ((name, own), (nameIn definitions root plain compilation.roster).1) ∈
      (nameIn definitions root plain compilation.roster).2.zip
        (compilation.made ++ [(nameIn definitions root plain compilation.roster).1]) := by
  apply List.mem_iff_getElem?.mpr
  refine ⟨compilation.made.length, List.getElem?_zip_eq_some.mpr ⟨?_, ?_⟩⟩
  · exact getElem?_of_grown (prefix_nameIn definitions root plain _) h_next
  · exact List.getElem?_concat_length

/-- A round keeps a compilation sound. -/
theorem Round.sound (h_round : Round definitions root compilation later)
    (h_sound : Sound definitions root schema compilation) :
    Sound definitions root schema later := by
  have h_extends := h_round.extends
  have h_inside := (h_round.roster_preserves (P := fun roster => (Entries.names roster).Nodup)
    (fun _ _ _ _ h_names => Roster.names_nodup_choose h_names) h_sound.inside h_sound.names_nodup)
  refine ⟨h_sound.start.trans h_extends.roster, h_inside.2, ?_, h_inside.1, ?_, ?_⟩
  · obtain ⟨h_next, -⟩ := h_round
    have h_within := (List.getElem?_eq_some_iff.mp h_next).1
    have h_grown := h_extends.roster.length_le
    simp only [List.length_append, List.length_singleton] at h_grown ⊢
    omega
  · intro name own declaration h_mem
    rcases h_round.mem_zip h_sound.length_le h_mem with h_old | h_new
    · obtain ⟨plain, h_declared⟩ := h_sound.declared name own declaration h_old
      exact ⟨plain, h_extends.declared h_declared⟩
    · exact h_new
  · intro entry h_entry
    obtain ⟨h_next, h_declare⟩ := h_round
    rename_i name own plain
    simp only [roster_nameIn] at h_entry
    -- what is new in the roster is written in the new declaration
    rcases Roster.mem_chooseEach h_entry with h_old | ⟨mention, h_written, h_stands⟩
    · exact (h_sound.origin entry h_old).imp_right fun ⟨mention, h_mem, h_stands⟩ =>
        ⟨mention, h_extends.mem_writings h_mem, h_stands⟩
    · refine .inr ⟨mention, mem_writings_iff.mpr
        ⟨name, own, _, plain, mem_zip_nameIn h_next plain, h_declare, ?_⟩, h_stands⟩
      rw [mentions_nameIn]
      exact h_written

/-! ## Finished compilations -/

/-- A compilation that succeeded is sound. -/
theorem sound_compile (h_compile : compile definitions name schema = .ok compilation) :
    Sound definitions (Name.identifier name) schema compilation :=
  declareFrom_induction (P := Sound definitions (Name.identifier name) schema)
    (fun _ _ h_round h_before => h_round.sound h_before) _ _ _
    (sound_start definitions _ schema) h_compile

/-- A compilation that succeeded is sound, and every claim has its declaration. -/
theorem sound_of_compile (h_schema : schema.WellFormed)
    (h_definitions : Json.WellFormedFields definitions.schemas)
    (h_compile : compile definitions name schema = .ok compilation) :
    Sound definitions (Name.identifier name) schema compilation ∧
      compilation.roster.length = compilation.made.length := by
  obtain ⟨count, -, h_run⟩ := declares_compile name h_schema h_definitions
  rw [h_compile] at h_run
  obtain ⟨h_sound, h_none⟩ := h_run.induction
    (P := Sound definitions (Name.identifier name) schema)
    (fun before after h_round h_before => h_round.sound h_before)
    (sound_start definitions _ schema)
  -- the run went on until no claim was left
  have h_all := List.getElem?_eq_none_iff.mp h_none
  exact ⟨h_sound, Nat.le_antisymm h_all h_sound.length_le⟩

/-- Every claim of a finished compilation has its declaration. -/
theorem Sound.exists_declared (h_sound : Sound definitions root schema compilation)
    (h_length : compilation.roster.length = compilation.made.length)
    (h_claim : (name, own) ∈ compilation.roster) :
    ∃ plain declaration, Declared definitions root compilation name own plain declaration := by
  obtain ⟨place, h_place⟩ := List.mem_iff_getElem?.mp h_claim
  have h_within : place < compilation.made.length := by
    rw [← h_length]
    exact (List.getElem?_eq_some_iff.mp h_place).1
  obtain ⟨plain, h_declared⟩ := h_sound.declared name own _
    (mem_zip_iff.mpr ⟨place, h_place, List.getElem?_eq_getElem h_within⟩)
  exact ⟨plain, _, h_declared⟩

/-- A declaration has the name of its claim. -/
theorem Declared.name_eq
    (h_declared : Declared definitions root compilation name schema plain declaration) :
    declaration.name = name := by
  obtain ⟨before, h_named, -⟩ := h_declared.named
  rw [← h_named, ← name_of_declare h_declared.declared]
  rfl

/-- A finished compilation declares the claimed names, in order. -/
theorem Sound.names_made (h_sound : Sound definitions root schema compilation)
    (h_length : compilation.roster.length = compilation.made.length) :
    compilation.made.map Declaration.name = Entries.names compilation.roster := by
  apply List.ext_getElem (by rw [List.length_map, Entries.names, List.length_map, h_length])
  intro place h_made h_roster
  rw [List.length_map] at h_made
  rw [Entries.names, List.length_map] at h_roster
  obtain ⟨plain, h_declared⟩ := h_sound.declared _ _ _ (mem_zip_iff.mpr
    ⟨place, List.getElem?_eq_getElem h_roster, List.getElem?_eq_getElem h_made⟩)
  simpa [Entries.names] using h_declared.name_eq

/-! ## Written names -/

/-- What is written stands in the sources. -/
theorem Sound.from_sources (h_sound : Sound definitions root schema compilation)
    (h_written : (mention, written) ∈ compilation.writings) :
    mention.From (sources definitions schema) := by
  obtain ⟨name, own, declaration, plain, h_pair, h_declare, h_mem⟩ :=
    mem_writings_iff.mp h_written
  exact Schema.from_sources h_sound.inside (List.of_mem_zip h_pair).1 h_declare mention
    (List.of_mem_zip h_mem).1

/-- A written name was chosen at some moment of the compilation. -/
theorem Sound.exists_choose (h_sound : Sound definitions root schema compilation)
    (h_written : (mention, written) ∈ compilation.writings) :
    ∃ before, (Roster.choose definitions root mention before).1 = written ∧
      (Roster.choose definitions root mention before).2 <+: compilation.roster := by
  obtain ⟨name, own, declaration, plain, h_pair, h_declare, h_mem⟩ :=
    mem_writings_iff.mp h_written
  obtain ⟨plain', h_declared⟩ := h_sound.declared name own declaration h_pair
  -- a schema has one declaration before its names are chosen
  obtain rfl : plain = plain' := Except.ok.inj (h_declare.symm.trans h_declared.declared)
  obtain ⟨before, rfl, h_grown⟩ := h_declared.named
  rw [mentions_nameIn] at h_mem
  rw [roster_nameIn] at h_grown
  obtain ⟨moment, -, h_choose, h_later⟩ := Roster.exists_choose_of_mem_zip h_mem
  exact ⟨moment, h_choose, h_later.trans h_grown⟩

/-- A name that is written for something that stands for a schema is claimed. -/
theorem Sound.mem_names (h_sound : Sound definitions root schema compilation)
    (h_written : (mention, written) ∈ compilation.writings)
    (h_stands : standsFor? definitions mention = some own) :
    written ∈ Entries.names compilation.roster := by
  obtain ⟨before, rfl, h_grown⟩ := h_sound.exists_choose h_written
  exact Roster.mem_names_of_grown h_grown (Roster.mem_names_choose h_stands)

/-- The name written for a titled node belongs to an equal schema. -/
theorem Sound.owner_of_titled {title : String} {node : Json}
    (h_sound : Sound definitions root schema compilation)
    (h_sources : (sources definitions schema).WellFormed)
    (h_written : (.titled title node, written) ∈ compilation.writings)
    (h_title : Roster.placeholderOf? definitions title = none) :
    ∃ owner, compilation.roster.lookup written = some owner ∧ owner.same node = true := by
  have h_node := Json.wellFormed_of_mem_nodes h_sources (h_sound.from_sources h_written).1
  obtain ⟨before, rfl, h_grown⟩ := h_sound.exists_choose h_written
  rw [Roster.choose_titled h_title] at h_grown ⊢
  obtain ⟨owner, h_owner, h_same⟩ := Roster.owner_nameTitled definitions title before h_node
  exact ⟨owner, Roster.lookup_of_grown h_grown h_owner, h_same⟩

/-- What a mention stands for is well formed when the sources are. -/
theorem wellFormed_of_standsFor? (h_sources : (sources definitions schema).WellFormed)
    (h_from : mention.From (sources definitions schema))
    (h_stands : standsFor? definitions mention = some own) : own.WellFormed := by
  cases mention with
  | titled title node =>
    obtain ⟨-, rfl⟩ := Roster.standsFor?_titled_iff.mp h_stands
    exact Json.wellFormed_of_mem_nodes h_sources h_from.1
  | reference target =>
    obtain ⟨key, -, h_key⟩ := Roster.definition?_eq_some_iff.mp h_stands
    exact Json.wellFormed_array_iff.mp h_sources own (mem_sources_of_get? h_key)

/-- The owner of a name is well formed, since it stands in what is compiled. -/
theorem Sound.wellFormed_owner (h_sound : Sound definitions root schema compilation)
    (h_sources : (sources definitions schema).WellFormed)
    (h_owner : compilation.roster.lookup name = some owner) : owner.WellFormed := by
  -- an owner is the root or what some mention stands for
  rcases h_sound.origin _ (Entries.mem_of_lookup h_owner) with h_root | ⟨mention, h_mem, h_stands⟩
  · rw [(Prod.mk.inj h_root).2]
    exact Json.wellFormed_array_iff.mp h_sources schema List.mem_cons_self
  · exact wellFormed_of_standsFor? h_sources (h_sound.from_sources h_mem) h_stands

end OpenApiTs.Schema
