/-
  OpenApiTs.Proofs.Schema.Mentions

  Where the names and words of a declaration come from. Whatever the shape of a schema mentions
  stands in the schema: a titled node is one of its nodes, and a reference is the target of one. Its
  words are the primitive types and literals.

  The induction follows the recursion of the shapes, one lemma for each of its functions.
-/
import OpenApiTs.Proofs.Json.Nodes
import OpenApiTs.Proofs.Outcome
import OpenApiTs.Proofs.TypeScript.Expr
import OpenApiTs.Schema.Compile

namespace OpenApiTs.Schema

open OpenApiTs.TypeScript
open OpenApiTs.TypeScript.TypeExpr (mentionsAll mentionsMembers wordsAll wordsMembers
  mentionsMembers_append wordsMembers_append)
open OpenApiTs.Outcome (bind_eq_ok_iff exists_item_of_mapM)

/-! ## What a value gives rise to -/

/-- Whether a mention stands in a value. -/
def Mention.From (value : Json) : Mention → Prop
  | .titled title node => node ∈ value.nodes ∧ node.wordsAt? "title" = some title
  | .reference target => ∃ node ∈ value.nodes, node.textAt? "$ref" = some target

/-- What stands in a part stands in the whole. -/
theorem Mention.From.mono {inner outer : Json} (h_nodes : inner.nodes ⊆ outer.nodes)
    {mention : Mention} (h_from : mention.From inner) : mention.From outer := by
  cases mention with
  | titled title node => exact ⟨h_nodes h_from.1, h_from.2⟩
  | reference target =>
    obtain ⟨node, h_node, h_target⟩ := h_from
    exact ⟨node, h_nodes h_node, h_target⟩

/-- The words of shapes: primitive types and literals. -/
def IsSchemaWord (word : String) : Prop :=
  word ∈ ["string", "number", "boolean", "null", "never", "any"] ∨ ∃ value, word = literal value

/-- Mentions that stand in a value, and words that a shape may have. -/
structure Draws (value : Json) (mentions : List Mention) (words : List String) : Prop where
  mentions : ∀ mention ∈ mentions, mention.From value
  words : ∀ word ∈ words, IsSchemaWord word

namespace Draws

variable {value inner : Json} {mentions mentions' : List Mention} {words words' : List String}

theorem nil : Draws value [] [] := ⟨by simp, by simp⟩

theorem word {text : String} (h_word : IsSchemaWord text) : Draws value [] [text] :=
  ⟨by simp, by simpa using h_word⟩

theorem primitive {text : String}
    (h_word : text ∈ ["string", "number", "boolean", "null", "never", "any"]) :
    Draws value [] [text] :=
  word (.inl h_word)

theorem mention {own : Mention} (h_own : own.From value) : Draws value [own] [] :=
  ⟨by simpa using h_own, by simp⟩

/-- Parts next to each other draw what each of them draws. All shapes of several types are put
    together with this. -/
theorem append (h_front : Draws value mentions words) (h_back : Draws value mentions' words') :
    Draws value (mentions ++ mentions') (words ++ words') := by
  constructor
  · intro mention h_mem
    exact (List.mem_append.mp h_mem).elim (h_front.mentions mention) (h_back.mentions mention)
  · intro word h_mem
    exact (List.mem_append.mp h_mem).elim (h_front.words word) (h_back.words word)

/-- What is drawn from a part is drawn from the whole, since only the place of a mention depends on
    the value. -/
theorem mono (h_nodes : inner.nodes ⊆ value.nodes) (h_draws : Draws inner mentions words) :
    Draws value mentions words :=
  ⟨fun mention h_mem => (h_draws.mentions mention h_mem).mono h_nodes, h_draws.words⟩

/-- A union or an intersection draws what its members draw. -/
theorem ofParts {parts : List (TypeExpr Mention)}
    (h_parts : ∀ part ∈ parts, Draws value part.mentions part.words) :
    Draws value (mentionsAll parts) (wordsAll parts) := by
  induction parts with
  | nil => exact nil
  | cons part parts ih =>
    rw [List.forall_mem_cons] at h_parts
    exact append h_parts.1 (ih h_parts.2)

end Draws

/-! ## Shapes -/

/-- The type under a word draws on what the array and the object draw on. -/
theorem ofKind_draws {kind : String} {asArray asRecord : Shaped (TypeExpr Mention)} {value : Json}
    {type : TypeExpr Mention} (h_kind : ofKind kind asArray asRecord = .ok type)
    (h_array : ∀ type, asArray = .ok type → Draws value type.mentions type.words)
    (h_record : ∀ type, asRecord = .ok type → Draws value type.mentions type.words) :
    Draws value type.mentions type.words := by
  unfold ofKind at h_kind
  split at h_kind
  case h_6 => exact h_array type h_kind
  case h_7 => exact h_record type h_kind
  all_goals
    cases h_kind
    exact .primitive (by simp)

/-- The alternatives of an enumeration are words, so they mention nothing. -/
theorem literals_draw (value : Json) (values : List Json) :
    Draws value (TypeExpr.alternatives (values.map fun own => .word (literal own))).mentions
      (TypeExpr.alternatives (values.map fun own => .word (literal own)) :
        TypeExpr Mention).words := by
  apply Draws.ofParts
  intro part h_part
  obtain ⟨own, -, rfl⟩ := List.mem_map.mp h_part
  exact .word (.inr ⟨own, rfl⟩)

/-- A list of types draws what each of its entries draws, and only arrays and records draw anything
    but a word. -/
theorem kinds_draw {kinds : List Json} {asArray asRecord : Shaped (TypeExpr Mention)}
    {value : Json} {parts : List (TypeExpr Mention)}
    (h_kinds : kinds.mapM (ofKindEntry asArray asRecord) = .ok parts)
    (h_array : ∀ type, asArray = .ok type → Draws value type.mentions type.words)
    (h_record : ∀ type, asRecord = .ok type → Draws value type.mentions type.words) :
    Draws value (mentionsAll parts) (wordsAll parts) := by
  apply Draws.ofParts
  intro part h_part
  obtain ⟨kind, -, h_kind⟩ := exists_item_of_mapM h_kinds h_part
  unfold ofKindEntry at h_kind
  -- an entry that is no text is an error, so each part is of a named kind
  split at h_kind
  · exact ofKind_draws h_kind h_array h_record
  · cases h_kind

/-- The members of a combination are nodes of the schema that has it. -/
theorem nodes_subset_of_combination? {fields : Entries Json} {combination : Combination}
    {members : Json} (h_found : combination? fields = some (combination, members)) :
    members.nodes ⊆ (Json.object fields).nodes := by
  unfold combination? at h_found
  -- the three keywords are looked up one after the other
  split at h_found
  · next h_all => cases h_found; exact Json.nodes_subset_of_lookup h_all
  · split at h_found
    · next h_any => cases h_found; exact Json.nodes_subset_of_lookup h_any
    · split at h_found
      · next h_one => cases h_found; exact Json.nodes_subset_of_lookup h_one
      · cases h_found

mutual

/-- A titled schema is mentioned by its title and looked into no further; any other one is shaped by
    its body. -/
theorem shape_draws {schema : Json} {type : TypeExpr Mention} (h_shape : shape schema = .ok type) :
    Draws schema type.mentions type.words := by
  rw [shape] at h_shape
  -- the title decides before anything else is looked at
  split at h_shape
  case h_1 title h_title =>
    cases h_shape
    exact .mention ⟨Json.mem_nodes_of_wordsAt? h_title, h_title⟩
  case h_2 => exact bodyShape_draws h_shape
termination_by 3 * sizeOf schema + 2

/-- Only an object has anything to draw from. What is no object is a single word. -/
theorem bodyShape_draws {schema : Json} {type : TypeExpr Mention}
    (h_shape : bodyShape schema = .ok type) : Draws schema type.mentions type.words := by
  match schema with
  | .object fields =>
    rw [bodyShape] at h_shape
    exact fieldsShape_draws h_shape
  | .bool false =>
    rw [bodyShape] at h_shape
    cases h_shape
    exact .primitive (by simp)
  | .null | .bool true | .number _ | .text _ | .array _ =>
    rw [bodyShape] at h_shape
    · cases h_shape
      exact .primitive (by simp)
    all_goals simp
termination_by 3 * sizeOf schema + 1
decreasing_by
  simp only [Json.object.sizeOf_spec]
  omega

/-- The keywords are asked in the order of the definition: a reference first, then a combination,
    the values, and last the types. -/
theorem fieldsShape_draws {fields : Entries Json} {type : TypeExpr Mention}
    (h_shape : fieldsShape fields = .ok type) :
    Draws (.object fields) type.mentions type.words := by
  rw [fieldsShape] at h_shape
  split at h_shape
  -- a reference is mentioned by its target, which is this very object's
  case h_1 target h_target =>
    cases h_shape
    refine .mention ⟨.object fields, by simp, ?_⟩
    simp [Json.textAt?, Json.field?, h_target, Json.text?]
  case h_2 => cases h_shape
  case h_3 =>
    split at h_shape
    case h_1 combination members h_found =>
      obtain ⟨parts, h_parts, h_type⟩ := bind_eq_ok_iff.mp h_shape
      cases h_type
      -- the members of a combination are smaller than the object they stand in
      have h_less : 1 + sizeOf members < sizeOf fields := by
        simpa only [Json.array.sizeOf_spec] using sizeOf_of_combination? h_found
      have h_draws := (shapeAll_draws h_parts).mono (nodes_subset_of_combination? h_found)
      cases combination <;> exact h_draws
    case h_2 => cases h_shape
    case h_3 =>
      split at h_shape
      -- fixed values are literals, whether there are several or one
      case h_1 values _ =>
        cases h_shape
        exact literals_draw _ values
      case h_2 =>
        split at h_shape
        case h_1 value _ =>
          cases h_shape
          exact .word (.inr ⟨value, rfl⟩)
        case h_2 =>
          split at h_shape
          case h_1 =>
            exact ofKind_draws h_shape (fun _ => arrayShape_draws) (fun _ => recordShape_draws)
          case h_2 =>
            obtain ⟨parts, h_parts, h_type⟩ := bind_eq_ok_iff.mp h_shape
            cases h_type
            exact kinds_draw h_parts (fun _ => arrayShape_draws) (fun _ => recordShape_draws)
          case h_3 => cases h_shape
          -- without a type the other keywords decide: those of an object, then of an array
          case h_4 =>
            split at h_shape
            · exact recordShape_draws h_shape
            · split at h_shape
              · exact arrayShape_draws h_shape
              · cases h_shape
                exact .primitive (by simp)
termination_by 3 * sizeOf fields + 3
decreasing_by
  all_goals omega

theorem shapeAll_draws {schemas : List Json} {types : List (TypeExpr Mention)}
    (h_shape : shapeAll schemas = .ok types) :
    Draws (.array schemas) (mentionsAll types) (wordsAll types) := by
  match schemas with
  | [] =>
    rw [shapeAll] at h_shape
    cases h_shape
    exact .nil
  | schema :: others =>
    rw [shapeAll] at h_shape
    obtain ⟨first, h_first, h_shape⟩ := bind_eq_ok_iff.mp h_shape
    obtain ⟨rest, h_rest, h_types⟩ := bind_eq_ok_iff.mp h_shape
    cases h_types
    -- both the first schema and the list of the others are parts of the whole list
    refine .append ((shape_draws h_first).mono ?_) ((shapeAll_draws h_rest).mono ?_)
    · exact Json.nodes_subset_of_mem_items (by simp)
    · intro node h_node
      obtain ⟨item, h_item, h_inside⟩ := Json.mem_nodes_array_iff.mp h_node
      exact Json.mem_nodes_array_iff.mpr ⟨item, List.mem_cons_of_mem _ h_item, h_inside⟩
termination_by 3 * sizeOf schemas
decreasing_by
  all_goals simp only [List.cons.sizeOf_spec]; omega

/-- The elements of an array are drawn from what its items are, one schema or a list of them. -/
theorem arrayShape_draws {fields : Entries Json} {type : TypeExpr Mention}
    (h_shape : arrayShape fields = .ok type) :
    Draws (.object fields) type.mentions type.words := by
  rw [arrayShape] at h_shape
  split at h_shape
  case h_1 items h_items =>
    obtain ⟨parts, h_parts, h_type⟩ := bind_eq_ok_iff.mp h_shape
    cases h_type
    -- the recursion goes down into the items, which are smaller than the fields
    have h_less : 1 + sizeOf items < sizeOf fields := by
      simpa only [Json.array.sizeOf_spec] using Json.sizeOf_of_lookup h_items
    exact (shapeAll_draws h_parts).mono (Json.nodes_subset_of_lookup h_items)
  case h_2 items _ h_items =>
    obtain ⟨element, h_element, h_type⟩ := bind_eq_ok_iff.mp h_shape
    cases h_type
    have h_less := Json.sizeOf_of_lookup h_items
    exact (shape_draws h_element).mono (Json.nodes_subset_of_lookup h_items)
  case h_3 =>
    cases h_shape
    exact .primitive (by simp)
termination_by 3 * sizeOf fields
decreasing_by
  all_goals omega

/-- A record draws what its properties and its index signature draw. -/
theorem recordShape_draws {fields : Entries Json} {type : TypeExpr Mention}
    (h_shape : recordShape fields = .ok type) :
    Draws (.object fields) type.mentions type.words := by
  rw [recordShape] at h_shape
  obtain ⟨properties, h_properties, h_shape⟩ := bind_eq_ok_iff.mp h_shape
  obtain ⟨index, h_index, h_type⟩ := bind_eq_ok_iff.mp h_shape
  cases h_type
  -- the members of a record are the listed ones, then the index signature
  have h_draws := (listedShape_draws h_properties).append (indexShape_draws h_index)
  rw [← mentionsMembers_append, ← wordsMembers_append] at h_draws
  exact h_draws
termination_by 3 * sizeOf fields + 1

theorem listedShape_draws {fields : Entries Json} {members : List (MemberHead × TypeExpr Mention)}
    (h_shape : listedShape fields = .ok members) :
    Draws (.object fields) (mentionsMembers members) (wordsMembers members) := by
  rw [listedShape] at h_shape
  split at h_shape
  case h_1 properties h_listed =>
    -- the recursion goes down into the properties, as for the items of an array
    have h_less : 1 + sizeOf properties < sizeOf fields := by
      simpa only [Json.object.sizeOf_spec] using Json.sizeOf_of_lookup h_listed
    apply propertiesShape_draws h_shape
    intro entry h_entry node h_node
    exact Json.nodes_subset_of_lookup h_listed
      (Json.mem_nodes_object_iff.mpr (.inr ⟨entry, h_entry, h_node⟩))
  case h_2 =>
    cases h_shape
    exact .nil
termination_by 3 * sizeOf fields
decreasing_by
  omega

theorem indexShape_draws {fields : Entries Json} {members : List (MemberHead × TypeExpr Mention)}
    (h_shape : indexShape fields = .ok members) :
    Draws (.object fields) (mentionsMembers members) (wordsMembers members) := by
  rw [indexShape] at h_shape
  -- only a schema for other keys is looked into; the flags give a word or nothing
  split at h_shape
  case h_4 schema _ _ h_index =>
    obtain ⟨type, h_type, h_members⟩ := bind_eq_ok_iff.mp h_shape
    cases h_members
    have h_less := Json.sizeOf_of_lookup h_index
    have h_draws := (shape_draws h_type).mono (Json.nodes_subset_of_lookup h_index)
    simpa [mentionsMembers, wordsMembers] using h_draws
  case h_3 =>
    cases h_shape
    exact .nil
  all_goals
    cases h_shape
    exact .primitive (by simp)
termination_by 3 * sizeOf fields
decreasing_by
  omega

/-- Each property draws from its own schema, wherever the list of properties came from. -/
theorem propertiesShape_draws {required : List String} {properties : List (String × Json)}
    {members : List (MemberHead × TypeExpr Mention)} {value : Json}
    (h_shape : propertiesShape required properties = .ok members)
    (h_inside : ∀ entry ∈ properties, entry.2.nodes ⊆ value.nodes) :
    Draws value (mentionsMembers members) (wordsMembers members) := by
  match properties with
  | [] =>
    rw [propertiesShape] at h_shape
    cases h_shape
    exact .nil
  | (key, schema) :: others =>
    rw [propertiesShape] at h_shape
    obtain ⟨type, h_type, h_shape⟩ := bind_eq_ok_iff.mp h_shape
    obtain ⟨rest, h_rest, h_members⟩ := bind_eq_ok_iff.mp h_shape
    cases h_members
    rw [List.forall_mem_cons] at h_inside
    -- the property in front and the rest are drawn from the same value
    exact ((shape_draws h_type).mono h_inside.1).append (propertiesShape_draws h_rest h_inside.2)
termination_by 3 * sizeOf properties
decreasing_by
  all_goals simp only [List.cons.sizeOf_spec, Prod.mk.sizeOf_spec]; omega

end

/-- A declaration draws on its schema. -/
theorem declare_draws {name : String} {schema : Json} {declaration : Declaration Mention}
    (h_declare : declare name schema = .ok declaration) :
    Draws schema declaration.type.mentions declaration.type.words := by
  unfold declare at h_declare
  split at h_declare
  · obtain ⟨type, h_type, h_made⟩ := bind_eq_ok_iff.mp h_declare
    cases h_made
    exact recordShape_draws h_type
  · obtain ⟨type, h_type, h_made⟩ := bind_eq_ok_iff.mp h_declare
    cases h_made
    exact bodyShape_draws h_type

end OpenApiTs.Schema
