/-
  OpenApiTs.Proofs.Output.BlockNames

  The names that the namespace of an endpoint declares. Its fragments are made of pieces, each of
  them one alias or what one schema compiles to. A piece declares no name twice, but every piece is
  compiled by itself and brings along whatever definitions it refers to, so the namespace declares a
  name twice exactly when two of its pieces share one.
-/
import OpenApiTs.Proofs.Generation.SharedAliases
import OpenApiTs.Proofs.Output.Fitting
import OpenApiTs.Proofs.Output.Groups
import OpenApiTs.Proofs.Schema.Pulled

namespace OpenApiTs.Output

open OpenApiTs.Endpoint (declaration? itemsOf lineComment listDeclaration? listSchema sharedAlias)
open OpenApiTs.Generation (payload?)
open OpenApiTs.Schema (ClaimsNoTitle compile description? typeScript)
open OpenApiTs.Schema.Roster (definitionName)
open OpenApiTs.TypeScript

variable {definitions : Definitions} {operation : Operation} {endpoint : Endpoint}
  {settings : Settings} {schema : Option Json} {parameters : List Parameter} {name text : String}
  {field : Field} {pieces : List Piece} {piece : Piece}

/-! ## Pieces -/

/-- What fragments are made of: what a schema compiles to under a name, or the alias of a type, with
    a description or without one. -/
inductive Piece where
  | compiled (schema : Json) (name : String)
  | aliased (description : Option String) (name type : String)

namespace Piece

/-- The name that a piece is asked for. -/
def own : Piece → String
  | compiled _ name => name
  | aliased _ name _ => name

/-- The names that a piece declares. -/
def names (definitions : Definitions) : Piece → List String
  | compiled schema name =>
    match compile definitions name schema with
    | .ok compilation => compilation.made.map Declaration.name
    | .error _ => []
  | aliased _ name _ => [name]

/-- The names that a piece declares besides its own. -/
def pulled (definitions : Definitions) (piece : Piece) : List String :=
  (piece.names definitions).tail

/-- Whether a piece can be made. -/
def IsMade (definitions : Definitions) : Piece → Prop
  | compiled schema name => ∃ compilation, compile definitions name schema = .ok compilation
  | aliased _ _ _ => True

/-- Whether titled nodes claim nothing in a piece. -/
def IsUntitled (definitions : Definitions) : Piece → Prop
  | compiled schema _ => ClaimsNoTitle definitions schema
  | aliased _ _ _ => True

instance (definitions : Definitions) (piece : Piece) : Decidable (piece.IsUntitled definitions) :=
  match piece with
  | compiled schema _ => inferInstanceAs (Decidable (ClaimsNoTitle definitions schema))
  | aliased _ _ _ => inferInstanceAs (Decidable True)

/-- Whether a piece is written as it is made: its text has no marker of placeholders, its type and
    its description stand on one line. -/
def IsFlat (definitions : Definitions) : Piece → Prop
  | compiled schema name => ∀ compilation, compile definitions name schema = .ok compilation →
    Text.contains Definitions.marker compilation.render = false
  | aliased description _ type => '\n' ∉ type.toList ∧ ∀ words ∈ description, '\n' ∉ words.toList

theorem names_nodup (definitions : Definitions) (piece : Piece) :
    (piece.names definitions).Nodup := by
  cases piece with
  | compiled schema name =>
    rw [names]
    split
    · next compilation h_compile => exact Schema.names_nodup_of_compile h_compile
    · exact List.nodup_nil
  | aliased description name type => exact List.nodup_singleton name

/-- A piece that can be made declares its own name before all others. -/
theorem names_eq (h_made : piece.IsMade definitions)
    (h_name : Name.identifier piece.own = piece.own) :
    piece.names definitions = piece.own :: piece.pulled definitions := by
  cases piece with
  | compiled schema name =>
    obtain ⟨compilation, h_compile⟩ := h_made
    obtain ⟨plain, roster, others, h_declare, h_list⟩ := Schema.exists_made_cons h_compile
    have h_names : (compiled schema name).names definitions =
        compilation.made.map Declaration.name := by
      simp only [names, h_compile]
    rw [pulled, h_names, h_list, List.map_cons, List.tail_cons]
    refine congrArg (· :: _) ?_
    exact (Schema.name_of_declare h_declare).trans h_name
  | aliased description name type => rfl

/-- Where titled nodes claim nothing, a piece pulls in definitions, under the names that references
    to them are written with. -/
theorem exists_of_mem_pulled (h_untitled : piece.IsUntitled definitions)
    (h_definitions : ∀ entry ∈ definitions.schemas, ClaimsNoTitle definitions entry.2)
    {pulled : String} (h_pulled : pulled ∈ piece.pulled definitions) :
    ∃ key, definitions.get? key ≠ none ∧ definitionName key = pulled := by
  cases piece with
  | compiled schema name =>
    rw [Piece.pulled, names] at h_pulled
    split at h_pulled
    · next compilation h_compile =>
      exact Schema.pulled_of_compile h_untitled h_definitions h_compile _ h_pulled
    · cases h_pulled
  | aliased description name type => cases h_pulled

end Piece

/-- An alias in one line exports its own name only. -/
theorem exportedNames_aliased {type : String} (h_name : Name.IsWord name)
    (h_type : '\n' ∉ type.toList) :
    exportedNames ("export type " ++ name ++ " = " ++ type) = [name] := by
  have h_line : ("export type " ++ name ++ " = " ++ type).toList =
      exportKeyword .alias ++ (name.toList ++ ' ' :: ("= ".toList ++ type.toList)) := by
    simp only [String.toList_append, List.append_assoc]
    rfl
  have h_word : '\n' ∉ name.toList := h_name.not_mem (by decide)
  have h_flat : '\n' ∉
      exportKeyword .alias ++ (name.toList ++ ' ' :: ("= ".toList ++ type.toList)) := by
    simp [newline_not_mem_exportKeyword, h_word, h_type]
  rw [exportedNames_eq, h_line, List.splitOn_eq_singleton h_flat,
    List.filterMap_cons_some (exportedName?_head h_name (.inr ⟨_, rfl⟩)), List.filterMap_nil]

/-- A comment in one line exports nothing. -/
theorem exportedNames_lineComment {words : String} (h_words : '\n' ∉ words.toList) :
    exportedNames (lineComment words) = [] := by
  have h_line : (lineComment words).toList = '/' :: "** ".toList ++ words.toList ++ " */".toList :=
    by rw [lineComment, String.toList_append, String.toList_append]; rfl
  have h_flat : '\n' ∉ '/' :: "** ".toList ++ words.toList ++ " */".toList := by
    simp [h_words]
  have h_silent : ¬ exportOpening <+: '/' :: "** ".toList ++ words.toList ++ " */".toList := by
    rw [List.cons_append, List.cons_append]
    intro h_opens
    cases (List.cons_prefix_cons.mp h_opens).1
  rw [exportedNames_eq, h_line, List.splitOn_eq_singleton h_flat,
    List.filterMap_cons_none (exportedName?_of_silent h_silent), List.filterMap_nil]

/-! ## Pieces of an operation -/

/-- The piece for the items of a list. -/
def itemPiece (items : Json) (name : String) : Piece :=
  match Reference.name? items with
  | some shared => .aliased none name ("Types." ++ shared)
  | none => .compiled items name

/-- The pieces that the fragment of a payload is made of. -/
def payloadPieces (schema : Option Json) (name : String) : List Piece :=
  match schema with
  | none | some .null => []
  | some schema =>
    if schema.textAt? "type" = some "array" then
      let itemName := Name.pascal (name ++ "Item")
      [itemPiece (itemsOf schema) itemName, .aliased (description? schema) name (itemName ++ "[]")]
    else
      match Reference.name? schema with
      | some shared => [.aliased (description? schema) name ("Types." ++ shared)]
      | none => [.compiled schema name]

/-- The piece that the fragment of a list of parameters is made of, if there are any. -/
def listPieces (parameters : List Parameter) (name : String) : List Piece :=
  if parameters.isEmpty then [] else [.compiled (listSchema parameters name) name]

/-- The pieces of the fragment for a field. -/
def piecesOf (operation : Operation) : Field → List Piece
  | .query => listPieces operation.query "Query"
  | .body => payloadPieces operation.body "Body"
  | .header => listPieces operation.header "Header"
  | .cookie => listPieces operation.cookie "Cookie"
  | .response => payloadPieces (payload? operation .response) "Data"
  | _ => []

/-- The pieces of the data, which is any value when there is no fragment for it. -/
def dataPieces (operation : Operation) : List Piece :=
  match piecesOf operation .response with
  | [] => [.aliased none "Data" "any"]
  | pieces => pieces

/-- The pieces of the namespace of an endpoint, in order. -/
def blockPieces (settings : Settings) (operation : Operation) : List Piece :=
  [Field.query, .body, .header, .cookie].flatMap (piecesOf operation) ++ dataPieces operation ++
    [.aliased none "Response" (answerOf settings)]

/-- The names that the namespace of an endpoint declares, in order. -/
def blockNames (definitions : Definitions) (settings : Settings) (operation : Operation) :
    List String :=
  (blockPieces settings operation).flatMap (Piece.names definitions)

/-- The names that the pieces of a namespace are asked for. -/
def blockHeads : List String :=
  ["Query", "BodyItem", "Body", "Header", "Cookie", "DataItem", "Data", "Response"]

theorem own_itemPiece (items : Json) (name : String) : (itemPiece items name).own = name := by
  rw [itemPiece]
  cases Reference.name? items with
  | some shared => rfl
  | none => rfl

/-- The pieces of a payload are asked for under the name for its items and its own. -/
theorem names_payloadPieces (schema : Option Json) (name : String) :
    ((payloadPieces schema name).map Piece.own).Sublist [Name.pascal (name ++ "Item"), name] := by
  unfold payloadPieces
  split
  · exact List.nil_sublist _
  · exact List.nil_sublist _
  · split
    · rw [List.map_cons, own_itemPiece]
      exact List.Sublist.refl _
    · split
      · simp [Piece.own]
      · simp [Piece.own]

/-! ## Fragments -/

/-- Whether a fragment is written from pieces: they can all be made, and unless something in them
    needs more than it looks like, the fragment exports just what they declare. -/
structure Written (definitions : Definitions) (pieces : List Piece) (fragment : Option String) :
    Prop where
  made : ∀ piece ∈ pieces, piece.IsMade definitions
  absent_iff : fragment = none ↔ pieces = []
  exported : ∀ text ∈ fragment, (∀ piece ∈ pieces, piece.IsFlat definitions) →
    exportedNames text = pieces.flatMap (Piece.names definitions)

theorem written_none (definitions : Definitions) : Written definitions [] none :=
  ⟨List.forall_mem_nil _, iff_of_true rfl rfl, nofun⟩

theorem absent_iff_cons {piece : Piece} {pieces : List Piece} {text : String} :
    some text = none ↔ piece :: pieces = [] :=
  iff_of_false (Option.some_ne_none text) (List.cons_ne_nil piece pieces)

/-- What a schema compiles to exports the names of its declarations. -/
theorem exportedNames_compiled {own : Json}
    (h_clean : typeScript.clean own name definitions = .ok text) :
    (Piece.compiled own name).IsMade definitions ∧
      ((Piece.compiled own name).IsFlat definitions →
        exportedNames text = (Piece.compiled own name).names definitions) := by
  obtain ⟨compilation, h_compile, rfl⟩ := Schema.clean_eq_ok_iff.mp h_clean
  refine ⟨⟨compilation, h_compile⟩, fun h_flat => ?_⟩
  rw [Schema.scrub_of_not_contains (h_flat compilation h_compile)]
  simp only [Piece.names, h_compile]
  exact exportedNames_join (Schema.legible_of_compile h_compile)

theorem written_compiled {own : Json} (h_clean : typeScript.clean own name definitions = .ok text) :
    Written definitions [.compiled own name] (some text) := by
  obtain ⟨h_made, h_exported⟩ := exportedNames_compiled h_clean
  refine ⟨List.forall_mem_singleton.mpr h_made, absent_iff_cons, fun _ h_text h_flat => ?_⟩
  obtain rfl := Option.some.inj h_text
  rw [List.flatMap_singleton]
  exact h_exported (List.forall_mem_singleton.mp h_flat)

/-- The fragment of a list of parameters. -/
theorem written_listPieces {fragment : Option String}
    (h_made : listDeclaration? typeScript definitions parameters name = .ok fragment) :
    Written definitions (listPieces parameters name) fragment := by
  rw [listDeclaration?] at h_made
  rw [listPieces]
  split at h_made
  · next h_empty =>
    obtain rfl := Except.ok.inj h_made
    rw [if_pos h_empty]
    exact written_none definitions
  · next h_some =>
    obtain ⟨text, h_clean, rfl⟩ := Outcome.map_eq_ok_iff.mp h_made
    rw [if_neg h_some]
    exact written_compiled h_clean

theorem payloadPieces_some {own : Json} (h_own : own ≠ .null) (name : String) :
    payloadPieces (some own) name =
      if own.textAt? "type" = some "array" then
        [itemPiece (itemsOf own) (Name.pascal (name ++ "Item")),
          .aliased (description? own) name (Name.pascal (name ++ "Item") ++ "[]")]
      else
        match Reference.name? own with
        | some shared => [.aliased (description? own) name ("Types." ++ shared)]
        | none => [.compiled own name] := by
  cases own with
  | null => exact absurd rfl h_own
  | _ => rfl

/-- A list is written behind its items and a comment. -/
theorem exportedNames_list {item itemName : String} {description : Option String}
    (h_name : Name.IsWord name) (h_type : '\n' ∉ (itemName ++ "[]").toList)
    (h_description : ∀ words ∈ description, '\n' ∉ words.toList) :
    exportedNames (item ++ "\n" ++ (description.map lineComment).getD "" ++ "\n" ++
      ("export type " ++ name ++ " = " ++ itemName ++ "[]")) = exportedNames item ++ [name] := by
  have h_lines : item ++ "\n" ++ (description.map lineComment).getD "" ++ "\n" ++
      ("export type " ++ name ++ " = " ++ itemName ++ "[]") =
      "\n".intercalate [item, (description.map lineComment).getD "",
        "export type " ++ name ++ " = " ++ (itemName ++ "[]")] := by
    rw [← String.toList_inj]
    simp [String.intercalate_cons_of_ne_nil]
  have h_comment : exportedNames ((description.map lineComment).getD "") = [] := by
    cases description with
    | none => decide
    | some words => exact exportedNames_lineComment (h_description words rfl)
  rw [h_lines, exportedNames_intercalate, List.flatMap_cons, List.flatMap_cons,
    List.flatMap_singleton, h_comment, List.nil_append, exportedNames_aliased h_name h_type]

theorem sharedAlias_eq (name shared : String) :
    sharedAlias name shared = "export type " ++ name ++ " = " ++ ("Types." ++ shared) := by
  rw [sharedAlias, ← String.toList_inj]
  simp

/-- An alias is written behind its comment. -/
theorem exportedNames_alias {description : Option String} {shared : String}
    (h_name : Name.IsWord name) (h_type : '\n' ∉ ("Types." ++ shared).toList)
    (h_description : ∀ words ∈ description, '\n' ∉ words.toList) :
    exportedNames ((description.map fun words => lineComment words ++ "\n").getD "" ++
      sharedAlias name shared) = [name] := by
  cases description with
  | none =>
    rw [Option.map_none, Option.getD_none, String.empty_append, sharedAlias_eq]
    exact exportedNames_aliased h_name h_type
  | some words =>
    have h_lines : lineComment words ++ "\n" ++ sharedAlias name shared =
        "\n".intercalate [lineComment words, sharedAlias name shared] := by
      rw [← String.toList_inj]
      simp [String.intercalate_cons_of_ne_nil]
    rw [Option.map_some, Option.getD_some, h_lines, exportedNames_intercalate, List.flatMap_cons,
      List.flatMap_singleton, exportedNames_lineComment (h_description words rfl), List.nil_append,
      sharedAlias_eq]
    exact exportedNames_aliased h_name h_type

/-- The fragment of a list, given that of its items. -/
theorem written_list (first : Piece) {item itemName : String} {description : Option String}
    (h_name : Name.IsWord name) (h_made : first.IsMade definitions)
    (h_exported : first.IsFlat definitions → exportedNames item = first.names definitions) :
    Written definitions [first, .aliased description name (itemName ++ "[]")]
      (some (item ++ "\n" ++ (description.map lineComment).getD "" ++ "\n" ++
        ("export type " ++ name ++ " = " ++ itemName ++ "[]"))) := by
  refine ⟨?_, absent_iff_cons, fun _ h_text h_flat => ?_⟩
  · rw [List.forall_mem_cons, List.forall_mem_singleton]
    exact ⟨h_made, trivial⟩
  · rw [List.forall_mem_cons, List.forall_mem_singleton] at h_flat
    obtain ⟨h_first, h_type, h_description⟩ := h_flat
    obtain rfl := Option.some.inj h_text
    rw [exportedNames_list h_name h_type h_description, h_exported h_first, List.flatMap_cons,
      List.flatMap_singleton]
    rfl

/-- The fragment of a payload. -/
theorem written_payloadPieces {fragment : Option String} (h_name : Name.IsWord name)
    (h_itemName : Name.IsWord (Name.pascal (name ++ "Item")))
    (h_made : declaration? typeScript definitions schema name = .ok fragment) :
    Written definitions (payloadPieces schema name) fragment := by
  unfold declaration? at h_made
  -- a schema that is a list has an item of its own; any other is a reference or compiled
  split at h_made
  · obtain rfl := Except.ok.inj h_made
    exact written_none definitions
  · obtain rfl := Except.ok.inj h_made
    exact written_none definitions
  · next own h_own =>
    rw [payloadPieces_some h_own]
    split at h_made
    · next h_array =>
      rw [if_pos h_array, itemPiece]
      simp only at h_made
      cases h_shared : Reference.name? (itemsOf own) with
      | some shared =>
        rw [h_shared] at h_made
        obtain rfl := Except.ok.inj h_made
        refine written_list (.aliased none _ ("Types." ++ shared)) h_name trivial fun h_flat => ?_
        rw [sharedAlias_eq]
        exact exportedNames_aliased h_itemName h_flat.1
      | none =>
        rw [h_shared] at h_made
        obtain ⟨item, h_clean, h_text⟩ := Outcome.bind_eq_ok_iff.mp h_made
        obtain rfl := Except.ok.inj h_text
        obtain ⟨h_item, h_exported⟩ := exportedNames_compiled h_clean
        exact written_list (.compiled (itemsOf own) _) h_name h_item h_exported
    · next h_array =>
      rw [if_neg h_array]
      cases h_shared : Reference.name? own with
      | some shared =>
        rw [h_shared] at h_made
        obtain rfl := Except.ok.inj h_made
        refine ⟨List.forall_mem_singleton.mpr trivial, absent_iff_cons, fun _ h_text h_flat => ?_⟩
        obtain rfl := Option.some.inj h_text
        obtain ⟨h_type, h_description⟩ := List.forall_mem_singleton.mp h_flat
        exact exportedNames_alias h_name h_type h_description
      | none =>
        rw [h_shared] at h_made
        obtain ⟨text, h_clean, rfl⟩ := Outcome.map_eq_ok_iff.mp h_made
        exact written_compiled h_clean

/-! ## Namespaces -/

/-- The fields that the namespace of an endpoint is written from. -/
def blockFields : List Field := [.query, .body, .header, .cookie, .response]

theorem isWord_of_mem_blockHeads : ∀ name ∈ blockHeads, Name.IsWord name := by
  intro name h_name
  simp only [blockHeads, List.mem_cons, List.not_mem_nil, or_false] at h_name
  rcases h_name with rfl | rfl | rfl | rfl | rfl | rfl | rfl | rfl <;>
    exact ⟨by decide, by decide⟩

/-- The fragment of a field is written from its pieces. -/
theorem written_piecesOf
    (h_resolve : (Resolver.standard typeScript definitions).resolve operation = .ok endpoint)
    (h_field : field ∈ blockFields) :
    Written definitions (piecesOf operation field) (endpoint.get field) := by
  have h_rule := Resolver.resolve_get h_resolve field
  have h_payload (name : String) (h_name : name ∈ blockHeads)
      (h_item : Name.pascal (name ++ "Item") ∈ blockHeads) {schema : Option Json}
      {fragment : Option String}
      (h_made : declaration? typeScript definitions schema name = .ok fragment) :
      Written definitions (payloadPieces schema name) fragment :=
    written_payloadPieces (isWord_of_mem_blockHeads _ h_name) (isWord_of_mem_blockHeads _ h_item)
      h_made
  simp only [blockFields, List.mem_cons, List.not_mem_nil, or_false] at h_field
  rcases h_field with rfl | rfl | rfl | rfl | rfl
  · exact written_listPieces h_rule
  · exact h_payload "Body" (by decide) (by decide) h_rule
  · exact written_listPieces h_rule
  · exact written_listPieces h_rule
  · refine h_payload "Data" (by decide) (by decide) ?_
    rw [← h_rule]
    simp only [Resolver.standard, payload?]
    cases Resolver.mainResponse? operation with
    | none => rfl
    | some response => rfl

/-- A piece of a block comes from one of its fields, or is an alias that stands in every block. -/
theorem mem_blockPieces (h_piece : piece ∈ blockPieces settings operation) :
    (∃ field ∈ blockFields, piece ∈ piecesOf operation field) ∨ ∃ name type,
      piece = .aliased none name type := by
  rw [blockPieces, List.mem_append, List.mem_append, List.mem_singleton] at h_piece
  rcases h_piece with (h_sent | h_data) | rfl
  · obtain ⟨field, h_field, h_piece⟩ := List.mem_flatMap.mp h_sent
    refine .inl ⟨field, ?_, h_piece⟩
    exact List.mem_of_mem_dropLast (l := blockFields) h_field
  · rw [dataPieces] at h_data
    split at h_data
    · exact .inr ⟨_, _, List.mem_singleton.mp h_data⟩
    · next h_pieces => exact .inl ⟨.response, by decide, h_data⟩
  · exact .inr ⟨_, _, rfl⟩

theorem isMade_of_mem_blockPieces
    (h_resolve : (Resolver.standard typeScript definitions).resolve operation = .ok endpoint)
    (h_piece : piece ∈ blockPieces settings operation) : piece.IsMade definitions := by
  rcases mem_blockPieces h_piece with ⟨field, h_field, h_own⟩ | ⟨name, type, rfl⟩
  · exact (written_piecesOf h_resolve h_field).made piece h_own
  · trivial

theorem owns_listPieces (parameters : List Parameter) (name : String) :
    ((listPieces parameters name).map Piece.own).Sublist [name] := by
  rw [listPieces]
  split
  · exact List.nil_sublist _
  · exact List.Sublist.refl _

/-- The pieces of a namespace are asked for under different names. -/
theorem owns_blockPieces (settings : Settings) (operation : Operation) :
    ((blockPieces settings operation).map Piece.own).Sublist blockHeads := by
  have h_data : ((dataPieces operation).map Piece.own).Sublist ["DataItem", "Data"] := by
    rw [dataPieces]
    split
    · exact List.Sublist.cons _ (List.Sublist.refl _)
    · exact names_payloadPieces _ "Data"
  have h_heads : blockHeads =
      (["Query"] ++ (["BodyItem", "Body"] ++ (["Header"] ++ ["Cookie"]))) ++ ["DataItem", "Data"] ++
        ["Response"] := rfl
  rw [blockPieces, List.map_append, List.map_append, h_heads, List.flatMap_cons, List.flatMap_cons,
    List.flatMap_cons, List.flatMap_singleton, List.map_append, List.map_append, List.map_append]
  refine List.Sublist.append (List.Sublist.append ?_ h_data) (List.Sublist.refl _)
  refine (owns_listPieces _ _).append (List.Sublist.append ?_
    ((owns_listPieces _ _).append (owns_listPieces _ _)))
  exact names_payloadPieces _ "Body"

/-- Whether no two of the pieces have a name in common among those that something gives them. -/
def Apart (names : Piece → List String) (pieces : List Piece) : Prop :=
  pieces.Pairwise fun piece other => ∀ name ∈ names piece, name ∉ names other

instance (names : Piece → List String) (pieces : List Piece) : Decidable (Apart names pieces) :=
  inferInstanceAs (Decidable (pieces.Pairwise fun piece other =>
    ∀ name ∈ names piece, name ∉ names other))

/-- No piece repeats a name, so names are repeated only between pieces. -/
theorem blockNames_nodup_iff (definitions : Definitions) (settings : Settings)
    (operation : Operation) :
    (blockNames definitions settings operation).Nodup ↔
      Apart (Piece.names definitions) (blockPieces settings operation) := by
  rw [blockNames, List.nodup_flatMap]
  refine (and_iff_right fun piece _ => piece.names_nodup definitions).trans ?_
  exact List.Pairwise.iff fun piece other => List.disjoint_left

/-- Where no definition is referred to under a name that pieces are asked for, pieces are apart
    exactly when what they pull in is. -/
theorem apart_names_iff
    (h_resolve : (Resolver.standard typeScript definitions).resolve operation = .ok endpoint)
    (h_untitled : ∀ piece ∈ blockPieces settings operation, piece.IsUntitled definitions)
    (h_definitions : ∀ entry ∈ definitions.schemas, ClaimsNoTitle definitions entry.2)
    (h_unreserved : ∀ entry ∈ definitions.schemas, definitionName entry.1 ∉ blockHeads) :
    Apart (Piece.names definitions) (blockPieces settings operation) ↔
      Apart (Piece.pulled definitions) (blockPieces settings operation) := by
  have h_own : ∀ piece ∈ blockPieces settings operation, piece.own ∈ blockHeads :=
    fun piece h_piece => (owns_blockPieces settings operation).subset (List.mem_map_of_mem h_piece)
  have h_names : ∀ piece ∈ blockPieces settings operation,
      piece.names definitions = piece.own :: piece.pulled definitions := by
    intro piece h_piece
    refine Piece.names_eq (isMade_of_mem_blockPieces h_resolve h_piece) ?_
    have h_stable : ∀ name ∈ blockHeads, Name.identifier name = name := by decide
    exact h_stable _ (h_own piece h_piece)
  have h_free : ∀ piece ∈ blockPieces settings operation, ∀ name ∈ piece.pulled definitions,
      name ∉ blockHeads := by
    intro piece h_piece name h_name
    obtain ⟨key, h_key, rfl⟩ :=
      Piece.exists_of_mem_pulled (h_untitled piece h_piece) h_definitions h_name
    obtain ⟨schema, h_schema⟩ := Option.ne_none_iff_exists'.mp h_key
    exact h_unreserved (key, schema) (Entries.mem_of_lookup h_schema)
  have h_different : (blockPieces settings operation).Pairwise fun piece other =>
      piece.own ≠ other.own := by
    have h_nodup : blockHeads.Nodup := by decide
    exact List.pairwise_map.mp ((owns_blockPieces settings operation).nodup h_nodup)
  constructor
  · intro h_apart
    refine h_apart.imp fun h_disjoint name h_name h_other => ?_
    exact h_disjoint name (List.mem_of_mem_tail h_name) (List.mem_of_mem_tail h_other)
  · intro h_apart
    -- a piece's own name is reserved, so it is among none that another pulls in
    refine (h_apart.and h_different).imp_of_mem ?_
    rintro piece other h_piece h_other ⟨h_disjoint, h_ne⟩
    rw [h_names piece h_piece, h_names other h_other]
    simp only [List.mem_cons, not_or, forall_eq_or_imp]
    refine ⟨⟨h_ne, fun h_mem => ?_⟩, fun name h_name => ⟨?_, h_disjoint name h_name⟩⟩
    · exact h_free other h_other _ h_mem (h_own piece h_piece)
    · rintro rfl
      exact h_free piece h_piece _ h_name (h_own other h_other)

/-! ## Exported names -/

/-- The names that the texts export which the namespace of an endpoint is written from. -/
def blockExports (settings : Settings) (endpoint : Endpoint) : List String :=
  ((fragments endpoint).map Prod.snd ++
    [dataOf endpoint, "export type Response = " ++ answerOf settings]).flatMap exportedNames

/-- A field exports the names of its pieces, whether it is there or not. -/
theorem exports_of_field
    (h_resolve : (Resolver.standard typeScript definitions).resolve operation = .ok endpoint)
    (h_field : field ∈ blockFields)
    (h_flat : ∀ piece ∈ piecesOf operation field, piece.IsFlat definitions) :
    (endpoint.present? field).toList.flatMap exportedNames =
      (piecesOf operation field).flatMap (Piece.names definitions) := by
  obtain ⟨-, h_absent, h_exported⟩ := written_piecesOf h_resolve h_field
  rw [Endpoint.present?]
  cases h_fragment : endpoint.get field with
  | none =>
    rw [h_absent.mp h_fragment]
    rfl
  | some text =>
    rw [← h_exported text h_fragment h_flat]
    -- an empty fragment is not written, and has no names to export
    by_cases h_empty : text = ""
    · subst h_empty
      decide
    · rw [Option.filter_some_pos (by simpa using h_empty), Option.toList_some,
        List.flatMap_singleton]

/-- The data are declared by the pieces for them. -/
theorem exports_of_data
    (h_resolve : (Resolver.standard typeScript definitions).resolve operation = .ok endpoint)
    (h_flat : ∀ piece ∈ dataPieces operation, piece.IsFlat definitions) :
    exportedNames (dataOf endpoint) = (dataPieces operation).flatMap (Piece.names definitions) := by
  have h_field : Field.response ∈ blockFields := by decide
  obtain ⟨-, h_absent, h_exported⟩ := written_piecesOf h_resolve h_field
  -- without a response the block says that the data may be anything
  cases h_fragment : endpoint.get .response with
  | none =>
    have h_present : endpoint.present? .response = none := by
      rw [Endpoint.present?, h_fragment]
      rfl
    have h_default : exportedNames "export type Data = any" = ["Data"] := by decide
    rw [dataOf, dataPieces, h_absent.mp h_fragment, h_present]
    exact h_default
  | some text =>
    have h_some := ne_empty_of_declares (by decide) (declares_of_response h_resolve h_fragment)
    have h_present : endpoint.present? .response = some text :=
      Endpoint.present?_eq_some_iff.mpr ⟨h_fragment, h_some⟩
    have h_data : dataPieces operation = piecesOf operation .response := by
      rw [dataPieces]
      split
      · next h_none =>
        rw [h_absent.mpr h_none] at h_fragment
        cases h_fragment
      · rfl
    rw [h_data] at h_flat ⊢
    rw [dataOf, h_present, Option.getD_some]
    exact h_exported text h_fragment h_flat

/-- Unless something in its pieces needs more than it looks like, the texts of a namespace export
    just what the pieces declare. -/
theorem blockExports_eq
    (h_resolve : (Resolver.standard typeScript definitions).resolve operation = .ok endpoint)
    (h_flat : ∀ piece ∈ blockPieces settings operation, piece.IsFlat definitions) :
    blockExports settings endpoint = blockNames definitions settings operation := by
  rw [blockPieces, List.forall_mem_append, List.forall_mem_append] at h_flat
  obtain ⟨⟨h_sent, h_data⟩, h_answer⟩ := h_flat
  have h_response : exportedNames ("export type Response = " ++ answerOf settings) =
      ["Response"] := by
    rw [answerOf]
    split <;> decide
  -- the data and the answer close every block
  have h_last :
      [dataOf endpoint, "export type Response = " ++ answerOf settings].flatMap exportedNames =
        (dataPieces operation ++ [Piece.aliased none "Response" (answerOf settings)]).flatMap
          (Piece.names definitions) := by
    rw [List.flatMap_cons, List.flatMap_singleton, exports_of_data h_resolve h_data, h_response,
      List.flatMap_append, List.flatMap_singleton]
    rfl
  rw [blockExports, blockNames, blockPieces, map_snd_fragments, List.append_assoc,
    List.flatMap_append, List.flatMap_append, h_last, List.filterMap_eq_flatMap_toList,
    List.flatMap_assoc, List.flatMap_assoc]
  refine congrArg (· ++ _) (List.flatMap_congr fun field h_field => ?_)
  refine exports_of_field h_resolve (List.mem_of_mem_dropLast (l := blockFields) h_field) ?_
  exact fun piece h_piece => h_sent piece (List.mem_flatMap.mpr ⟨field, h_field, h_piece⟩)

/-- When the default rules resolve an operation, its namespace is its fragments one after the other.
    Unless something in their pieces needs more than it looks like, they export just what the pieces
    declare; no name is declared twice exactly when no two pieces share one. Where titled nodes
    claim nothing and no definition is referred to under the name of a fragment, this means that no
    two pieces pull in definitions that are referred to under one name. -/
theorem block_names_nodup_iff (settings : Settings) (definitions : Definitions)
    (operation : Operation) (endpoint : Endpoint)
    (h_resolve : (Resolver.standard typeScript definitions).resolve operation = .ok endpoint) :
    typeBlock settings endpoint =
      opening endpoint ++ "\n  ".intercalate ((fragments endpoint).map Prod.snd) ++ "\n      " ++
        dataOf endpoint ++ "\n      export type Response = " ++ answerOf settings ++
        "\n    \x7d\n  " ∧
    ((∀ piece ∈ blockPieces settings operation, piece.IsFlat definitions) →
      blockExports settings endpoint = blockNames definitions settings operation) ∧
    ((blockNames definitions settings operation).Nodup ↔
      Apart (Piece.names definitions) (blockPieces settings operation)) ∧
    ((∀ piece ∈ blockPieces settings operation, piece.IsUntitled definitions) →
      (∀ entry ∈ definitions.schemas, ClaimsNoTitle definitions entry.2) →
      (∀ entry ∈ definitions.schemas, definitionName entry.1 ∉ blockHeads) →
        ((blockNames definitions settings operation).Nodup ↔
          Apart (Piece.pulled definitions) (blockPieces settings operation)) ∧
        ∀ piece ∈ blockPieces settings operation, ∀ name ∈ piece.pulled definitions,
          ∃ key, definitions.get? key ≠ none ∧ definitionName key = name) := by
  refine ⟨typeBlock_eq settings endpoint, blockExports_eq h_resolve,
    blockNames_nodup_iff definitions settings operation, ?_⟩
  intro h_untitled h_definitions h_unreserved
  constructor
  · rw [blockNames_nodup_iff]
    exact apart_names_iff h_resolve h_untitled h_definitions h_unreserved
  · intro piece h_piece name h_name
    exact Piece.exists_of_mem_pulled (h_untitled piece h_piece) h_definitions h_name

/-- A parameter that refers to a definition. -/
def referring (name key : String) (location : Location) : Parameter :=
  ⟨name, location, false, none, some (.object [("$ref", .text ("#/definitions/" ++ key))])⟩

/-- An operation that has one reference in its query and one in its header. -/
def twoReferences (query header : String) : Operation :=
  { url := "/pets"
    method := "get"
    description := none
    operationId := none
    summary := none
    tags := none
    path := []
    query := [referring "pet" query .query]
    cookie := []
    header := [referring "pet" header .header]
    body := none
    responses := [] }

/-- Two definitions of texts. -/
def textDefinitions : Definitions :=
  ⟨[("Pet", .object [("type", .text "string")]), ("Owner", .object [("type", .text "string")])], []⟩

/-- Fragments that refer to different definitions declare no name twice. -/
theorem block_names_nodup_of_two_definitions :
    (∃ endpoint, (Resolver.standard typeScript textDefinitions).resolve
      (twoReferences "Pet" "Owner") = .ok endpoint) ∧
    blockNames textDefinitions bareSettings (twoReferences "Pet" "Owner") =
      ["Query", "Pet", "Header", "Owner", "Data", "Response"] ∧
    (blockNames textDefinitions bareSettings (twoReferences "Pet" "Owner")).Nodup := by
  have h_resolves : ((Resolver.standard typeScript textDefinitions).resolve
      (twoReferences "Pet" "Owner")).toOption.any (fun _ => true) = true := by
    decide +kernel
  obtain ⟨endpoint, h_resolve, -⟩ := Outcome.exists_ok_of_any h_resolves
  refine ⟨⟨endpoint, h_resolve⟩, by decide +kernel, ?_⟩
  obtain ⟨-, -, -, h_nodup⟩ := block_names_nodup_iff bareSettings _ _ endpoint h_resolve
  exact (h_nodup (by decide +kernel) (by decide +kernel) (by decide +kernel)).1.mpr
    (by decide +kernel)

/-- Fragments that refer to one definition both declare it. -/
theorem block_names_not_nodup :
    (∀ piece ∈ blockPieces bareSettings (twoReferences "Pet" "Pet"),
      piece.IsUntitled textDefinitions) ∧
    (∀ entry ∈ textDefinitions.schemas, ClaimsNoTitle textDefinitions entry.2) ∧
    (∀ entry ∈ textDefinitions.schemas, definitionName entry.1 ∉ blockHeads) ∧
    ∃ endpoint, (Resolver.standard typeScript textDefinitions).resolve
        (twoReferences "Pet" "Pet") = .ok endpoint ∧
      blockExports bareSettings endpoint = ["Query", "Pet", "Header", "Pet", "Data", "Response"] ∧
      ¬ (blockExports bareSettings endpoint).Nodup := by
  refine ⟨by decide +kernel, by decide +kernel, by decide +kernel, ?_⟩
  have h_resolves : ((Resolver.standard typeScript textDefinitions).resolve
      (twoReferences "Pet" "Pet")).toOption.any (fun endpoint =>
        blockExports bareSettings endpoint ==
          ["Query", "Pet", "Header", "Pet", "Data", "Response"]) = true := by
    decide +kernel
  obtain ⟨endpoint, h_resolve, h_exports⟩ := Outcome.exists_ok_of_any h_resolves
  have h_names := beq_iff_eq.mp h_exports
  refine ⟨endpoint, h_resolve, h_names, ?_⟩
  rw [h_names]
  decide

end OpenApiTs.Output
