/-
  OpenApiTs.Proofs.Output.Fitting

  The types of an endpoint and its request function fit together. Both are written from the same
  fragments; the function names a type for each part of the request that is sent, and the fragment
  of that part declares a type of just this name.
-/
import OpenApiTs.Output.Block
import OpenApiTs.Proofs.Generation.Success
import OpenApiTs.Proofs.Output.Declaring
import OpenApiTs.Proofs.Schema.Rooted

namespace OpenApiTs.Output

open OpenApiTs.Endpoint (declaration? itemsOf lineComment listDeclaration? listSchema sharedAlias)
open OpenApiTs.Schema (declares_clean description? typeScript)
open OpenApiTs.TypeScript

variable {definitions : Definitions} {operation : Operation} {endpoint : Endpoint}
  {parameters : List Parameter} {schema : Option Json} {name text fragment : String}
  {field : Field} {part : Field × String × String}

/-! ## Names of fragments -/

/-- Whether a name is declared as it stands: it is its own identifier and has no marker. -/
structure IsFragmentName (name : String) : Prop where
  identifier_eq : Name.identifier name = name
  unmarked : Definitions.Unmarked name
  flat : '\n' ∉ name.toList

/-- What is compiled under the name of a fragment declares that name. -/
theorem IsFragmentName.declares_clean {own : Json} (h_name : IsFragmentName name)
    (h_clean : typeScript.clean own name definitions = .ok text) : declares name text = true := by
  have h_declares := Schema.declares_clean (h_name.identifier_eq.symm ▸ h_name.unmarked) h_clean
  rwa [h_name.identifier_eq] at h_declares

/-! ## Fragments -/

/-- The list of parameters of a location is declared under the name given for it. -/
theorem declares_of_listDeclaration? (h_name : IsFragmentName name)
    (h_made : listDeclaration? typeScript definitions parameters name = .ok (some text)) :
    declares name text = true := by
  rw [listDeclaration?] at h_made
  split at h_made
  · cases h_made
  · obtain ⟨own, h_clean, h_own⟩ := Outcome.map_eq_ok_iff.mp h_made
    obtain rfl := Option.some.inj h_own
    exact h_name.declares_clean h_clean

theorem toList_head_alias (name : String) : (Declaration.head .alias name).toList =
    ("export type " ++ name ++ " = ").toList := rfl

theorem declares_sharedAlias {before : String} (h_name : '\n' ∉ name.toList)
    (h_before : AtStart before.toList) (shared : String) :
    declares name (before ++ sharedAlias name shared) = true := by
  have h_alias : sharedAlias name shared = "export type " ++ name ++ " = Types." ++ shared := rfl
  have h_words : " = Types.".toList = " = ".toList ++ "Types.".toList := rfl
  refine (declares_iff h_name).mpr
    ⟨before.toList, .alias, "Types.".toList ++ shared.toList, ?_, h_before⟩
  simp only [h_alias, toList_head_alias, String.toList_append, h_words, List.append_assoc]

theorem declares_list (h_name : '\n' ∉ name.toList) (above item : String) :
    declares name (above ++ "\n" ++ ("export type " ++ name ++ " = " ++ item ++ "[]")) = true := by
  have h_above : AtStart (above ++ "\n").toList := by
    rw [String.toList_append]
    exact atStart_line _
  refine (declares_iff h_name).mpr ⟨_, .alias, item.toList ++ "[]".toList, ?_, h_above⟩
  simp only [toList_head_alias, String.toList_append, List.append_assoc]

/-- A schema is declared under the name given for it: as a list of its items, as an alias of a
    shared type, or as what it compiles to. -/
theorem declares_of_declaration? (h_name : IsFragmentName name)
    (h_made : declaration? typeScript definitions schema name = .ok (some text)) :
    declares name text = true := by
  unfold declaration? at h_made
  split at h_made
  · cases h_made
  · cases h_made
  · split at h_made
    · -- the list stands behind the declaration of its items, whichever way that is made
      simp only at h_made
      split at h_made
      · obtain rfl := Option.some.inj (Except.ok.inj h_made)
        exact declares_list h_name.flat _ _
      · obtain ⟨item, -, h_text⟩ := Outcome.bind_eq_ok_iff.mp h_made
        obtain rfl := Option.some.inj (Except.ok.inj h_text)
        exact declares_list h_name.flat _ _
    · split at h_made
      · obtain rfl := Option.some.inj (Except.ok.inj h_made)
        -- the alias stands at the start, or on the line behind its comment
        refine declares_sharedAlias h_name.flat ?_ _
        cases description? _ with
        | none => exact atStart_nil
        | some words =>
          rw [Option.map_some, Option.getD_some, String.toList_append]
          exact atStart_line _
      · obtain ⟨own, h_clean, h_own⟩ := Outcome.map_eq_ok_iff.mp h_made
        obtain rfl := Option.some.inj h_own
        exact h_name.declares_clean h_clean

/-! ## Resolved fields -/

theorem isFragmentName_pascal (h_part : part ∈ requestParts) :
    IsFragmentName (Name.pascal part.2.1) := by
  simp only [requestParts, List.mem_cons, List.not_mem_nil, or_false] at h_part
  rcases h_part with rfl | rfl | rfl | rfl <;>
    exact ⟨by decide, Definitions.unmarked_iff.mpr (by decide), by decide⟩

example : requestParts.map (fun part => Name.pascal part.2.1) =
    ["Query", "Body", "Header", "Cookie"] := by decide

theorem isFragmentName_data : IsFragmentName "Data" :=
  ⟨by decide, Definitions.unmarked_iff.mpr (by decide), by decide⟩

/-- The fragment of a part of the request declares the type that is called as the part. -/
theorem declares_of_part (h_resolve : (Resolver.standard typeScript definitions).resolve operation =
      .ok endpoint) (h_part : part ∈ requestParts)
    (h_fragment : endpoint.get part.1 = some fragment) :
    declares (Name.pascal part.2.1) fragment = true := by
  have h_rule := Resolver.resolve_get h_resolve part.1
  have h_name := isFragmentName_pascal h_part
  rw [h_fragment] at h_rule
  simp only [requestParts, List.mem_cons, List.not_mem_nil, or_false] at h_part
  rcases h_part with rfl | rfl | rfl | rfl
  · exact declares_of_listDeclaration? h_name h_rule
  · exact declares_of_declaration? h_name h_rule
  · exact declares_of_listDeclaration? h_name h_rule
  · exact declares_of_listDeclaration? h_name h_rule

/-- The fragment of the response declares the data. -/
theorem declares_of_response (h_resolve : (Resolver.standard typeScript definitions).resolve
      operation = .ok endpoint) (h_fragment : endpoint.get .response = some fragment) :
    declares "Data" fragment = true := by
  have h_rule := Resolver.resolve_get h_resolve .response
  rw [h_fragment] at h_rule
  simp only [Resolver.standard] at h_rule
  split at h_rule
  · cases h_rule
  · exact declares_of_declaration? isFragmentName_data h_rule

/-- A text that declares a name is not empty, so it is written. -/
theorem ne_empty_of_declares (h_name : '\n' ∉ name.toList)
    (h_declares : declares name text = true) : text ≠ "" := by
  rintro rfl
  obtain ⟨front, form, rest, h_text, -⟩ := (declares_iff h_name).mp h_declares
  obtain ⟨more, h_head⟩ := exists_cons_head form name
  rw [h_head] at h_text
  simp at h_text

/-! ## Arguments -/

/-- The argument for a part of the request in a signature. -/
def argumentFor (endpoint : Endpoint) (part : Field × String × String) : String :=
  part.2.1 ++ ": Api." ++ namespaceOf endpoint ++ "." ++ Name.pascal part.2.1

/-- The arguments of a request function, those for the path aside. -/
def arguments (endpoint : Endpoint) : List String :=
  (sentParts endpoint).map (argumentFor endpoint)

theorem word_ne_nil : ∀ part ∈ requestParts, part.2.1.toList ≠ [] := by decide

theorem head?_argumentFor (endpoint : Endpoint) (h_part : part ∈ requestParts) :
    (argumentFor endpoint part).toList.head? = part.2.1.toList.head? := by
  simp only [argumentFor, String.toList_append, List.append_assoc]
  exact List.head?_append_of_ne_nil _ (word_ne_nil part h_part)

/-- Each part of a request has an argument of its own. -/
theorem argumentFor_inj {other : Field × String × String} (h_part : part ∈ requestParts)
    (h_other : other ∈ requestParts)
    (h_eq : argumentFor endpoint other = argumentFor endpoint part) : other = part := by
  -- the first letters of the four words differ
  have h_heads : ∀ part ∈ requestParts, ∀ other ∈ requestParts,
      other.2.1.toList.head? = part.2.1.toList.head? → other = part := by decide
  refine h_heads part h_part other h_other ?_
  rw [← head?_argumentFor endpoint h_other, h_eq, head?_argumentFor endpoint h_part]

/-- It is among the arguments exactly when the endpoint has the part. -/
theorem argumentFor_mem_iff (h_part : part ∈ requestParts) :
    argumentFor endpoint part ∈ arguments endpoint ↔ (endpoint.present? part.1).isSome := by
  constructor
  · intro h_mem
    obtain ⟨other, h_other, h_eq⟩ := List.mem_map.mp h_mem
    obtain ⟨h_other, h_sent⟩ := List.mem_filter.mp h_other
    rwa [argumentFor_inj h_part h_other h_eq] at h_sent
  · intro h_sent
    exact List.mem_map_of_mem (List.mem_filter.mpr ⟨h_part, h_sent⟩)

theorem intercalate_arguments_eq_empty_iff (endpoint : Endpoint) :
    ", ".intercalate (arguments endpoint) = "" ↔ arguments endpoint = [] := by
  constructor
  · intro h_empty
    -- an argument begins with a word, so its text shows in the list that is joined
    refine List.eq_nil_iff_forall_not_mem.mpr fun argument h_mem => ?_
    have h_inside := Text.contains_intercalate ", " h_mem (Text.contains_self argument)
    rw [h_empty, Text.contains_iff] at h_inside
    obtain ⟨part, h_part, rfl⟩ := List.mem_map.mp h_mem
    have h_part := (List.mem_filter.mp h_part).1
    have h_head := head?_argumentFor endpoint h_part
    rw [List.infix_nil.mp h_inside] at h_head
    exact word_ne_nil part h_part (List.head?_eq_none_iff.mp h_head.symm)
  · intro h_none
    rw [h_none, String.intercalate_nil]

/-- A signature is the parameters of the path, if there are any, and the arguments. -/
theorem signature_eq (endpoint : Endpoint) : signature endpoint =
    ", ".intercalate ((endpoint.present? .params).toList ++ arguments endpoint) := by
  delta signature
  cases endpoint.present? .params with
  | none => rfl
  | some params =>
    change (if ", ".intercalate (arguments endpoint) = "" then params
      else params ++ ", " ++ ", ".intercalate (arguments endpoint)) = _
    simp only [intercalate_arguments_eq_empty_iff]
    by_cases h_none : arguments endpoint = []
    · rw [if_pos h_none, h_none, Option.toList_some, List.append_nil, String.intercalate_singleton]
    · rw [if_neg h_none, Option.toList_some, List.singleton_append,
        String.intercalate_cons_of_ne_nil h_none]

/-! ## Types -/

/-- The fragments that the types of an endpoint are written from, each with its field. -/
def fragments (endpoint : Endpoint) : List (Field × String) :=
  [Field.query, .body, .header, .cookie].filterMap fun field =>
    (endpoint.present? field).map (field, ·)

theorem map_snd_fragments (endpoint : Endpoint) : (fragments endpoint).map Prod.snd =
    [Field.query, .body, .header, .cookie].filterMap endpoint.present? := by
  rw [fragments, List.map_filterMap]
  congr 1
  funext field
  rw [Option.map_map]
  exact Option.map_id'

/-- The fragments are those of the parts that the endpoint has. -/
theorem mem_fragments_iff (h_part : part ∈ requestParts) :
    (part.1, fragment) ∈ fragments endpoint ↔ endpoint.present? part.1 = some fragment := by
  have h_field : part.1 ∈ [Field.query, .body, .header, .cookie] := by
    revert part
    decide
  rw [fragments, List.mem_filterMap]
  constructor
  · rintro ⟨field, -, h_pair⟩
    obtain ⟨text, h_present, h_pair⟩ := Option.map_eq_some_iff.mp h_pair
    obtain ⟨rfl, rfl⟩ := Prod.mk.inj h_pair
    exact h_present
  · intro h_present
    exact ⟨part.1, h_field, by rw [h_present, Option.map_some]⟩

/-- An argument is in the signature exactly when the types have the fragment of its part. -/
theorem argument_iff_fragment (h_part : part ∈ requestParts) :
    argumentFor endpoint part ∈ arguments endpoint ↔ ∃ fragment,
      endpoint.get part.1 = some fragment ∧ (part.1, fragment) ∈ fragments endpoint := by
  rw [argumentFor_mem_iff h_part, Option.isSome_iff_exists]
  constructor
  · rintro ⟨fragment, h_present⟩
    exact ⟨fragment, (Endpoint.present?_eq_some_iff.mp h_present).1,
      (mem_fragments_iff h_part).mpr h_present⟩
  · rintro ⟨fragment, -, h_mem⟩
    exact ⟨fragment, (mem_fragments_iff h_part).mp h_mem⟩

/-- The opening of the namespace of an endpoint, up to its first fragment. -/
def opening (endpoint : Endpoint) : String :=
  endpoint.fnComment.getD "" ++ "export namespace " ++ namespaceOf endpoint ++ " \x7b\n      "

/-- The declaration of the data in a namespace. -/
def dataOf (endpoint : Endpoint) : String :=
  (endpoint.present? .response).getD "export type Data = any"

/-- The type that a namespace has for responses. -/
def answerOf (settings : Settings) : String :=
  if settings.successResponseTemplate.isSome then "Promise<ApiResponse<Data>>" else "Promise<Data>"

/-- A block is its opening, the fragments, the data and the answer. -/
theorem typeBlock_eq (settings : Settings) (endpoint : Endpoint) : typeBlock settings endpoint =
    opening endpoint ++ "\n  ".intercalate ((fragments endpoint).map Prod.snd) ++ "\n      " ++
      dataOf endpoint ++ "\n      export type Response = " ++ answerOf settings ++
      "\n    \x7d\n  " := by
  rw [map_snd_fragments]
  rfl

theorem atStart_behind {line : String} (front blanks : List Char)
    (h_line : line.toList = front ++ '\n' :: blanks) (h_blanks : ∀ c ∈ blanks, c = ' ')
    (text : String) : AtStart (text ++ line).toList := by
  rw [String.toList_append, h_line, ← List.append_assoc]
  exact atStart_indent _ h_blanks

theorem atStart_opening (endpoint : Endpoint) : AtStart (opening endpoint).toList :=
  atStart_behind [' ', '\x7b'] (List.replicate 6 ' ') (by decide) (by decide) _

theorem atStart_inner (text : String) : AtStart (text ++ "\n      ").toList :=
  atStart_behind [] (List.replicate 6 ' ') (by decide) (by decide) _

/-- The block declares what a fragment in it declares. -/
theorem declares_typeBlock_of_fragment (settings : Settings) (h_name : '\n' ∉ name.toList)
    (h_fragment : (field, fragment) ∈ fragments endpoint)
    (h_declares : declares name fragment = true) :
    declares name (typeBlock settings endpoint) = true := by
  have h_member : fragment ∈ (fragments endpoint).map Prod.snd := List.mem_map_of_mem h_fragment
  have h_sep : "\n  ".toList = '\n' :: [' ', ' '] := by decide
  have h_sent : declares name ("\n  ".intercalate ((fragments endpoint).map Prod.snd)) = true :=
    declares_intercalate h_name h_sep (by decide) h_member h_declares
  have h_opened := declares_append_right h_name (atStart_opening endpoint) h_sent
  rw [typeBlock_eq]
  -- behind the fragments stand five texts, and none of them matters
  iterate 5 refine declares_append_left h_name ?_ _
  exact h_opened

theorem declares_typeBlock_data (settings : Settings)
    (h_data : declares "Data" (dataOf endpoint) = true) :
    declares "Data" (typeBlock settings endpoint) = true := by
  have h_name : '\n' ∉ "Data".toList := by decide
  rw [typeBlock_eq]
  iterate 3 refine declares_append_left h_name ?_ _
  exact declares_append_right h_name (atStart_inner _) h_data

theorem declares_response (front : String) :
    declares "Response" (front ++ "\n      export type Response = ") = true := by
  have h_line : "\n      export type Response = ".toList =
      "\n      ".toList ++ (Declaration.head .alias "Response").toList := rfl
  refine (declares_iff (by decide)).mpr ⟨_, .alias, [], ?_, atStart_inner front⟩
  simp only [String.toList_append, h_line, List.append_assoc, List.append_nil]

theorem declares_typeBlock_response (settings : Settings) (endpoint : Endpoint) :
    declares "Response" (typeBlock settings endpoint) = true := by
  have h_name : '\n' ∉ "Response".toList := by decide
  rw [typeBlock_eq]
  iterate 2 refine declares_append_left h_name ?_ _
  exact declares_response _

/-! ## Fitting together -/

/-- What it is for the types and the request function of an endpoint to fit together. -/
structure Fits (settings : Settings) (endpoint : Endpoint) : Prop where
  /-- The function has the arguments in its signature and answers with the response. -/
  function : ∃ call, requestFunction endpoint =
    endpoint.fnComment.getD "" ++ "export function " ++ endpoint.fnName.getD "" ++ "(" ++
      ", ".intercalate ((endpoint.present? .params).toList ++ arguments endpoint) ++
      "): Api." ++ namespaceOf endpoint ++ ".Response \x7b\n" ++ call
  /-- The namespace opens with the fragments. -/
  block : ∃ rest, typeBlock settings endpoint =
    opening endpoint ++ "\n  ".intercalate ((fragments endpoint).map Prod.snd) ++ rest
  /-- There is an argument for each part whose fragment the namespace has, and for no other. -/
  argument_iff : ∀ part ∈ requestParts, argumentFor endpoint part ∈ arguments endpoint ↔
    ∃ fragment, endpoint.get part.1 = some fragment ∧ (part.1, fragment) ∈ fragments endpoint
  /-- Each fragment declares the type that the argument names, and so does the namespace. -/
  declared : ∀ part ∈ requestParts, ∀ fragment, endpoint.get part.1 = some fragment →
    declares (Name.pascal part.2.1) fragment = true ∧
      declares (Name.pascal part.2.1) (typeBlock settings endpoint) = true
  data : declares "Data" (typeBlock settings endpoint) = true
  response : declares "Response" (typeBlock settings endpoint) = true

theorem exists_requestFunction_eq (endpoint : Endpoint) : ∃ call, requestFunction endpoint =
    endpoint.fnComment.getD "" ++ "export function " ++ endpoint.fnName.getD "" ++ "(" ++
      ", ".intercalate ((endpoint.present? .params).toList ++ arguments endpoint) ++
      "): Api." ++ namespaceOf endpoint ++ ".Response \x7b\n" ++ call := by
  rw [← signature_eq]
  delta requestFunction
  simp only [String.append_assoc]
  exact ⟨_, rfl⟩

theorem exists_typeBlock_eq (settings : Settings) (endpoint : Endpoint) :
    ∃ rest, typeBlock settings endpoint =
      opening endpoint ++ "\n  ".intercalate ((fragments endpoint).map Prod.snd) ++ rest := by
  rw [typeBlock_eq]
  simp only [String.append_assoc]
  exact ⟨_, rfl⟩

theorem declares_dataOf (h_resolve : (Resolver.standard typeScript definitions).resolve operation =
      .ok endpoint) : declares "Data" (dataOf endpoint) = true := by
  rw [dataOf]
  -- the default declares the data as the fragment does
  cases h_present : endpoint.present? .response with
  | none =>
    rw [Option.getD_none]
    decide
  | some fragment =>
    rw [Option.getD_some]
    exact declares_of_response h_resolve (Endpoint.present?_eq_some_iff.mp h_present).1

/-- The types and the request function of an endpoint fit together whenever the default rules
    resolve its operation. -/
theorem endpoint_fits (settings : Settings) (definitions : Definitions) (operation : Operation)
    (endpoint : Endpoint)
    (h_resolve : (Resolver.standard typeScript definitions).resolve operation = .ok endpoint) :
    Fits settings endpoint where
  function := exists_requestFunction_eq endpoint
  block := exists_typeBlock_eq settings endpoint
  argument_iff := fun _ h_part => argument_iff_fragment h_part
  declared := by
    intro part h_part fragment h_fragment
    have h_name := (isFragmentName_pascal h_part).flat
    have h_declares := declares_of_part h_resolve h_part h_fragment
    -- a fragment that declares a type is not empty, so it is not left out
    have h_present : endpoint.present? part.1 = some fragment :=
      Endpoint.present?_eq_some_iff.mpr ⟨h_fragment, ne_empty_of_declares h_name h_declares⟩
    have h_mem := (mem_fragments_iff h_part).mpr h_present
    exact ⟨h_declares, declares_typeBlock_of_fragment settings h_name h_mem h_declares⟩
  data := declares_typeBlock_data settings (declares_dataOf h_resolve)
  response := declares_typeBlock_response settings endpoint

/-- An operation with a parameter in the query and a list as its body. -/
def renamePets : Operation :=
  { url := "/pets"
    method := "put"
    description := none
    operationId := some "renamePets"
    summary := none
    tags := none
    path := []
    query := [⟨"limit", .query, true, none, some (.object [("type", .text "integer")])⟩]
    cookie := []
    header := []
    body := some (.object [("type", .text "array"),
      ("items", .object [("$ref", .text "#/definitions/Pet")])])
    responses := [] }

/-- The types of an operation with two arguments have what its function asks for. -/
theorem endpoint_fits_renamePets :
    ∃ endpoint, (Resolver.standard typeScript ⟨[], []⟩).resolve renamePets = .ok endpoint ∧
      arguments endpoint = ["query: Api.RenamePets.Query", "body: Api.RenamePets.Body"] ∧
      ∀ settings, Fits settings endpoint := by
  have h_resolves : ((Resolver.standard typeScript ⟨[], []⟩).resolve renamePets).toOption.map
      arguments = some ["query: Api.RenamePets.Query", "body: Api.RenamePets.Body"] := by
    decide +kernel
  cases h_resolve : (Resolver.standard typeScript ⟨[], []⟩).resolve renamePets with
  | error failure =>
    rw [h_resolve] at h_resolves
    cases h_resolves
  | ok endpoint =>
    rw [h_resolve] at h_resolves
    exact ⟨endpoint, rfl, Option.some.inj h_resolves,
      fun settings => endpoint_fits settings _ _ endpoint h_resolve⟩

end OpenApiTs.Output
