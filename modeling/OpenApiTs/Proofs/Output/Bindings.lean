/-
  OpenApiTs.Proofs.Output.Bindings

  The names in the template of an address and the parameters of the function that it stands in. The
  names come from the path by plain replacement, the parameters from the schemas of the path's
  parameters: a parameter is called by the title of its schema if that has one, and by its own name
  if not.
-/
import OpenApiTs.Proofs.Endpoint.Inline
import OpenApiTs.Proofs.Output.Fitting

namespace OpenApiTs.Output

open OpenApiTs.Endpoint
open OpenApiTs.Schema
open OpenApiTs.Text.Chars (after? dropWhileEnd replaceAll trim)
open OpenApiTs.TypeScript

variable {definitions : Definitions} {operation : Operation} {endpoint : Endpoint}
  {parameter : Parameter} {name text : String} {opening chars back : List Char} {c : Char}

/-! ## Names in templates -/

/-- What stands before the first closing brace of a text, if it has one. -/
def untilBrace? (text : List Char) : Option (List Char) :=
  if '\x7d' ∈ text then some (text.takeWhile (· ≠ '\x7d')) else none

/-- What stands between each opening in a text and the closing brace behind it. -/
def namesAfter (opening : List Char) : List Char → List (List Char)
  | [] => []
  | c :: text =>
    match after? opening (c :: text) with
    | some rest => (untilBrace? rest).toList ++ namesAfter opening text
    | none => namesAfter opening text

/-- The placeholders of a path. -/
def placeholders (path : String) : List String :=
  (namesAfter ['\x7b'] path.toList).map String.ofList

/-- The names that a template puts values for. -/
def templateNames (template : String) : List String :=
  (namesAfter ['$', '\x7b'] template.toList).map String.ofList

example : placeholders "/users/\x7bid\x7d/pets/\x7bpetId\x7d" = ["id", "petId"] := by decide

/-- A character of a path as it stands in a template. -/
def templated (c : Char) : List Char := if c = '\x7b' then ['$', '\x7b'] else [c]

theorem templated_of_ne (h_c : c ≠ '\x7b') : templated c = [c] := if_neg h_c

/-- The replacement treats each character on its own, since what it looks for is a single brace. -/
theorem replaceAll_eq_flatMap (text : List Char) :
    replaceAll [['\x7b']] ['$', '\x7b'] text = text.flatMap templated := by
  induction text with
  | nil => simp [replaceAll]
  | cons c text ih =>
    by_cases h_brace : c = '\x7b'
    · subst h_brace
      have h_first := Text.Chars.replaceAll_append ['$', '\x7b'] (List.cons_ne_nil '\x7b' []) text
      rw [List.singleton_append] at h_first
      rw [h_first, ih]
      rfl
    · have h_not : ¬ ['\x7b'] <+: c :: text := by
        rw [List.cons_prefix_cons]
        exact fun h_both => h_brace h_both.1.symm
      rw [Text.Chars.replaceAll_cons_of_not_prefix h_not, ih, List.flatMap_cons,
        templated_of_ne h_brace, List.singleton_append]

theorem flatMap_templated_eq_self (h_text : '\x7b' ∉ chars) : chars.flatMap templated = chars := by
  induction chars with
  | nil => rfl
  | cons c chars ih =>
    rw [List.mem_cons, not_or] at h_text
    rw [List.flatMap_cons, templated_of_ne (Ne.symm h_text.1), ih h_text.2, List.singleton_append]

/-- A template begins with no opening brace. -/
theorem head?_flatMap_templated (text : List Char) :
    (text.flatMap templated).head? ≠ some '\x7b' := by
  cases text with
  | nil => simp
  | cons c text =>
    by_cases h_brace : c = '\x7b'
    · subst h_brace
      simp [templated]
    · rw [List.flatMap_cons, templated_of_ne h_brace, List.singleton_append, List.head?_cons]
      exact fun h_head => h_brace (Option.some.inj h_head)

theorem untilBrace?_cons (h_c : c ≠ '\x7d') (text : List Char) :
    untilBrace? (c :: text) = (untilBrace? text).map (c :: ·) := by
  rw [untilBrace?, untilBrace?, List.takeWhile_cons_of_pos (by simpa using h_c)]
  by_cases h_mem : '\x7d' ∈ text
  · rw [if_pos (List.mem_cons_of_mem c h_mem), if_pos h_mem]
    rfl
  · rw [if_neg (by simp [h_mem, Ne.symm h_c]), if_neg h_mem]
    rfl

/-- A name up to its closing brace is templated as the text is. -/
theorem untilBrace?_flatMap_templated (text : List Char) :
    untilBrace? (text.flatMap templated) =
      (untilBrace? text).map fun name => name.flatMap templated := by
  induction text with
  | nil => rfl
  | cons c text ih =>
    by_cases h_close : c = '\x7d'
    · subst h_close
      simp [untilBrace?, templated]
    · rw [untilBrace?_cons h_close, Option.map_map, List.flatMap_cons]
      by_cases h_brace : c = '\x7b'
      · subst h_brace
        have h_two : templated '\x7b' ++ text.flatMap templated =
            '$' :: '\x7b' :: text.flatMap templated := rfl
        rw [h_two, untilBrace?_cons (by decide), untilBrace?_cons (by decide), ih, Option.map_map,
          Option.map_map]
        rfl
      · rw [templated_of_ne h_brace, List.singleton_append, untilBrace?_cons h_close, ih,
          Option.map_map]
        congr 1
        funext name
        simp [templated_of_ne h_brace]

/-- The names in a template are the placeholders that its openings come from. -/
theorem namesAfter_flatMap_templated (text : List Char) :
    namesAfter ['$', '\x7b'] (text.flatMap templated) =
      (namesAfter ['\x7b'] text).map fun name => name.flatMap templated := by
  induction text with
  | nil => rfl
  | cons c text ih =>
    by_cases h_brace : c = '\x7b'
    · subst h_brace
      have h_template : namesAfter ['$', '\x7b'] (('\x7b' :: text).flatMap templated) =
          (untilBrace? (text.flatMap templated)).toList ++
            namesAfter ['$', '\x7b'] (text.flatMap templated) := rfl
      have h_path : namesAfter ['\x7b'] ('\x7b' :: text) =
          (untilBrace? text).toList ++ namesAfter ['\x7b'] text := rfl
      rw [h_template, h_path, untilBrace?_flatMap_templated, ih, List.map_append]
      cases untilBrace? text <;> rfl
    · -- a dollar sign of the path is followed by no brace in the template
      have h_none : after? ['$', '\x7b'] (c :: text.flatMap templated) = none := by
        rw [Option.eq_none_iff_forall_not_mem]
        intro rest h_rest
        rw [Option.mem_def, Text.Chars.after?_eq_some_iff] at h_rest
        apply head?_flatMap_templated text
        rw [(List.cons.inj h_rest).2]
        rfl
      have h_path : after? ['\x7b'] (c :: text) = none := by
        rw [after?, if_neg (Ne.symm h_brace)]
      rw [List.flatMap_cons, templated_of_ne h_brace, List.singleton_append, namesAfter, h_none,
        namesAfter, h_path]
      exact ih

theorem after?_concat (h_c : c ∉ opening) (text : List Char) :
    after? opening (text ++ [c]) = (after? opening text).map (· ++ [c]) := by
  induction opening generalizing text with
  | nil => rfl
  | cons l lead ih =>
    rw [List.mem_cons, not_or] at h_c
    cases text with
    | nil => simp [after?, Ne.symm h_c.1]
    | cons d text =>
      rw [List.cons_append, after?, after?]
      by_cases h_same : l = d
      · rw [if_pos h_same, if_pos h_same, ih h_c.2]
      · rw [if_neg h_same, if_neg h_same]
        rfl

theorem untilBrace?_concat (h_c : c ≠ '\x7d') (text : List Char) :
    untilBrace? (text ++ [c]) = untilBrace? text := by
  induction text with
  | nil => simp [untilBrace?, Ne.symm h_c]
  | cons d text ih =>
    by_cases h_close : d = '\x7d'
    · subst h_close
      simp [untilBrace?]
    · rw [List.cons_append, untilBrace?_cons h_close, untilBrace?_cons h_close, ih]

/-- A sign behind a text that neither opens nor closes a name adds none. -/
theorem namesAfter_concat (h_opening : c ∉ opening) (h_c : c ≠ '\x7d') (text : List Char) :
    namesAfter opening (text ++ [c]) = namesAfter opening text := by
  induction text with
  | nil =>
    have h_after := @after?_concat opening c h_opening []
    rw [List.nil_append] at h_after ⊢
    rw [namesAfter, namesAfter, h_after]
    cases opening with
    | nil => simp [after?, namesAfter, untilBrace?, Ne.symm h_c]
    | cons l lead => simp [after?, namesAfter]
  | cons d text ih =>
    have h_after := @after?_concat opening c h_opening (d :: text)
    rw [List.cons_append] at h_after ⊢
    rw [namesAfter, namesAfter, h_after, ih]
    cases after? opening (d :: text) with
    | none => rfl
    | some rest =>
      simp only [Option.map_some]
      rw [untilBrace?_concat h_c]

/-- Quotes around a template hold no names. -/
theorem namesAfter_quoted (h_opening : c ∉ opening) (h_some : opening ≠ []) (h_c : c ≠ '\x7d')
    (text : List Char) : namesAfter opening (c :: (text ++ [c])) = namesAfter opening text := by
  obtain ⟨l, lead, rfl⟩ := List.exists_cons_of_ne_nil h_some
  have h_first : l ≠ c := fun h_same => h_opening (h_same ▸ List.mem_cons_self)
  rw [namesAfter, after?, if_neg h_first]
  exact namesAfter_concat h_opening h_c text

/-! ## Names in signatures -/

/-- Whether a text can stand before the colon of a parameter and between the braces of a
    placeholder: it has no blanks, braces, colons or question marks. -/
structure Bindable (name : String) : Prop where
  ne_nil : name.toList ≠ []
  plain : ∀ c ∈ name.toList, Text.isBlank c = false ∧ c ∉ ['\x7b', '\x7d', ':', '?']

/-- Identifiers are names that an argument can bind. -/
theorem bindable_of_isIdentifier (h_name : Name.isIdentifier name = true) : Bindable name := by
  rw [Name.isIdentifier] at h_name
  cases h_chars : name.toList with
  | nil =>
    rw [h_chars] at h_name
    cases h_name
  | cons first chars =>
    rw [h_chars, Name.Chars.isIdentifier, Bool.and_eq_true, List.all_eq_true] at h_name
    have h_inside : ∀ c ∈ name.toList, Name.inIdentifier c = true := by
      rw [h_chars, List.forall_mem_cons]
      refine ⟨?_, h_name.2⟩
      have h_first := h_name.1
      simp only [Name.beginsIdentifier, Bool.or_eq_true] at h_first
      simp only [Name.inIdentifier, Char.isAlphanum, Bool.or_eq_true]
      tauto
    refine ⟨by simp [h_chars], fun c h_c => ⟨Name.isBlank_of_inIdentifier (h_inside c h_c), ?_⟩⟩
    intro h_sign
    have h_signs : ∀ c ∈ ['\x7b', '\x7d', ':', '?'], Name.inIdentifier c = false := by decide
    exact absurd (h_inside c h_c) (by simp [h_signs c h_sign])

/-- Whether a character can stand in the name of a parameter. -/
def inBoundName (c : Char) : Bool := c ≠ ':' && c ≠ '?'

/-- The name that a parameter in a signature has: what stands before the colon, or before the
    question mark and the colon of one that may be left out. -/
def boundName? (argument : String) : Option String :=
  match argument.toList.dropWhile inBoundName with
  | ':' :: _ => some (String.ofList (argument.toList.takeWhile inBoundName))
  | '?' :: ':' :: _ => some (String.ofList (argument.toList.takeWhile inBoundName))
  | _ => none

/-- The sign between the name of a parameter and its colon. -/
def optionMark (parameter : Parameter) : List Char := if parameter.required then [] else ['?']

theorem boundName?_of_append (h_name : Bindable name) (parameter : Parameter) {rest : List Char}
    (h_text : text.toList = name.toList ++ (optionMark parameter ++ ':' :: rest)) :
    boundName? text = some name := by
  have h_inside : ∀ c ∈ name.toList, inBoundName c = true := by
    intro c h_c
    have h_plain := (h_name.plain c h_c).2
    simp only [List.mem_cons, List.not_mem_nil, or_false, not_or] at h_plain
    simp [inBoundName, h_plain]
  rw [boundName?, h_text, List.dropWhile_append_of_pos h_inside,
    List.takeWhile_append_of_pos h_inside, optionMark]
  cases parameter.required <;> simp [inBoundName]

theorem toList_argumentHead (parameter : Parameter) : (argumentHead parameter).toList =
    ((argumentName parameter).toList ++ (optionMark parameter ++ [':'])) ++ [' '] := by
  rw [argumentHead, String.toList_append, String.toList_append, optionMark]
  split <;> simp

/-- Whether a parameter is written under its own head: directly, or as the alias that its schema is
    declared with, under a name of word characters without the marker of placeholders. -/
def WrittenInline (parameter : Parameter) : Prop :=
  IsDirect (schemaOf parameter) ∨
    (isInterface (withoutDescription (schemaOf parameter)) = false ∧
      '$' ∉ (Name.identifier (argumentName parameter)).toList ∧
      Definitions.Unmarked (Name.identifier (argumentName parameter)))

/-- What is folded from an alias begins with the head of the parameter, up to its colon. -/
theorem exists_folded_append (h_name : Bindable (argumentName parameter)) (rest : List Char) :
    ∃ kept, dropSemicolon (trim ((argumentHead parameter).toList ++ rest)) =
      (argumentName parameter).toList ++ (optionMark parameter ++ ':' :: kept) := by
  obtain ⟨first, others, h_chars⟩ := List.exists_cons_of_ne_nil h_name.ne_nil
  have h_first : Text.isBlank first = false := (h_name.plain first (by simp [h_chars])).1
  have h_begins : ((argumentName parameter).toList ++ (optionMark parameter ++ [':'])).head? =
      some first := by simp [h_chars]
  have h_ends : ((argumentName parameter).toList ++ (optionMark parameter ++ [':'])).getLast? =
      some ':' := by simp
  -- the colon is no blank, so what is trimmed stands behind it
  rw [toList_argumentHead, List.append_assoc,
    Text.Chars.trim_append h_begins h_ends h_first (by decide)]
  generalize dropWhileEnd Text.isBlank ([' '] ++ rest) = back
  have h_colon : (argumentName parameter).toList ++ (optionMark parameter ++ [':']) ++ back =
      ((argumentName parameter).toList ++ optionMark parameter) ++ ':' :: back := by simp
  rw [h_colon]
  by_cases h_last : back = []
  · subst h_last
    refine ⟨[], ?_⟩
    rw [dropSemicolon_of_getLast? (by simp)]
    simp
  · obtain ⟨kept, h_kept⟩ := exists_dropSemicolon_append h_last
      ((argumentName parameter).toList ++ (optionMark parameter ++ [':']))
    rw [h_colon] at h_kept
    exact ⟨kept, by rw [h_kept]; simp⟩

/-- A parameter that is written inline begins with its name, a question mark if it may be left out,
    and a colon. -/
theorem exists_argument_append (h_schema : (schemaOf parameter).WellFormed)
    (h_name : Bindable (argumentName parameter)) (h_inline : WrittenInline parameter)
    (h_text : argument typeScript definitions parameter = .ok text) :
    ∃ rest, text.toList =
      (argumentName parameter).toList ++ (optionMark parameter ++ ':' :: rest) := by
  -- a direct argument is written as it is; any other is compiled, and folded from its one
  -- declaration
  by_cases h_direct : IsDirect (schemaOf parameter)
  · obtain ⟨type, -, h_argument⟩ := @argument_of_isDirect definitions parameter h_direct
    rw [h_text, Except.ok.injEq] at h_argument
    rw [h_argument, String.toList_append, toList_argumentHead]
    exact ⟨' ' :: type.toList, by simp⟩
  · obtain ⟨h_interface, h_dollar, h_unmarked⟩ := h_inline.resolve_left h_direct
    obtain ⟨compilation, h_compile, -, rfl⟩ := argument_of_compiled h_direct h_text
    obtain ⟨declaration, others, h_made, h_leads, h_own, h_form⟩ :=
      exists_leads h_schema h_compile
    have h_mem : declaration ∈ compilation.made := by
      rw [h_made]
      exact List.mem_cons_self
    have h_alias : declaration.form = .alias := by
      rw [h_form, formOf, h_interface]
      rfl
    obtain ⟨rest, h_scrubbed⟩ := exists_scrub_undescribed h_leads.plain (h_own ▸ h_unmarked)
      h_leads.legible.name (guarded_of_compile h_compile declaration h_mem)
      (String.join (others.map Declaration.render))
    rw [Compilation.render, h_made, List.map_cons, String.join_cons, folded, h_scrubbed, h_alias,
      replaceHead_alias h_leads.legible.name (h_own ▸ h_dollar), String.toList_ofList]
    exact exists_folded_append h_name rest

/-- The argument of a parameter that is written inline binds the parameter's own name. -/
theorem boundName?_argument (h_schema : (schemaOf parameter).WellFormed)
    (h_name : Bindable (argumentName parameter)) (h_inline : WrittenInline parameter)
    (h_text : argument typeScript definitions parameter = .ok text) :
    boundName? text = some (argumentName parameter) := by
  obtain ⟨rest, h_chars⟩ := exists_argument_append h_schema h_name h_inline h_text
  exact boundName?_of_append h_name parameter h_chars

/-! ## Templates and signatures -/

/-- The template of the URL has the names of its placeholders, in their order. -/
theorem templateNames_urlLiteral
    (h_resolve : (Resolver.standard typeScript definitions).resolve operation = .ok endpoint)
    (h_names : ∀ own ∈ placeholders operation.url, '\x7b' ∉ own.toList) :
    templateNames (urlLiteral endpoint) = placeholders operation.url := by
  have h_url : endpoint.url = some (Text.replaceAll "\x7b" "$\x7b" operation.url) :=
    (Except.ok.inj (Resolver.resolve_get h_resolve .url)).symm
  have h_chars : (Text.replaceAll "\x7b" "$\x7b" operation.url).toList =
      operation.url.toList.flatMap templated := by
    rw [Text.replaceAll, String.toList_ofList]
    exact replaceAll_eq_flatMap _
  have h_quoted : namesAfter ['$', '\x7b'] (urlLiteral endpoint).toList =
      namesAfter ['$', '\x7b'] (operation.url.toList.flatMap templated) := by
    rw [urlLiteral, h_url, Option.getD_some, ← h_chars]
    -- without arguments the URL is a plain text, with them a template; neither quote opens a name
    cases endpoint.present? .params with
    | none =>
      have h_literal :=
        Text.toList_append_append "'" (Text.replaceAll "\x7b" "$\x7b" operation.url) "'"
      simp only [h_literal]
      exact @namesAfter_quoted ['$', '\x7b'] '\x27' (by decide) (by decide) (by decide) _
    | some params =>
      have h_literal :=
        Text.toList_append_append "`" (Text.replaceAll "\x7b" "$\x7b" operation.url) "`"
      simp only [h_literal]
      exact @namesAfter_quoted ['$', '\x7b'] '\x60' (by decide) (by decide) (by decide) _
  rw [templateNames, placeholders, h_quoted, namesAfter_flatMap_templated, List.map_map]
  apply List.map_congr_left
  intro own h_own
  have h_plain := h_names (String.ofList own) (List.mem_map_of_mem h_own)
  rw [String.toList_ofList] at h_plain
  rw [Function.comp_apply, flatMap_templated_eq_self h_plain]

/-- What is joined to other texts first can be joined with them. -/
theorem intercalate_cons_intercalate {sep : String} {texts : List String} (h_some : texts ≠ [])
    (others : List String) :
    sep.intercalate (sep.intercalate texts :: others) = sep.intercalate (texts ++ others) := by
  by_cases h_last : others = []
  · rw [h_last, List.append_nil, String.intercalate_singleton]
  · rw [String.intercalate_append_of_ne_nil h_some h_last, String.intercalate_cons_of_ne_nil h_last]

/-- With an argument for the path that is not empty, the signature is the arguments for the path and
    those for the other parts of the request. -/
theorem signature_eq_intercalate {pathArguments : List String} {argument : String}
    (h_resolve : (Resolver.standard typeScript definitions).resolve operation = .ok endpoint)
    (h_arguments : operation.path.mapM (Endpoint.argument typeScript definitions) =
      .ok pathArguments) (h_mem : argument ∈ pathArguments) (h_some : argument ≠ "") :
    signature endpoint = ", ".intercalate (pathArguments ++ arguments endpoint) := by
  have h_path : operation.path ≠ [] := by
    intro h_none
    rw [h_none] at h_arguments
    rw [← Except.ok.inj h_arguments] at h_mem
    cases h_mem
  have h_params : endpoint.params = some (", ".intercalate pathArguments) := by
    have h_rule := Resolver.resolve_get h_resolve .params
    simp only [Resolver.standard, h_arguments] at h_rule
    rw [if_neg (by simpa using h_path)] at h_rule
    exact (Except.ok.inj h_rule).symm
  -- the argument is not empty, so neither are all of them together
  have h_joined : ", ".intercalate pathArguments ≠ "" := by
    intro h_empty
    have h_inside := Text.contains_intercalate ", " h_mem (Text.contains_self argument)
    rw [h_empty, Text.contains_iff] at h_inside
    exact h_some (String.toList_eq_nil_iff.mp (List.infix_nil.mp h_inside))
  have h_present : endpoint.present? .params = some (", ".intercalate pathArguments) :=
    Endpoint.present?_eq_some_iff.mpr ⟨h_params, h_joined⟩
  rw [signature_eq, h_present, Option.toList_some, List.singleton_append,
    intercalate_cons_intercalate (List.ne_nil_of_mem h_mem)]

/-- Whether the signature of a request function has a parameter of a name: it is arguments for the
    path and for the other parts of the request, and one of those for the path has the name. -/
def Binds (definitions : Definitions) (operation : Operation) (endpoint : Endpoint)
    (name : String) : Prop :=
  ∃ pathArguments,
    operation.path.mapM (Endpoint.argument typeScript definitions) = .ok pathArguments ∧
    signature endpoint = ", ".intercalate (pathArguments ++ arguments endpoint) ∧
    ∃ argument ∈ pathArguments, boundName? argument = some name

/-- The signature has a parameter of the path, when it is written inline, under the title of its
    schema if that has one, and under its own name if not. -/
theorem binds_argumentName
    (h_resolve : (Resolver.standard typeScript definitions).resolve operation = .ok endpoint)
    (h_parameter : parameter ∈ operation.path) (h_schema : (schemaOf parameter).WellFormed)
    (h_name : Bindable (argumentName parameter)) (h_inline : WrittenInline parameter) :
    Binds definitions operation endpoint (argumentName parameter) := by
  have h_rule := Resolver.resolve_get h_resolve .params
  simp only [Resolver.standard] at h_rule
  rw [if_neg (by simpa using List.ne_nil_of_mem h_parameter)] at h_rule
  obtain ⟨pathArguments, h_arguments, -⟩ := Outcome.bind_eq_ok_iff.mp h_rule
  obtain ⟨argument, h_argument, h_text⟩ := Outcome.exists_mem_of_mapM h_arguments h_parameter
  have h_bound := boundName?_argument h_schema h_name h_inline h_text
  -- an empty text binds no name
  have h_some : argument ≠ "" := by
    rintro rfl
    cases h_bound
  exact ⟨pathArguments, h_arguments,
    signature_eq_intercalate h_resolve h_arguments h_argument h_some, argument, h_argument, h_bound⟩

/-- Where every placeholder of a path is the name of one of its parameters, so is every name in the
    template. The signature has this parameter, when it is written inline, under the title of its
    schema if that has one, and under its own name if not: its own name is bound unless the title is
    another one. -/
theorem template_names_bound (definitions : Definitions) (operation : Operation)
    (endpoint : Endpoint) (h_names : ∀ parameter ∈ operation.path, Bindable parameter.name)
    (h_schemas : ∀ parameter ∈ operation.path, (schemaOf parameter).WellFormed)
    (h_declared : ∀ own ∈ placeholders operation.url,
      ∃ parameter ∈ operation.path, parameter.name = own)
    (h_resolve : (Resolver.standard typeScript definitions).resolve operation = .ok endpoint) :
    ∀ own ∈ templateNames (urlLiteral endpoint),
      (∃ parameter ∈ operation.path, parameter.name = own) ∧
      ∀ parameter ∈ operation.path, parameter.name = own → WrittenInline parameter →
        (Bindable (argumentName parameter) →
          Binds definitions operation endpoint (argumentName parameter)) ∧
        ((∀ title ∈ (schemaOf parameter).wordsAt? "title", title = own) →
          Binds definitions operation endpoint own) := by
  intro own h_own
  have h_plain : ∀ own ∈ placeholders operation.url, '\x7b' ∉ own.toList := by
    intro own h_own h_brace
    obtain ⟨parameter, h_parameter, rfl⟩ := h_declared own h_own
    exact absurd ((h_names parameter h_parameter).plain _ h_brace).2 (by decide)
  rw [templateNames_urlLiteral h_resolve h_plain] at h_own
  refine ⟨h_declared own h_own, ?_⟩
  intro parameter h_parameter h_name h_inline
  have h_binds (h_bindable : Bindable (argumentName parameter)) :=
    binds_argumentName h_resolve h_parameter (h_schemas parameter h_parameter) h_bindable h_inline
  refine ⟨h_binds, fun h_title => ?_⟩
  -- a title, if there is one, is the parameter's name
  have h_same : argumentName parameter = own := by
    rw [argumentName, ← schemaOf]
    cases h_found : (schemaOf parameter).wordsAt? "title" with
    | none => exact h_name
    | some title => exact h_title title h_found
  rw [h_same] at h_binds
  exact h_binds (h_name ▸ h_names parameter h_parameter)

/-- The identifier of a user, with a schema that has these fields. -/
def userParameter (fields : Entries Json) : Parameter :=
  ⟨"id", .path, true, none, some (.object fields)⟩

/-- An operation on one user. -/
def userOperation (fields : Entries Json) : Operation :=
  { (default : Operation) with
    url := "/users/\x7bid\x7d"
    method := "get"
    path := [userParameter fields] }

theorem userOperation_declared (fields : Entries Json) :
    (∀ parameter ∈ (userOperation fields).path, Bindable parameter.name) ∧
      ∀ own ∈ placeholders (userOperation fields).url,
        ∃ parameter ∈ (userOperation fields).path, parameter.name = own := by
  have h_identifier : Name.isIdentifier "id" = true := by decide
  have h_id : placeholders "/users/\x7bid\x7d" = ["id"] := by decide
  constructor
  · intro parameter h_parameter
    rw [List.mem_singleton.mp h_parameter]
    exact bindable_of_isIdentifier h_identifier
  · intro own h_own
    have h_own : own ∈ placeholders "/users/\x7bid\x7d" := h_own
    rw [h_id] at h_own
    exact ⟨_, List.mem_singleton_self _, (List.mem_singleton.mp h_own).symm⟩

/-- What an operation on one user is resolved to, as far as its template and its signature go. -/
def userCall? (fields : Entries Json) : Option (List String × String) :=
  ((Resolver.standard typeScript default).resolve (userOperation fields)).toOption.map
    fun endpoint => (templateNames (urlLiteral endpoint), signature endpoint)

theorem exists_of_userCall? {fields : Entries Json} {names : List String} {written : String}
    (h_call : userCall? fields = some (names, written)) :
    ∃ endpoint, (Resolver.standard typeScript default).resolve (userOperation fields) =
        .ok endpoint ∧ templateNames (urlLiteral endpoint) = names ∧
      signature endpoint = written := by
  obtain ⟨endpoint, h_resolve, h_both⟩ := Option.map_eq_some_iff.mp h_call
  obtain ⟨h_names, h_written⟩ := Prod.mk.inj h_both
  exact ⟨endpoint, Outcome.eq_ok_of_toOption h_resolve, h_names, h_written⟩

/-- The name of a user's identifier is bound where its schema has no title. -/
theorem userOperation_names_bound :
    ∃ endpoint, (Resolver.standard typeScript default).resolve
        (userOperation [("type", .text "string")]) = .ok endpoint ∧
      templateNames (urlLiteral endpoint) = ["id"] ∧ signature endpoint = "id: string" ∧
      Binds default (userOperation [("type", .text "string")]) endpoint "id" := by
  obtain ⟨h_names, h_declared⟩ := userOperation_declared [("type", .text "string")]
  have h_schemas : ∀ parameter ∈ (userOperation [("type", .text "string")]).path,
      (schemaOf parameter).WellFormed := by
    intro parameter h_parameter
    rw [List.mem_singleton.mp h_parameter]
    simp [schemaOf, userParameter, Json.WellFormed, Json.WellFormedFields]
  obtain ⟨endpoint, h_resolve, h_template, h_signature⟩ :=
    @exists_of_userCall? [("type", .text "string")] ["id"] "id: string" (by decide +kernel)
  obtain ⟨-, h_bound⟩ := template_names_bound default _ endpoint h_names h_schemas h_declared
    h_resolve "id" (by rw [h_template]; exact List.mem_singleton_self _)
  have h_inline : ∀ parameter ∈ (userOperation [("type", .text "string")]).path,
      WrittenInline parameter := by
    intro parameter h_parameter
    rw [List.mem_singleton.mp h_parameter]
    exact .inr ⟨by decide, by decide +kernel, Definitions.unmarked_iff.mpr (by decide +kernel)⟩
  have h_untitled : ∀ parameter ∈ (userOperation [("type", .text "string")]).path,
      (schemaOf parameter).wordsAt? "title" = none := by
    intro parameter h_parameter
    rw [List.mem_singleton.mp h_parameter]
    rfl
  have h_mem := List.mem_singleton_self (userParameter [("type", .text "string")])
  obtain ⟨-, h_binds⟩ := h_bound _ h_mem rfl (h_inline _ h_mem)
  refine ⟨endpoint, h_resolve, h_template, h_signature, h_binds ?_⟩
  rw [h_untitled _ h_mem]
  exact fun title h_title => by cases h_title

/-- Under another title the name of a user's identifier is not bound. -/
theorem userOperation_name_not_bound :
    ∃ endpoint, (Resolver.standard typeScript default).resolve
        (userOperation [("title", .text "userId"), ("type", .text "string")]) = .ok endpoint ∧
      templateNames (urlLiteral endpoint) = ["id"] ∧ signature endpoint = "userId: string" ∧
      ¬ Binds default (userOperation [("title", .text "userId"), ("type", .text "string")]) endpoint
        "id" := by
  obtain ⟨endpoint, h_resolve, h_template, h_signature⟩ :=
    @exists_of_userCall? [("title", .text "userId"), ("type", .text "string")] ["id"]
      "userId: string" (by decide +kernel)
  refine ⟨endpoint, h_resolve, h_template, h_signature, ?_⟩
  rintro ⟨pathArguments, h_arguments, -, argument, h_mem, h_bound⟩
  have h_computed : ((userOperation [("title", .text "userId"), ("type", .text "string")]).path.mapM
      (Endpoint.argument typeScript default)).toOption = some ["userId: string"] := by
    decide +kernel
  rw [h_arguments] at h_computed
  obtain rfl : pathArguments = ["userId: string"] := Option.some.inj h_computed
  rw [List.mem_singleton.mp h_mem] at h_bound
  exact absurd h_bound (by decide)

end OpenApiTs.Output
