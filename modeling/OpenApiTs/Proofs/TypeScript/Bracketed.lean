/-
  OpenApiTs.Proofs.TypeScript.Bracketed

  Parentheses around joined types. Whether a text gets them is read off its first and last
  characters, so what the text of a type begins and ends with decides: a joined type is put in
  parentheses of its own unless an object leads it, or its first part opens and its last part closes
  with a parenthesis.
-/
import OpenApiTs.Proofs.Text.Contains
import OpenApiTs.Proofs.TypeScript.Expr

namespace OpenApiTs

variable {c : Char} {sep text : String} {texts : List String}

/-! ## Ends of texts -/

namespace Text

/-- To open with one character is to have it first. -/
theorem opensWith_iff {lead : String} (h_lead : lead.toList = [c]) :
    opensWith lead text = true ↔ text.toList.head? = some c := by
  rw [opensWith, h_lead]
  cases text.toList with
  | nil => simp
  | cons first others =>
    simp only [List.isPrefixOf_iff_prefix, List.cons_prefix_cons, List.nil_prefix, and_true,
      List.head?_cons, Option.some.injEq]
    exact eq_comm

/-- To close with one character is to have it last. -/
theorem closesWith_iff {tail : String} (h_tail : tail.toList = [c]) :
    closesWith tail text = true ↔ text.toList.getLast? = some c := by
  rw [closesWith, h_tail, List.isSuffixOf_iff_suffix, List.getLast?_eq_some_iff, List.IsSuffix]
  simp only [eq_comm]

/-- Joined texts open as the first of them does, unless it opens like the separator. -/
theorem head?_intercalate_iff (h_sep : sep.toList.head? = some ' ') (h_c : c ≠ ' ') :
    (sep.intercalate texts).toList.head? = some c ↔
      ∃ text ∈ texts.head?, text.toList.head? = some c := by
  rw [String.toList_intercalate]
  cases texts with
  | nil => simp
  | cons text texts =>
    have h_first : (∃ own ∈ (text :: texts).head?, own.toList.head? = some c) ↔
        text.toList.head? = some c := by
      simp
    rw [h_first]
    -- behind an empty first text the separator would come first, and it begins with a blank
    by_cases h_last : texts = []
    · simp [h_last]
    · rw [List.map_cons, List.intercalate_cons_of_ne_nil (by simpa using h_last), List.append_assoc,
        List.head?_append, List.head?_append, h_sep]
      cases text.toList with
      | nil => simp [Ne.symm h_c]
      | cons first others => simp

/-- Joined texts close as the last of them does, unless it closes like the separator. -/
theorem getLast?_intercalate_iff (h_sep : sep.toList.getLast? = some ' ') (h_c : c ≠ ' ') :
    (sep.intercalate texts).toList.getLast? = some c ↔
      ∃ text ∈ texts.getLast?, text.toList.getLast? = some c := by
  rw [String.toList_intercalate]
  induction texts with
  | nil => simp
  | cons text texts ih =>
    -- as at the front: a separator at the end would be a blank
    by_cases h_last : texts = []
    · simp [h_last]
    · rw [List.map_cons, List.intercalate_cons_of_ne_nil (by simpa using h_last),
        List.getLast?_append, List.getLast?_append, h_sep, List.getLast?_cons_of_ne_nil h_last, ← ih]
      cases (sep.toList.intercalate (texts.map String.toList)).getLast? with
      | none => simp [Ne.symm h_c]
      | some last => simp

end Text

namespace TypeScript

/-- A joined text is put in parentheses unless it opens with a brace, or opens and closes with
    parentheses. -/
theorem parenthesize_eq_iff
    (h_compound : Text.contains " | " text = true ∨ Text.contains " & " text = true) :
    parenthesize text = "(" ++ text ++ ")" ↔
      Text.opensWith "\x7b" text = false ∧
        ¬ (Text.opensWith "(" text = true ∧ Text.closesWith ")" text = true) := by
  -- a text is shorter than with parentheses around it
  have h_longer : text ≠ "(" ++ text ++ ")" := by
    intro h_eq
    have h_length := congrArg (List.length ∘ String.toList) h_eq
    simp at h_length
    omega
  have h_any : (Text.contains " | " text || Text.contains " & " text) = true := by
    simpa using h_compound
  unfold parenthesize
  simp only [h_any, Bool.true_and]
  cases h_brace : Text.opensWith "\x7b" text with
  | true => simp [h_longer]
  | false =>
    cases h_ends : Text.opensWith "(" text && Text.closesWith ")" text with
    | true => simpa [h_longer] using h_ends
    | false => simpa using h_ends

/-! ## Joined types -/

namespace TypeExpr

variable {ν κ σ : Type}

/-- The parts that a type joins. -/
def parts : TypeExpr ν → List (TypeExpr ν)
  | intersection parts => parts
  | union parts => parts
  | alternatives parts => parts
  | _ => []

/-- What stands between the parts. -/
def separator : TypeExpr ν → String
  | intersection _ => " & "
  | _ => " | "

/-- The texts of the parts as they stand in the text of the type. -/
def partTexts : TypeExpr String → List String
  | intersection parts => (renderAll parts).map parenthesize
  | union parts => (renderAll parts).map parenthesize
  | alternatives parts => renderAll parts
  | _ => []

/-- Whether the first of some texts opens with a parenthesis and the last closes with one. -/
def bracketedAtEnds (texts : List String) : Bool :=
  texts.head?.any (Text.opensWith "(") && texts.getLast?.any (Text.closesWith ")")

mutual

/-- Whether an object is the first thing in a type. -/
def ledByRecord : TypeExpr ν → Bool
  | intersection parts => firstLedByRecord parts
  | union parts => firstLedByRecord parts
  | alternatives parts => firstLedByRecord parts
  | array element => ledByRecord element
  | record _ => true
  | _ => false

/-- Whether an object is the first thing in the first of some types. -/
def firstLedByRecord : List (TypeExpr ν) → Bool
  | [] => false
  | part :: _ => ledByRecord part

end

/-- Whether a type is one that joins nothing and has no name. -/
def standsAlone : TypeExpr ν → Bool
  | word _ => true
  | tuple _ => true
  | array _ => true
  | record _ => true
  | _ => false

/-- Parts are written one by one. -/
theorem renderAll_eq_map (parts : List (TypeExpr String)) : renderAll parts = parts.map render := by
  induction parts with
  | nil => rfl
  | cons part parts ih => rw [renderAll, ih, List.map_cons]

theorem length_partTexts (type : TypeExpr String) : type.partTexts.length = type.parts.length := by
  cases type <;> simp [partTexts, parts, renderAll_eq_map]

/-- A type of several parts is what they are written as, joined. -/
theorem render_eq_intercalate {type : TypeExpr String} (h_some : type.partTexts ≠ []) :
    type.render = type.separator.intercalate type.partTexts := by
  cases type with
  | intersection parts =>
    have h_parts : (renderAll parts).isEmpty = false := by simpa [partTexts] using h_some
    rw [render, joinParts, h_parts]
    rfl
  | union parts =>
    have h_parts : (renderAll parts).isEmpty = false := by simpa [partTexts] using h_some
    rw [render, joinParts, h_parts]
    rfl
  | alternatives parts => rw [render]; rfl
  | _ => exact absurd rfl h_some

/-- Parts are joined as alternatives or as parts of an intersection. -/
theorem separator_cases (type : TypeExpr ν) : type.separator = " | " ∨ type.separator = " & " := by
  cases type <;> simp [separator]

/-- The text of a joined type opens as that of its first part does. -/
theorem head?_joined {type : TypeExpr String} {c : Char} (h_some : type.partTexts ≠ [])
    (h_c : c ≠ ' ') :
    type.render.toList.head? = some c ↔
      ∃ text ∈ type.partTexts.head?, text.toList.head? = some c := by
  have h_sep : type.separator.toList.head? = some ' ' := by
    rcases separator_cases type with h_sep | h_sep <;> (rw [h_sep]; decide)
  rw [render_eq_intercalate h_some, Text.head?_intercalate_iff h_sep h_c]

/-- The text of a joined type closes as that of its last part does. -/
theorem getLast?_joined {type : TypeExpr String} {c : Char} (h_some : type.partTexts ≠ [])
    (h_c : c ≠ ' ') :
    type.render.toList.getLast? = some c ↔
      ∃ text ∈ type.partTexts.getLast?, text.toList.getLast? = some c := by
  have h_sep : type.separator.toList.getLast? = some ' ' := by
    rcases separator_cases type with h_sep | h_sep <;> (rw [h_sep]; decide)
  rw [render_eq_intercalate h_some, Text.getLast?_intercalate_iff h_sep h_c]

/-- The text of a type that joins two parts or more has a separator. -/
theorem contains_separator {type : TypeExpr String} (h_joins : 2 ≤ type.parts.length) :
    Text.contains " | " type.render = true ∨ Text.contains " & " type.render = true := by
  rw [← length_partTexts] at h_joins
  -- there are two texts at least, so a separator stands between them
  obtain ⟨first, second, others, h_texts⟩ : ∃ first second others,
      type.partTexts = first :: second :: others := by
    match h_texts : type.partTexts with
    | [] => simp [h_texts] at h_joins
    | [text] => simp [h_texts] at h_joins
    | first :: second :: others => exact ⟨first, second, others, rfl⟩
  have h_contains : Text.contains type.separator type.render = true := by
    rw [render_eq_intercalate (by simp [h_texts]), h_texts, String.intercalate_cons_cons]
    exact Text.contains_append_left (Text.contains_append_right _ (Text.contains_self _)) _
  rcases separator_cases type with h_sep | h_sep
  · exact .inl (h_sep ▸ h_contains)
  · exact .inr (h_sep ▸ h_contains)

/-! ## Chosen names -/

variable (choose : ν → σ → κ × σ)

mutual

/-- Naming does not change whether a type begins with a record. -/
theorem ledByRecord_rename : ∀ (type : TypeExpr ν) (state : σ),
    (type.rename choose state).1.ledByRecord = type.ledByRecord
  | word _, _ => rfl
  | named _, _ => rfl
  | intersection parts, state => firstLedByRecord_renameAll parts state
  | union parts, state => firstLedByRecord_renameAll parts state
  | alternatives parts, state => firstLedByRecord_renameAll parts state
  | tuple _, _ => rfl
  | array element, state => ledByRecord_rename element state
  | record _, _ => rfl

theorem firstLedByRecord_renameAll : ∀ (parts : List (TypeExpr ν)) (state : σ),
    firstLedByRecord (renameAll choose parts state).1 = firstLedByRecord parts
  | [], _ => rfl
  | part :: _, state => ledByRecord_rename part state

end

/-- Naming does not change whether a type stands alone. -/
theorem standsAlone_rename (type : TypeExpr ν) (state : σ) :
    (type.rename choose state).1.standsAlone = type.standsAlone := by
  cases type <;> rfl

/-- As `standsAlone_rename`, for each of several types. -/
theorem standsAlone_renameAll {types : List (TypeExpr ν)}
    (h_types : ∀ type ∈ types, type.standsAlone = true) (state : σ) :
    ∀ type ∈ (renameAll choose types state).1, type.standsAlone = true := by
  induction types generalizing state with
  | nil => simp [renameAll]
  | cons type types ih =>
    rw [List.forall_mem_cons] at h_types
    rw [renameAll, List.forall_mem_cons, standsAlone_rename]
    exact ⟨h_types.1, ih h_types.2 _⟩

theorem renameAll_append (front back : List (TypeExpr ν)) (state : σ) :
    renameAll choose (front ++ back) state =
      ((renameAll choose front state).1 ++
          (renameAll choose back (renameAll choose front state).2).1,
        (renameAll choose back (renameAll choose front state).2).2) := by
  induction front generalizing state with
  | nil => rfl
  | cons part front ih => simp [renameAll, ih]

theorem length_renameAll (types : List (TypeExpr ν)) (state : σ) :
    (renameAll choose types state).1.length = types.length := by
  induction types generalizing state with
  | nil => rfl
  | cons type types ih => simp [renameAll, ih]

/-- Naming neither adds nor drops parts. -/
theorem length_parts_rename (type : TypeExpr ν) (state : σ) :
    (type.rename choose state).1.parts.length = type.parts.length := by
  cases type with
  | intersection parts => exact length_renameAll choose parts state
  | union parts => exact length_renameAll choose parts state
  | alternatives parts => exact length_renameAll choose parts state
  | _ => rfl

/-! ## What types begin with -/

theorem opensWith_brace_iff {text : String} :
    Text.opensWith "\x7b" text = true ↔ text.toList.head? = some '\x7b' :=
  Text.opensWith_iff rfl

theorem opensWith_parenthesis_iff {text : String} :
    Text.opensWith "(" text = true ↔ text.toList.head? = some '(' :=
  Text.opensWith_iff rfl

theorem closesWith_parenthesis_iff {text : String} :
    Text.closesWith ")" text = true ↔ text.toList.getLast? = some ')' :=
  Text.closesWith_iff rfl

/-- Parentheses change nothing about whether a text begins with a brace. -/
theorem head?_parenthesize_brace (text : String) :
    (parenthesize text).toList.head? = some '\x7b' ↔ text.toList.head? = some '\x7b' := by
  unfold parenthesize
  simp only
  split
  · next h_wraps =>
    -- what begins with a brace is never put in parentheses
    have h_text : ¬ text.toList.head? = some '\x7b' := by
      simp only [Bool.and_eq_true, Bool.not_eq_true'] at h_wraps
      rw [← opensWith_brace_iff, h_wraps.2]
      exact Bool.false_ne_true
    simp [h_text]
  · rfl

/-- What holds of all words and names of parts holds of those of the first. -/
theorem forall_mem_first {P : String → Prop} {part : TypeExpr String}
    {parts : List (TypeExpr String)}
    (h_each : ∀ text ∈ wordsAll (part :: parts) ++ mentionsAll (part :: parts), P text) :
    ∀ text ∈ part.words ++ part.mentions, P text := by
  intro text h_text
  apply h_each
  simp only [wordsAll, mentionsAll, List.mem_append] at h_text ⊢
  tauto

/-- The text of a type begins with a brace when an object leads it, unless a word or name does. -/
theorem head?_render : ∀ type : TypeExpr String,
    (∀ text ∈ type.words ++ type.mentions, text.toList.head? ≠ some '\x7b') →
      (type.render.toList.head? = some '\x7b' ↔ type.ledByRecord = true)
  | word text, h_each => by
    have h_text := h_each text (by simp [words])
    simp [render, ledByRecord, h_text]
  | named name, h_each => by
    have h_name := h_each name (by simp [mentions])
    simp [render, ledByRecord, h_name]
  | intersection [], _ => by simp [render, renderAll, joinParts, ledByRecord, firstLedByRecord]
  | union [], _ => by simp [render, renderAll, joinParts, ledByRecord, firstLedByRecord]
  | alternatives [], _ => by simp [render, renderAll, ledByRecord, firstLedByRecord]
  | intersection (part :: parts), h_each => by
    have h_part := head?_render part (forall_mem_first h_each)
    rw [head?_joined (by simp [partTexts, renderAll]) (by decide)]
    simp [partTexts, renderAll, head?_parenthesize_brace, h_part, ledByRecord, firstLedByRecord]
  | union (part :: parts), h_each => by
    have h_part := head?_render part (forall_mem_first h_each)
    rw [head?_joined (by simp [partTexts, renderAll]) (by decide)]
    simp [partTexts, renderAll, head?_parenthesize_brace, h_part, ledByRecord, firstLedByRecord]
  | alternatives (part :: parts), h_each => by
    have h_part := head?_render part (forall_mem_first h_each)
    rw [head?_joined (by simp [partTexts, renderAll]) (by decide)]
    simp [partTexts, renderAll, h_part, ledByRecord, firstLedByRecord]
  | tuple parts, _ => by simp [render, ledByRecord]
  | array element, h_each => by
    -- an array begins as its element does, and brackets around it are no brace
    have h_element := head?_render element h_each
    rw [render, String.toList_append, List.head?_append, Option.or_eq_some_iff,
      head?_parenthesize_brace, h_element]
    simp [ledByRecord]
  | record members, _ => by
    unfold render braces
    split <;> simp [ledByRecord]

/-- A type that stands alone ends in a bracket or a brace, unless it is a word. -/
theorem getLast?_render_of_standsAlone {type : TypeExpr String} (h_alone : type.standsAlone = true)
    (h_words : ∀ text ∈ type.words, text.toList.getLast? ≠ some ')') :
    type.render.toList.getLast? ≠ some ')' := by
  -- what stands alone is a word or ends in a bracket or brace that is not round
  cases type with
  | word text => exact h_words text (by simp [words])
  | tuple parts =>
    rw [render, String.toList_append, List.getLast?_append]
    simp
  | array element =>
    rw [render, String.toList_append, List.getLast?_append]
    simp
  | record members =>
    unfold render braces
    split
    · simp
    · rw [String.toList_append, List.getLast?_append]
      simp
  | _ => cases h_alone

/-- The words of a part are words of the whole. -/
theorem mem_words_of_mem {type : TypeExpr ν} {types : List (TypeExpr ν)} (h_type : type ∈ types) :
    type.words ⊆ wordsAll types := by
  induction types with
  | nil => cases h_type
  | cons first types ih =>
    rw [wordsAll]
    rcases List.mem_cons.mp h_type with rfl | h_type
    · exact List.subset_append_left _ _
    · exact List.subset_append_of_subset_right _ (ih h_type)

/-- Types that stand alone and are joined as they are do not close with a parenthesis. -/
theorem bracketedAtEnds_alternatives {types : List (TypeExpr String)}
    (h_alone : ∀ type ∈ types, type.standsAlone = true)
    (h_words : ∀ text ∈ wordsAll types, text.toList.getLast? ≠ some ')') :
    bracketedAtEnds (alternatives types).partTexts = false := by
  rw [bracketedAtEnds, Bool.and_eq_false_iff]
  refine .inr ?_
  rw [Option.any_eq_false]
  intro text h_last
  rw [partTexts, renderAll_eq_map] at h_last
  obtain ⟨type, h_type, rfl⟩ := List.mem_map.mp (List.mem_of_getLast? h_last)
  rw [← Bool.not_eq_true, closesWith_parenthesis_iff]
  exact getLast?_render_of_standsAlone (h_alone type h_type) fun text h_text =>
    h_words text (mem_words_of_mem h_type h_text)

/-- A type that joins two parts or more is put in parentheses of its own exactly when no object
    leads it and its first and last part do not open and close with parentheses. -/
theorem parenthesize_render_iff {type : TypeExpr String} (h_joins : 2 ≤ type.parts.length)
    (h_each : ∀ text ∈ type.words ++ type.mentions, text.toList.head? ≠ some '\x7b') :
    parenthesize type.render = "(" ++ type.render ++ ")" ↔
      type.ledByRecord = false ∧ bracketedAtEnds type.partTexts = false := by
  have h_some : type.partTexts ≠ [] := by
    intro h_none
    have h_length := length_partTexts type
    rw [h_none, List.length_nil] at h_length
    omega
  -- the three tests on the written text, each as one on the type or the texts of its parts
  have h_brace : Text.opensWith "\x7b" type.render = type.ledByRecord := by
    rw [Bool.eq_iff_iff, opensWith_brace_iff, head?_render type h_each]
  have h_opens : Text.opensWith "(" type.render = type.partTexts.head?.any (Text.opensWith "(") := by
    rw [Bool.eq_iff_iff, opensWith_parenthesis_iff, head?_joined h_some (by decide),
      Option.any_eq_true]
    simp only [opensWith_parenthesis_iff, Option.mem_def]
  have h_closes :
      Text.closesWith ")" type.render = type.partTexts.getLast?.any (Text.closesWith ")") := by
    rw [Bool.eq_iff_iff, closesWith_parenthesis_iff, getLast?_joined h_some (by decide),
      Option.any_eq_true]
    simp only [closesWith_parenthesis_iff, Option.mem_def]
  rw [parenthesize_eq_iff (contains_separator h_joins), h_brace, h_opens, h_closes, bracketedAtEnds,
    Bool.and_eq_false_iff]
  simp only [← Bool.not_eq_true, not_and_or]

end TypeExpr

end TypeScript

end OpenApiTs
