/-
  OpenApiTs.Proofs.Reference.Moved

  What a normal form keeps of a document, and which component paths are left in it. The shape is
  always kept: fields are merged only where their keys become equal. A component path is left in a
  text exactly when the folding assembles one. Moving leaves none, but a name such as
  `a.xcomponents_` ends in `components` once its last underscore is gone, and a kind of components
  may stand behind its slash.
-/
import OpenApiTs.Proofs.Merged
import OpenApiTs.Proofs.Reference.Document

namespace OpenApiTs.Reference

open OpenApiTs.Text

variable {text front back rest : List Char} {c : Char} {document : Json}

/-! ## Names that are folded -/

/-- The dotted names that the folding finds in a text, each with what stands behind it. -/
def foldedNames : List Char → List (List Char × List Char)
  | [] => []
  | c :: text =>
    match _h_path : Chars.after? namespacePath (c :: text) with
    | some rest =>
      let size := dottedLength rest
      if 0 < size then (rest.take size, rest.drop size) :: foldedNames (rest.drop size)
      else foldedNames text
    | none => foldedNames text
termination_by text => text.length
decreasing_by
  · have h_length := Chars.length_of_after? _h_path
    have h_long : 0 < namespacePath.length := by decide
    rw [List.length_drop, h_length]
    omega
  · simp
  · simp

/-- Whether a name that is folded makes a component path with what stands behind it: its Pascal case
    ends in `components`, and a kind of components stands behind the slash. -/
def makesPath (name back : List Char) : Bool :=
  "components".toList.isSuffixOf (Name.Chars.ofDotted name) &&
    (Chars.after? ['/'] back).any opensKind

/-- Whether the folding assembles a component path in a text whose own ones are moved. -/
def assembles (text : String) : Bool :=
  (foldedNames (moveComponents text.toList)).any fun found => makesPath found.1 found.2

theorem foldedNames_path (h_name : opensDotted rest = true) :
    foldedNames (namespacePath ++ rest) =
      (rest.take (dottedLength rest), rest.drop (dottedLength rest)) ::
        foldedNames (rest.drop (dottedLength rest)) := by
  have h_path := after?_namespacePath_append rest
  have h_size : 0 < dottedLength rest := of_decide_eq_true h_name
  rw [namespacePath_append] at h_path ⊢
  rw [foldedNames]
  split
  · next own h_own =>
    rw [h_path] at h_own
    cases h_own
    simp only [h_size, if_true]
  · next h_none =>
    rw [h_path] at h_none
    cases h_none

theorem foldedNames_other
    (h_none : (Chars.after? namespacePath (c :: text)).any opensDotted = false) :
    foldedNames (c :: text) = foldedNames text := by
  rw [foldedNames]
  split
  · next rest h_path =>
    rw [h_path, Option.any_some, opensDotted, decide_eq_false_iff_not] at h_none
    simp only [h_none, if_false]
  · rfl

/-! ## Component paths -/

/-- Whether a component path occurs in a text. -/
def HoldsPath (text : List Char) : Prop := ∃ path ∈ componentPaths, path <:+: text

theorem not_holdsPath_iff : ¬ HoldsPath text ↔ Unmoved text := by
  simp only [HoldsPath, Unmoved, not_exists, not_and]

theorem holdsPath_cons_iff : HoldsPath (c :: text) ↔
    (Chars.after? "components/".toList (c :: text)).any opensKind = true ∨ HoldsPath text := by
  simp only [HoldsPath, any_opensKind_iff, List.infix_cons_iff, and_or_left, exists_or]

theorem not_holdsPath_of_not_mem (h_slash : '/' ∉ text) : ¬ HoldsPath text := by
  rw [not_holdsPath_iff]
  exact unmoved_of_not_isRaw (isRaw_of_not_mem h_slash)

/-- A component path in two stretches lies in the second or goes over from the first. -/
theorem holdsPath_append_iff (h_front : '/' ∉ front)
    (h_back : ∀ c ∈ back.head?, isAsciiWord c = false) :
    HoldsPath (front ++ back) ↔
      ("components".toList <:+ front ∧ (Chars.after? ['/'] back).any opensKind = true) ∨
        HoldsPath back := by
  induction front with
  | nil => simp
  | cons f front ih =>
    have h_words : ∀ c ∈ "components".toList, isAsciiWord c = true :=
      List.all_eq_true.mp (by decide)
    have h_opens : Chars.after? "components/".toList (f :: front ++ back) =
        if "components".toList = f :: front then Chars.after? ['/'] back else none :=
      after?_append_slash h_words h_front h_back
    rw [List.mem_cons, not_or] at h_front
    -- `components` is all of the first stretch, or it is the end of its tail
    rw [List.cons_append, holdsPath_cons_iff, ih h_front.2, ← List.cons_append, h_opens,
      List.suffix_cons_iff, or_and_right, or_assoc]
    apply or_congr_left
    split
    · next h_all => rw [and_iff_right h_all]
    · next h_part => exact iff_of_false Bool.false_ne_true fun h_both => h_part h_both.1

/-- No component path begins in the namespace. -/
theorem holdsPath_namespacePath_append : HoldsPath (namespacePath ++ rest) ↔ HoldsPath rest := by
  have h_paths : ∀ path ∈ componentPaths, path ≠ [] ∧ ∀ c ∈ path.head?, c ∉ namespacePath := by
    decide
  constructor
  · rintro ⟨path, h_path, h_inside⟩
    obtain ⟨h_long, h_head⟩ := h_paths path h_path
    exact ⟨path, h_path, Text.Chars.infix_of_infix_append h_long h_head h_inside⟩
  · rintro ⟨path, h_path, h_inside⟩
    exact ⟨path, h_path, h_inside.trans (List.suffix_append namespacePath rest).isInfix⟩

/-- Folding does not change which kind of components stands behind a slash. -/
theorem any_opensKind_foldDotted (text : List Char) :
    (Chars.after? ['/'] (foldDotted text)).any opensKind =
      (Chars.after? ['/'] text).any opensKind := by
  rw [after?_foldDotted (by decide), Option.any_map]
  simp only [opensKind_foldDotted]

/-- A text without component paths holds one after its folding just when a name that is folded makes
    one with what stands behind it. -/
theorem holdsPath_foldDotted_iff (h_text : Unmoved text) :
    HoldsPath (foldDotted text) ↔
      (foldedNames text).any (fun found => makesPath found.1 found.2) = true := by
  induction text using folding_induction with
  | nil =>
    rw [foldDotted, foldedNames, List.any_nil]
    exact iff_of_false (not_holdsPath_of_not_mem List.not_mem_nil) Bool.false_ne_true
  | path rest h_name ih =>
    obtain ⟨h_slash, -, h_stop⟩ := ofDotted_run h_name
    have h_folded : takeDotted (foldDotted (rest.drop (dottedLength rest))) = [] := by
      rw [takeDotted_foldDotted, h_stop]
    have h_head := not_isAsciiWord_of_takeDotted_eq_nil h_folded
    have h_back : Unmoved (rest.drop (dottedLength rest)) :=
      h_text.of_suffix ((List.drop_suffix _ _).trans (List.suffix_append _ _))
    rw [foldDotted_path h_name, foldedNames_path h_name, holdsPath_namespacePath_append,
      holdsPath_append_iff h_slash h_head, ih h_back, any_opensKind_foldDotted, List.any_cons,
      Bool.or_eq_true, makesPath, Bool.and_eq_true, List.isSuffixOf_iff_suffix]
  | other c text h_none ih =>
    -- away from a dotted name the place opens no path, before as after
    have h_place := opensRaw_cons_foldDotted h_text h_none
    rw [opensRaw_eq, Bool.or_eq_false_iff] at h_place
    rw [foldDotted_other h_none, foldedNames_other h_none, holdsPath_cons_iff, h_place.1,
      ih (h_text.of_suffix (List.suffix_cons c text))]
    simp

/-- The normal form of a text holds a component path just when the folding assembles one. -/
theorem holdsPath_normalPath_iff (text : String) :
    HoldsPath (normalPath text).toList ↔ assembles text = true := by
  rw [normalPath, String.toList_ofList, holdsPath_foldDotted_iff (unmoved_moveComponents _),
    assembles]

/-! ## Shape -/

/-- Whether a document has become another with its shape kept: arrays have their items in order,
    numbers, flags and nulls are as they were, and of the fields of an object, under their keys in
    normal form, only those of one key are merged. -/
inductive KeepsShape : Json → Json → Prop where
  | null : KeepsShape .null .null
  | bool (value : Bool) : KeepsShape (.bool value) (.bool value)
  | number (value : Number.Value) : KeepsShape (.number value) (.number value)
  | text (words : String) : KeepsShape (.text words) (.text (normalPath words))
  | array {items items' : List Json} (h_items : List.Forall₂ KeepsShape items items') :
      KeepsShape (.array items) (.array items')
  | object {fields renamed merged : Entries Json}
      (h_keys : List.Forall₂ (fun entry entry' => entry'.1 = normalKey entry.1 entry'.2)
        fields renamed)
      (h_values : List.Forall₂ KeepsShape (fields.map Prod.snd) (renamed.map Prod.snd))
      (h_merged : Entries.Merged renamed merged) : KeepsShape (.object fields) (.object merged)

/-- Normalizing changes texts and keys, and nothing of the shape around them. -/
theorem keepsShape_normalize (document : Json) : KeepsShape document (normalize document) := by
  induction document using Json.byParts with
  | array items ih =>
    rw [normalize_array]
    apply KeepsShape.array
    rw [List.forall₂_map_right_iff, List.forall₂_same]
    exact ih
  | object fields ih =>
    rw [normalize_object]
    refine .object ?keys ?values (Entries.merged_ofPairs (normalFields fields))
    case keys =>
      rw [normalFields, List.forall₂_map_right_iff, List.forall₂_same]
      exact fun entry _ => rfl
    case values =>
      rw [normalFields, List.map_map, List.forall₂_map_right_iff, List.forall₂_map_left_iff,
        List.forall₂_same]
      exact ih
  | null => exact .null
  | bool value => exact .bool value
  | number value => exact .number value
  | text words => exact .text words

/-! ## Documents -/

/-- A text holds a path when one of the two component paths is in it. -/
theorem holdsPath_iff_contains {text : String} :
    HoldsPath text.toList ↔ Text.contains "components/schemas" text = true ∨
      Text.contains "components/requestBodies" text = true := by
  rw [Text.contains_iff, Text.contains_iff]
  simp only [HoldsPath, componentPaths, List.mem_cons, List.not_mem_nil, or_false,
    exists_eq_or_imp, exists_eq_left]

/-- A settled text holds no component path. -/
theorem not_holdsPath_of_isSettled {text : String} (h_settled : isSettled text = true) :
    ¬ HoldsPath text.toList := by
  rw [isSettled, Bool.not_eq_true'] at h_settled
  exact not_holdsPath_iff.mpr (unmoved_of_not_isRaw h_settled)

/-- A normal form keeps the shape of the document. A text or key in it contains a component path just
    when it is the normal form of one in which the folding assembles such a path. -/
theorem shape_kept_and_path_left_iff (document : Json) :
    KeepsShape document (normalize document) ∧
    ∀ text ∈ (normalize document).strings,
      (Text.contains "components/schemas" text = true ∨
          Text.contains "components/requestBodies" text = true) ↔
        ∃ own ∈ document.strings, text = normalPath own ∧ assembles own = true := by
  refine ⟨keepsShape_normalize document, ?_⟩
  intro text h_text
  rw [← holdsPath_iff_contains]
  constructor
  · intro h_path
    rcases exists_of_mem_strings_normalize h_text with h_settled | ⟨own, h_own, rfl⟩
    · exact absurd h_path (not_holdsPath_of_isSettled h_settled)
    · exact ⟨own, h_own, rfl, (holdsPath_normalPath_iff own).mp h_path⟩
  · rintro ⟨own, -, rfl, h_assembles⟩
    exact (holdsPath_normalPath_iff own).mpr h_assembles

/-- Folding the name `a.xcomponents_` makes no component path where no kind stands behind it. -/
theorem path_not_left_behind_components :
    KeepsShape (documentWith "a.xcomponents_") (normalize (documentWith "a.xcomponents_")) ∧
    "#/definitions/AXcomponents" ∈ (normalize (documentWith "a.xcomponents_")).strings ∧
    ¬ (Text.contains "components/schemas" "#/definitions/AXcomponents" = true ∨
      Text.contains "components/requestBodies" "#/definitions/AXcomponents" = true) := by
  have h_text : "#/definitions/AXcomponents" ∈
      (normalize (documentWith "a.xcomponents_")).strings := by
    decide +kernel
  have h_none : ∀ own ∈ (documentWith "a.xcomponents_").strings, assembles own = false := by
    decide +kernel
  obtain ⟨h_shape, h_left⟩ := shape_kept_and_path_left_iff (documentWith "a.xcomponents_")
  refine ⟨h_shape, h_text, ?_⟩
  rw [h_left _ h_text]
  rintro ⟨own, h_own, -, h_assembles⟩
  rw [h_none own h_own] at h_assembles
  cases h_assembles

/-- A reference in which a dotted name ends in `components_`, with a kind of components behind it. -/
def assemblingReference : Json :=
  .object [("$ref", .text "#/definitions/a.xcomponents_/schemas")]

/-- The folding of the name assembles a component path. -/
theorem path_left_in_assemblingReference :
    ∃ text ∈ (normalize assemblingReference).strings,
      Text.contains "components/schemas" text = true := by
  have h_text : "#/definitions/AXcomponents/schemas" ∈ (normalize assemblingReference).strings := by
    decide +kernel
  exact ⟨_, h_text, by decide +kernel⟩

end OpenApiTs.Reference
