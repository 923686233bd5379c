/-
  OpenApiTs.Reference.Normal

  Normal form of the references of a document. Component paths move into the `definitions`
  namespace, and dotted names such as `inner_log.AttributeChange` become one Pascal-case name,
  both where they are declared (keys) and where they are referred to (texts).
-/
import OpenApiTs.Name.Pascal
import OpenApiTs.Reference.Basic
import OpenApiTs.Text.Word

namespace OpenApiTs.Reference

open OpenApiTs.Text

/-! ## Dotted names -/

/-- The longest opening of a text that holds word characters and single points, each point with a
    word character after it. -/
def takeDotted : List Char → List Char
  | [] => []
  | c :: text =>
    if isAsciiWord c then c :: takeDotted text
    else
      match text with
      | [] => []
      | d :: _ => if c = '.' ∧ isAsciiWord d then c :: takeDotted text else []

/-- The length of the dotted name that a text opens with: two or more words of ASCII letters, digits
    and underscores with single points between them. It is 0 when there is none. -/
def dottedLength (text : List Char) : Nat :=
  match text with
  | [] => 0
  | c :: _ =>
    let run := takeDotted text
    if isAsciiWord c ∧ '.' ∈ run then run.length else 0

/-- Whether the whole text is a dotted name. -/
def isDotted (text : String) : Bool :=
  0 < dottedLength text.toList && dottedLength text.toList == text.toList.length

/-! ## Paths -/

/-- The component paths that move. -/
def componentPaths : List (List Char) :=
  ["components/schemas".toList, "components/requestBodies".toList]

/-- The namespace that they move to. -/
def namespaceName : List Char := "definitions".toList

/-- Every component path of a text replaced by the namespace of definitions. -/
def moveComponents (text : List Char) : List Char :=
  Chars.replaceAll componentPaths namespaceName text

/-- The namespace and a slash. -/
def namespacePath : List Char := "definitions/".toList

/-- Every dotted name that follows the namespace put in Pascal case. -/
def foldDotted : List Char → List Char
  | [] => []
  | c :: text =>
    match _h_path : Chars.after? namespacePath (c :: text) with
    | some rest =>
      let size := dottedLength rest
      if 0 < size then
        namespacePath ++ Name.Chars.ofDotted (rest.take size) ++ foldDotted (rest.drop size)
      else c :: foldDotted text
    | none => c :: foldDotted text
termination_by text => text.length
decreasing_by
  · have h_length := Chars.length_of_after? _h_path
    have h_long : 0 < namespacePath.length := by decide
    rw [List.length_drop, h_length]
    omega
  · simp
  · simp

/-- A text with its component paths moved and its dotted names folded. -/
def normalPath (text : String) : String :=
  String.ofList (foldDotted (moveComponents text.toList))

/-! ## Documents -/

/-- The key that stands for `key` over a value in normal form: dotted keys of objects are folded. -/
def normalKey (key : String) (value : Json) : String :=
  let path := normalPath key
  if value.isObject && isDotted path then Name.ofDotted path else path

mutual

/-- The normal form of a document: every text and every key is put in normal form, and fields whose
    keys become equal are merged. -/
def normalize : Json → Json
  | .object fields => .object (Entries.ofPairs (normalizeFields fields))
  | .array items => .array (normalizeItems items)
  | .text words => .text (normalPath words)
  | other => other

/-- The normal forms of items. -/
def normalizeItems : List Json → List Json
  | [] => []
  | item :: items => normalize item :: normalizeItems items

/-- The normal forms of fields, before those of one key are merged. -/
def normalizeFields : List (String × Json) → List (String × Json)
  | [] => []
  | (key, value) :: fields =>
    (normalKey key (normalize value), normalize value) :: normalizeFields fields

end

end OpenApiTs.Reference
