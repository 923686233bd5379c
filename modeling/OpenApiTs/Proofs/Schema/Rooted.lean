/-
  OpenApiTs.Proofs.Schema.Rooted

  The text of a compiled schema declares the name that it was compiled under, also once placeholders
  are scrubbed: the line that the declaration begins on is no alias of a placeholder, and the
  markers that are taken away stand behind the name.
-/
import OpenApiTs.Proofs.Output.Declaring
import OpenApiTs.Proofs.Schema.Aliases
import OpenApiTs.Proofs.Schema.Legible
import OpenApiTs.Proofs.TypeScript.Guarded

namespace OpenApiTs.Schema

open OpenApiTs.Definitions (Unmarked marker)
open OpenApiTs.Name (IsWord)
open OpenApiTs.Output (AtStart atStart_line atStart_nil declares declares_iff newline_not_mem_head)
open OpenApiTs.Text (infix_or_suffix_of_append_cons suffix_of_suffix_append)
open OpenApiTs.Text.Chars (closed closed_append closed_cons closed_nil replaceAll
  replaceAll_append_cons replaceAll_append_of_head replaceAll_eq_self)
open OpenApiTs.TypeScript

variable {definitions : Definitions} {name text : String} {schema : Json}
  {line first rest : List Char} {declaration : Declaration String}

/-! ## Lines that stay -/

/-- A line that no alias ends is kept with its line feed. -/
theorem keptLine_of_not_suffix (h_line : ¬ aliasClosing <:+ line) :
    keptLine line = line ++ ['\n'] := by
  have h_rest : aliasRest? line = none := by
    rw [aliasRest?, Option.bind_eq_none_iff]
    intro front h_front
    rw [Text.Chars.before?_eq_some_iff] at h_front
    exact absurd ⟨front, h_front.symm⟩ h_line
  rw [keptLine, h_rest]

/-- What is left of the comment above a declaration ends its line. -/
theorem keptComment (description : Option String) :
    (commentLinesOf description).flatMap keptLine = [] ∨
      ∃ before, (commentLinesOf description).flatMap keptLine = before ++ ['\n'] := by
  cases description with
  | none => exact .inl rfl
  | some words =>
    have h_last : keptLine " */".toList = " */".toList ++ ['\n'] :=
      keptLine_of_not_suffix (by decide)
    rw [commentLinesOf, commentLines, List.flatMap_append, List.flatMap_singleton, h_last,
      ← List.append_assoc]
    exact .inr ⟨_, rfl⟩

/-- Whatever stands before an unmarked name, the marker is not there if no underscore is. -/
theorem not_infix_head {lead : List Char} (h_name : Unmarked name) (h_lead : '_' ∉ lead) :
    ¬ marker.toList <:+: lead ++ name.toList :=
  Definitions.solid_marker.prepend h_lead h_name

/-- The line that a declaration begins on is no alias of a placeholder: its name has no marker, and
    its type does not end as such an alias does. -/
theorem not_closing_head (h_name : Unmarked name) (h_first : '\n' ∉ first)
    (h_type : Guarded (first ++ '\n' :: rest)) (form : Form) :
    ¬ aliasClosing <:+ (Declaration.head form name).toList ++ first := by
  obtain ⟨lead, more, h_head, h_lead, h_more⟩ := exists_head form name
  have h_line : (Declaration.head form name).toList ++ first =
      (lead ++ name.toList) ++ ' ' :: (more ++ first) := by
    rw [h_head]
    simp
  rw [h_line, aliasClosing_eq]
  intro h_ends
  rcases infix_or_suffix_of_append_cons (by decide) h_ends with h_inside | h_behind
  · exact not_infix_head h_name h_lead h_inside
  · -- the closing begins with an underscore, so all of it would stand in the type
    have h_in_type : marker.toList ++ " = any".toList <:+ first :=
      suffix_of_suffix_append h_more h_behind
    have h_equals : '=' :: " any".toList <:+ marker.toList ++ " = any".toList := by decide
    exact h_type.not_suffix h_first (by decide) (h_equals.trans h_in_type)

/-! ## Markers taken away -/

theorem head?_marker : marker.toList.head? = some '_' := by decide

/-- Nothing is taken from a stretch without underscores. -/
theorem replaceMarkers_append {front : List Char} (h_front : '_' ∉ front) (rest : List Char) :
    replaceAll [marker.toList] [] (front ++ rest) =
      front ++ replaceAll [marker.toList] [] rest := by
  refine replaceAll_append_of_head (by decide) (fun c h_c => ?_) [] rest
  rw [head?_marker] at h_c
  exact Option.some.inj h_c ▸ h_front

/-- The head of a declaration stays as it is when markers are taken away. -/
theorem replaceMarkers_head_append (h_name : Unmarked name) (form : Form) (rest : List Char) :
    replaceAll [marker.toList] [] ((Declaration.head form name).toList ++ rest) =
      (Declaration.head form name).toList ++ replaceAll [marker.toList] [] rest := by
  obtain ⟨lead, more, h_head, h_lead, h_more⟩ := exists_head form name
  have h_own : replaceAll [marker.toList] [] name.toList = name.toList :=
    replaceAll_eq_self fun needle h_needle => List.mem_singleton.mp h_needle ▸ h_name
  rw [h_head, List.append_assoc, List.append_assoc, List.cons_append,
    replaceMarkers_append h_lead, replaceAll_append_cons (by decide) (by decide), h_own,
    replaceMarkers_append h_more]
  simp only [List.append_assoc, List.cons_append]

/-- A text that ends its line ends one when markers are taken away, and what follows is apart. -/
theorem replaceMarkers_lines_append {front : List Char}
    (h_front : front = [] ∨ ∃ before, front = before ++ ['\n']) (rest : List Char) :
    ∃ before, replaceAll [marker.toList] [] (front ++ rest) =
      before ++ replaceAll [marker.toList] [] rest ∧ AtStart before := by
  rcases h_front with rfl | ⟨before, rfl⟩
  · exact ⟨[], rfl, atStart_nil⟩
  · rw [List.append_assoc, List.singleton_append,
      replaceAll_append_cons (by decide) (by decide)]
    exact ⟨replaceAll [marker.toList] [] before ++ ['\n'], by simp, atStart_line _⟩

/-! ## Declared names -/

/-- A rendered declaration is the lines above its type, then the rest of the first line of the type,
    and what follows that line. -/
theorem exists_first_line (h_type : Guarded declaration.type.render.toList) (others : String) :
    ∃ first rest, '\n' ∉ first ∧ Guarded (first ++ '\n' :: rest) ∧
      (declaration.render ++ others).toList =
        closed (commentLinesOf declaration.description ++
          [(Declaration.head declaration.form declaration.name).toList ++ first]) ++ rest := by
  -- the first line of the type, up to the line feed that ends it or the declaration
  obtain ⟨first, rest, h_split, h_first⟩ := List.eq_append_cons_of_mem
    (List.mem_append_right declaration.type.render.toList
      (List.mem_cons_self (a := '\n') (l := others.toList)))
  refine ⟨first, rest, h_first, ?_, ?_⟩
  · rw [← h_split]
    exact h_type.append (@Guarded.of_first [] List.not_mem_nil _)
  · have h_line : declaration.type.render.toList ++ ("\n".toList ++ others.toList) =
        first ++ '\n' :: rest := h_split
    rw [Declaration.render, String.toList_append, String.toList_append, String.toList_append,
      String.toList_append, docCommentOf_eq_closed, closed_append, closed_cons, closed_nil]
    simp only [List.append_assoc, h_line, List.cons_append, List.nil_append]

/-- Without the aliases of placeholders, a rendered declaration still begins with its comment, its
    head and what follows that. -/
theorem exists_dealiased (h_name : Unmarked declaration.name) (h_word : IsWord declaration.name)
    (h_type : Guarded declaration.type.render.toList) (others : String) :
    ∃ rest, dealias (declaration.render ++ others).toList =
      (commentLinesOf declaration.description).flatMap keptLine ++
        ((Declaration.head declaration.form declaration.name).toList ++ rest) := by
  have h_flat := h_word.not_mem (c := '\n') (by decide)
  obtain ⟨first, rest, h_first, h_guarded, h_text⟩ := exists_first_line h_type others
  -- the lines up to there: those of the comment, and the head with the first line of the type
  have h_lines : ∀ line ∈ commentLinesOf declaration.description ++
      [(Declaration.head declaration.form declaration.name).toList ++ first], '\n' ∉ line := by
    intro line h_line
    rcases List.mem_append.mp h_line with h_comment | h_head
    · exact (isInner_of_mem_commentLinesOf h_comment).unbroken
    · rw [List.mem_singleton.mp h_head, List.mem_append, not_or]
      exact ⟨newline_not_mem_head h_flat _, h_first⟩
  have h_kept := keptLine_of_not_suffix
    (not_closing_head h_name h_first h_guarded declaration.form)
  refine ⟨first ++ '\n' :: dealias rest, ?_⟩
  rw [h_text, dealias_closed_append h_lines, List.flatMap_append, List.flatMap_singleton, h_kept]
  simp only [List.append_assoc, List.singleton_append]

/-- Scrubbing leaves the line that declares the first name. -/
theorem declares_scrub (h_name : Unmarked declaration.name) (h_word : IsWord declaration.name)
    (h_type : Guarded declaration.type.render.toList) (others : String) :
    declares declaration.name (scrub (declaration.render ++ others)) = true := by
  obtain ⟨rest, h_kept⟩ := exists_dealiased h_name h_word h_type others
  obtain ⟨before, h_before, h_start⟩ := replaceMarkers_lines_append
    (keptComment declaration.description)
    ((Declaration.head declaration.form declaration.name).toList ++ rest)
  rw [replaceMarkers_head_append h_name] at h_before
  rw [← h_kept] at h_before
  -- the aliases are gone, and taking the markers away does not touch the head
  have h_scrubbed := congrArg String.toList (scrub_eq (declaration.render ++ others))
  rw [String.toList_ofList, h_before] at h_scrubbed
  exact (declares_iff (h_word.not_mem (by decide))).mpr
    ⟨before, declaration.form, _, h_scrubbed, h_start⟩

/-- Without a comment, a rendered declaration begins with its head, placeholders scrubbed. -/
theorem exists_scrub_undescribed (h_plain : declaration.description = none)
    (h_name : Unmarked declaration.name) (h_word : IsWord declaration.name)
    (h_type : Guarded declaration.type.render.toList) (others : String) :
    ∃ rest, (scrub (declaration.render ++ others)).toList =
      (Declaration.head declaration.form declaration.name).toList ++ rest := by
  obtain ⟨rest, h_kept⟩ := exists_dealiased h_name h_word h_type others
  rw [h_plain] at h_kept
  refine ⟨replaceAll [marker.toList] [] rest, ?_⟩
  rw [scrub_eq, String.toList_ofList, h_kept, ← replaceMarkers_head_append h_name]
  rfl

/-- The words of types do not end as the alias of a placeholder does. -/
theorem guarded_of_isSchemaWord {word : String} (h_word : IsSchemaWord word) :
    Guarded word.toList := by
  rcases h_word with h_primitive | ⟨value, rfl⟩
  · refine .of_not_mem ?_
    simp only [List.mem_cons, List.not_mem_nil, or_false] at h_primitive
    rcases h_primitive with rfl | rfl | rfl | rfl | rfl | rfl <;> decide
  · exact guarded_literal value

/-- On the first lines of types that are compiled, every equals sign has a quotation mark behind
    it. -/
theorem guarded_of_compile {compilation : Compilation}
    (h_compile : compile definitions name schema = .ok compilation) :
    ∀ declaration ∈ compilation.made, Guarded declaration.type.render.toList := by
  intro declaration h_mem
  refine guarded_render _ fun text h_text => ?_
  rcases spoken_of_compile h_compile declaration h_mem text h_text with h_word | h_coined
  · exact guarded_of_isSchemaWord h_word
  · exact guarded_of_isWord h_coined.isWord

/-- What a schema compiles to declares the identifier for its name, placeholders scrubbed. -/
theorem declares_clean (h_name : Unmarked (Name.identifier name))
    (h_clean : typeScript.clean schema name definitions = .ok text) :
    declares (Name.identifier name) text = true := by
  obtain ⟨compilation, h_compile, rfl⟩ := clean_eq_ok_iff.mp h_clean
  obtain ⟨plain, roster, others, h_declare, h_made⟩ := exists_made_cons h_compile
  have h_first : (nameIn definitions (Name.identifier name) plain roster).1 ∈ compilation.made := by
    rw [h_made]
    exact List.mem_cons_self
  -- the first declaration is that of the root
  have h_own : (nameIn definitions (Name.identifier name) plain roster).1.name =
      Name.identifier name := name_of_declare h_declare
  have h_declares := declares_scrub (by rw [h_own]; exact h_name)
    (by rw [h_own]; exact (coined_identifier name).isWord)
    (guarded_of_compile h_compile _ h_first) (String.join (others.map Declaration.render))
  rw [Compilation.render, h_made, List.map_cons, String.join_cons]
  rwa [h_own] at h_declares

end OpenApiTs.Schema
