/-
  OpenApiTs.Proofs.Reference.Path

  Paths in normal form. A text is settled when nothing in it would be rewritten. Rewriting a text
  settles it unless a name that is put in Pascal case spells, with what stands behind it, the head
  of another path that is rewritten.
-/
import OpenApiTs.Proofs.Reference.Dotted
import OpenApiTs.Proofs.Text.Replace

namespace OpenApiTs.Reference

open OpenApiTs.Text

variable {text front back lead rest : List Char}

/-! ## Texts that would be rewritten -/

/-- Whether a text opens with the name of a kind of components that moves. -/
def opensKind (text : List Char) : Bool :=
  ["schemas".toList, "requestBodies".toList].any fun kind => kind.isPrefixOf text

/-- Whether a text opens with a dotted name. -/
def opensDotted (text : List Char) : Bool := decide (0 < dottedLength text)

/-- The words that begin the paths that are rewritten, each with what has to stand behind its slash
    for that. -/
def pathHeads : List (List Char × (List Char → Bool)) :=
  [("components".toList, opensKind), ("definitions".toList, opensDotted)]

/-- Whether a text opens with a path that is rewritten. -/
def opensRaw (text : List Char) : Bool :=
  pathHeads.any fun head => (Chars.after? (head.1 ++ ['/']) text).any head.2

/-- Whether a path that is rewritten begins somewhere in the text. -/
def isRaw : List Char → Bool
  | [] => false
  | c :: text => opensRaw (c :: text) || isRaw text

/-- Whether a text is in normal form: nothing in it would be rewritten. -/
def isSettled (text : String) : Bool := !isRaw text.toList

/-- Whether `front` ends in the head of a path that is rewritten when `back` follows. -/
def joins (front back : List Char) : Bool :=
  pathHeads.any fun head => head.1.isSuffixOf front && (Chars.after? ['/'] back).any head.2

/-- Whether the folding of dotted names makes a new path to be rewritten: the Pascal case of one of
    the names ends in the head of such a path, and the rest of that path stands behind the name. -/
def uncovers : List Char → Bool
  | [] => false
  | c :: text =>
    match _h_path : Chars.after? namespacePath (c :: text) with
    | some rest =>
      let size := dottedLength rest
      if 0 < size then
        joins (Name.Chars.ofDotted (rest.take size)) (rest.drop size) || uncovers (rest.drop size)
      else uncovers text
    | none => uncovers text
termination_by text => text.length
decreasing_by
  · have h_length := Chars.length_of_after? _h_path
    have h_long : 0 < namespacePath.length := by decide
    rw [List.length_drop, h_length]
    omega
  · simp
  · simp

/-! ## Steps of the folding -/

theorem after?_namespacePath_append (rest : List Char) :
    Chars.after? namespacePath (namespacePath ++ rest) = some rest :=
  Chars.after?_eq_some_iff.mpr rfl

theorem namespacePath_append (rest : List Char) :
    namespacePath ++ rest = 'd' :: ("efinitions/".toList ++ rest) := rfl

/-- Induction along the folding: at a path with a dotted name it goes on behind the name, elsewhere
    at the next character. -/
@[elab_as_elim]
theorem folding_induction {motive : List Char → Prop} (nil : motive [])
    (path : ∀ rest, opensDotted rest = true → motive (rest.drop (dottedLength rest)) →
      motive (namespacePath ++ rest))
    (other : ∀ c text, (Chars.after? namespacePath (c :: text)).any opensDotted = false →
      motive text → motive (c :: text))
    (text : List Char) : motive text := by
  induction h_size : text.length using Nat.strong_induction_on generalizing text with
  | _ size ih =>
    subst h_size
    cases text with
    | nil => exact nil
    | cons c text =>
      cases h_path : (Chars.after? namespacePath (c :: text)).any opensDotted with
      | false => exact other c text h_path (ih _ (by simp) text rfl)
      | true =>
        obtain ⟨rest, h_rest, h_name⟩ := (Option.any_eq_true _ _).mp h_path
        rw [Chars.after?_eq_some_iff] at h_rest
        rw [h_rest]
        apply path rest h_name
        apply ih _ _ _ rfl
        rw [h_rest, namespacePath_append, List.length_drop, List.length_cons, List.length_append]
        omega

/-- Behind the namespace the dotted name is folded, and reading goes on after it. -/
theorem foldDotted_path (h_name : opensDotted rest = true) :
    foldDotted (namespacePath ++ rest) =
      namespacePath ++ (Name.Chars.ofDotted (rest.take (dottedLength rest)) ++
        foldDotted (rest.drop (dottedLength rest))) := by
  have h_path := after?_namespacePath_append rest
  have h_size : 0 < dottedLength rest := of_decide_eq_true h_name
  rw [namespacePath_append] at h_path ⊢
  rw [foldDotted]
  split
  · next own h_own =>
    rw [h_path] at h_own
    cases h_own
    simp only [h_size, if_true, List.append_assoc]
  · next h_none =>
    rw [h_path] at h_none
    cases h_none

/-- Any other character is kept. -/
theorem foldDotted_other {c : Char}
    (h_none : (Chars.after? namespacePath (c :: text)).any opensDotted = false) :
    foldDotted (c :: text) = c :: foldDotted text := by
  rw [foldDotted]
  split
  · next rest h_path =>
    rw [h_path, Option.any_some, opensDotted, decide_eq_false_iff_not] at h_none
    simp only [h_none, if_false]
  · rfl

theorem uncovers_path (h_name : opensDotted rest = true) :
    uncovers (namespacePath ++ rest) =
      (joins (Name.Chars.ofDotted (rest.take (dottedLength rest)))
          (rest.drop (dottedLength rest)) ||
        uncovers (rest.drop (dottedLength rest))) := by
  have h_path := after?_namespacePath_append rest
  have h_size : 0 < dottedLength rest := of_decide_eq_true h_name
  rw [namespacePath_append] at h_path ⊢
  rw [uncovers]
  split
  · next own h_own =>
    rw [h_path] at h_own
    cases h_own
    simp only [h_size, if_true]
  · next h_none =>
    rw [h_path] at h_none
    cases h_none

theorem uncovers_other {c : Char}
    (h_none : (Chars.after? namespacePath (c :: text)).any opensDotted = false) :
    uncovers (c :: text) = uncovers text := by
  rw [uncovers]
  split
  · next rest h_path =>
    rw [h_path, Option.any_some, opensDotted, decide_eq_false_iff_not] at h_none
    simp only [h_none, if_false]
  · rfl

/-! ## What folding leaves in place -/

theorem prefix_append_slash_iff (h_slash : '/' ∉ lead) :
    lead <+: front ++ '/' :: back ↔ lead <+: front := by
  induction lead generalizing front with
  | nil => simp
  | cons l lead ih =>
    rw [List.mem_cons, not_or] at h_slash
    cases front with
    | nil =>
      rw [List.nil_append, List.cons_prefix_cons, List.prefix_nil]
      simp [Ne.symm h_slash.1]
    | cons f front =>
      rw [List.cons_append, List.cons_prefix_cons, List.cons_prefix_cons, ih h_slash.2]

theorem namespacePath_eq : namespacePath = namespaceName ++ ['/'] := by decide

/-- Folding changes nothing before the first slash. -/
theorem prefix_foldDotted_iff (h_slash : '/' ∉ lead) : lead <+: foldDotted text ↔ lead <+: text := by
  induction text using folding_induction generalizing lead with
  | nil => rw [foldDotted]
  | path rest h_name _ =>
    rw [foldDotted_path h_name, namespacePath_eq, List.append_assoc, List.append_assoc,
      List.singleton_append, List.singleton_append, prefix_append_slash_iff h_slash,
      prefix_append_slash_iff h_slash]
  | other c text h_none ih =>
    rw [foldDotted_other h_none]
    cases lead with
    | nil => simp
    | cons l lead =>
      rw [List.mem_cons, not_or] at h_slash
      rw [List.cons_prefix_cons, List.cons_prefix_cons, ih h_slash.2]

theorem takeDotted_append_slash (h_front : ∀ c ∈ front, isAsciiWord c = true) (back : List Char) :
    takeDotted (front ++ '/' :: back) = front := by
  induction front with
  | nil =>
    rw [List.nil_append, takeDotted_cons_of_not_isAsciiWord (by decide), if_neg]
    exact fun h_point => absurd h_point.1 (by decide)
  | cons c front ih =>
    rw [List.forall_mem_cons] at h_front
    rw [List.cons_append, takeDotted_cons_of_isAsciiWord h_front.1, ih h_front.2]

theorem takeDotted_namespacePath (back : List Char) :
    takeDotted (namespacePath ++ back) = namespaceName := by
  rw [namespacePath_eq, List.append_assoc, List.singleton_append]
  exact takeDotted_append_slash (List.all_eq_true.mp (by decide)) back

theorem head?_foldDotted (text : List Char) : (foldDotted text).head? = text.head? := by
  induction text using folding_induction with
  | nil => rw [foldDotted]
  | path rest h_name _ => rw [foldDotted_path h_name]; rfl
  | other c text h_none _ => rw [foldDotted_other h_none]; rfl

theorem takeDotted_foldDotted (text : List Char) :
    takeDotted (foldDotted text) = takeDotted text := by
  induction text using folding_induction with
  | nil => rw [foldDotted]
  | path rest h_name _ =>
    rw [foldDotted_path h_name, takeDotted_namespacePath, takeDotted_namespacePath]
  | other c text h_none ih =>
    rw [foldDotted_other h_none]
    cases h_word : isAsciiWord c with
    | true => rw [takeDotted_cons_of_isAsciiWord h_word, takeDotted_cons_of_isAsciiWord h_word, ih]
    | false =>
      rw [takeDotted_cons_of_not_isAsciiWord h_word, takeDotted_cons_of_not_isAsciiWord h_word, ih,
        head?_foldDotted]

/-- Behind a word without a `d` the folding goes on as if the word were not there. -/
theorem after?_foldDotted (h_lead : 'd' ∉ lead) :
    Chars.after? lead (foldDotted text) = (Chars.after? lead text).map foldDotted := by
  induction lead generalizing text with
  | nil => simp [Chars.after?]
  | cons l lead ih =>
    rw [List.mem_cons, not_or] at h_lead
    induction text using folding_induction with
    | nil => rw [foldDotted]; rfl
    | path rest h_name _ =>
      rw [foldDotted_path h_name, namespacePath_append, namespacePath_append, Chars.after?,
        Chars.after?, if_neg (Ne.symm h_lead.1), if_neg (Ne.symm h_lead.1), Option.map_none]
    | other c text h_none _ =>
      rw [foldDotted_other h_none, Chars.after?, Chars.after?]
      split
      · exact ih h_lead.2
      · rfl

theorem opensKind_foldDotted (text : List Char) : opensKind (foldDotted text) = opensKind text := by
  have h_kind (kind : List Char) (h_slash : '/' ∉ kind) :
      kind.isPrefixOf (foldDotted text) = kind.isPrefixOf text := by
    rw [Bool.eq_iff_iff, List.isPrefixOf_iff_prefix, List.isPrefixOf_iff_prefix,
      prefix_foldDotted_iff h_slash]
  simp only [opensKind, List.any_cons, List.any_nil]
  rw [h_kind _ (by decide), h_kind _ (by decide)]

theorem opensDotted_foldDotted (text : List Char) :
    opensDotted (foldDotted text) = opensDotted text := by
  rw [opensDotted, opensDotted, dottedLength_congr (takeDotted_foldDotted text)]

/-! ## Where a text is raw -/

/-- Whether no component path occurs in the text. -/
def Unmoved (text : List Char) : Prop := ∀ path ∈ componentPaths, ¬ path <:+: text

theorem Unmoved.of_suffix (h_text : Unmoved text) (h_rest : rest <:+ text) : Unmoved rest :=
  fun path h_path h_inside => h_text path h_path (h_inside.trans h_rest.isInfix)

/-- Moving leaves no component path behind, since what it writes has none. -/
theorem unmoved_moveComponents (text : List Char) : Unmoved (moveComponents text) := by
  intro path h_path
  apply Text.Chars.not_infix_replaceAll h_path
  · rintro rfl
    revert h_path
    decide
  · revert path
    decide

theorem moveComponents_of_unmoved (h_text : Unmoved text) : moveComponents text = text :=
  Text.Chars.replaceAll_eq_self h_text

theorem opensRaw_eq (text : List Char) :
    opensRaw text = ((Chars.after? "components/".toList text).any opensKind ||
      (Chars.after? namespacePath text).any opensDotted) := by
  rw [opensRaw, pathHeads, List.any_cons, List.any_cons, List.any_nil, Bool.or_false]
  rfl

/-- A text opens with the head of a component path and a kind just when it opens with the path. -/
theorem any_opensKind_iff :
    (Chars.after? "components/".toList text).any opensKind = true ↔
      ∃ path ∈ componentPaths, path <+: text := by
  have h_paths : componentPaths =
      ["components/".toList ++ "schemas".toList,
        "components/".toList ++ "requestBodies".toList] := by
    decide
  rw [Option.any_eq_true, h_paths]
  constructor
  · rintro ⟨rest, h_rest, h_kind⟩
    rw [Chars.after?_eq_some_iff.mp h_rest]
    simp only [opensKind, List.any_cons, List.any_nil, Bool.or_false, Bool.or_eq_true,
      List.isPrefixOf_iff_prefix] at h_kind
    rcases h_kind with h_kind | h_kind
    · exact ⟨_, List.mem_cons_self, (List.prefix_append_right_inj _).mpr h_kind⟩
    · exact ⟨_, List.mem_cons_of_mem _ List.mem_cons_self,
        (List.prefix_append_right_inj _).mpr h_kind⟩
  · rintro ⟨path, h_path, rest, rfl⟩
    simp only [List.mem_cons, List.not_mem_nil, or_false] at h_path
    rcases h_path with rfl | rfl
    all_goals
      refine ⟨_, Chars.after?_eq_some_iff.mpr (List.append_assoc _ _ _), ?_⟩
      simp [opensKind]

/-- A text is raw when a path opens anywhere in it. -/
theorem isRaw_iff : isRaw text = true ↔ ∃ rest, rest <:+ text ∧ opensRaw rest = true := by
  induction text with
  | nil =>
    constructor
    · intro h_raw
      cases h_raw
    · rintro ⟨rest, h_rest, h_raw⟩
      rw [List.suffix_nil.mp h_rest] at h_raw
      exact h_raw
  | cons c text ih =>
    rw [isRaw, Bool.or_eq_true, ih]
    constructor
    · rintro (h_raw | ⟨rest, h_rest, h_raw⟩)
      · exact ⟨_, List.suffix_refl _, h_raw⟩
      · exact ⟨rest, h_rest.trans (List.suffix_cons c text), h_raw⟩
    · rintro ⟨rest, h_rest, h_raw⟩
      rcases List.suffix_cons_iff.mp h_rest with rfl | h_rest
      · exact .inl h_raw
      · exact .inr ⟨rest, h_rest, h_raw⟩

theorem isRaw_of_not_mem (h_slash : '/' ∉ text) : isRaw text = false := by
  rw [Bool.eq_false_iff]
  intro h_raw
  obtain ⟨rest, h_rest, h_opens⟩ := isRaw_iff.mp h_raw
  -- a slash stands behind the head of a path
  obtain ⟨head, -, h_head⟩ := List.any_eq_true.mp h_opens
  obtain ⟨behind, h_behind, -⟩ := (Option.any_eq_true _ _).mp h_head
  apply h_slash
  apply h_rest.subset
  rw [Chars.after?_eq_some_iff.mp h_behind]
  simp

theorem unmoved_of_not_isRaw (h_settled : isRaw text = false) : Unmoved text := by
  intro path h_path h_inside
  obtain ⟨rest, h_opens, h_rest⟩ := List.infix_iff_prefix_suffix.mp h_inside
  -- a path inside the text begins one of its endings
  have h_kind := any_opensKind_iff.mpr ⟨path, h_path, h_opens⟩
  have h_raw : isRaw text = true := isRaw_iff.mpr ⟨rest, h_rest, by rw [opensRaw_eq, h_kind]; rfl⟩
  rw [h_settled] at h_raw
  cases h_raw

/-! ## Where folding makes a text raw -/

/-- A word and a slash stand at the front of two stretches only where the word is all of the
    first one, if the first has no slash and no word character begins the second. -/
theorem after?_append_slash (h_lead : ∀ c ∈ lead, isAsciiWord c = true) (h_front : '/' ∉ front)
    (h_back : ∀ c ∈ back.head?, isAsciiWord c = false) :
    Chars.after? (lead ++ ['/']) (front ++ back) =
      if lead = front then Chars.after? ['/'] back else none := by
  induction lead generalizing front with
  | nil =>
    cases front with
    | nil => rfl
    | cons f front =>
      rw [List.mem_cons, not_or] at h_front
      simp [Chars.after?, h_front.1]
  | cons l lead ih =>
    rw [List.forall_mem_cons] at h_lead
    cases front with
    | nil =>
      cases back with
      | nil => rfl
      | cons b back =>
        have h_ne : l ≠ b := by
          rintro rfl
          have h_not := h_back l rfl
          rw [h_lead.1] at h_not
          cases h_not
        simp [Chars.after?, h_ne]
    | cons f front =>
      rw [List.mem_cons, not_or] at h_front
      rw [List.cons_append, List.cons_append, Chars.after?, ih h_lead.2 h_front.2]
      by_cases h_eq : l = f
      · simp [h_eq]
      · simp [h_eq]

theorem isSuffixOf_cons (lead : List Char) (c : Char) (front : List Char) :
    lead.isSuffixOf (c :: front) = (decide (lead = c :: front) || lead.isSuffixOf front) := by
  rw [Bool.eq_iff_iff, Bool.or_eq_true, decide_eq_true_iff, List.isSuffixOf_iff_suffix,
    List.isSuffixOf_iff_suffix, List.suffix_cons_iff]

/-- A raw path in two stretches lies in the second or goes over from the first. -/
theorem isRaw_append (h_front : '/' ∉ front) (h_back : ∀ c ∈ back.head?, isAsciiWord c = false) :
    isRaw (front ++ back) = (joins front back || isRaw back) := by
  induction front with
  | nil => simp [joins, pathHeads]
  | cons f front ih =>
    have h_head (lead : List Char) (h_lead : ∀ c ∈ lead, isAsciiWord c = true)
        (p : List Char → Bool) :
        ((Chars.after? (lead ++ ['/']) (f :: front ++ back)).any p ||
          (lead.isSuffixOf front && (Chars.after? ['/'] back).any p)) =
            (lead.isSuffixOf (f :: front) && (Chars.after? ['/'] back).any p) := by
      rw [after?_append_slash h_lead h_front h_back, isSuffixOf_cons, Bool.and_or_distrib_right]
      split
      · next h_eq => simp [h_eq]
      · next h_ne => simp [h_ne]
    rw [List.mem_cons, not_or] at h_front
    -- a word that the first stretch ends in is all of it, or lies in its tail
    rw [List.cons_append, isRaw, ih h_front.2, ← Bool.or_assoc]
    congr 1
    simp only [opensRaw, joins, pathHeads, List.any_cons, List.any_nil, Bool.or_false]
    rw [← List.cons_append,
      ← h_head "components".toList (List.all_eq_true.mp (by decide)) opensKind,
      ← h_head "definitions".toList (List.all_eq_true.mp (by decide)) opensDotted]
    ac_rfl

/-- The namespace makes nothing raw unless a dotted name follows. -/
theorem isRaw_namespacePath_append (h_name : opensDotted rest = false) :
    isRaw (namespacePath ++ rest) = isRaw rest := by
  have h_joins : joins namespaceName ('/' :: rest) = false := by
    have h_other : "components".toList.isSuffixOf namespaceName = false := by decide
    simp only [joins, pathHeads, List.any_cons, List.any_nil, h_other, Chars.after?,
      if_true, Option.any_some, h_name, Bool.and_false, Bool.false_and, Bool.or_false]
  have h_opens : opensRaw ('/' :: rest) = false := by
    rw [opensRaw_eq]
    rfl
  rw [namespacePath_eq, List.append_assoc, List.singleton_append,
    isRaw_append (by decide) (by simp; decide), isRaw, h_joins, h_opens, Bool.false_or,
    Bool.false_or]

theorem joins_foldDotted : joins front (foldDotted text) = joins front text := by
  have h_any (p : List Char → Bool) (h_same : ∀ own, p (foldDotted own) = p own) :
      (Chars.after? ['/'] (foldDotted text)).any p = (Chars.after? ['/'] text).any p := by
    rw [after?_foldDotted (by decide), Option.any_map]
    simp only [h_same]
  simp only [joins, pathHeads, List.any_cons, List.any_nil]
  rw [h_any opensKind opensKind_foldDotted, h_any opensDotted opensDotted_foldDotted]

/-- Away from a dotted name folding makes no path of the place it is at. -/
theorem opensRaw_cons_foldDotted {c : Char} (h_text : Unmoved (c :: text))
    (h_none : (Chars.after? namespacePath (c :: text)).any opensDotted = false) :
    opensRaw (c :: foldDotted text) = false := by
  have h_kind : (Chars.after? "components/".toList (c :: foldDotted text)).any opensKind = false := by
    rw [← foldDotted_other h_none, after?_foldDotted (by decide), Option.any_map]
    simp only [opensKind_foldDotted]
    rw [Bool.eq_false_iff]
    intro h_opens
    obtain ⟨path, h_path, h_prefix⟩ := any_opensKind_iff.mp h_opens
    exact h_text path h_path h_prefix.isInfix
  have h_dotted : (Chars.after? namespacePath (c :: foldDotted text)).any opensDotted = false := by
    rw [← h_none]
    -- the letter `d` comes once in the namespace, so the folding is behind it
    change (if 'd' = c then Chars.after? "efinitions/".toList (foldDotted text) else none).any _ =
      (if 'd' = c then Chars.after? "efinitions/".toList text else none).any _
    split
    · rw [after?_foldDotted (by decide), Option.any_map]
      simp only [opensDotted_foldDotted]
    · rfl
  rw [opensRaw_eq, h_kind, h_dotted, Bool.or_false]

/-- The run of a dotted name: its Pascal case has neither slashes nor points, and no dotted name goes
    on behind it. -/
theorem ofDotted_run (h_name : opensDotted rest = true) :
    '/' ∉ Name.Chars.ofDotted (rest.take (dottedLength rest)) ∧
      '.' ∉ Name.Chars.ofDotted (rest.take (dottedLength rest)) ∧
      takeDotted (rest.drop (dottedLength rest)) = [] := by
  obtain ⟨h_length, -, h_run⟩ := of_dottedLength_pos (of_decide_eq_true h_name)
  have h_chars : ∀ c ∈ rest.take (dottedLength rest), isAsciiWord c = true ∨ c = '.' := by
    rw [h_run]
    exact fun c => of_mem_takeDotted
  refine ⟨Name.not_mem_ofDotted h_chars (by decide), Name.not_mem_ofDotted h_chars (by decide), ?_⟩
  rw [h_length]
  exact takeDotted_drop rest

/-- A text without component paths is raw after its folding just when the folding uncovers a path. -/
theorem isRaw_foldDotted (h_text : Unmoved text) : isRaw (foldDotted text) = uncovers text := by
  induction text using folding_induction with
  | nil => rw [foldDotted, uncovers]; rfl
  | path rest h_name ih =>
    obtain ⟨h_slash, h_point, h_stop⟩ := ofDotted_run h_name
    have h_folded : takeDotted (foldDotted (rest.drop (dottedLength rest))) = [] := by
      rw [takeDotted_foldDotted, h_stop]
    have h_back : Unmoved (rest.drop (dottedLength rest)) :=
      h_text.of_suffix ((List.drop_suffix _ _).trans (List.suffix_append _ _))
    -- the folded name has no point, so the namespace before it makes nothing raw
    have h_name_out : opensDotted (Name.Chars.ofDotted (rest.take (dottedLength rest)) ++
        foldDotted (rest.drop (dottedLength rest))) = false := by
      rw [opensDotted, dottedLength_eq_zero (not_mem_takeDotted_append h_point h_folded)]
      rfl
    have h_head := not_isAsciiWord_of_takeDotted_eq_nil h_folded
    rw [foldDotted_path h_name, uncovers_path h_name, isRaw_namespacePath_append h_name_out,
      isRaw_append h_slash h_head, joins_foldDotted, ih h_back]
  | other c text h_none ih =>
    rw [foldDotted_other h_none, uncovers_other h_none, isRaw,
      opensRaw_cons_foldDotted h_text h_none, ih (h_text.of_suffix (List.suffix_cons c text)),
      Bool.false_or]

/-! ## Marks -/

/-- The slashes and points of a text. -/
def marks (text : List Char) : Nat := text.countP fun c => c == '/' || c == '.'

theorem marks_append (front back : List Char) : marks (front ++ back) = marks front + marks back :=
  List.countP_append

theorem marks_moveComponents_lt {path : List Char} (h_path : path ∈ componentPaths)
    (h_inside : path <:+: text) : marks (moveComponents text) < marks text :=
  Text.Chars.countP_replaceAll_lt (by decide) h_path h_inside

/-- A dotted name loses its points. -/
theorem marks_ofDotted_lt (h_name : opensDotted rest = true) :
    marks (Name.Chars.ofDotted (rest.take (dottedLength rest))) <
      marks (rest.take (dottedLength rest)) := by
  obtain ⟨h_slash, h_point, -⟩ := ofDotted_run h_name
  obtain ⟨-, h_mem, h_run⟩ := of_dottedLength_pos (of_decide_eq_true h_name)
  have h_none : marks (Name.Chars.ofDotted (rest.take (dottedLength rest))) = 0 := by
    rw [marks, List.countP_eq_zero]
    intro c h_c h_mark
    rw [Bool.or_eq_true, beq_iff_eq, beq_iff_eq] at h_mark
    rcases h_mark with rfl | rfl
    · exact h_slash h_c
    · exact h_point h_c
  rw [h_none, h_run]
  exact List.countP_pos_iff.mpr ⟨'.', h_mem, rfl⟩

theorem marks_take_add_drop (size : Nat) (text : List Char) :
    marks (text.take size) + marks (text.drop size) = marks text := by
  rw [← marks_append, List.take_append_drop]

theorem marks_foldDotted_le (text : List Char) : marks (foldDotted text) ≤ marks text := by
  induction text using folding_induction with
  | nil => rw [foldDotted]
  | path rest h_name ih =>
    have h_less := marks_ofDotted_lt h_name
    have h_split := marks_take_add_drop (dottedLength rest) rest
    rw [foldDotted_path h_name, marks_append, marks_append, marks_append]
    omega
  | other c text h_none ih =>
    rw [foldDotted_other h_none]
    change marks ([c] ++ foldDotted text) ≤ marks ([c] ++ text)
    rw [marks_append, marks_append]
    exact Nat.add_le_add_left ih _

/-- Folding that changes a text takes a mark away, which is why it comes to an end. -/
theorem marks_foldDotted_lt (h_changed : foldDotted text ≠ text) :
    marks (foldDotted text) < marks text := by
  induction text using folding_induction with
  | nil => exact absurd (by rw [foldDotted]) h_changed
  | path rest h_name _ =>
    have h_less := marks_ofDotted_lt h_name
    have h_split := marks_take_add_drop (dottedLength rest) rest
    have h_rest := marks_foldDotted_le (rest.drop (dottedLength rest))
    rw [foldDotted_path h_name, marks_append, marks_append, marks_append]
    omega
  | other c text h_none ih =>
    rw [foldDotted_other h_none] at h_changed ⊢
    change marks ([c] ++ foldDotted text) < marks ([c] ++ text)
    rw [marks_append, marks_append]
    exact Nat.add_lt_add_left (ih fun h_same => h_changed (by rw [h_same])) _

/-- A text that folding keeps has no dotted name behind the namespace. -/
theorem not_opensDotted_of_foldDotted_eq (h_kept : foldDotted text = text) (h_rest : rest <:+ text) :
    (Chars.after? namespacePath rest).any opensDotted = false := by
  induction text using folding_induction with
  | nil => rw [List.suffix_nil.mp h_rest]; rfl
  | path own h_name _ =>
    -- the marks of the name are gone
    have h_less := marks_ofDotted_lt h_name
    have h_back := marks_foldDotted_le (own.drop (dottedLength own))
    have h_marks := congrArg marks h_kept
    have h_split := marks_take_add_drop (dottedLength own) own
    rw [foldDotted_path h_name, marks_append, marks_append, marks_append] at h_marks
    omega
  | other c text h_none ih =>
    rw [foldDotted_other h_none, List.cons_eq_cons] at h_kept
    rcases List.suffix_cons_iff.mp h_rest with rfl | h_rest
    · exact h_none
    · exact ih h_kept.2 h_rest

/-- A settled text is folded to itself. -/
theorem foldDotted_of_not_isRaw (h_settled : isRaw text = false) : foldDotted text = text := by
  induction text using folding_induction with
  | nil => rw [foldDotted]
  | path rest h_name _ =>
    have h_opens : opensRaw (namespacePath ++ rest) = true := by
      rw [opensRaw_eq, after?_namespacePath_append, Option.any_some, h_name, Bool.or_true]
    rw [isRaw_iff.mpr ⟨_, List.suffix_refl _, h_opens⟩] at h_settled
    cases h_settled
  | other c text h_none ih =>
    rw [isRaw, Bool.or_eq_false_iff] at h_settled
    rw [foldDotted_other h_none, ih h_settled.2]

/-! ## Normal form of texts -/

/-- The texts that are their own normal form are the settled ones. -/
theorem normalPath_eq_self_iff {text : String} : normalPath text = text ↔ isSettled text = true := by
  rw [normalPath, ← String.toList_inj, String.toList_ofList, isSettled, Bool.not_eq_true']
  constructor
  · intro h_kept
    -- moving a path takes marks away, and folding gives none back
    have h_unmoved : Unmoved text.toList := by
      intro path h_path h_inside
      have h_less := marks_moveComponents_lt h_path h_inside
      have h_fold := marks_foldDotted_le (moveComponents text.toList)
      rw [h_kept] at h_fold
      omega
    rw [moveComponents_of_unmoved h_unmoved] at h_kept
    -- a raw place is a dotted name, which would have been folded, or a path, which would have moved
    rw [Bool.eq_false_iff]
    intro h_raw
    obtain ⟨rest, h_rest, h_opens⟩ := isRaw_iff.mp h_raw
    rw [opensRaw_eq, not_opensDotted_of_foldDotted_eq h_kept h_rest, Bool.or_false] at h_opens
    obtain ⟨path, h_path, h_prefix⟩ := any_opensKind_iff.mp h_opens
    exact h_unmoved.of_suffix h_rest path h_path h_prefix.isInfix
  · intro h_settled
    rw [moveComponents_of_unmoved (unmoved_of_not_isRaw h_settled),
      foldDotted_of_not_isRaw h_settled]

/-- Where the normal form of a text is another text, slashes or points are gone. -/
theorem marks_normalPath_lt {text : String} (h_changed : normalPath text ≠ text) :
    marks (normalPath text).toList < marks text.toList := by
  rw [normalPath, String.toList_ofList]
  by_cases h_unmoved : Unmoved text.toList
  · rw [moveComponents_of_unmoved h_unmoved]
    apply marks_foldDotted_lt
    intro h_same
    rw [normalPath, moveComponents_of_unmoved h_unmoved, h_same, String.ofList_toList] at h_changed
    exact h_changed rfl
  · rw [Unmoved] at h_unmoved
    push Not at h_unmoved
    obtain ⟨path, h_path, h_inside⟩ := h_unmoved
    exact Nat.lt_of_le_of_lt (marks_foldDotted_le _) (marks_moveComponents_lt h_path h_inside)

/-- The normal form of a text is settled just when the folding uncovers no path. -/
theorem isSettled_normalPath (text : String) :
    isSettled (normalPath text) = !uncovers (moveComponents text.toList) := by
  rw [isSettled, normalPath, String.toList_ofList, isRaw_foldDotted (unmoved_moveComponents _)]

end OpenApiTs.Reference
