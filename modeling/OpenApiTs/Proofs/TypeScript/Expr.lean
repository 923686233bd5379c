/-
  OpenApiTs.Proofs.TypeScript.Expr

  Type expressions seen through the lists of their names and of their words. Replacing names from
  left to right is the same for an expression and for the list of its names, so whatever the
  replacement does to a state can be followed on that list; the words stay.
-/
import OpenApiTs.TypeScript.Expr
import Mathlib.Data.List.Basic

namespace OpenApiTs.TypeScript.TypeExpr

variable {ν κ σ : Type}

/-! ## Names in order -/

/-- The names chosen for a list of names from left to right, and the state after them. -/
def chooseAll (choose : ν → σ → κ × σ) : List ν → σ → List κ × σ
  | [], state => ([], state)
  | name :: names, state =>
    ((choose name state).1 :: (chooseAll choose names (choose name state).2).1,
      (chooseAll choose names (choose name state).2).2)

/-- Choices for one list after another begin where those for the first list end. -/
theorem chooseAll_append (choose : ν → σ → κ × σ) (front back : List ν) (state : σ) :
    chooseAll choose (front ++ back) state =
      ((chooseAll choose front state).1 ++
          (chooseAll choose back (chooseAll choose front state).2).1,
        (chooseAll choose back (chooseAll choose front state).2).2) := by
  induction front generalizing state with
  | nil => rfl
  | cons name front ih => simp [chooseAll, ih]

/-- One name is chosen for each. -/
theorem length_chooseAll (choose : ν → σ → κ × σ) (names : List ν) (state : σ) :
    (chooseAll choose names state).1.length = names.length := by
  induction names generalizing state with
  | nil => rfl
  | cons name names ih => rw [chooseAll, List.length_cons, List.length_cons, ih]

/-- What every choice preserves holds after all of them. -/
theorem chooseAll_preserves {choose : ν → σ → κ × σ} {P : σ → Prop} {names : List ν} {state : σ}
    (h_choose : ∀ name ∈ names, ∀ state, P state → P (choose name state).2) (h_state : P state) :
    P (chooseAll choose names state).2 := by
  induction names generalizing state with
  | nil => exact h_state
  | cons name names ih =>
    rw [List.forall_mem_cons] at h_choose
    exact ih h_choose.2 (h_choose.1 state h_state)

/-- What is true of every choice is true of all that was chosen. -/
theorem chooseAll_forall {choose : ν → σ → κ × σ} {P : κ → Prop} {names : List ν} {state : σ}
    (h_choose : ∀ name ∈ names, ∀ state, P (choose name state).1) :
    ∀ chosen ∈ (chooseAll choose names state).1, P chosen := by
  induction names generalizing state with
  | nil => simp [chooseAll]
  | cons name names ih =>
    rw [List.forall_mem_cons] at h_choose
    rw [chooseAll, List.forall_mem_cons]
    exact ⟨h_choose.1 state, ih h_choose.2⟩

/-- A name and what was chosen for it: the choice was made in the state that the names before it
    left. -/
theorem exists_split_of_mem_zip {choose : ν → σ → κ × σ} {names : List ν} {state : σ} {name : ν}
    {chosen : κ} (h_mem : (name, chosen) ∈ names.zip (chooseAll choose names state).1) :
    ∃ front back, names = front ++ name :: back ∧
      chosen = (choose name (chooseAll choose front state).2).1 := by
  induction names generalizing state with
  | nil => simp at h_mem
  | cons first names ih =>
    rw [chooseAll, List.zip_cons_cons, List.mem_cons] at h_mem
    rcases h_mem with h_first | h_rest
    · obtain ⟨rfl, rfl⟩ := Prod.mk.inj h_first
      exact ⟨[], names, rfl, rfl⟩
    · obtain ⟨front, back, rfl, h_chosen⟩ := ih h_rest
      exact ⟨first :: front, back, rfl, h_chosen⟩

mutual

/-- Replacing the names of an expression chooses them in order. -/
theorem rename_eq_chooseAll (choose : ν → σ → κ × σ) : ∀ (type : TypeExpr ν) (state : σ),
    ((type.rename choose state).1.mentions, (type.rename choose state).2) =
      chooseAll choose type.mentions state
  | word _, _ => rfl
  | named _, _ => rfl
  | intersection parts, state => renameAll_eq_chooseAll choose parts state
  | union parts, state => renameAll_eq_chooseAll choose parts state
  | alternatives parts, state => renameAll_eq_chooseAll choose parts state
  | tuple parts, state => renameAll_eq_chooseAll choose parts state
  | array element, state => rename_eq_chooseAll choose element state
  | record members, state => renameMembers_eq_chooseAll choose members state

/-- As `rename_eq_chooseAll`, for the parts of a type. -/
theorem renameAll_eq_chooseAll (choose : ν → σ → κ × σ) :
    ∀ (parts : List (TypeExpr ν)) (state : σ),
      (mentionsAll (renameAll choose parts state).1, (renameAll choose parts state).2) =
        chooseAll choose (mentionsAll parts) state
  | [], _ => rfl
  | part :: parts, state => by
    -- the others are renamed in the state that the first part leaves
    rw [mentionsAll, chooseAll_append, ← rename_eq_chooseAll choose part state,
      ← renameAll_eq_chooseAll choose parts (part.rename choose state).2]
    rfl

/-- As `rename_eq_chooseAll`, for the members of a record. -/
theorem renameMembers_eq_chooseAll (choose : ν → σ → κ × σ) :
    ∀ (members : List (MemberHead × TypeExpr ν)) (state : σ),
      (mentionsMembers (renameMembers choose members state).1,
          (renameMembers choose members state).2) =
        chooseAll choose (mentionsMembers members) state
  | [], _ => rfl
  | (head, type) :: members, state => by
    rw [mentionsMembers, chooseAll_append, ← rename_eq_chooseAll choose type state,
      ← renameMembers_eq_chooseAll choose members (type.rename choose state).2]
    rfl

end

/-! ## Words in order -/

mutual

/-- The fixed words of an expression from left to right. -/
def words : TypeExpr ν → List String
  | word text => [text]
  | named _ => []
  | intersection parts => wordsAll parts
  | union parts => wordsAll parts
  | alternatives parts => wordsAll parts
  | tuple parts => wordsAll parts
  | array element => words element
  | record members => wordsMembers members

/-- The fixed words of parts. -/
def wordsAll : List (TypeExpr ν) → List String
  | [] => []
  | part :: parts => words part ++ wordsAll parts

/-- The fixed words of members. -/
def wordsMembers : List (MemberHead × TypeExpr ν) → List String
  | [] => []
  | (_, type) :: members => words type ++ wordsMembers members

end

mutual

/-- Replacing names leaves the words alone. -/
theorem words_rename (choose : ν → σ → κ × σ) : ∀ (type : TypeExpr ν) (state : σ),
    (type.rename choose state).1.words = type.words
  | word _, _ => rfl
  | named _, _ => rfl
  | intersection parts, state => wordsAll_renameAll choose parts state
  | union parts, state => wordsAll_renameAll choose parts state
  | alternatives parts, state => wordsAll_renameAll choose parts state
  | tuple parts, state => wordsAll_renameAll choose parts state
  | array element, state => words_rename choose element state
  | record members, state => wordsMembers_renameMembers choose members state

theorem wordsAll_renameAll (choose : ν → σ → κ × σ) :
    ∀ (parts : List (TypeExpr ν)) (state : σ),
      wordsAll (renameAll choose parts state).1 = wordsAll parts
  | [], _ => rfl
  | part :: parts, state => by
    rw [renameAll, wordsAll, wordsAll, words_rename choose part, wordsAll_renameAll choose parts]

theorem wordsMembers_renameMembers (choose : ν → σ → κ × σ) :
    ∀ (members : List (MemberHead × TypeExpr ν)) (state : σ),
      wordsMembers (renameMembers choose members state).1 = wordsMembers members
  | [], _ => rfl
  | (head, type) :: members, state => by
    rw [renameMembers, wordsMembers, wordsMembers, words_rename choose type,
      wordsMembers_renameMembers choose members]

end

/-! ## Choices that look at no state -/

/-- A choice of names that looks at no state. -/
def always (pick : ν → κ) (name : ν) (state : Unit) : κ × Unit := (pick name, state)

/-- Whether a choice picks the name of each mention in all states of a kind, and keeps the kind. -/
def Steady (choose : ν → σ → κ × σ) (pick : ν → κ) (P : σ → Prop) (names : List ν) : Prop :=
  ∀ name ∈ names, ∀ state, P state →
    (choose name state).1 = pick name ∧ P (choose name state).2

theorem Steady.of_subset {choose : ν → σ → κ × σ} {pick : ν → κ} {P : σ → Prop}
    {names others : List ν} (h_steady : Steady choose pick P names) (h_subset : others ⊆ names) :
    Steady choose pick P others :=
  fun name h_name => h_steady name (h_subset h_name)

variable {choose : ν → σ → κ × σ} {pick : ν → κ} {P : σ → Prop}

mutual

/-- A steady choice gives what its names give without a state. -/
theorem rename_of_steady : ∀ (type : TypeExpr ν) (state : σ),
    Steady choose pick P type.mentions → P state →
      (type.rename choose state).1 = (type.rename (always pick) ()).1 ∧
        P (type.rename choose state).2
  | word _, _, _, h_state => ⟨rfl, h_state⟩
  | named name, state, h_steady, h_state => by
    obtain ⟨h_name, h_after⟩ := h_steady name List.mem_cons_self state h_state
    exact ⟨congrArg named h_name, h_after⟩
  | intersection parts, state, h_steady, h_state =>
    (renameAll_of_steady parts state h_steady h_state).imp_left (congrArg intersection)
  | union parts, state, h_steady, h_state =>
    (renameAll_of_steady parts state h_steady h_state).imp_left (congrArg union)
  | alternatives parts, state, h_steady, h_state =>
    (renameAll_of_steady parts state h_steady h_state).imp_left (congrArg alternatives)
  | tuple parts, state, h_steady, h_state =>
    (renameAll_of_steady parts state h_steady h_state).imp_left (congrArg tuple)
  | array element, state, h_steady, h_state =>
    (rename_of_steady element state h_steady h_state).imp_left (congrArg array)
  | record members, state, h_steady, h_state =>
    (renameMembers_of_steady members state h_steady h_state).imp_left (congrArg record)

/-- As `rename_of_steady`, for the parts of a type. -/
theorem renameAll_of_steady : ∀ (parts : List (TypeExpr ν)) (state : σ),
    Steady choose pick P (mentionsAll parts) → P state →
      (renameAll choose parts state).1 = (renameAll (always pick) parts ()).1 ∧
        P (renameAll choose parts state).2
  | [], _, _, h_state => ⟨rfl, h_state⟩
  | part :: parts, state, h_steady, h_state => by
    obtain ⟨h_part, h_after⟩ := rename_of_steady part state
      (h_steady.of_subset (List.subset_append_left _ _)) h_state
    obtain ⟨h_parts, h_final⟩ := renameAll_of_steady parts _
      (h_steady.of_subset (List.subset_append_right _ _)) h_after
    exact ⟨congrArg₂ List.cons h_part h_parts, h_final⟩

/-- As `rename_of_steady`, for the members of a record. -/
theorem renameMembers_of_steady : ∀ (members : List (MemberHead × TypeExpr ν)) (state : σ),
    Steady choose pick P (mentionsMembers members) → P state →
      (renameMembers choose members state).1 = (renameMembers (always pick) members ()).1 ∧
        P (renameMembers choose members state).2
  | [], _, _, h_state => ⟨rfl, h_state⟩
  | (head, type) :: members, state, h_steady, h_state => by
    obtain ⟨h_type, h_after⟩ := rename_of_steady type state
      (h_steady.of_subset (List.subset_append_left _ _)) h_state
    obtain ⟨h_members, h_final⟩ := renameMembers_of_steady members _
      (h_steady.of_subset (List.subset_append_right _ _)) h_after
    exact ⟨congrArg₂ List.cons (congrArg (Prod.mk head) h_type) h_members, h_final⟩

end

/-! ## Lists of members -/

/-- Members next to each other mention what both mention. -/
theorem mentionsMembers_append (front back : List (MemberHead × TypeExpr ν)) :
    mentionsMembers (front ++ back) = mentionsMembers front ++ mentionsMembers back := by
  induction front with
  | nil => rfl
  | cons member front ih =>
    rw [List.cons_append, mentionsMembers, mentionsMembers, ih, List.append_assoc]

theorem wordsMembers_append (front back : List (MemberHead × TypeExpr ν)) :
    wordsMembers (front ++ back) = wordsMembers front ++ wordsMembers back := by
  induction front with
  | nil => rfl
  | cons member front ih =>
    rw [List.cons_append, wordsMembers, wordsMembers, ih, List.append_assoc]

end OpenApiTs.TypeScript.TypeExpr
