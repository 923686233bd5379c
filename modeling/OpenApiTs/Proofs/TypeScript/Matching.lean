/-
  OpenApiTs.Proofs.TypeScript.Matching

  Type expressions that differ in their names only. When each name of the one corresponds to the name
  in its place in the other, and corresponding names are chosen alike, the two expressions become one
  expression.
-/
import OpenApiTs.TypeScript.Expr
import Mathlib.Data.List.Forall2

namespace OpenApiTs.TypeScript.TypeExpr

variable {ν ν' κ σ σ' : Type}

/-! ## Corresponding expressions -/

mutual

/-- Whether two expressions are the same but for their names, which `R` relates place by place. -/
def Matches (R : ν → ν' → Prop) : TypeExpr ν → TypeExpr ν' → Prop
  | word text, word text' => text = text'
  | named name, named name' => R name name'
  | intersection parts, intersection parts' => MatchesAll R parts parts'
  | union parts, union parts' => MatchesAll R parts parts'
  | alternatives parts, alternatives parts' => MatchesAll R parts parts'
  | tuple parts, tuple parts' => MatchesAll R parts parts'
  | array element, array element' => Matches R element element'
  | record members, record members' => MatchesMembers R members members'
  | _, _ => False

/-- As `Matches`, part by part. -/
def MatchesAll (R : ν → ν' → Prop) : List (TypeExpr ν) → List (TypeExpr ν') → Prop
  | [], [] => True
  | part :: parts, part' :: parts' => Matches R part part' ∧ MatchesAll R parts parts'
  | _, _ => False

/-- As `Matches`, member by member; what a member is has to be the same. -/
def MatchesMembers (R : ν → ν' → Prop) :
    List (MemberHead × TypeExpr ν) → List (MemberHead × TypeExpr ν') → Prop
  | [], [] => True
  | (head, type) :: members, (head', type') :: members' =>
    head = head' ∧ Matches R type type' ∧ MatchesMembers R members members'
  | _, _ => False

end

variable {R : ν → ν' → Prop}

/-- Lists of types match when their types do, one by one. -/
theorem matchesAll_of_forall₂ {parts : List (TypeExpr ν)} {parts' : List (TypeExpr ν')}
    (h_parts : List.Forall₂ (Matches R) parts parts') : MatchesAll R parts parts' := by
  induction h_parts with
  | nil => trivial
  | cons h_part _ ih => exact ⟨h_part, ih⟩

/-- Members that match may be put together. -/
theorem MatchesMembers.append {front back : List (MemberHead × TypeExpr ν)}
    {front' back' : List (MemberHead × TypeExpr ν')} (h_front : MatchesMembers R front front')
    (h_back : MatchesMembers R back back') :
    MatchesMembers R (front ++ back) (front' ++ back') := by
  induction front generalizing front' with
  | nil =>
    -- lists of different lengths do not match
    cases front' with
    | nil => exact h_back
    | cons member front' => exact h_front.elim
  | cons member front ih =>
    cases front' with
    | nil => exact h_front.elim
    | cons member' front' => exact ⟨h_front.1, h_front.2.1, ih h_front.2.2⟩

mutual

/-- A type matches itself when every name does. -/
theorem Matches.refl {R : ν → ν → Prop} (h_refl : ∀ name, R name name) :
    ∀ type : TypeExpr ν, Matches R type type
  | word _ => rfl
  | named name => h_refl name
  | intersection parts => MatchesAll.refl h_refl parts
  | union parts => MatchesAll.refl h_refl parts
  | alternatives parts => MatchesAll.refl h_refl parts
  | tuple parts => MatchesAll.refl h_refl parts
  | array element => Matches.refl h_refl element
  | record members => MatchesMembers.refl h_refl members

theorem MatchesAll.refl {R : ν → ν → Prop} (h_refl : ∀ name, R name name) :
    ∀ parts : List (TypeExpr ν), MatchesAll R parts parts
  | [] => trivial
  | part :: parts => ⟨Matches.refl h_refl part, MatchesAll.refl h_refl parts⟩

theorem MatchesMembers.refl {R : ν → ν → Prop} (h_refl : ∀ name, R name name) :
    ∀ members : List (MemberHead × TypeExpr ν), MatchesMembers R members members
  | [] => trivial
  | (_, type) :: members => ⟨rfl, Matches.refl h_refl type, MatchesMembers.refl h_refl members⟩

end

/-! ## Choosing names alike -/

/-- Whether corresponding names are chosen alike: in corresponding states they get one name, and the
    states still correspond. -/
def ChosenAlike (R : ν → ν' → Prop) (P : σ → σ' → Prop) (choose : ν → σ → κ × σ)
    (choose' : ν' → σ' → κ × σ') (names : List ν) : Prop :=
  ∀ name ∈ names, ∀ name', R name name' → ∀ state state', P state state' →
    (choose name state).1 = (choose' name' state').1 ∧
      P (choose name state).2 (choose' name' state').2

/-- What is chosen alike for all names is chosen alike for some of them. -/
theorem ChosenAlike.of_subset {P : σ → σ' → Prop} {choose : ν → σ → κ × σ}
    {choose' : ν' → σ' → κ × σ'} {names others : List ν}
    (h_chosen : ChosenAlike R P choose choose' names) (h_subset : others ⊆ names) :
    ChosenAlike R P choose choose' others :=
  fun name h_name => h_chosen name (h_subset h_name)

variable {P : σ → σ' → Prop} {choose : ν → σ → κ × σ} {choose' : ν' → σ' → κ × σ'}

mutual

/-- Matching expressions whose names are chosen alike become one expression. -/
theorem rename_of_matches : ∀ (type : TypeExpr ν) (type' : TypeExpr ν') (state : σ) (state' : σ'),
    Matches R type type' → ChosenAlike R P choose choose' type.mentions → P state state' →
      (type.rename choose state).1 = (type'.rename choose' state').1 ∧
        P (type.rename choose state).2 (type'.rename choose' state').2
  | word _, word _, _, _, h_match, _, h_state => ⟨congrArg word h_match, h_state⟩
  | named name, named name', state, state', h_match, h_chosen, h_state => by
    obtain ⟨h_name, h_after⟩ :=
      h_chosen name List.mem_cons_self name' h_match state state' h_state
    exact ⟨congrArg named h_name, h_after⟩
  | intersection parts, intersection parts', state, state', h_match, h_chosen, h_state =>
    (renameAll_of_matches parts parts' state state' h_match h_chosen h_state).imp_left
      (congrArg intersection)
  | union parts, union parts', state, state', h_match, h_chosen, h_state =>
    (renameAll_of_matches parts parts' state state' h_match h_chosen h_state).imp_left
      (congrArg union)
  | alternatives parts, alternatives parts', state, state', h_match, h_chosen, h_state =>
    (renameAll_of_matches parts parts' state state' h_match h_chosen h_state).imp_left
      (congrArg alternatives)
  | tuple parts, tuple parts', state, state', h_match, h_chosen, h_state =>
    (renameAll_of_matches parts parts' state state' h_match h_chosen h_state).imp_left
      (congrArg tuple)
  | array element, array element', state, state', h_match, h_chosen, h_state =>
    (rename_of_matches element element' state state' h_match h_chosen h_state).imp_left
      (congrArg array)
  | record members, record members', state, state', h_match, h_chosen, h_state =>
    (renameMembers_of_matches members members' state state' h_match h_chosen h_state).imp_left
      (congrArg record)

/-- As `rename_of_matches`, for the parts of a type. The states after the first part are those that
    the others begin with. -/
theorem renameAll_of_matches : ∀ (parts : List (TypeExpr ν)) (parts' : List (TypeExpr ν'))
    (state : σ) (state' : σ'), MatchesAll R parts parts' →
      ChosenAlike R P choose choose' (mentionsAll parts) → P state state' →
      (renameAll choose parts state).1 = (renameAll choose' parts' state').1 ∧
        P (renameAll choose parts state).2 (renameAll choose' parts' state').2
  | [], [], _, _, _, _, h_state => ⟨rfl, h_state⟩
  | part :: parts, part' :: parts', state, state', h_match, h_chosen, h_state => by
    obtain ⟨h_part, h_after⟩ := rename_of_matches part part' state state' h_match.1
      (h_chosen.of_subset (List.subset_append_left _ _)) h_state
    obtain ⟨h_parts, h_final⟩ := renameAll_of_matches parts parts' _ _ h_match.2
      (h_chosen.of_subset (List.subset_append_right _ _)) h_after
    exact ⟨congrArg₂ List.cons h_part h_parts, h_final⟩

/-- As `rename_of_matches`, for the members of a record. -/
theorem renameMembers_of_matches : ∀ (members : List (MemberHead × TypeExpr ν))
    (members' : List (MemberHead × TypeExpr ν')) (state : σ) (state' : σ'),
      MatchesMembers R members members' →
      ChosenAlike R P choose choose' (mentionsMembers members) → P state state' →
      (renameMembers choose members state).1 = (renameMembers choose' members' state').1 ∧
        P (renameMembers choose members state).2 (renameMembers choose' members' state').2
  | [], [], _, _, _, _, h_state => ⟨rfl, h_state⟩
  | (head, type) :: members, (head', type') :: members', state, state', h_match, h_chosen,
      h_state => by
    obtain ⟨h_type, h_after⟩ := rename_of_matches type type' state state' h_match.2.1
      (h_chosen.of_subset (List.subset_append_left _ _)) h_state
    obtain ⟨h_members, h_final⟩ := renameMembers_of_matches members members' _ _ h_match.2.2
      (h_chosen.of_subset (List.subset_append_right _ _)) h_after
    exact ⟨congrArg₂ List.cons (congrArg₂ Prod.mk h_match.1 h_type) h_members, h_final⟩

end

end OpenApiTs.TypeScript.TypeExpr
