/-
  OpenApiTs.Proofs.TypeScript.Keys

  The keys of properties. A key is written bare when it is an identifier and quoted when it is not;
  only the quoted form begins with a quote, and each form can be read back, so different keys are
  written differently. Either form is one line.
-/
import OpenApiTs.Proofs.Json.Print
import OpenApiTs.Proofs.Json.Quoted
import OpenApiTs.Proofs.Name.Identifier
import OpenApiTs.Proofs.Name.Stable
import OpenApiTs.TypeScript.Expr

namespace OpenApiTs.TypeScript

variable {key other : String} {c : Char}

/-- A bare key is not the quoted form of any key. -/
theorem ne_quote_of_isIdentifier (h_identifier : Name.isIdentifier key = true) :
    key ≠ Json.quote other := by
  intro h_same
  have h_quote : '"' ∈ key.toList := by
    rw [h_same, Json.quote, String.toList_ofList]
    exact List.mem_cons_self
  exact (Name.isWord_of_isIdentifier h_identifier).not_mem (by decide) h_quote

/-- Different keys are written differently. -/
theorem propertyKey_injective : Function.Injective propertyKey := by
  intro key other h_same
  unfold propertyKey at h_same
  split at h_same
  · next h_key =>
    split at h_same
    · exact h_same
    · exact absurd h_same (ne_quote_of_isIdentifier h_key)
  · split at h_same
    · next h_other => exact absurd h_same.symm (ne_quote_of_isIdentifier h_other)
    · exact Json.quote_injective h_same

/-- No key is written with a character below the space. -/
theorem le_code_of_mem_propertyKey (h_mem : c ∈ (propertyKey key).toList) : 32 ≤ c.toNat := by
  unfold propertyKey at h_mem
  split at h_mem
  · next h_identifier =>
    have h_inside := (Name.isWord_of_isIdentifier h_identifier).inside c h_mem
    have h_code := Name.toNat_of_inIdentifier h_inside
    omega
  · exact Json.le_code_of_mem_quote h_mem

/-- No key is written as nothing. -/
theorem toList_propertyKey_ne_nil (key : String) : (propertyKey key).toList ≠ [] := by
  -- an identifier has a character, and anything else has quotation marks
  unfold propertyKey
  split
  · next h_identifier => exact (Name.isWord_of_isIdentifier h_identifier).ne_nil
  · simp [Json.quote]

/-- A key is written on one line. -/
theorem lines_propertyKey (key : String) : Text.lines (propertyKey key) = [propertyKey key] := by
  have h_flat : '\n' ∉ (propertyKey key).toList :=
    fun h_mem => absurd (le_code_of_mem_propertyKey h_mem) (by decide)
  have h_pieces : Text.Chars.pieces (· == '\n') (propertyKey key).toList =
      [(propertyKey key).toList] := by
    refine Name.pieces_of_forall fun c h_mem => ?_
    rw [beq_eq_false_iff_ne]
    rintro rfl
    exact h_flat h_mem
  have h_some : (propertyKey key).toList.isEmpty = false :=
    List.isEmpty_eq_false_iff.mpr (toList_propertyKey_ne_nil key)
  rw [Text.lines, h_pieces, Text.linesOfPieces, h_some]
  simp

end OpenApiTs.TypeScript
