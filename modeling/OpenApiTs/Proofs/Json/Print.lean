/-
  OpenApiTs.Proofs.Json.Print

  Compact texts stand on one line: numbers are made of digits and signs, and between quotes line
  feeds are escaped.
-/
import OpenApiTs.Proofs.Json.Quoted
import OpenApiTs.Proofs.Text.Contains

namespace OpenApiTs

/-! ## Numbers -/

namespace Number

/-- The characters of numbers. -/
def isNumeric (c : Char) : Bool := c.isDigit || ['.', 'e', '+', '-'].contains c

theorem ne_newline_of_isNumeric {c : Char} (h_numeric : isNumeric c = true) : c ≠ '\n' := by
  rintro rfl
  exact absurd h_numeric (by decide)

theorem isNumeric_of_mem_toDigits {n : Nat} {c : Char} (h_mem : c ∈ Nat.toDigits 10 n) :
    isNumeric c = true := by
  have h_digit := Nat.isDigit_of_mem_toDigits (by decide) (by decide) h_mem
  rw [isNumeric, h_digit, Bool.true_or]

/-- A point among digits, or zeros and a point behind them. -/
theorem isNumeric_of_mem_pointAfter {digits : List Char} {whole : Nat}
    (h_digits : ∀ c ∈ digits, isNumeric c = true) :
    ∀ c ∈ pointAfter digits whole, isNumeric c = true := by
  intro c h_mem
  unfold pointAfter at h_mem
  split at h_mem
  · simp only [List.mem_append, List.mem_replicate, List.mem_cons, List.not_mem_nil,
      or_false] at h_mem
    rcases h_mem with (h_mem | ⟨-, rfl⟩) | rfl | rfl
    · exact h_digits c h_mem
    all_goals rfl
  · simp only [List.mem_append, List.mem_cons] at h_mem
    rcases h_mem with h_mem | rfl | h_mem
    · exact h_digits c (List.mem_of_mem_take h_mem)
    · rfl
    · exact h_digits c (List.mem_of_mem_drop h_mem)

/-- A decimal is written with characters of numbers only, in each of its forms. -/
theorem isNumeric_of_mem_decimal (d : Decimal) : ∀ c ∈ d.chars, isNumeric c = true := by
  have h_digits : ∀ c ∈ Nat.toDigits 10 d.digits, isNumeric c = true :=
    fun c h_mem => isNumeric_of_mem_toDigits h_mem
  intro c h_mem
  unfold Decimal.chars at h_mem
  simp only at h_mem
  split at h_mem
  · exact isNumeric_of_mem_pointAfter h_digits c h_mem
  · split at h_mem
    · simp only [List.mem_cons, List.mem_append, List.mem_replicate] at h_mem
      rcases h_mem with rfl | rfl | ⟨-, rfl⟩ | h_mem
      · rfl
      · rfl
      · rfl
      · exact h_digits c h_mem
    · -- the digits with a point among them, then the exponent with its sign
      rw [List.mem_append] at h_mem
      rcases h_mem with h_mem | h_mem
      · split at h_mem
        · cases h_mem
        · next h_single => exact h_digits c (h_single ▸ h_mem)
        · next first others h_several =>
          rw [h_several] at h_digits
          simp only [List.mem_cons] at h_mem h_digits
          rcases h_mem with rfl | rfl | h_mem
          · exact h_digits c (.inl rfl)
          · rfl
          · exact h_digits c (.inr h_mem)
      · simp only [List.mem_cons] at h_mem
        rcases h_mem with rfl | h_sign | h_mem
        · rfl
        · split at h_sign <;> (rw [h_sign]; rfl)
        · exact isNumeric_of_mem_toDigits h_mem

theorem isNumeric_of_mem_print (value : Value) : ∀ c ∈ value.print.toList, isNumeric c = true := by
  intro c h_mem
  cases value with
  | whole value =>
    rw [Value.print, String.toList_ofList] at h_mem
    -- a sign is written in front of a number below zero
    split at h_mem
    · rcases List.mem_cons.mp h_mem with rfl | h_mem
      · rfl
      · exact isNumeric_of_mem_toDigits h_mem
    · exact isNumeric_of_mem_toDigits h_mem
  | double value =>
    rw [Value.print, String.toList_ofList, Binary64.chars, List.mem_append] at h_mem
    rcases h_mem with h_sign | h_mem
    · split at h_sign
      · rw [List.mem_singleton.mp h_sign]
        rfl
      · cases h_sign
    · split at h_mem
      · -- zero is written on its own, with the sign that it has
        have h_zero : ∀ c ∈ ['0', '.', '0'], isNumeric c = true := by decide
        exact h_zero c h_mem
      · exact isNumeric_of_mem_decimal _ _ h_mem

/-- A number is written in one line. -/
theorem newline_not_mem_print (value : Value) : '\n' ∉ value.print.toList :=
  fun h_mem => ne_newline_of_isNumeric (isNumeric_of_mem_print value _ h_mem) rfl

end Number

/-! ## Texts -/

namespace Json

/-- Between quotes there is no character below the space. -/
theorem le_code_of_mem_escape {c own : Char} (h_mem : own ∈ escape c) : 32 ≤ own.toNat := by
  rcases escape_cases c with ⟨h_escape, -, -, h_large⟩ | ⟨code, h_escape, h_code⟩
  · rw [h_escape, List.mem_singleton] at h_mem
    rw [h_mem]
    exact h_large
  · rw [h_escape] at h_mem
    rcases List.mem_cons.mp h_mem with rfl | h_mem
    · decide
    · exact (h_code.plain own h_mem).1

theorem le_code_of_mem_quote {text : String} {c : Char} (h_mem : c ∈ (quote text).toList) :
    32 ≤ c.toNat := by
  rw [quote, String.toList_ofList] at h_mem
  rcases List.mem_append.mp h_mem with h_mem | h_mem
  · rcases List.mem_cons.mp h_mem with rfl | h_mem
    · decide
    · obtain ⟨own, -, h_escape⟩ := List.mem_flatMap.mp h_mem
      exact le_code_of_mem_escape h_escape
  · rw [List.mem_singleton.mp h_mem]
    decide

/-- So is a quoted text, since quoting escapes what is below the blank. -/
theorem newline_not_mem_quote (text : String) : '\n' ∉ (quote text).toList :=
  fun h_mem => absurd (le_code_of_mem_quote h_mem) (by decide)

end Json

end OpenApiTs
