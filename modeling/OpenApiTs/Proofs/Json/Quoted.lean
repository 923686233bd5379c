/-
  OpenApiTs.Proofs.Json.Quoted

  Quoted texts read back. Each character stands as itself or as an escape that names it, and the
  reader can tell which from the first character of either; so no two texts are quoted alike.

  The induction goes over the text that is quoted, one unit of fuel for each of its characters.
-/
import OpenApiTs.Json.Print
import OpenApiTs.Json.Read

namespace OpenApiTs.Json

open OpenApiTs.Text (hexDigit hexValue?_hexDigit)

variable {c : Char} {rest : List Char} {fuel : Nat}

/-! ## Characters -/

/-- The four digits of the escape for a small character give its code. -/
theorem readUnit_digits {code : Nat} (h_small : code < 32) (rest : List Char) :
    readUnit ('0' :: '0' :: hexDigit (code / 16) :: hexDigit (code % 16) :: rest) =
      some (code, rest) := by
  have h_zero : Text.hexValue? '0' = some 0 := by decide
  have h_sum : 4096 * 0 + 256 * 0 + 16 * (code / 16) + code % 16 = code := by omega
  rw [readUnit, h_zero, hexValue?_hexDigit _ (by omega), hexValue?_hexDigit _ (by omega)]
  simp only [bind, Option.bind, pure, h_sum]

/-- What stands behind the backslash when a character is escaped: it names that character, and has
    no underscore and nothing below the space in it. -/
structure EscapeCode (c : Char) (code : List Char) : Prop where
  reads : ∀ rest, readEscape true (code ++ rest) = some (c, rest)
  plain : ∀ own ∈ code, 32 ≤ own.toNat ∧ own ≠ '_'

theorem EscapeCode.letter {letter : Char}
    (h_reads : ∀ rest, readEscape true (letter :: rest) = some (c, rest))
    (h_plain : 32 ≤ letter.toNat ∧ letter ≠ '_') : EscapeCode c [letter] :=
  ⟨h_reads, by simpa using h_plain⟩

/-- A character below the blank without a letter of its own is written with four digits. -/
theorem EscapeCode.digits (h_small : c.toNat < 32) :
    EscapeCode c ['u', '0', '0', hexDigit (c.toNat / 16), hexDigit (c.toNat % 16)] := by
  have h_digit : ∀ n < 16, 32 ≤ (hexDigit n).toNat ∧ hexDigit n ≠ '_' := by decide
  constructor
  · intro rest
    -- a code this small is no unit of a pair
    have h_high : ¬ 0xD800 ≤ c.toNat := by omega
    simp only [List.cons_append, List.nil_append, readEscape, readUnit_digits h_small,
      Option.bind_eq_bind, Option.bind_some, h_high, Char.ofNat_toNat, and_false, false_and,
      if_false]
  · simp only [List.forall_mem_cons]
    exact ⟨by decide, by decide, by decide, h_digit _ (by omega), h_digit _ (by omega), nofun⟩

/-- A character is quoted as itself, when it neither ends the text nor begins an escape nor is below
    the space, or else as an escape. -/
theorem escape_cases (c : Char) :
    (escape c = [c] ∧ c ≠ '"' ∧ c ≠ '\\' ∧ 32 ≤ c.toNat) ∨
      ∃ code, escape c = '\\' :: code ∧ EscapeCode c code := by
  by_cases h_quote : c = '"'
  · subst h_quote
    exact .inr ⟨['"'], rfl, .letter (fun rest => rfl) (by decide)⟩
  by_cases h_slash : c = '\\'
  · subst h_slash
    exact .inr ⟨['\\'], rfl, .letter (fun rest => rfl) (by decide)⟩
  by_cases h_feed : c = '\n'
  · subst h_feed
    exact .inr ⟨['n'], rfl, .letter (fun rest => rfl) (by decide)⟩
  by_cases h_return : c = '\r'
  · subst h_return
    exact .inr ⟨['r'], rfl, .letter (fun rest => rfl) (by decide)⟩
  by_cases h_tab : c = '\t'
  · subst h_tab
    exact .inr ⟨['t'], rfl, .letter (fun rest => rfl) (by decide)⟩
  have h_code := Char.ofNat_toNat c
  by_cases h_back : c.toNat = 8
  · rw [h_back] at h_code
    subst h_code
    exact .inr ⟨['b'], rfl, .letter (fun rest => rfl) (by decide)⟩
  by_cases h_form : c.toNat = 12
  · rw [h_form] at h_code
    subst h_code
    exact .inr ⟨['f'], rfl, .letter (fun rest => rfl) (by decide)⟩
  -- all that has a letter is behind us: digits below the blank, and itself above
  by_cases h_small : c.toNat < 32
  · refine .inr ⟨_, ?_, .digits h_small⟩
    simp [escape, h_quote, h_slash, h_feed, h_return, h_tab, h_back, h_form, h_small]
  · refine .inl ⟨?_, h_quote, h_slash, Nat.not_lt.mp h_small⟩
    simp [escape, h_quote, h_slash, h_feed, h_return, h_tab, h_back, h_form, h_small]

/-- The reader takes what stands for a character for that character. -/
theorem readQuoted_escape (c : Char) (fuel : Nat) (rest : List Char) :
    readQuoted (fuel + 1) (escape c ++ rest) =
      (readQuoted fuel rest).map fun read => (c :: read.1, read.2) := by
  rcases escape_cases c with ⟨h_escape, h_quote, h_slash, h_large⟩ | ⟨code, h_escape, h_code⟩
  · rw [h_escape, List.singleton_append, readQuoted, if_neg (Nat.not_lt.mpr h_large)]
    · cases readQuoted fuel rest <;> rfl
    · exact h_quote
    · exact h_slash
  · rw [h_escape, List.cons_append, readQuoted, h_code.reads]
    simp only [Option.bind_eq_bind, Option.bind_some]
    cases readQuoted fuel rest <;> rfl

/-! ## Texts -/

/-- Reading the escapes of a text gives the text back, given fuel for each of its characters. -/
theorem readQuoted_flatMap_escape (text rest : List Char) (h_fuel : text.length < fuel) :
    readQuoted fuel (text.flatMap escape ++ '"' :: rest) = some (text, rest) := by
  induction text generalizing fuel with
  | nil =>
    obtain ⟨fuel, rfl⟩ := Nat.exists_eq_succ_of_ne_zero (Nat.ne_of_gt h_fuel)
    rfl
  | cons c text ih =>
    obtain ⟨fuel, rfl⟩ := Nat.exists_eq_succ_of_ne_zero (Nat.ne_of_gt (Nat.zero_lt_of_lt h_fuel))
    rw [List.flatMap_cons, List.append_assoc, readQuoted_escape,
      ih (Nat.lt_of_succ_lt_succ h_fuel)]
    rfl

theorem length_le_length_flatMap_escape (text : List Char) :
    text.length ≤ (text.flatMap escape).length := by
  induction text with
  | nil => exact Nat.le_refl _
  | cons c text ih =>
    have h_some : 0 < (escape c).length := by
      rcases escape_cases c with ⟨h_escape, -⟩ | ⟨code, h_escape, -⟩ <;> simp [h_escape]
    rw [List.flatMap_cons, List.length_append, List.length_cons]
    omega

/-- What is written for a text reads back as that text. -/
theorem read_quote (text : String) : read (quote text) = some (.text text) := by
  have h_chars : (quote text).toList = '"' :: (text.toList.flatMap escape ++ ['"']) := by
    rw [quote, String.toList_ofList, List.cons_append]
  have h_fuel : text.toList.length < (quote text).toList.length := by
    have h_length := length_le_length_flatMap_escape text.toList
    rw [h_chars, List.length_cons, List.length_append]
    omega
  have h_value : readValue .json ((quote text).toList.length + 1) deepest (quote text).toList =
      (readQuoted (quote text).toList.length (text.toList.flatMap escape ++ ['"'])).map
        fun found => (.text (String.ofList found.1), found.2) := by
    -- the fuel is the length of the text that is read, so it is set apart before that is unfolded
    generalize (quote text).toList.length = fuel
    rw [h_chars]
    rfl
  rw [read, h_value, readQuoted_flatMap_escape text.toList [] h_fuel]
  simp

/-- Different texts are quoted differently. -/
theorem quote_injective : Function.Injective quote := by
  intro text other h_same
  have h_read := read_quote text
  rw [h_same, read_quote] at h_read
  simpa using h_read.symm

end OpenApiTs.Json
