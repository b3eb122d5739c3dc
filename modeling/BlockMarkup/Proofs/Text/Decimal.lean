import BlockMarkup.Proofs.Text.Trim
import BlockMarkup.Text.Decimal

/-!
# Numerals and their values

A numeral is one or more digits, perhaps with a plus sign in front, and its
value is that of the digits in base ten. Neither knows of machine words. Reading
looks after every digit whether the value so far still fits in one. As a value
never falls when digits are added, a numeral gets past all of these looks
exactly if its value fits in the end, and leading zeros do not count.

Numbers are written as numerals, so reading gives a written number back.
-/

namespace BlockMarkup.Decimal

/-- Whether a text is a numeral with that value. -/
def Denotes (text : Text) (value : Nat) : Prop :=
  ∃ sign digits, text = sign ++ digits ∧ (sign = [] ∨ sign = ['+']) ∧ digits ≠ [] ∧
    (∀ c ∈ digits, c.isDigit = true) ∧ Nat.ofDigitChars 10 digits 0 = value

/-! ## Reading -/

/-- Digits that follow a value do not make it less. -/
theorem le_ofDigitChars (digits : Text) (value : Nat) :
    value ≤ Nat.ofDigitChars 10 digits value := by
  induction digits generalizing value with
  | nil => exact Nat.le_of_eq Nat.ofDigitChars_nil.symm
  | cons c rest hypothesis =>
    have later := hypothesis (10 * value + (c.toNat - '0'.toNat))
    rw [Nat.ofDigitChars_cons]
    omega

/-- The remaining digits are read exactly if they are digits and all of the value
    fits. The induction is on the digits; the value so far fits at each of them,
    and if it would not at the next, it does not in the end either. -/
theorem readDigits_eq_ok_iff (digits : Text) {value : Nat} (word : value < wordLimit)
    (total : Nat) :
    readDigits value digits = .ok total ↔
      (∀ c ∈ digits, c.isDigit = true) ∧ Nat.ofDigitChars 10 digits value = total ∧
        total < wordLimit := by
  induction digits generalizing value with
  | nil =>
    rw [readDigits, Nat.ofDigitChars_nil, Except.ok.injEq]
    constructor
    · rintro rfl
      exact ⟨by simp, rfl, word⟩
    · rintro ⟨_, same, _⟩
      exact same
  | cons c rest hypothesis =>
    rw [readDigits, Nat.ofDigitChars_cons, List.forall_mem_cons]
    by_cases digit : c.isDigit = true
    · have next := le_ofDigitChars rest (10 * value + (c.toNat - '0'.toNat))
      rw [if_pos digit]
      by_cases fits : 10 * value + (c.toNat - '0'.toNat) < wordLimit
      · simp only [if_pos fits, hypothesis fits, digit, true_and]
      · simp only [if_neg fits, reduceCtorEq, false_iff]
        rintro ⟨_, rfl, short⟩
        omega
    · simp [digit]

/-- A digit is no plus sign. -/
theorem ne_plus_of_isDigit {c : Char} (digit : c.isDigit = true) : c ≠ '+' := by
  rintro rfl
  revert digit
  decide

/-- Without a plus sign in front, reading is reading digits. -/
theorem read_of_ne_plus {c : Char} (unsigned : c ≠ '+') (rest : Text) :
    read (c :: rest) = readDigits 0 (c :: rest) := by
  rw [read] <;> simp [unsigned]

/-- Behind a plus sign digits are read, if anything stands there. -/
theorem read_plus {digits : Text} (filled : digits ≠ []) :
    read ('+' :: digits) = readDigits 0 digits := by
  rw [read]
  exact filled

/-- A text is read exactly if it is a numeral and its value fits. -/
theorem read_eq_ok_iff (text : Text) (value : Nat) :
    read text = .ok value ↔ Denotes text value ∧ value < wordLimit := by
  have word : 0 < wordLimit := by decide
  constructor
  · intro accepted
    cases text with
    | nil => cases accepted
    | cons c rest =>
      by_cases plus : c = '+'
      · subst plus
        by_cases filled : rest = []
        · subst filled
          cases accepted
        · rw [read_plus filled, readDigits_eq_ok_iff rest word] at accepted
          obtain ⟨allDigits, same, fits⟩ := accepted
          exact ⟨⟨['+'], rest, rfl, Or.inr rfl, filled, allDigits, same⟩, fits⟩
      · rw [read_of_ne_plus plus, readDigits_eq_ok_iff (c :: rest) word] at accepted
        obtain ⟨allDigits, same, fits⟩ := accepted
        exact ⟨⟨[], c :: rest, rfl, Or.inl rfl, List.cons_ne_nil c rest, allDigits, same⟩, fits⟩
  · rintro ⟨⟨sign, digits, rfl, signed, filled, allDigits, same⟩, fits⟩
    have taken := (readDigits_eq_ok_iff digits word value).mpr ⟨allDigits, same, fits⟩
    rcases signed with rfl | rfl
    · obtain ⟨c, rest, rfl⟩ := List.exists_cons_of_ne_nil filled
      have unsigned := ne_plus_of_isDigit (allDigits c List.mem_cons_self)
      rwa [List.nil_append, read_of_ne_plus unsigned]
    · rwa [List.singleton_append, read_plus filled]

/-- Leading zeros do not count, and the largest machine word is still read. -/
example : read "+0018446744073709551615".toList = .ok (wordLimit - 1) ∧
    read "18446744073709551616".toList = .error .overflow :=
  ⟨rfl, rfl⟩

/-! ## Writing -/

/-- The digits of a number are digits of ASCII. -/
theorem isDigit_of_mem_digits {n : Nat} {c : Char} (member : c ∈ digits n) : c.isDigit = true :=
  Nat.isDigit_of_mem_toDigits (by decide) (by decide) member

/-- A number is written as a numeral of its value. -/
theorem denotes_digits (n : Nat) : Denotes (digits n) n :=
  ⟨[], digits n, rfl, Or.inl rfl, Nat.toDigits_ne_nil, fun _ => isDigit_of_mem_digits,
    Nat.ofDigitChars_ten_toDigits⟩

/-- Digits are word characters, so nothing is trimmed off a written number. -/
theorem trim_digits (n : Nat) : Text.trim (digits n) = digits n := by
  have unbroken : ∀ c ∈ digits n, isBlank c = false := by
    intro c member
    apply isBlank_of_isWord
    simp [isWord, Char.isAlphanum, isDigit_of_mem_digits member]
  have found : Text.trim ([] ++ (digits n ++ [])) = digits n :=
    Text.trim_unbroken rfl rfl Nat.toDigits_ne_nil unbroken
  rwa [List.nil_append, List.append_nil] at found

end BlockMarkup.Decimal
