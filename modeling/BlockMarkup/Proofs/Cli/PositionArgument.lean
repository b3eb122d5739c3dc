import Mathlib.Data.List.TakeDrop
import BlockMarkup.Cli.PositionArgument
import BlockMarkup.Proofs.Text.Decimal

/-!
# Positions read from an argument

An argument is a position exactly if its first colon stands between two
numerals of machine words, blanks around either left aside. A second colon then
stands in the column, where it is no digit. The written form of a position has
digits before its colon and behind it, so it is such an argument, and it is read
as the position it was written for.
-/

namespace BlockMarkup

/-- A text is parted at its first colon. -/
theorem splitAtColon?_eq_some_iff (text before after : Text) :
    splitAtColon? text = some (before, after) ↔ text = before ++ ':' :: after ∧ ':' ∉ before := by
  simp only [splitAtColon?, List.span_eq_takeWhile_dropWhile]
  constructor
  · intro found
    split at found
    · next front back parts =>
      obtain ⟨rfl, rfl⟩ := Prod.mk.inj (Option.some.inj found)
      obtain ⟨taken, left⟩ := Prod.mk.inj parts
      refine ⟨?_, ?_⟩
      · rw [← taken, ← left, List.takeWhile_append_dropWhile]
      · intro member
        rw [← taken] at member
        simpa using List.all_eq_true.mp List.all_takeWhile _ member
    · cases found
  · rintro ⟨rfl, absent⟩
    have kind : before.all (· != ':') = true := by
      rw [List.all_eq_true]
      intro c member
      rw [bne_iff_ne]
      rintro rfl
      exact absent member
    have stops : ∀ c, (':' :: after).head? = some c → (c != ':') = false := by
      rintro c ⟨⟩
      rfl
    rw [Text.takeWhile_run kind stops, Text.dropWhile_run kind stops]
    rfl

/-- Whether an argument is parted at its first colon into the numerals of a
    position of machine words, blanks around either left aside. -/
structure PartsPosition (given line character : Text) (p : Position) : Prop where
  colon : given = line ++ ':' :: character
  firstColon : ':' ∉ line
  line : Decimal.Denotes (Text.trim line) p.line
  lineWord : p.line < wordLimit
  character : Decimal.Denotes (Text.trim character) p.character
  characterWord : p.character < wordLimit

namespace Position

/-- A position is read exactly from the arguments that are parted into its
    numerals. -/
theorem ofArgument_eq_ok_iff (given : Text) (p : Position) :
    ofArgument given = .ok p ↔ ∃ line character, PartsPosition given line character p := by
  constructor
  · intro accepted
    unfold ofArgument at accepted
    split at accepted
    · cases accepted
    · next line character parted =>
      obtain ⟨colon, firstColon⟩ := (splitAtColon?_eq_some_iff _ _ _).mp parted
      split at accepted
      · cases accepted
      · next lineValue lineRead =>
        obtain ⟨lineNumeral, lineWord⟩ := (Decimal.read_eq_ok_iff _ _).mp lineRead
        split at accepted
        · cases accepted
        · next characterValue characterRead =>
          obtain ⟨numeral, word⟩ := (Decimal.read_eq_ok_iff _ _).mp characterRead
          cases accepted
          exact ⟨line, character, colon, firstColon, lineNumeral, lineWord, numeral, word⟩
  · rintro ⟨line, character, parts⟩
    have parted := (splitAtColon?_eq_some_iff _ _ _).mpr ⟨parts.colon, parts.firstColon⟩
    have lineRead : readTrimmed line = .ok p.line :=
      (Decimal.read_eq_ok_iff _ _).mpr ⟨parts.line, parts.lineWord⟩
    have characterRead : readTrimmed character = .ok p.character :=
      (Decimal.read_eq_ok_iff _ _).mpr ⟨parts.character, parts.characterWord⟩
    simp only [ofArgument, parted, lineRead, characterRead]

/-- The written form of a position is parted into its numerals. -/
theorem partsPosition_render {p : Position} (line : p.line < wordLimit)
    (character : p.character < wordLimit) :
    PartsPosition p.render (Decimal.digits p.line) (Decimal.digits p.character) p where
  colon := rfl
  firstColon := by
    intro member
    have digit := Decimal.isDigit_of_mem_digits member
    revert digit
    decide
  line := by
    rw [Decimal.trim_digits]
    exact Decimal.denotes_digits p.line
  lineWord := line
  character := by
    rw [Decimal.trim_digits]
    exact Decimal.denotes_digits p.character
  characterWord := character

/-- An argument is a position exactly if its first colon stands between the
    numerals of that position, and every position of machine words is read from
    its written form. -/
theorem ofArgument_by_numerals :
    (∀ given p, ofArgument given = .ok p ↔
      ∃ line character, PartsPosition given line character p) ∧
    ∀ p : Position, p.line < wordLimit → p.character < wordLimit → ofArgument p.render = .ok p := by
  refine ⟨ofArgument_eq_ok_iff, ?_⟩
  intro p line character
  exact (ofArgument_eq_ok_iff _ _).mpr ⟨_, _, partsPosition_render line character⟩

/-- A line with blanks, a sign and leading zeros, and the largest column; and a
    position of two largest machine words. -/
theorem ofArgument_by_numerals_largest :
    ofArgument "\u3000+007 :18446744073709551615".toList = .ok ⟨7, wordLimit - 1⟩ ∧
      wordLimit - 1 < wordLimit ∧
      ofArgument (Position.mk (wordLimit - 1) (wordLimit - 1)).render =
        .ok ⟨wordLimit - 1, wordLimit - 1⟩ := by
  obtain ⟨accepts, inverse⟩ := ofArgument_by_numerals
  have word : wordLimit - 1 < wordLimit := by decide
  have sevenDigits : "007".toList.all Char.isDigit = true := by decide
  have largestDigits : "18446744073709551615".toList.all Char.isDigit = true := by decide
  refine ⟨(accepts _ _).mpr ⟨"\u3000+007 ".toList, "18446744073709551615".toList, ?_⟩, word,
    inverse ⟨wordLimit - 1, wordLimit - 1⟩ word word⟩
  exact
    { colon := by decide
      firstColon := by decide
      line := ⟨['+'], "007".toList, by decide, Or.inr rfl, by decide,
        List.all_eq_true.mp sevenDigits, rfl⟩
      lineWord := by decide
      character := ⟨[], "18446744073709551615".toList, by decide, Or.inl rfl, by decide,
        List.all_eq_true.mp largestDigits, rfl⟩
      characterWord := word }

end Position

end BlockMarkup
