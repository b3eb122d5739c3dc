import BlockMarkup.Text.Measure

/-!
# Decimal numerals of machine words

A machine word holds the numbers below `2 ^ 64`. Numbers are written in decimal
without leading zeros. Reading is more generous: leading zeros and one leading
plus sign are accepted. Of several mistakes in a numeral the leftmost is
reported, and a character that is no digit counts before the overflow that the
same character would cause.
-/

namespace BlockMarkup

/-- The first number that does not fit in a machine word. -/
def wordLimit : Nat := Nat.pow 2 64

namespace Decimal

/-- The digits of a number, most significant first. -/
def digits (n : Nat) : Text :=
  Nat.toDigits 10 n

/-- Why a text is no numeral of a machine word. -/
inductive Mistake where
  | empty
  | invalidDigit
  | overflow
deriving DecidableEq

/-- The wording of a mistake. -/
def Mistake.message : Mistake → String
  | .empty => "cannot parse integer from empty string"
  | .invalidDigit => "invalid digit found in string"
  | .overflow => "number too large to fit in target type"

/-- Reads the remaining digits of a numeral whose digits so far have the value
    `value`. -/
def readDigits : Nat → Text → Except Mistake Nat
  | value, [] => .ok value
  | value, c :: rest =>
    if c.isDigit then
      let next := 10 * value + (c.toNat - '0'.toNat)
      if next < wordLimit then readDigits next rest else .error .overflow
    else
      .error .invalidDigit

/-- Reads a numeral with an optional plus sign. -/
def read : Text → Except Mistake Nat
  | [] => .error .empty
  | ['+'] => .error .invalidDigit
  | '+' :: rest => readDigits 0 rest
  | text => readDigits 0 text

end Decimal

end BlockMarkup
