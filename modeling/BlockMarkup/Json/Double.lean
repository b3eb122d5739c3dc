import BlockMarkup.Text.Decimal

/-!
# Numbers in double precision

A numeral that is no machine word stands for a number in double precision. It is
taken in three steps: the leading digits, as many as fit in a machine word; the
number they stand for, rounded; and that number times a power of ten, rounded
again. Because of the two roundings a numeral slightly below the greatest number
of double precision may already be too large.

A power of ten with a negative exponent makes the number smaller, and the leading
digits alone are never too large. So only natural numbers are rounded here.
-/

namespace BlockMarkup.Double

/-- How many leading bits of a number are kept. -/
def precision : Nat := 53

/-- The least power of two that is too large. -/
def limit : Nat := Nat.pow 2 1024

/-- The greatest exponent of a power of ten that is not too large. -/
def greatestExponent : Nat := 308

/-- The nearest number of which only the leading bits are set, and of two that are
    as near the one with the even bits. -/
def round (n : Nat) : Nat :=
  let unit := Nat.pow 2 (n.log2 + 1 - precision)
  let bits := n / unit
  let twice := 2 * (n % unit)
  if unit < twice ∨ unit = twice ∧ bits % 2 = 1 then (bits + 1) * unit else bits * unit

/-- Goes on with the digits of a number as long as it fits in a machine word, and
    counts the digits that are left out. -/
def takeDigits : Nat → Text → Nat × Nat
  | value, [] => (value, 0)
  | value, c :: rest =>
    let next := 10 * value + (c.toNat - '0'.toNat)
    if next < wordLimit then takeDigits next rest else (value, rest.length + 1)

/-- The leading digits of a numeral and the power of ten they are counted in. -/
structure Scaled where
  significand : Nat
  exponent : Int
deriving DecidableEq

/-- The leading digits of a numeral that is given by its digits before and after
    the point and its exponent. If digits before the point are left out, one after
    it may still fit. -/
def Scaled.ofDigits (whole fraction : Text) (exponent : Int) : Scaled :=
  let (upper, wholeLeft) := takeDigits 0 whole
  let (significand, fractionLeft) := takeDigits upper fraction
  ⟨significand, exponent + wholeLeft - (fraction.length - fractionLeft : Nat)⟩

/-- Whether a number is too large for double precision. -/
def Scaled.isTooLarge (number : Scaled) : Bool :=
  match number.exponent with
  | .negSucc _ => false
  | .ofNat exponent =>
    number.significand != 0 &&
      (greatestExponent < exponent ||
        limit ≤ round (round number.significand * round (Nat.pow 10 exponent)))

end BlockMarkup.Double
