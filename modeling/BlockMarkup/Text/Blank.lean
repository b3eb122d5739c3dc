import BlockMarkup.Text.Measure

/-!
# Blank characters and trimming

Blank characters are those with the Unicode property `White_Space`: the control
characters from tab to carriage return, the next-line control, the line and
paragraph separators, and every space separator. Zero-width characters are not
blank. The same class serves the line grammar, trimming and the search for
stray text.
-/

namespace BlockMarkup

/-- The code points with the property `White_Space`, as inclusive ranges. -/
def blankRanges : List (Nat × Nat) :=
  [(0x09, 0x0D), (0x20, 0x20), (0x85, 0x85), (0xA0, 0xA0), (0x1680, 0x1680), (0x2000, 0x200A),
    (0x2028, 0x2029), (0x202F, 0x202F), (0x205F, 0x205F), (0x3000, 0x3000)]

/-- Whether a character is white space. -/
def isBlank (c : Char) : Bool :=
  blankRanges.any fun (low, high) => low ≤ c.toNat && c.toNat ≤ high

namespace Text

/-- A text without its leading blanks. -/
def trimStart (text : Text) : Text :=
  text.dropWhile isBlank

/-- A text without its trailing blanks. -/
def trimEnd (text : Text) : Text :=
  (text.reverse.dropWhile isBlank).reverse

/-- A text without its leading and trailing blanks. -/
def trim (text : Text) : Text :=
  trimEnd (trimStart text)

/-- The blanks that a text begins with. -/
def leadingBlanks (text : Text) : Text :=
  text.takeWhile isBlank

/-- Whether a text has nothing but blanks. -/
def allBlank (text : Text) : Bool :=
  text.all isBlank

/-- The leading blanks and the rest make up the text. -/
theorem leadingBlanks_append_trimStart (text : Text) :
    leadingBlanks text ++ trimStart text = text :=
  List.takeWhile_append_dropWhile

end Text

/-- The blanks of ASCII are blank here too. -/
theorem isBlank_of_isWhitespace {c : Char} (white : c.isWhitespace = true) : isBlank c = true := by
  simp only [Char.isWhitespace, Bool.or_eq_true, decide_eq_true_eq] at white
  rcases white with ((rfl | rfl) | rfl) | rfl <;> decide

end BlockMarkup
