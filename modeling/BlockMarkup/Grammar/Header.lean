import BlockMarkup.Range
import BlockMarkup.Span
import BlockMarkup.Text.Blank
import BlockMarkup.Text.Word

/-!
# Header lines

A block is opened by a line that has a name and an opening bracket and nothing
else but blanks. A name is one or more word characters, hyphens and colons.

A header line falls into five pieces in one way only: blanks, the name, blanks,
the bracket, blanks. `HeaderLine.text_of_read?` says that the pieces are the
line.
-/

namespace BlockMarkup

/-- The bracket that opens a block: curly for dictionaries and texts, square for
    arrays. -/
inductive Bracket where
  | curly
  | square
deriving DecidableEq

namespace Bracket

/-- The character that opens a block. -/
def opening : Bracket → Char
  | .curly => '{'
  | .square => '['

/-- The character that closes a block. -/
def closing : Bracket → Char
  | .curly => '}'
  | .square => ']'

/-- The bracket that a character opens. -/
def ofOpening? (c : Char) : Option Bracket :=
  if c = '{' then some .curly
  else if c = '[' then some .square
  else none

/-- A bracket is opened by the character that it was found by. -/
theorem opening_of_ofOpening? {c : Char} {bracket : Bracket}
    (opened : ofOpening? c = some bracket) : bracket.opening = c := by
  simp only [ofOpening?] at opened
  split at opened
  · cases opened; simp_all [opening]
  · split at opened
    · cases opened; simp_all [opening]
    · cases opened

end Bracket

/-- Whether a character may stand in the name of a block. -/
def isNameChar (c : Char) : Bool :=
  isWord c || c == '-' || c == ':'

/-- Whether a text is the name of a block. -/
def isBlockName (name : Text) : Bool :=
  !name.isEmpty && name.all isNameChar

/-- Whether a text is one character, blanks around it left aside. -/
def isLone (c : Char) (text : Text) : Bool :=
  Text.trim text == [c]

/-- The pieces of a header line, the bracket standing between `gap` and
    `trail`. -/
structure HeaderLine where
  lead : Text
  name : Text
  gap : Text
  bracket : Bracket
  trail : Text
deriving DecidableEq

namespace HeaderLine

/-- The line that the pieces make up. -/
def text (header : HeaderLine) : Text :=
  header.lead ++ header.name ++ header.gap ++ header.bracket.opening :: header.trail

/-- Takes a header line apart. -/
def read? (line : Text) : Option HeaderLine :=
  let body := Text.trimStart line
  let afterName := body.dropWhile isNameChar
  match body.takeWhile isNameChar, Text.trimStart afterName with
  | [], _ => none
  | _, [] => none
  | name, c :: trail =>
    if Text.allBlank trail then
      (Bracket.ofOpening? c).map fun bracket =>
        ⟨Text.leadingBlanks line, name, Text.leadingBlanks afterName, bracket, trail⟩
    else
      none

/-- Where the name stands in the line. -/
def nameSpan (header : HeaderLine) : Span :=
  Span.ofLength (Text.size header.lead) (Text.size header.name)

/-- Where the bracket stands in the line. -/
def bracketSpan (header : HeaderLine) : Span :=
  Span.ofLength (Text.size header.lead + Text.size header.name + Text.size header.gap) 1

/-- The pieces of a header line are the line. -/
theorem text_of_read? {line : Text} {header : HeaderLine} (found : read? line = some header) :
    header.text = line := by
  simp only [read?] at found
  split at found
  · cases found
  · cases found
  · next c trail _ rest _ =>
    split at found
    · obtain ⟨bracket, opened, rfl⟩ := Option.map_eq_some_iff.mp found
      have bracketEq := Bracket.opening_of_ofOpening? opened
      have tail := Text.leadingBlanks_append_trimStart
        (List.dropWhile isNameChar (Text.trimStart line))
      rw [rest] at tail
      simp only [text, bracketEq]
      rw [List.append_assoc, List.append_assoc, tail, List.takeWhile_append_dropWhile]
      exact Text.leadingBlanks_append_trimStart line
    · cases found

end HeaderLine

/-- The line that opens a block: its name, where the name stands, and the
    bracket. -/
structure BlockHeader where
  name : Text
  nameRange : Range
  bracket : Bracket
deriving DecidableEq

namespace BlockHeader

/-- The index of the header line. -/
def line (header : BlockHeader) : Nat := header.nameRange.start.line

/-- The header that a line holds, the line standing at the index. -/
def ofLine? (content : Text) (index : Nat) : Option BlockHeader :=
  (HeaderLine.read? content).map fun header =>
    ⟨header.name, Range.ofLength index (Text.size header.lead) (Text.size header.name),
      header.bracket⟩

end BlockHeader

end BlockMarkup
