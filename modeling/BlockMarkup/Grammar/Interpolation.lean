import BlockMarkup.Span
import BlockMarkup.Text.Blank

/-!
# Interpolations

A variable is read into a text by its name in double braces. The name has at
least one character and neither blanks nor braces.

Whether an interpolation begins at a place depends on what follows it and on
nothing before it. The scan goes from left to right and passes over what it has
found, so it never reports two interpolations that overlap.
-/

namespace BlockMarkup

/-- Whether a character may stand in the name of an interpolated variable. -/
def isVariableChar (c : Char) : Bool :=
  !(isBlank c || c == '{' || c == '}')

/-- An interpolated name and the byte offset at which the name begins. -/
structure Interpolation where
  name : Text
  offset : Nat
deriving DecidableEq

namespace Interpolation

/-- The name, if an interpolation begins the text. -/
def nameAtStart? : Text → Option Text
  | '{' :: '{' :: rest =>
    match rest.takeWhile isVariableChar, rest.dropWhile isVariableChar with
    | [], _ => none
    | name, '}' :: '}' :: _ => some name
    | _, _ => none
  | _ => none

/-- Scans a text that begins at the byte offset, after passing over `skip`
    characters of it. The opening braces before a name and the closing braces
    after it are passed over with the name. -/
def scanFrom : Nat → Nat → Text → List Interpolation
  | _, _, [] => []
  | offset, skip + 1, c :: rest => scanFrom (offset + c.utf8Size) skip rest
  | offset, 0, c :: rest =>
    match nameAtStart? (c :: rest) with
    | some name => ⟨name, offset + 2⟩ :: scanFrom (offset + c.utf8Size) (name.length + 3) rest
    | none => scanFrom (offset + c.utf8Size) 0 rest

/-- The interpolations of a text, from left to right. -/
def scan (text : Text) : List Interpolation :=
  scanFrom 0 0 text

/-- Where the name stands in the text. -/
def nameSpan (interpolation : Interpolation) : Span :=
  Span.ofLength interpolation.offset (Text.size interpolation.name)

/-- Where the name and its braces stand in the text. -/
def wholeSpan (interpolation : Interpolation) : Span :=
  ⟨interpolation.offset - 2, interpolation.nameSpan.stop + 2⟩

end Interpolation

end BlockMarkup
