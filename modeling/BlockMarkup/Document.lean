import BlockMarkup.Document.Line
import BlockMarkup.Document.PartitionPoint
import BlockMarkup.Range

/-!
# Documents

A document is a text together with its line index: the lines, and the byte
offset at which each begins. The index is fixed by the text, so two documents
with one text are one document.

Positions given to a document may be anything. A line beyond the last stands
for the end of the text, a column beyond the end of a line for the end of that
line, and a column inside a character for the start of that character.
Positions that a document gives out are always on it. An offset inside a
carriage return and line feed pair is at the end of its line.
-/

namespace BlockMarkup

/-- A text and its line index. -/
structure Document where
  text : Text
  lines : List Line
  starts : Array Nat
  lines_eq : lines = Line.split text
  starts_eq : starts = (Line.starts 0 lines).toArray

/-- A request for a line that the document does not have. -/
structure LineOutOfRange where
  index : Nat
  lineCount : Nat
deriving DecidableEq

/-- The wording of a refused line. -/
def LineOutOfRange.message (refusal : LineOutOfRange) : String :=
  "Line index " ++ String.ofList (Decimal.digits refusal.index) ++
    " is out of range for a document with " ++
    String.ofList (Decimal.digits refusal.lineCount) ++ " lines"

namespace Document

/-- The document of a text. -/
def ofText (text : Text) : Document where
  text := text
  lines := Line.split text
  starts := (Line.starts 0 (Line.split text)).toArray
  lines_eq := rfl
  starts_eq := rfl

/-- The number of lines. -/
def lineCount (document : Document) : Nat :=
  document.lines.length

/-- The number of bytes in the text. -/
def size (document : Document) : Nat :=
  Text.size document.text

/-- A line, if the document has it. -/
def lineAt (document : Document) (index : Nat) : Except LineOutOfRange Line :=
  match document.lines[index]? with
  | some line => .ok line
  | none => .error ⟨index, document.lineCount⟩

/-- The contents of the lines from an index on. -/
def contentsFrom (document : Document) (index : Nat) : List Text :=
  (document.lines.drop index).map Line.content

/-- The range of the content of a line. -/
def lineRange (document : Document) (index : Nat) : Except LineOutOfRange Range := do
  let line ← document.lineAt index
  return Range.ofLength index 0 line.length

/-- The length of a line, or zero for a line that is not there. -/
def lengthAt (document : Document) (index : Nat) : Nat :=
  match document.lines[index]? with
  | some line => line.length
  | none => 0

/-- The position right after the last character. -/
def endPosition (document : Document) : Position :=
  ⟨document.lineCount - 1, document.lengthAt (document.lineCount - 1)⟩

/-- From the first character to the last. -/
def fullRange (document : Document) : Checked Range :=
  Range.between Position.origin document.endPosition

/-- The byte offset of a position. -/
def offsetOf (document : Document) (p : Position) : Nat :=
  match document.lines[p.line]?, document.starts[p.line]? with
  | some line, some start => start + Text.floorBoundary line.content p.character
  | _, _ => document.size

/-- The text that a range covers; a range in reverse covers nothing. -/
def textIn (document : Document) (range : Range) : Text :=
  let start := document.offsetOf range.start
  let stop := document.offsetOf range.stop
  if stop ≤ start then [] else Text.between document.text start stop

/-- The position a number of bytes after another, if the document reaches that
    far. The line is the last one that begins at or before the target. -/
def positionAfter (document : Document) (start : Position) (offset : Nat) : Option Position :=
  let target := document.offsetOf start + offset
  if wordLimit ≤ target then none
  else if document.size < target then none
  else
    let index := partitionPoint (fun lineStart => lineStart ≤ target) document.starts - 1
    let lineStart := document.starts[index]?.getD 0
    some ⟨index, min (target - lineStart) (document.lengthAt index)⟩

/-- The position of a byte offset. -/
def positionAt (document : Document) (offset : Nat) : Option Position :=
  document.positionAfter Position.origin offset

/-- The number of lines that end with the given break. -/
def countBreaks (document : Document) (lineBreak : LineBreak) : Nat :=
  document.lines.countP fun line => line.ending == some lineBreak

/-- The break after most lines. A tie goes to the line feed, and a document of
    one line has none. -/
def mostUsedBreak (document : Document) : Option LineBreak :=
  if document.lineCount < 2 then none
  else if document.countBreaks .lf < document.countBreaks .crlf then some .crlf
  else some .lf

/-- The lines of a document make up its text. -/
theorem joined_lines (document : Document) : Line.joined document.lines = document.text := by
  rw [document.lines_eq, Line.joined_split]

/-- There is one start for each line. -/
theorem size_starts (document : Document) : document.starts.size = document.lineCount := by
  rw [document.starts_eq]
  simp [lineCount]

/-- The text fixes the document. -/
theorem eq_ofText (document : Document) : document = ofText document.text := by
  obtain ⟨text, lines, starts, lines_eq, starts_eq⟩ := document
  subst lines_eq
  subst starts_eq
  rfl

end Document

end BlockMarkup
