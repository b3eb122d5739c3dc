import BlockMarkup.Block.Unclosed
import BlockMarkup.Document

/-!
# Text blocks

A text block is closed by the line on which as many curly brackets have been
closed as were opened, the bracket of its header included. Every curly bracket
on every line counts. The content is the text of the lines before, as it
stands.
-/

namespace BlockMarkup

/-- The range of the lines from the first content line up to the closing line:
    empty and at the start of the closing line if there are none. -/
def Document.contentRange (document : Document) (firstLine closingLine : Nat) : Checked Range :=
  if closingLine ≤ firstLine then .ok (Range.emptyAt ⟨closingLine, 0⟩)
  else Range.between ⟨firstLine, 0⟩ ⟨closingLine - 1, document.lengthAt (closingLine - 1)⟩

namespace TextBlock

/-- The number of lines before the one that closes a block of that depth. -/
def linesBeforeEnd? : List Text → Int → Option Nat
  | [], _ => none
  | content :: rest, depth =>
    let deeper := depth + braceBalance content
    if deeper ≤ 0 then some 0 else (linesBeforeEnd? rest deeper).map (· + 1)

/-- Reads a text whose first content line is given. -/
def read (document : Document) (firstLine : Nat) : Checked (Except Unclosed (Closed Text)) :=
  match linesBeforeEnd? (document.contentsFrom firstLine) 1 with
  | some count => do
    let range ← document.contentRange firstLine (firstLine + count)
    return .ok ⟨document.textIn range, firstLine + count⟩
  | none => .ok (.error (.text firstLine))

end TextBlock

end BlockMarkup
