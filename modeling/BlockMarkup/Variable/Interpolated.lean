import BlockMarkup.Checked
import BlockMarkup.Document
import BlockMarkup.Grammar.Interpolation
import BlockMarkup.Variable

/-!
# References by interpolation

Every interpolation in a part of a document is a reference that reads a variable
of unknown scope. Its range covers the name without the braces. The offsets of
the scan count from the start of the part, and the document turns them into
positions.
-/

namespace BlockMarkup

/-- The reference that an interpolation in the text from `start` on makes. -/
def Interpolation.reference? (document : Document) (start : Position) (found : Interpolation) :
    Checked (Option VariableReference) :=
  match document.positionAfter start found.nameSpan.start,
    document.positionAfter start found.nameSpan.stop with
  | some first, some last => do
    return some ⟨found.name, ← Range.between first last, .read, .unknown⟩
  | _, _ => .ok none

/-- The references by interpolation in a range of a document. -/
def Document.interpolated (document : Document) (range : Range) :
    Checked (List VariableReference) :=
  Checked.filterMap (Interpolation.reference? document range.start)
    (Interpolation.scan (document.textIn range))

end BlockMarkup
