import BlockMarkup.Block.Array
import BlockMarkup.Block.Dictionary
import BlockMarkup.Block.Text
import BlockMarkup.Settings
import BlockMarkup.Variable.Accessor
import BlockMarkup.Variable.Interpolated

/-!
# Reading a block

A header and the lines after it make a block. The kind of the block decides how
its lines are read and how its references are found: those of code by its
accessor calls, all others by interpolation. The header need not be a line of
the document; its line number says where the content begins.
-/

namespace BlockMarkup

/-- What a block is read with: the settings, and a way to read scripts. -/
structure Reading where
  settings : Settings
  reader : ScriptReader

namespace Block

/-- Reads the content of a block of that kind from its first content line on. -/
def readContent (document : Document) (firstLine : Nat) :
    ContentKind → Checked (Except Unclosed (Closed BlockContent))
  | .array => .ok ((ArrayBlock.read (document.contentsFrom firstLine) firstLine).map
      (Closed.map .array))
  | .dictionary => .ok ((Dictionary.read (document.contentsFrom firstLine) firstLine).map
      (Closed.map .dictionary))
  | .text | .code => do
    return (← TextBlock.read document firstLine).map (Closed.map .text)

/-- The references in the content of a block. -/
def readReferences (reading : Reading) (document : Document) (kind : ContentKind)
    (content : BlockContent) (contentRange : Range) : Checked (List VariableReference) :=
  match kind, content with
  | .code, .text code => AccessorCall.referencesIn reading.reader code contentRange.start
  | _, _ => document.interpolated contentRange

/-- Reads the block that a header opens, or says what is never closed. -/
def read (reading : Reading) (document : Document) (header : BlockHeader) :
    Checked (Except Unclosed Block) := do
  let firstLine ← addWord header.line 1
  let kind := reading.settings.classify header.name header.bracket
  match ← readContent document firstLine kind with
  | .error cause => return .error cause
  | .ok closed =>
    let contentRange ← document.contentRange firstLine closed.closingLine
    let range ← Range.between ⟨header.line, 0⟩
      ⟨closed.closingLine, document.lengthAt closed.closingLine⟩
    let references ← readReferences reading document kind closed.content contentRange
    return .ok
      { name := header.name
        nameRange := header.nameRange
        content := closed.content
        contentRange := contentRange
        range := range
        references := references }

end Block

end BlockMarkup
