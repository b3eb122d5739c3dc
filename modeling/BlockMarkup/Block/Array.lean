import BlockMarkup.Block
import BlockMarkup.Block.Unclosed

/-!
# Array blocks

An array block is closed by the first line that is a closing square bracket.
Every line before it is an item: an entry if it has the form of one, the last
line being without a comma, and plain text otherwise.
-/

namespace BlockMarkup.ArrayBlock

/-- The item that a line holds. -/
def item (place : EntryPlace) (content : Text) (index : Nat) : ArrayItem :=
  match Entry.ofLine? place content index with
  | some entry => .entry entry
  | none => .plainText (PlainText.ofLine content index)

/-- The items of the lines of a block, the first at the index. -/
def items : List Text → Nat → List ArrayItem
  | [], _ => []
  | [content], index => [item .last content index]
  | content :: rest, index => item .inner content index :: items rest (index + 1)

/-- Reads an array whose first content line is given with the lines from there
    on. -/
def read (lines : List Text) (firstLine : Nat) : Except Unclosed (Closed (List ArrayItem)) :=
  match lines.findIdx? (isLone Bracket.square.closing) with
  | some count => .ok ⟨items (lines.take count) firstLine, firstLine + count⟩
  | none => .error (.array firstLine)

end BlockMarkup.ArrayBlock
