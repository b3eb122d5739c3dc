import BlockMarkup.Text.Measure

/-!
# Contents and why they may have no end

Reading the lines of a block ends at the line that closes it. A block that is
never closed has no content; the cause says what was still open at the end of
the document.
-/

namespace BlockMarkup

/-- What is still open at the end of a document. Blocks are told by their first
    content line, an array field by its key and the line of the key. -/
inductive Unclosed where
  | dictionary (firstLine : Nat)
  | arrayField (key : Text) (line : Nat)
  | array (firstLine : Nat)
  | text (firstLine : Nat)
deriving DecidableEq

/-- What was read from the lines of a block, and the line that closes it. -/
structure Closed (α : Type) where
  content : α
  closingLine : Nat
deriving DecidableEq

/-- Applies a function to the content. -/
def Closed.map {α β : Type} (f : α → β) (closed : Closed α) : Closed β :=
  ⟨f closed.content, closed.closingLine⟩

/-- How many more curly brackets a line opens than it closes. -/
def braceBalance (line : Text) : Int :=
  line.count '{' - line.count '}'

end BlockMarkup
