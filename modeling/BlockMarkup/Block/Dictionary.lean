import BlockMarkup.Block
import BlockMarkup.Block.Unclosed

/-!
# Dictionary blocks

The lines of a dictionary are read one by one. A field whose value is an opening
square bracket is held back: only the next line tells what it is. If that line
is a field too, the held one has the bracket as its value. If not, the held one
is the key of an array, and the lines from there to the first closing square
bracket that stands alone are the elements of the array.

A line that is no field counts its curly brackets. The block is closed by the
line on which as many have been closed as were opened, its own opening bracket
included. Fields and the elements of an array do not count.
-/

namespace BlockMarkup

namespace ArrayField

/-- The array field of a key, still without elements. -/
def ofKey (field : SimpleField) : ArrayField :=
  ⟨field.disabled, field.key, field.keyRange, [], []⟩

/-- The element that a line holds: the trimmed line without a comma at its end
    and without the blanks before that comma. -/
def elementText (content : Text) : Text :=
  let trimmed := Text.trim content
  if trimmed.getLast? = some ',' then Text.trimEnd trimmed.dropLast else trimmed

/-- Adds a line between the brackets: a blank line is plain text, any other an
    element. -/
def addLine (field : ArrayField) (content : Text) (index : Nat) : ArrayField :=
  if Text.allBlank content then
    { field with plainText := field.plainText ++ [PlainText.ofLine content index] }
  else
    let element := elementText content
    let start := Text.size (Text.leadingBlanks content)
    { field with
      values := field.values ++ [⟨element, Range.ofLength index start (Text.size element)⟩] }

end ArrayField

namespace Dictionary

/-- What the lines so far have left open: nothing, a field whose meaning
    depends on the next line, or an array field. -/
inductive State where
  | idle
  | held (field : SimpleField)
  | collecting (field : ArrayField)
deriving DecidableEq

/-- The effect of a line: it closes the block, or it adds items and leads to
    another state and depth. -/
inductive Step where
  | closes
  | goesOn (items : List DictionaryItem) (state : State) (depth : Int)
deriving DecidableEq

/-- A field that begins with this line is held back if its value is an opening
    square bracket and is an item otherwise. -/
def place (field : SimpleField) : List DictionaryItem × State :=
  if isLone Bracket.square.opening field.value then ([], .held field)
  else ([.field field], .idle)

/-- A line between the brackets of an array field. -/
def collect (field : ArrayField) (content : Text) (index : Nat) (depth : Int) : Step :=
  if isLone Bracket.square.closing content then .goesOn [.arrayField field] .idle depth
  else .goesOn [] (.collecting (field.addLine content index)) depth

/-- The effect of the line at the index. -/
def step (state : State) (depth : Int) (content : Text) (index : Nat) : Step :=
  match state, SimpleField.ofLine? content index with
  | .collecting field, _ => collect field content index depth
  | .held field, none => collect (ArrayField.ofKey field) content index depth
  | .held held, some field =>
    let (items, next) := place field
    .goesOn (.field held :: items) next depth
  | .idle, some field =>
    let (items, next) := place field
    .goesOn items next depth
  | .idle, none =>
    let deeper := depth + braceBalance content
    if deeper ≤ 0 then .closes
    else .goesOn [.plainText (PlainText.ofLine content index)] .idle deeper

/-- What is open when the document ends in a state. -/
def State.unclosed (firstLine : Nat) : State → Unclosed
  | .collecting field => .arrayField field.key field.keyRange.start.line
  | _ => .dictionary firstLine

/-- Reads lines from an index on, in a state and at a depth. -/
def run (firstLine : Nat) :
    List Text → Nat → State → Int → Except Unclosed (Closed (List DictionaryItem))
  | [], _, state, _ => .error (state.unclosed firstLine)
  | content :: rest, index, state, depth =>
    match step state depth content index with
    | .closes => .ok ⟨[], index⟩
    | .goesOn items next deeper =>
      (run firstLine rest (index + 1) next deeper).map (Closed.map (items ++ ·))

/-- Reads a dictionary whose first content line is given with the lines from
    there on. -/
def read (lines : List Text) (firstLine : Nat) : Except Unclosed (Closed (List DictionaryItem)) :=
  run firstLine lines firstLine .idle 1

end Dictionary

end BlockMarkup
