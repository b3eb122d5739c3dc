import BlockMarkup.Grammar.Entry
import BlockMarkup.Grammar.Header
import BlockMarkup.Variable

/-!
# Blocks and files

A file is a list of named blocks and the text between them. What stands in a
block depends on its kind: a text as it is, the items of a dictionary or the
items of an array. Lines that fit none of the forms a block expects are kept as
plain text, so nothing in a file goes unreported.
-/

namespace BlockMarkup

/-- A piece of text that has no structure, and where it stands. -/
structure PlainText where
  text : Text
  range : Range
deriving DecidableEq

/-- A whole line as plain text. -/
def PlainText.ofLine (content : Text) (index : Nat) : PlainText :=
  ⟨content, Range.ofLength index 0 (Text.size content)⟩

/-- One element of an array-valued field. -/
structure ArrayValue where
  content : Text
  range : Range
deriving DecidableEq

/-- A key whose value is an array with one element on each line. Blank lines
    among the elements are kept apart. -/
structure ArrayField where
  disabled : Bool
  key : Text
  keyRange : Range
  values : List ArrayValue
  plainText : List PlainText
deriving DecidableEq

/-- An item of a dictionary block. -/
inductive DictionaryItem where
  | field (simple : SimpleField)
  | arrayField (array : ArrayField)
  | plainText (plain : PlainText)
deriving DecidableEq

namespace DictionaryItem

/-- The key of an item that is a field. -/
def key? : DictionaryItem → Option Text
  | .field simple => some simple.key
  | .arrayField array => some array.key
  | .plainText _ => none

/-- Where the key of an item stands. -/
def keyRange? : DictionaryItem → Option Range
  | .field simple => some simple.keyRange
  | .arrayField array => some array.keyRange
  | .plainText _ => none

/-- Whether an item is a disabled field. -/
def isDisabled : DictionaryItem → Bool
  | .field simple => simple.disabled
  | .arrayField array => array.disabled
  | .plainText _ => false

/-- Whether an item is plain text. -/
def isPlainText : DictionaryItem → Bool
  | .plainText _ => true
  | _ => false

/-- The item as a field with a simple value. -/
def simple? : DictionaryItem → Option SimpleField
  | .field simple => some simple
  | _ => none

/-- The item as a field with an array value. -/
def array? : DictionaryItem → Option ArrayField
  | .arrayField array => some array
  | _ => none

/-- The item as plain text. -/
def plainText? : DictionaryItem → Option PlainText
  | .plainText plain => some plain
  | _ => none

end DictionaryItem

/-- An item of an array block. -/
inductive ArrayItem where
  | entry (found : Entry)
  | plainText (plain : PlainText)
deriving DecidableEq

namespace ArrayItem

/-- The item as an entry. -/
def entry? : ArrayItem → Option Entry
  | .entry found => some found
  | .plainText _ => none

/-- The item as plain text. -/
def plainText? : ArrayItem → Option PlainText
  | .entry _ => none
  | .plainText plain => some plain

end ArrayItem

/-- What stands in a block. -/
inductive BlockContent where
  | text (content : Text)
  | dictionary (items : List DictionaryItem)
  | array (items : List ArrayItem)
deriving DecidableEq

/-- A named block. The range runs from the start of the header line to the end
    of the closing line, and the content range covers the lines between; it is
    empty and stands at the closing line if there are none. -/
structure Block where
  name : Text
  nameRange : Range
  content : BlockContent
  contentRange : Range
  range : Range
  references : List VariableReference
deriving DecidableEq

namespace Block

/-- The index of the line that opens the block. -/
def headerLine (block : Block) : Nat := block.range.start.line

/-- The index of the line that closes the block. -/
def closingLine (block : Block) : Nat := block.range.stop.line

/-- The bracket that the content tells of. -/
def bracket (block : Block) : Bracket :=
  match block.content with
  | .array _ => .square
  | _ => .curly

/-- The content of a text block. -/
def text? (block : Block) : Option Text :=
  match block.content with
  | .text content => some content
  | _ => none

/-- The items of a dictionary block, none for other blocks. -/
def dictionaryItems (block : Block) : List DictionaryItem :=
  match block.content with
  | .dictionary items => items
  | _ => []

/-- The items of an array block, none for other blocks. -/
def arrayItems (block : Block) : List ArrayItem :=
  match block.content with
  | .array items => items
  | _ => []

/-- The fields of a dictionary block. -/
def fields (block : Block) : List DictionaryItem :=
  block.dictionaryItems.filter fun item => !item.isPlainText

/-- The first field with the key. -/
def field? (block : Block) (key : Text) : Option DictionaryItem :=
  block.fields.find? fun item => item.key? == some key

/-- The entries of an array block. -/
def entries (block : Block) : List Entry :=
  block.arrayItems.filterMap ArrayItem.entry?

/-- The lines of a block that fit none of its forms. -/
def plainTexts (block : Block) : List PlainText :=
  match block.content with
  | .text _ => []
  | .dictionary items => items.filterMap DictionaryItem.plainText?
  | .array items => items.filterMap ArrayItem.plainText?

end Block

/-- The blocks of a file and the text outside of them, each in order. -/
structure ParsedFile where
  blocks : List Block
  outside : List PlainText
deriving DecidableEq

namespace ParsedFile

/-- The first block with the name. -/
def block? (file : ParsedFile) (name : Text) : Option Block :=
  file.blocks.find? fun block => block.name == name

/-- The blocks with the name, in order. -/
def blocksNamed (file : ParsedFile) (name : Text) : List Block :=
  file.blocks.filter fun block => block.name == name

/-- The first block with the position in its range or at the end of it. -/
def blockAt (file : ParsedFile) (p : Position) : Option Block :=
  file.blocks.find? fun block => block.range.containsInclusive p

/-- Whether there is anything but white space outside of the blocks. -/
def hasStrayText (file : ParsedFile) : Bool :=
  file.outside.any fun outside => !Text.allBlank outside.text

end ParsedFile

end BlockMarkup
