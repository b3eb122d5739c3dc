import BlockMarkup.Block
import BlockMarkup.Json.Decode

/-!
# Files as JSON

Every part of a file has a written form, in which the members of an object are
in ascending order of their names, and can be read back from it. The items of
dictionaries and arrays carry their sort as one more member `type`; the content
of a block has its sort and its value in two members.

Reading ignores members that are not known, and does not ask whether ranges are
in order.
-/

namespace BlockMarkup

/-- The object with these members. -/
def record (members : List (String × Json)) : Json :=
  .object (members.map fun (name, value) => (name.toList, value))

/-- The parts of a record with these names. -/
def Json.partsNamed? (names : List String) (value : Json) : Option (List Json) :=
  value.parts? (names.map String.toList)

namespace Position

/-- The written form of a position. -/
def toJson (p : Position) : Json :=
  record [("character", .ofNat p.character), ("line", .ofNat p.line)]

/-- Reads a position. -/
def ofJson? (value : Json) : Option Position := do
  match ← value.partsNamed? ["line", "character"] with
  | [line, character] => return ⟨← line.word?, ← character.word?⟩
  | _ => none

end Position

namespace Range

/-- The written form of a range. -/
def toJson (range : Range) : Json :=
  record [("end", range.stop.toJson), ("start", range.start.toJson)]

/-- Reads a range. -/
def ofJson? (value : Json) : Option Range := do
  match ← value.partsNamed? ["start", "end"] with
  | [start, stop] => return ⟨← Position.ofJson? start, ← Position.ofJson? stop⟩
  | _ => none

end Range

namespace Access

/-- The name of a way of access. -/
def label : Access → String
  | .read => "read"
  | .write => "write"

/-- Reads a way of access. -/
def ofJson? (value : Json) : Option Access := do
  let name ← value.choice?
  [Access.read, .write].find? fun access => access.label.toList == name

end Access

namespace Scope

/-- The name of a scope. -/
def label : Scope → String
  | .environment => "environment"
  | .runtime => "runtime"
  | .global => "global"
  | .folder => "folder"
  | .collection => "collection"
  | .request => "request"
  | .processEnv => "processEnv"
  | .unknown => "unknown"

/-- All the scopes. -/
def all : List Scope :=
  [.environment, .runtime, .global, .folder, .collection, .request, .processEnv, .unknown]

/-- Reads a scope. -/
def ofJson? (value : Json) : Option Scope := do
  let name ← value.choice?
  all.find? fun scope => scope.label.toList == name

end Scope

namespace VariableReference

/-- The written form of a reference. -/
def toJson (reference : VariableReference) : Json :=
  record
    [("referenceType", .string reference.access.label.toList),
      ("variableName", .string reference.name),
      ("variableNameRange", reference.nameRange.toJson),
      ("variableType", .string reference.scope.label.toList)]

/-- Reads a reference. -/
def ofJson? (value : Json) : Option VariableReference := do
  match ← value.partsNamed?
    ["variableName", "variableNameRange", "referenceType", "variableType"] with
  | [name, nameRange, access, scope] =>
    return ⟨← name.text?, ← Range.ofJson? nameRange, ← Access.ofJson? access,
      ← Scope.ofJson? scope⟩
  | _ => none

end VariableReference

/-- An object without its sort, or with it if there is one. -/
def tagged (tag : Option String) (before after : List (String × Json)) : Json :=
  record (before ++ (tag.toList.map fun tag => ("type", Json.string tag.toList)) ++ after)

namespace PlainText

/-- The written form of plain text, with its sort if one is given. -/
def toJson (plain : PlainText) (tag : Option String) : Json :=
  tagged tag [("range", plain.range.toJson), ("text", .string plain.text)] []

/-- Reads plain text. -/
def ofJson? (value : Json) : Option PlainText := do
  match ← value.partsNamed? ["text", "range"] with
  | [text, range] => return ⟨← text.text?, ← Range.ofJson? range⟩
  | _ => none

end PlainText

namespace SimpleField

/-- The written form of a field, with its sort if one is given. -/
def toJson (field : SimpleField) (tag : Option String) : Json :=
  tagged tag
    [("disabled", .bool field.disabled), ("key", .string field.key),
      ("keyRange", field.keyRange.toJson)]
    [("value", .string field.value), ("valueRange", field.valueRange.toJson)]

/-- Reads a field. -/
def ofJson? (value : Json) : Option SimpleField := do
  match ← value.partsNamed? ["disabled", "key", "keyRange", "value", "valueRange"] with
  | [disabled, key, keyRange, content, contentRange] =>
    return ⟨← disabled.bool?, ← key.text?, ← Range.ofJson? keyRange, ← content.text?,
      ← Range.ofJson? contentRange⟩
  | _ => none

end SimpleField

namespace ArrayValue

/-- The written form of an element. -/
def toJson (element : ArrayValue) : Json :=
  record [("content", .string element.content), ("range", element.range.toJson)]

/-- Reads an element. -/
def ofJson? (value : Json) : Option ArrayValue := do
  match ← value.partsNamed? ["content", "range"] with
  | [content, range] => return ⟨← content.text?, ← Range.ofJson? range⟩
  | _ => none

end ArrayValue

namespace ArrayField

/-- The written form of an array field, with its sort if one is given. -/
def toJson (field : ArrayField) (tag : Option String) : Json :=
  tagged tag
    [("disabled", .bool field.disabled), ("key", .string field.key),
      ("keyRange", field.keyRange.toJson),
      ("plainTextWithinValues", .array (field.plainText.map (PlainText.toJson · none)))]
    [("values", .array (field.values.map ArrayValue.toJson))]

/-- Reads an array field. -/
def ofJson? (value : Json) : Option ArrayField := do
  match ← value.partsNamed? ["disabled", "key", "keyRange", "values", "plainTextWithinValues"] with
  | [disabled, key, keyRange, values, plainText] =>
    return ⟨← disabled.bool?, ← key.text?, ← Range.ofJson? keyRange,
      ← values.list? ArrayValue.ofJson?, ← plainText.list? PlainText.ofJson?⟩
  | _ => none

end ArrayField

namespace Entry

/-- The written form of an entry, with its sort if one is given. -/
def toJson (entry : Entry) (tag : Option String) : Json :=
  tagged tag
    [("disabled", .bool entry.disabled), ("entry", .string entry.entry),
      ("entryRange", entry.entryRange.toJson)]
    []

/-- Reads an entry. -/
def ofJson? (value : Json) : Option Entry := do
  match ← value.partsNamed? ["disabled", "entry", "entryRange"] with
  | [disabled, content, range] =>
    return ⟨← disabled.bool?, ← content.text?, ← Range.ofJson? range⟩
  | _ => none

end Entry

/-- The sort of an item and the item without it. An array begins with the sort,
    an object has it as a member. -/
def Json.untagged? : Json → Option (Text × Json)
  | .object members => do
    let tag ← (← members.lookup "type".toList).text?
    return (tag, .object members)
  | .array (tag :: rest) => do
    return (← tag.text?, .array rest)
  | _ => none

namespace DictionaryItem

/-- The written form of an item. -/
def toJson : DictionaryItem → Json
  | .field simple => simple.toJson (some "field")
  | .arrayField array => array.toJson (some "arrayField")
  | .plainText plain => plain.toJson (some "plainText")

/-- Reads an item. -/
def ofJson? (value : Json) : Option DictionaryItem := do
  let (tag, item) ← value.untagged?
  if tag = "field".toList then (SimpleField.ofJson? item).map .field
  else if tag = "arrayField".toList then (ArrayField.ofJson? item).map .arrayField
  else if tag = "plainText".toList then (PlainText.ofJson? item).map .plainText
  else none

end DictionaryItem

namespace ArrayItem

/-- The written form of an item. -/
def toJson : ArrayItem → Json
  | .entry found => found.toJson (some "entry")
  | .plainText plain => plain.toJson (some "plainText")

/-- Reads an item. -/
def ofJson? (value : Json) : Option ArrayItem := do
  let (tag, item) ← value.untagged?
  if tag = "entry".toList then (Entry.ofJson? item).map .entry
  else if tag = "plainText".toList then (PlainText.ofJson? item).map .plainText
  else none

end ArrayItem

namespace BlockContent

/-- The written form of a content. -/
def toJson : BlockContent → Json
  | .text content => written "text" (.string content)
  | .dictionary items => written "dictionary" (.array (items.map DictionaryItem.toJson))
  | .array items => written "array" (.array (items.map ArrayItem.toJson))
where
  /-- A sort and a value. -/
  written (kind : String) (value : Json) : Json :=
    record [("kind", .string kind.toList), ("value", value)]

/-- Reads a content. -/
def ofJson? (value : Json) : Option BlockContent := do
  match ← value.partsNamed? ["kind", "value"] with
  | [kind, content] =>
    let name ← kind.choice?
    if name = "text".toList then content.text?.map .text
    else if name = "dictionary".toList then
      (content.list? DictionaryItem.ofJson?).map .dictionary
    else if name = "array".toList then (content.list? ArrayItem.ofJson?).map .array
    else none
  | _ => none

end BlockContent

namespace Block

/-- The written form of a block. -/
def toJson (block : Block) : Json :=
  record
    [("content", block.content.toJson), ("contentRange", block.contentRange.toJson),
      ("name", .string block.name), ("nameRange", block.nameRange.toJson),
      ("range", block.range.toJson),
      ("variableReferences", .array (block.references.map VariableReference.toJson))]

/-- Reads a block. -/
def ofJson? (value : Json) : Option Block := do
  match ← value.partsNamed?
    ["name", "nameRange", "content", "contentRange", "range", "variableReferences"] with
  | [name, nameRange, content, contentRange, range, references] =>
    return ⟨← name.text?, ← Range.ofJson? nameRange, ← BlockContent.ofJson? content,
      ← Range.ofJson? contentRange, ← Range.ofJson? range,
      ← references.list? VariableReference.ofJson?⟩
  | _ => none

end Block

namespace ParsedFile

/-- The written form of a file. -/
def toJson (file : ParsedFile) : Json :=
  record
    [("blocks", .array (file.blocks.map Block.toJson)),
      ("textOutsideOfBlocks", .array (file.outside.map (PlainText.toJson · none)))]

/-- Reads a file. -/
def ofJson? (value : Json) : Option ParsedFile := do
  match ← value.partsNamed? ["blocks", "textOutsideOfBlocks"] with
  | [blocks, outside] =>
    return ⟨← blocks.list? Block.ofJson?, ← outside.list? PlainText.ofJson?⟩
  | _ => none

end ParsedFile

end BlockMarkup
