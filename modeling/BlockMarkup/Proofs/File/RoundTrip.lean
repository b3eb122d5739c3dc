import BlockMarkup.File.Codec
import BlockMarkup.Proofs.Block.Ranges

/-!
# Files are read back from their written form

The written form keeps everything: reading it gives the file itself, so two
files with one written form are one file. Nothing is asked of a file but that
its numbers are machine words. Ranges may be in reverse, texts may be anything,
and blocks, items and references need not belong together.

The members of an object are told by their names alone, in which the written
form and the reader agree for every record. An item of a dictionary or an array
carries its sort in the same object, and the reader of the item passes over that
member as over one that it does not know.
-/

namespace BlockMarkup

/-! ## The numbers of a file -/

/-- Whether the numbers of both ends are machine words. -/
def Range.InWords (range : Range) : Prop :=
  (range.start.line < wordLimit ∧ range.start.character < wordLimit) ∧
    range.stop.line < wordLimit ∧ range.stop.character < wordLimit

/-- Whether a range fits into machine words is told by its four numbers. -/
instance (range : Range) : Decidable range.InWords :=
  inferInstanceAs (Decidable ((_ ∧ _) ∧ _ ∧ _))

/-- Whether all numbers of a file are machine words. -/
def ParsedFile.InWords (file : ParsedFile) : Prop :=
  ∀ range ∈ file.ranges, range.InWords

/-- Whether a file does is decided range by range. -/
instance (file : ParsedFile) : Decidable file.InWords :=
  inferInstanceAs (Decidable (∀ range ∈ file.ranges, range.InWords))

/-! ## Values that are no records -/

namespace Json

/-- A machine word is read back. -/
theorem word?_ofNat {n : Nat} (word : n < wordLimit) : (ofNat n).word? = some n := by
  simp [ofNat, word?, word]

/-- A list is read back if each of its values is. -/
theorem list?_map {α : Type} {write : α → Json} {read : Json → Option α} {values : List α}
    (same : ∀ value ∈ values, read (write value) = some value) :
    (Json.array (values.map write)).list? read = some values := by
  induction values with
  | nil => rfl
  | cons value rest hypothesis =>
    have first := same value List.mem_cons_self
    have others := hypothesis fun later member => same later (List.mem_cons_of_mem value member)
    simp only [list?] at others ⊢
    rw [List.map_cons, List.mapM_cons, first, others]
    rfl

end Json

/-- The way of access is read back from its label. -/
theorem Access.ofJson?_label (access : Access) :
    ofJson? (.string access.label.toList) = some access := by
  cases access with
  | read => rfl
  | write => rfl

/-- So is a scope. -/
theorem Scope.ofJson?_label (scope : Scope) :
    ofJson? (.string scope.label.toList) = some scope := by
  cases scope <;> rfl

/-! ## Records -/

/-- A position is read back if its numbers are machine words. -/
theorem Position.ofJson?_toJson {p : Position} (line : p.line < wordLimit)
    (character : p.character < wordLimit) : ofJson? p.toJson = some p := by
  have parts : p.toJson.partsNamed? ["line", "character"] =
      some [.ofNat p.line, .ofNat p.character] := rfl
  simp [ofJson?, parts, Json.word?_ofNat line, Json.word?_ofNat character]

/-- So is a range. -/
theorem Range.ofJson?_toJson {range : Range} (words : range.InWords) :
    ofJson? range.toJson = some range := by
  obtain ⟨⟨startLine, startCharacter⟩, stopLine, stopCharacter⟩ := words
  have parts : range.toJson.partsNamed? ["start", "end"] =
      some [range.start.toJson, range.stop.toJson] := rfl
  simp [ofJson?, parts, Position.ofJson?_toJson startLine startCharacter,
    Position.ofJson?_toJson stopLine stopCharacter]

/-- So is a reference, with its name, its scope and its access. -/
theorem VariableReference.ofJson?_toJson {reference : VariableReference}
    (words : reference.nameRange.InWords) : ofJson? reference.toJson = some reference := by
  have parts : reference.toJson.partsNamed?
      ["variableName", "variableNameRange", "referenceType", "variableType"] =
        some [.string reference.name, reference.nameRange.toJson,
          .string reference.access.label.toList, .string reference.scope.label.toList] := rfl
  simp [ofJson?, parts, Json.text?, Range.ofJson?_toJson words, Access.ofJson?_label,
    Scope.ofJson?_label]

/-- The sort of plain text is one more member and does not matter. -/
theorem PlainText.ofJson?_toJson {plain : PlainText} (words : plain.range.InWords)
    (tag : Option String) : ofJson? (plain.toJson tag) = some plain := by
  have parts : (plain.toJson tag).partsNamed? ["text", "range"] =
      some [.string plain.text, plain.range.toJson] := by
    cases tag with
    | none => rfl
    | some sort => rfl
  simp [ofJson?, parts, Json.text?, Range.ofJson?_toJson words]

/-- So is an element of an array field. -/
theorem ArrayValue.ofJson?_toJson {element : ArrayValue} (words : element.range.InWords) :
    ofJson? element.toJson = some element := by
  have parts : element.toJson.partsNamed? ["content", "range"] =
      some [.string element.content, element.range.toJson] := rfl
  simp [ofJson?, parts, Json.text?, Range.ofJson?_toJson words]

/-- So is a field, with a tag or without. -/
theorem SimpleField.ofJson?_toJson {field : SimpleField}
    (words : ∀ range ∈ field.ranges, range.InWords) (tag : Option String) :
    ofJson? (field.toJson tag) = some field := by
  have parts : (field.toJson tag).partsNamed? ["disabled", "key", "keyRange", "value",
      "valueRange"] = some [.bool field.disabled, .string field.key, field.keyRange.toJson,
        .string field.value, field.valueRange.toJson] := by
    cases tag with
    | none => rfl
    | some sort => rfl
  have keyWords := words field.keyRange (by simp [ranges])
  have valueWords := words field.valueRange (by simp [ranges])
  simp [ofJson?, parts, Json.text?, Json.bool?, Range.ofJson?_toJson keyWords,
    Range.ofJson?_toJson valueWords]

/-- So is an array field, with its elements and its plain text. -/
theorem ArrayField.ofJson?_toJson {field : ArrayField}
    (words : ∀ range ∈ field.ranges, range.InWords) (tag : Option String) :
    ofJson? (field.toJson tag) = some field := by
  have parts : (field.toJson tag).partsNamed? ["disabled", "key", "keyRange", "values",
      "plainTextWithinValues"] = some [.bool field.disabled, .string field.key,
        field.keyRange.toJson, .array (field.values.map ArrayValue.toJson),
        .array (field.plainText.map (PlainText.toJson · none))] := by
    cases tag with
    | none => rfl
    | some sort => rfl
  have keyWords := words field.keyRange (by simp [ranges])
  have values : (Json.array (field.values.map ArrayValue.toJson)).list? ArrayValue.ofJson? =
      some field.values := by
    apply Json.list?_map
    intro element member
    apply ArrayValue.ofJson?_toJson
    apply words
    simp only [ranges, List.cons_append, List.mem_cons, List.mem_append]
    exact Or.inr (Or.inl (List.mem_map_of_mem member))
  have plainText : (Json.array (field.plainText.map (PlainText.toJson · none))).list?
      PlainText.ofJson? = some field.plainText := by
    apply Json.list?_map
    intro plain member
    apply PlainText.ofJson?_toJson
    apply words
    simp only [ranges, List.cons_append, List.mem_cons, List.mem_append]
    exact Or.inr (Or.inr (List.mem_map_of_mem member))
  simp [ofJson?, parts, Json.text?, Json.bool?, Range.ofJson?_toJson keyWords, values, plainText]

/-- So is an entry, with a tag or without. -/
theorem Entry.ofJson?_toJson {entry : Entry} (words : entry.entryRange.InWords)
    (tag : Option String) : ofJson? (entry.toJson tag) = some entry := by
  have parts : (entry.toJson tag).partsNamed? ["disabled", "entry", "entryRange"] =
      some [.bool entry.disabled, .string entry.entry, entry.entryRange.toJson] := by
    cases tag with
    | none => rfl
    | some sort => rfl
  simp [ofJson?, parts, Json.text?, Json.bool?, Range.ofJson?_toJson words]

/-! ## Items with their sorts -/

/-- Each sort leads to its own reader, which finds the item in the same
    object. -/
theorem DictionaryItem.ofJson?_toJson {item : DictionaryItem}
    (words : ∀ range ∈ item.ranges, range.InWords) : ofJson? item.toJson = some item := by
  cases item with
  | field simple =>
    change (SimpleField.ofJson? (simple.toJson (some "field"))).map field = _
    rw [SimpleField.ofJson?_toJson words, Option.map_some]
  | arrayField array =>
    change (ArrayField.ofJson? (array.toJson (some "arrayField"))).map arrayField = _
    rw [ArrayField.ofJson?_toJson words, Option.map_some]
  | plainText plain =>
    have plainWords := words plain.range (by simp [ranges])
    change (PlainText.ofJson? (plain.toJson (some "plainText"))).map plainText = _
    rw [PlainText.ofJson?_toJson plainWords, Option.map_some]

/-- So is an item of an array, which its tag tells apart. -/
theorem ArrayItem.ofJson?_toJson {item : ArrayItem}
    (words : ∀ range ∈ item.ranges, range.InWords) : ofJson? item.toJson = some item := by
  cases item with
  | entry found =>
    have entryWords := words found.entryRange (by simp [ranges])
    change (Entry.ofJson? (found.toJson (some "entry"))).map entry = _
    rw [Entry.ofJson?_toJson entryWords, Option.map_some]
  | plainText plain =>
    have plainWords := words plain.range (by simp [ranges])
    change (PlainText.ofJson? (plain.toJson (some "plainText"))).map plainText = _
    rw [PlainText.ofJson?_toJson plainWords, Option.map_some]

/-- So is the content of a block, which its tag tells apart. -/
theorem BlockContent.ofJson?_toJson {content : BlockContent}
    (words : ∀ range ∈ content.ranges, range.InWords) :
    ofJson? content.toJson = some content := by
  cases content with
  | text content => rfl
  | dictionary items =>
    have read : (Json.array (items.map DictionaryItem.toJson)).list? DictionaryItem.ofJson? =
        some items := by
      apply Json.list?_map
      intro item member
      apply DictionaryItem.ofJson?_toJson
      intro range within
      exact words range (List.mem_flatMap_of_mem member within)
    change ((Json.array (items.map DictionaryItem.toJson)).list?
      DictionaryItem.ofJson?).map dictionary = _
    rw [read, Option.map_some]
  | array items =>
    have read : (Json.array (items.map ArrayItem.toJson)).list? ArrayItem.ofJson? =
        some items := by
      apply Json.list?_map
      intro item member
      apply ArrayItem.ofJson?_toJson
      intro range within
      exact words range (List.mem_flatMap_of_mem member within)
    change ((Json.array (items.map ArrayItem.toJson)).list? ArrayItem.ofJson?).map array = _
    rw [read, Option.map_some]

/-! ## Blocks and files -/

/-- So is a block with all it reports. -/
theorem Block.ofJson?_toJson {block : Block} (words : ∀ range ∈ block.ranges, range.InWords) :
    ofJson? block.toJson = some block := by
  have parts : block.toJson.partsNamed?
      ["name", "nameRange", "content", "contentRange", "range", "variableReferences"] =
        some [.string block.name, block.nameRange.toJson, block.content.toJson,
          block.contentRange.toJson, block.range.toJson,
          .array (block.references.map VariableReference.toJson)] := rfl
  have nameWords := words block.nameRange (by simp [ranges])
  have contentWords := words block.contentRange (by simp [ranges])
  have rangeWords := words block.range (by simp [ranges])
  have content : BlockContent.ofJson? block.content.toJson = some block.content := by
    apply BlockContent.ofJson?_toJson
    intro range member
    apply words
    simp only [ranges, List.mem_append]
    exact Or.inl (Or.inr member)
  have references : (Json.array (block.references.map VariableReference.toJson)).list?
      VariableReference.ofJson? = some block.references := by
    apply Json.list?_map
    intro reference member
    apply VariableReference.ofJson?_toJson
    apply words
    simp only [ranges, List.mem_append]
    exact Or.inr (List.mem_map_of_mem member)
  simp [ofJson?, parts, Json.text?, Range.ofJson?_toJson nameWords,
    Range.ofJson?_toJson contentWords, Range.ofJson?_toJson rangeWords, content, references]

namespace ParsedFile

/-- A file is read back if all its numbers are machine words. -/
theorem ofJson?_toJson {file : ParsedFile} (words : file.InWords) :
    ofJson? file.toJson = some file := by
  have parts : file.toJson.partsNamed? ["blocks", "textOutsideOfBlocks"] =
      some [.array (file.blocks.map Block.toJson),
        .array (file.outside.map (PlainText.toJson · none))] := rfl
  have blocks : (Json.array (file.blocks.map Block.toJson)).list? Block.ofJson? =
      some file.blocks := by
    apply Json.list?_map
    intro block member
    apply Block.ofJson?_toJson
    intro range within
    apply words
    exact List.mem_append_left _ (List.mem_flatMap_of_mem member within)
  have outside : (Json.array (file.outside.map (PlainText.toJson · none))).list?
      PlainText.ofJson? = some file.outside := by
    apply Json.list?_map
    intro plain member
    apply PlainText.ofJson?_toJson
    apply words
    exact List.mem_append_right _ (List.mem_map_of_mem member)
  simp [ofJson?, parts, blocks, outside]

/-- Reading the written form of a file gives the file, and no other file has
    that written form. -/
theorem toJson_roundTrip (file : ParsedFile) (words : file.InWords) :
    ofJson? file.toJson = some file ∧
      ∀ other : ParsedFile, other.InWords → other.toJson = file.toJson → other = file := by
  have read := ofJson?_toJson words
  refine ⟨read, ?_⟩
  intro other otherWords same
  have readOther := ofJson?_toJson otherWords
  rw [same, read] at readOther
  exact (Option.some.inj readOther).symm

/-- A file that no text has: every sort of content and item, the largest machine
    word, and a range in reverse. -/
def everySort : ParsedFile :=
  let largest : Position := ⟨wordLimit - 1, wordLimit - 1⟩
  let reverse : Range := ⟨largest, .origin⟩
  let plain : PlainText := ⟨"\"\\\n\u0000é".toList, reverse⟩
  let field : SimpleField := ⟨true, "type".toList, reverse, [], ⟨.origin, largest⟩⟩
  let array : ArrayField := ⟨false, [], reverse, [⟨"a".toList, reverse⟩], [plain]⟩
  { blocks :=
      [⟨"d".toList, reverse, .dictionary [.field field, .arrayField array, .plainText plain],
        reverse, reverse, [⟨"v".toList, reverse, .write, .processEnv⟩]⟩,
        ⟨[], reverse, .array [.entry ⟨true, [], reverse⟩, .plainText plain], reverse, reverse, []⟩,
        ⟨"t".toList, reverse, .text "kind".toList, reverse, reverse,
          [⟨[], reverse, .read, .unknown⟩]⟩]
    outside := [plain] }

/-- A file with an item of every sort is read back, and no other file is written as it
    is. -/
theorem toJson_roundTrip_everySort :
    everySort.InWords ∧ ofJson? everySort.toJson = some everySort ∧
      ∀ other : ParsedFile, other.InWords → other.toJson = everySort.toJson →
        other = everySort := by
  have words : everySort.InWords := by decide
  exact ⟨words, toJson_roundTrip everySort words⟩

end ParsedFile

end BlockMarkup
