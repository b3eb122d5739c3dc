import BlockMarkup.Proofs.Block.ArrayLines
import BlockMarkup.Proofs.Block.Ranges
import BlockMarkup.Proofs.File.Lookup

/-!
# Nested ranges

A block has the lines from its header to its closing line, and its content the
lines between. Of those each item takes some, and the next item begins behind
them. Every range of an item is a part of one of its lines.

So the ranges of a block are nested: those of the items lie in the content
range, the content range lies in that of the block, and no two items have a line
in common. `Block.Nested` says so, with the lines and columns that the ranges of
the block begin and end at.
-/

namespace BlockMarkup

/-! ## What is to be shown -/

/-- Whether the elements and the blank lines of an array field follow its key in
    the order of their lines, each on a line of its own. -/
structure ArrayField.Increasing (array : ArrayField) : Prop where
  values : (array.keyRange :: array.values.map ArrayValue.range).Pairwise Range.Above
  plainText : (array.keyRange :: array.plainText.map PlainText.range).Pairwise Range.Above
  apart : ∀ value ∈ array.values, ∀ plain ∈ array.plainText,
    value.range.start.line ≠ plain.range.start.line

/-- Whether the ranges of a block are nested. -/
structure Block.Nested (document : Document) (block : Block) : Prop where
  headerLine_lt : block.headerLine < block.closingLine
  closingLine_lt : block.closingLine < document.lineCount
  range : block.range =
    ⟨⟨block.headerLine, 0⟩, ⟨block.closingLine, document.lengthAt block.closingLine⟩⟩
  nameRange : block.nameRange.LiesOn document block.headerLine
  contentRange : block.contentRange =
    if block.closingLine = block.headerLine + 1 then Range.emptyAt ⟨block.closingLine, 0⟩
    else ⟨⟨block.headerLine + 1, 0⟩,
      ⟨block.closingLine - 1, document.lengthAt (block.closingLine - 1)⟩⟩
  containsContent : block.range.containsRange block.contentRange = true
  /-- Every range of an item stands on one line of the content, in order. -/
  items : ∀ range ∈ block.content.ranges, range.isSingleLine = true ∧ range.start ≤ range.stop ∧
    block.contentRange.containsRange range = true
  /-- The ranges of an item stand on later lines than those of the items before. -/
  increasing : block.content.itemRanges.Pairwise fun earlier later =>
    ∀ range ∈ earlier, ∀ other ∈ later, range.Above other
  arrayFields : ∀ array ∈ block.dictionaryItems.filterMap DictionaryItem.array?, array.Increasing

/-! ## Parts of lines -/

namespace Document

variable {document : Document} {index count : Nat}

/-- The length of a line is the size of its content. -/
theorem lengthAt_of_contentAt? {content : Text} (here : document.contentAt? index = some content) :
    document.lengthAt index = Text.size content := by
  obtain ⟨line, present, rfl⟩ := Option.map_eq_some_iff.mp here
  exact lengthAt_of_present present

/-- A numbered line is one of the document, and has its number. -/
theorem of_mem_numbered {line : Text × Nat} (member : line ∈ document.numbered index count) :
    index ≤ line.2 ∧ line.2 < index + count ∧ document.contentAt? line.2 = some line.1 := by
  obtain ⟨content, place⟩ := line
  obtain ⟨number, found⟩ := List.mem_iff_getElem?.mp member
  rw [numbered, List.getElem?_zipIdx, Option.map_eq_some_iff] at found
  obtain ⟨other, taken, made⟩ := found
  cases made
  rw [List.getElem?_take] at taken
  split at taken
  · next before =>
    rw [contentsFrom_getElem?] at taken
    exact ⟨by simp only; omega, by simp only; omega, taken⟩
  · cases taken

/-- The numbers of lines increase. -/
theorem pairwise_numbered (document : Document) (index count : Nat) :
    (document.numbered index count).Pairwise fun earlier later => earlier.2 < later.2 := by
  apply List.pairwise_map.mp
  rw [numbered, List.zipIdx_map_snd]
  exact List.pairwise_lt_range'

end Document

/-- A piece of a line is a part of it. -/
theorem IsPiece.liesOn {document : Document} {content piece : Text} {index : Nat} {range : Range}
    (isPiece : IsPiece content index piece range)
    (here : document.contentAt? index = some content) : range.LiesOn document index := by
  obtain ⟨front, back, parted, rfl⟩ := isPiece
  refine ⟨rfl, rfl, Nat.le_add_right _ _, ?_⟩
  rw [Document.lengthAt_of_contentAt? here, parted, Text.size_append, Text.size_append]
  simp only [Range.ofLength]
  omega

/-- A part of a line of the content lies in the content range. -/
theorem Range.LiesOn.nested {document : Document} {firstLine closingLine index : Nat}
    {range contentRange : Range}
    (covered : document.contentRange firstLine closingLine = .ok contentRange)
    (onLine : range.LiesOn document index) (after : firstLine ≤ index)
    (before : index < closingLine) :
    range.isSingleLine = true ∧ range.start ≤ range.stop ∧
      contentRange.containsRange range = true := by
  obtain ⟨startLine, stopLine, ordered, within⟩ := onLine
  refine ⟨?_, ?_, ?_⟩
  · rw [isSingleLine, startLine, stopLine, beq_self_eq_true]
  · rw [Position.le_iff, startLine, stopLine]
    exact Or.inr ⟨rfl, ordered⟩
  · rw [Document.contentRange_eq, if_neg (by omega)] at covered
    rw [containsRange_iff, ← Except.ok.inj covered, Position.le_iff, Position.le_iff, startLine,
      stopLine]
    simp only
    refine ⟨by omega, ?_⟩
    by_cases last : index = closingLine - 1
    · rw [← last]
      exact Or.inr ⟨rfl, within⟩
    · exact Or.inl (by omega)

/-! ## Dictionaries -/

variable {document : Document} {index : Nat}

/-- The key and the value of a field lie on its line. -/
theorem SimpleField.liesOn_of_fieldAt? {field : SimpleField}
    (found : document.fieldAt? index = some field) :
    field.keyRange.LiesOn document index ∧ field.valueRange.LiesOn document index := by
  obtain ⟨content, here, read⟩ := Option.bind_eq_some_iff.mp found
  exact ⟨(isPiece_key read).liesOn here, (isPiece_value read).liesOn here⟩

namespace ArrayField

variable {array : ArrayField} (stands : array.StandsAt document index)

include stands

/-- The key of an array field lies on the first line. -/
theorem StandsAt.liesOn_keyRange : array.keyRange.LiesOn document index := by
  obtain ⟨field, found, _, _, _, keyRange⟩ := stands.key
  rw [keyRange]
  exact (SimpleField.liesOn_of_fieldAt? found).1

/-- An element is on a line between the brackets, and that line is not blank. -/
theorem StandsAt.line_of_value {value : ArrayValue} (member : value ∈ array.values) :
    ∃ line ∈ document.numbered (index + 1) array.innerCount, Text.allBlank line.1 = false ∧
      value.range.LiesOn document line.2 := by
  rw [stands.values] at member
  obtain ⟨line, filtered, rfl⟩ := List.mem_map.mp member
  obtain ⟨numbered, filled⟩ := List.mem_filter.mp filtered
  obtain ⟨_, _, here⟩ := Document.of_mem_numbered numbered
  exact ⟨line, numbered, by simpa using filled, (isPiece_element line.1 line.2).liesOn here⟩

/-- Plain text is on a line between the brackets, and that line is blank. -/
theorem StandsAt.line_of_plainText {plain : PlainText} (member : plain ∈ array.plainText) :
    ∃ line ∈ document.numbered (index + 1) array.innerCount, Text.allBlank line.1 = true ∧
      plain.range.LiesOn document line.2 := by
  rw [stands.plainText] at member
  obtain ⟨line, filtered, rfl⟩ := List.mem_map.mp member
  obtain ⟨numbered, blank⟩ := List.mem_filter.mp filtered
  obtain ⟨_, _, here⟩ := Document.of_mem_numbered numbered
  exact ⟨line, numbered, blank, (PlainText.isPiece_ofLine line.1 line.2).liesOn here⟩

/-- The key is on the first line, everything else on a line between the
    brackets. -/
theorem StandsAt.line_of_inner {range : Range}
    (member : range ∈ array.values.map ArrayValue.range ++ array.plainText.map PlainText.range) :
    ∃ line, index < line ∧ line ≤ index + array.innerCount ∧ range.LiesOn document line := by
  rcases List.mem_append.mp member with among | among
  · obtain ⟨value, valueMember, rfl⟩ := List.mem_map.mp among
    obtain ⟨line, numbered, _, onLine⟩ := stands.line_of_value valueMember
    obtain ⟨after, before, _⟩ := Document.of_mem_numbered numbered
    exact ⟨line.2, by omega, by omega, onLine⟩
  · obtain ⟨plain, plainMember, rfl⟩ := List.mem_map.mp among
    obtain ⟨line, numbered, _, onLine⟩ := stands.line_of_plainText plainMember
    obtain ⟨after, before, _⟩ := Document.of_mem_numbered numbered
    exact ⟨line.2, by omega, by omega, onLine⟩

/-- The lines between the brackets are taken in their order, so what is picked
    from them is in order. -/
theorem StandsAt.increasing : array.Increasing := by
  have below : ∀ range ∈ array.values.map ArrayValue.range ++ array.plainText.map PlainText.range,
      array.keyRange.Above range := by
    intro range member
    obtain ⟨line, after, _, onLine⟩ := stands.line_of_inner member
    exact stands.liesOn_keyRange.above onLine after
  have ordered := document.pairwise_numbered (index + 1) array.innerCount
  refine ⟨List.pairwise_cons.mpr ⟨?_, ?_⟩, List.pairwise_cons.mpr ⟨?_, ?_⟩, ?_⟩
  · intro range member
    exact below range (List.mem_append_left _ member)
  · rw [stands.values, List.pairwise_map, List.pairwise_map]
    exact ordered.filter _
  · intro range member
    exact below range (List.mem_append_right _ member)
  · rw [stands.plainText, List.pairwise_map, List.pairwise_map]
    exact ordered.filter _
  · intro value member plain plainMember same
    obtain ⟨line, numbered, filled, onLine⟩ := stands.line_of_value member
    obtain ⟨other, otherNumbered, blank, otherOnLine⟩ := stands.line_of_plainText plainMember
    obtain ⟨_, _, here⟩ := Document.of_mem_numbered numbered
    obtain ⟨_, _, there⟩ := Document.of_mem_numbered otherNumbered
    rw [onLine.startLine, otherOnLine.startLine] at same
    rw [← same, here] at there
    rw [Option.some.inj there, blank] at filled
    cases filled

end ArrayField

/-- The ranges of an item are parts of the lines that the item takes. -/
theorem DictionaryItem.StandsAt.rangesBetween {item : DictionaryItem}
    (stands : item.StandsAt document index) :
    document.RangesBetween index (index + item.lineCount) item.ranges := by
  cases item with
  | field simple =>
    obtain ⟨key, value⟩ := SimpleField.liesOn_of_fieldAt? stands.1
    exact Document.rangesBetween_line.mpr (by simp [ranges, SimpleField.ranges, key, value])
  | arrayField array =>
    rw [Dictionary.lineCount_arrayField]
    intro range member
    rw [ranges, ArrayField.ranges, List.cons_append] at member
    rcases List.mem_cons.mp member with rfl | inner
    · exact ⟨index, by omega, by omega, ArrayField.StandsAt.liesOn_keyRange stands⟩
    · obtain ⟨line, after, before, onLine⟩ := ArrayField.StandsAt.line_of_inner stands inner
      exact ⟨line, by omega, by omega, onLine⟩
  | plainText plain =>
    obtain ⟨content, here, rfl⟩ := Option.map_eq_some_iff.mp stands.2
    have onLine := (PlainText.isPiece_ofLine content index).liesOn here
    exact Document.rangesBetween_line.mpr (by simp [ranges, onLine])

namespace Dictionary

variable {depth : Int} {items : List DictionaryItem} {closingLine : Nat}

/-- The items take the lines up to the closing line one after the other. -/
theorem Layout.stacked (layout : Layout document index depth ⟨items, closingLine⟩) :
    document.Stacked index closingLine (items.map DictionaryItem.ranges) := by
  induction items generalizing index depth with
  | nil => exact Document.stacked_nil _ _ _
  | cons item items hypothesis =>
    obtain ⟨stands, _, later⟩ := layout_cons_iff.mp layout
    exact (hypothesis later).cons (DictionaryItem.StandsAt.rangesBetween stands)
      (Nat.le_add_right _ _) later.closingLine_bounds.1

/-- The array fields of a layout have their elements in the order of the lines. -/
theorem Layout.increasing (layout : Layout document index depth ⟨items, closingLine⟩) :
    ∀ array ∈ items.filterMap DictionaryItem.array?, array.Increasing := by
  intro array member
  obtain ⟨item, among, isArray⟩ := List.mem_filterMap.mp member
  obtain ⟨before, after, parts⟩ := List.append_of_mem among
  have stands := layout.places before item after parts
  cases item with
  | arrayField other =>
    cases isArray
    exact ArrayField.StandsAt.increasing stands
  | field simple => cases isArray
  | plainText plain => cases isArray

end Dictionary

/-! ## Arrays -/

/-- The range of an item is a part of the line that the item stands on. -/
theorem ArrayItem.StandsAt.rangesBetween {item : ArrayItem} {place : EntryPlace}
    (stands : item.StandsAt document place index) :
    document.RangesBetween index (index + 1) item.ranges := by
  obtain ⟨content, here, rfl⟩ := Option.map_eq_some_iff.mp ((standsAt_iff item).mp stands)
  rw [Document.rangesBetween_line]
  unfold ArrayBlock.item
  split
  · next entry found =>
    have onLine := (Entry.isPiece_entry found).liesOn here
    simp [ranges, onLine]
  · have onLine := (PlainText.isPiece_ofLine content index).liesOn here
    simp [ranges, onLine]

/-- Each item takes one line. -/
theorem ArrayBlock.Layout.stacked {firstLine : Nat} {closed : Closed (List ArrayItem)}
    (layout : Layout document firstLine closed) :
    document.Stacked firstLine closed.closingLine (closed.content.map ArrayItem.ranges) := by
  have ends : closed.closingLine = firstLine + (closed.content.map ArrayItem.ranges).length := by
    have after := layout.after
    rw [List.length_map, layout.count]
    omega
  rw [ends]
  apply Document.stacked_of_lines
  intro number group present
  rw [List.getElem?_map, Option.map_eq_some_iff] at present
  obtain ⟨item, found, rfl⟩ := present
  exact (layout.places number item found).rangesBetween

/-! ## Blocks -/

namespace Block

/-- The items of a block take the lines up to the closing line, read by whichever
    reader its kind asks for. -/
theorem stacked_of_readContent {firstLine : Nat} {kind : ContentKind}
    {closed : Closed BlockContent}
    (ended : readContent document firstLine kind = .ok (.ok closed)) :
    document.Stacked firstLine closed.closingLine closed.content.itemRanges := by
  rcases readContent_eq_ok ended with
    ⟨_, inner, rfl, read⟩ | ⟨_, inner, rfl, read⟩ | ⟨_, inner, rfl, read⟩
  · exact (ArrayBlock.layout_of_read read).stacked
  · exact (Dictionary.layout_of_read read).stacked
  · exact Document.stacked_nil _ _ _

variable {reading : Reading} {header : BlockHeader} {block : Block}

/-- So have the array fields of every block that is read. -/
theorem Reads.arrayFields_increasing (reads : Reads reading document header block) :
    ∀ array ∈ block.dictionaryItems.filterMap DictionaryItem.array?, array.Increasing := by
  rcases readContent_eq_ok reads.content with
    ⟨_, inner, made, _⟩ | ⟨_, inner, made, read⟩ | ⟨_, inner, made, _⟩
  · have content : block.content = .array inner.content := congrArg Closed.content made
    simp [dictionaryItems, content]
  · have content : block.content = .dictionary inner.content := congrArg Closed.content made
    simp only [dictionaryItems, content]
    exact (Dictionary.layout_of_read read).increasing
  · have content : block.content = .text inner.content := congrArg Closed.content made
    simp [dictionaryItems, content]

/-- The ranges of a block that was read from a header on a line of the document. -/
theorem Reads.nested (reads : Reads reading document header block)
    (name : header.nameRange.LiesOn document header.line) : block.Nested document := by
  have opened := reads.headerLine_eq
  have covered := reads.contentRange
  have stacked := stacked_of_readContent reads.content
  rw [← opened] at covered stacked name
  rw [← reads.nameRange] at name
  refine ⟨reads.headerLine_lt, (readContent_closingLine reads.content).2, ?_, name, ?_,
    reads.containsRange_contentRange, ?_, stacked.apart, reads.arrayFields_increasing⟩
  · rw [opened]
    exact reads.range
  · have after := reads.headerLine_lt
    have empty : block.closingLine ≤ block.headerLine + 1 ↔
        block.closingLine = block.headerLine + 1 := by omega
    rw [Document.contentRange_eq] at covered
    simp only [empty] at covered
    exact (Except.ok.inj covered).symm
  · intro range member
    obtain ⟨group, among, inGroup⟩ := BlockContent.mem_ranges_iff.mp member
    obtain ⟨index, after, before, onLine⟩ := stacked.between group among range inGroup
    exact onLine.nested covered after before

end Block

namespace Document

/-- The ranges of every block of a file are nested, whatever the settings and
    whatever reads scripts. -/
theorem nested_of_mem_blocks (reading : Reading) (document : Document) (file : ParsedFile)
    (parsed : document.parse reading = .ok file) :
    ∀ block ∈ file.blocks, block.Nested document := by
  intro block member
  obtain ⟨line, header, present, found, reads⟩ := opensBlock_of_mem parsed member
  have here : document.contentAt? header.line = some line.content := by
    rw [contentAt?, present]
    rfl
  exact reads.nested ((BlockHeader.isPiece_name found).liesOn here)

/-- A dictionary with an array field that has a blank line among its elements, a
    block without content, an array, and a text that ends on the last line. -/
def manyRanges : Document :=
  ofText ("  m \x7b\r\n ~é: [\n x ,\n\n y\n ]\n z: 1\n oops\n\x7d\n" ++
    "e \x7b\n\x7d\na [\n b,\n]\nt \x7b\n é\n\x7d").toList

/-- Blocks of every kind, one of them empty, are nested. -/
theorem nested_of_mem_blocks_manyRanges :
    ∃ file, manyRanges.parse ⟨⟨["t".toList], []⟩, fun _ => none⟩ = .ok file ∧
      file.blocks.map Block.contentRange =
        [⟨⟨1, 0⟩, ⟨7, 5⟩⟩, Range.emptyAt ⟨10, 0⟩, ⟨⟨12, 0⟩, ⟨12, 3⟩⟩, ⟨⟨15, 0⟩, ⟨15, 3⟩⟩] ∧
      ∀ block ∈ file.blocks, block.Nested manyRanges := by
  obtain ⟨file, parsed, contents⟩ : ∃ file,
      manyRanges.parse ⟨⟨["t".toList], []⟩, fun _ => none⟩ = .ok file ∧
        file.blocks.map Block.contentRange =
          [⟨⟨1, 0⟩, ⟨7, 5⟩⟩, Range.emptyAt ⟨10, 0⟩, ⟨⟨12, 0⟩, ⟨12, 3⟩⟩, ⟨⟨15, 0⟩, ⟨15, 3⟩⟩] :=
    ⟨_, rfl, rfl⟩
  exact ⟨file, parsed, contents, nested_of_mem_blocks _ _ file parsed⟩

end Document

end BlockMarkup
