import BlockMarkup.Block
import BlockMarkup.Document

/-!
# The ranges of a block

All numbers of a file are in the ranges that its blocks report. The ranges of a
content are those of its items, and an item has a group of them: a field has two,
an array field has one for its key and one for each line between its brackets.

Items take lines that follow one another. `Document.Stacked` says that of groups
of ranges: each range is a part of one line, and no two groups have a line in
common.
-/

namespace BlockMarkup

/-- The ranges of a field from left to right: its key and its value. -/
def SimpleField.ranges (field : SimpleField) : List Range :=
  [field.keyRange, field.valueRange]

/-- The ranges of an array field: its key and its elements. -/
def ArrayField.ranges (field : ArrayField) : List Range :=
  field.keyRange :: field.values.map ArrayValue.range ++ field.plainText.map PlainText.range

/-- The ranges of an item of a dictionary, in the order of the text. -/
def DictionaryItem.ranges : DictionaryItem → List Range
  | .field simple => simple.ranges
  | .arrayField array => array.ranges
  | .plainText plain => [plain.range]

/-- The range of an item of an array. -/
def ArrayItem.ranges : ArrayItem → List Range
  | .entry found => [found.entryRange]
  | .plainText plain => [plain.range]

/-- The ranges in the content of a block. A text has none of its own. -/
def BlockContent.ranges : BlockContent → List Range
  | .text _ => []
  | .dictionary items => items.flatMap DictionaryItem.ranges
  | .array items => items.flatMap ArrayItem.ranges

/-- The ranges of a content, one group for each item. A text has no items. -/
def BlockContent.itemRanges : BlockContent → List (List Range)
  | .text _ => []
  | .dictionary items => items.map DictionaryItem.ranges
  | .array items => items.map ArrayItem.ranges

/-- The ranges that a block reports: of its name, its content and itself, of the items
    in it and of the names that it refers to. -/
def Block.ranges (block : Block) : List Range :=
  [block.nameRange, block.contentRange, block.range] ++ block.content.ranges ++
    block.references.map VariableReference.nameRange

/-- All ranges of a file, which hold all of its numbers. -/
def ParsedFile.ranges (file : ParsedFile) : List Range :=
  file.blocks.flatMap Block.ranges ++ file.outside.map PlainText.range

/-- The ranges in a content are those of its items. -/
theorem BlockContent.mem_ranges_iff {content : BlockContent} {range : Range} :
    range ∈ content.ranges ↔ ∃ group ∈ content.itemRanges, range ∈ group := by
  have grouped : content.ranges = content.itemRanges.flatten := by
    cases content <;> rfl
  rw [grouped, List.mem_flatten]

/-! ## Parts of lines -/

/-- Whether a range is a part of a line of a document. -/
structure Range.LiesOn (document : Document) (index : Nat) (range : Range) : Prop where
  startLine : range.start.line = index
  stopLine : range.stop.line = index
  ordered : range.start.character ≤ range.stop.character
  within : range.stop.character ≤ document.lengthAt index

/-- Whether a range ends on a line before the one that another begins on. -/
def Range.Above (range other : Range) : Prop :=
  range.stop.line < other.start.line

/-- What lies on an earlier line lies above what lies on a later one. -/
theorem Range.LiesOn.above {document : Document} {index later : Nat} {range other : Range}
    (onLine : range.LiesOn document index) (otherOnLine : other.LiesOn document later)
    (before : index < later) : range.Above other := by
  rwa [Range.Above, onLine.stopLine, otherOnLine.startLine]

/-! ## Groups of ranges -/

namespace Document

/-- Whether each range is a part of a line from one index up to another, which is
    not among them. -/
def RangesBetween (document : Document) (first last : Nat) (ranges : List Range) : Prop :=
  ∀ range ∈ ranges, ∃ index, first ≤ index ∧ index < last ∧ range.LiesOn document index

/-- Whether groups of ranges stand on lines from one index up to another, each on
    later lines than those before it. -/
structure Stacked (document : Document) (first last : Nat) (groups : List (List Range)) :
    Prop where
  between : ∀ group ∈ groups, document.RangesBetween first last group
  apart : groups.Pairwise fun earlier later => ∀ range ∈ earlier, ∀ other ∈ later,
    range.Above other

variable {document : Document} {first middle last : Nat}

/-- Ranges between two lines lie between lines further apart. -/
theorem RangesBetween.mono {ranges : List Range} {lower upper : Nat}
    (ranged : document.RangesBetween lower upper ranges) (below : first ≤ lower)
    (above : upper ≤ last) : document.RangesBetween first last ranges := by
  intro range member
  obtain ⟨index, after, before, onLine⟩ := ranged range member
  exact ⟨index, by omega, by omega, onLine⟩

/-- Between a line and the next lies what lies on the line. -/
theorem rangesBetween_line {ranges : List Range} {index : Nat} :
    document.RangesBetween index (index + 1) ranges ↔
      ∀ range ∈ ranges, range.LiesOn document index := by
  constructor
  · intro ranged range member
    obtain ⟨line, after, before, onLine⟩ := ranged range member
    obtain rfl : line = index := by omega
    exact onLine
  · intro onLine range member
    exact ⟨index, Nat.le_refl _, Nat.lt_succ_self _, onLine range member⟩

/-- Without ranges there is nothing to be stacked. -/
theorem stacked_nil (document : Document) (first last : Nat) : document.Stacked first last [] :=
  ⟨by simp, List.Pairwise.nil⟩

/-- A group in front takes the lines before those of the others. -/
theorem Stacked.cons {group : List Range} {groups : List (List Range)}
    (ranged : document.RangesBetween first middle group)
    (stacked : document.Stacked middle last groups) (below : first ≤ middle)
    (above : middle ≤ last) : document.Stacked first last (group :: groups) := by
  constructor
  · intro other member
    rcases List.mem_cons.mp member with rfl | later
    · exact ranged.mono (Nat.le_refl _) above
    · exact (stacked.between other later).mono below (Nat.le_refl _)
  · refine List.pairwise_cons.mpr ⟨?_, stacked.apart⟩
    intro later laterMember range member other otherMember
    obtain ⟨index, _, before, onLine⟩ := ranged range member
    obtain ⟨place, after, _, otherOnLine⟩ := stacked.between later laterMember other otherMember
    exact onLine.above otherOnLine (by omega)

/-- Groups on single lines, one behind the other. -/
theorem stacked_of_lines {groups : List (List Range)}
    (lines : ∀ number group, groups[number]? = some group →
      document.RangesBetween (first + number) (first + number + 1) group) :
    document.Stacked first (first + groups.length) groups := by
  induction groups generalizing first with
  | nil => exact stacked_nil _ _ _
  | cons group groups hypothesis =>
    have behind : ∀ number other, groups[number]? = some other →
        document.RangesBetween (first + 1 + number) (first + 1 + number + 1) other := by
      intro number other present
      have placed := lines (number + 1) other present
      rwa [Nat.add_comm number 1, ← Nat.add_assoc] at placed
    have stacked := hypothesis behind
    rw [Nat.add_right_comm] at stacked
    exact stacked.cons (lines 0 group rfl) (Nat.le_add_right _ _) (by rw [List.length_cons]; omega)

end Document

end BlockMarkup
