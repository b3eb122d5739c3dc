import BlockMarkup.Proofs.Document.SubDocument

/-!
# Ranges inside a range

Two offsets into the text of a range make a range of the document, `subRange`.
Whoever finds something in a part of a document reports it this way. The range
lies inside the one that the offsets count from, if that one is a range of the
document. It covers the text between the offsets, if neither of them is inside a
break: a position cannot stand between the two characters of a break, and the
offset would be lowered to the end of the line.
-/

namespace BlockMarkup.Document

open Text

/-- Whether the document gives a position out: it is the position of its own
    offset. -/
def HasPosition (document : Document) (p : Position) : Prop :=
  locate document.text (document.offsetOf p) = p

/-- Whether the document gives both ends of a range out, and in this order. -/
structure HasRange (document : Document) (range : Range) : Prop where
  start : document.HasPosition range.start
  stop : document.HasPosition range.stop
  ordered : range.start ≤ range.stop

/-- A position that the document gives out is on one of its lines. -/
theorem HasPosition.line_lt {document : Document} {p : Position} (present : document.HasPosition p) :
    p.line < document.lineCount := by
  obtain ⟨line, found, _⟩ := Line.locate_line document.text (document.offsetOf p)
  rw [show locate document.text (document.offsetOf p) = p from present] at found
  rw [lineCount_eq]
  exact (List.getElem?_eq_some_iff.mp found).1

/-- A document has the start of each of its lines. -/
theorem hasPosition_lineStart {document : Document} {index : Nat}
    (present : index < document.lineCount) : document.HasPosition ⟨index, 0⟩ := by
  rw [lineCount_eq] at present
  have found := List.getElem?_eq_getElem (l := Line.split document.text) present
  have located := Line.locate_offset (p := ⟨index, 0⟩) found
  rw [floorBoundary_zero, ← offsetOf_eq] at located
  exact located

/-- It has the end of the content of each line. -/
theorem hasPosition_lineEnd {document : Document} {index : Nat}
    (present : index < document.lineCount) :
    document.HasPosition ⟨index, document.lengthAt index⟩ := by
  rw [lineCount_eq] at present
  have found := List.getElem?_eq_getElem (l := Line.split document.text) present
  have length : document.lengthAt index = (Line.split document.text)[index].length := by
    rw [lengthAt, document.lines_eq, found]
  have located := Line.locate_offset (p := ⟨index, document.lengthAt index⟩) found
  have whole := floorBoundary_self (Line.split document.text)[index].content
  rw [length, Line.length] at located ⊢
  simp only [whole] at located
  rw [← offsetOf_eq] at located
  exact located

/-- The range of the bytes between two offsets into the text of a range. -/
def subRange (document : Document) (range : Range) (first last : Nat) : Range :=
  ⟨locate document.text (document.offsetOf range.start + first),
    locate document.text (document.offsetOf range.start + last)⟩

/-- Offsets in order give a range in order. -/
theorem subRange_ordered (document : Document) (range : Range) {first last : Nat}
    (ordered : first ≤ last) :
    (document.subRange range first last).start ≤ (document.subRange range first last).stop :=
  locate_le_locate document.text (Nat.add_le_add_left ordered _)

/-- A piece of the text of a range is what the range of its offsets covers. -/
theorem textIn_subRange {document : Document} {range : Range} {before piece after : Text}
    (parted : document.textIn range = before ++ (piece ++ after))
    (startWhole : ¬ SplitsBreak before (piece ++ after))
    (stopWhole : ¬ SplitsBreak (before ++ piece) after) :
    document.textIn
      (document.subRange range (Text.size before) (Text.size before + Text.size piece)) =
        piece := by
  obtain ⟨front, back, whole, start, frontWhole, backWhole⟩ := document.textIn_parts range
  rw [parted] at whole frontWhole backWhole
  have startOutside := not_splitsBreak_append_append frontWhole startWhole backWhole
  rw [← List.append_assoc] at frontWhole backWhole
  have stopOutside := not_splitsBreak_append_append frontWhole stopWhole backWhole
  have startParts : document.text = (front ++ before) ++ ((piece ++ after) ++ back) := by
    rw [whole]
    simp only [List.append_assoc]
  have stopParts : document.text = (front ++ (before ++ piece)) ++ (after ++ back) := by
    rw [whole]
    simp only [List.append_assoc]
  have atStart := offsetOf_locate startParts startOutside
  have atStop := offsetOf_locate stopParts stopOutside
  rw [List.append_assoc piece] at startParts
  simp only [size_append, start] at atStart atStop
  apply textIn_eq_of_parts startParts
  · rw [subRange, atStart, size_append, start]
  · rw [subRange, atStop, size_append, start, Nat.add_assoc]

/-- Offsets into the text of a range lead to positions inside the range. -/
theorem containsRange_subRange {document : Document} {range : Range}
    (present : document.HasRange range) {first last : Nat}
    (inside : last ≤ Text.size (document.textIn range)) :
    range.containsRange (document.subRange range first last) = true := by
  have reached : document.offsetOf range.start + last ≤ document.offsetOf range.stop := by
    rw [← document.offsetOf_add_size_textIn present.ordered]
    exact Nat.add_le_add_left inside _
  have after := locate_le_locate document.text
    (Nat.le_add_right (document.offsetOf range.start) first)
  have before := locate_le_locate document.text reached
  rw [present.start] at after
  rw [present.stop] at before
  simp only [Range.containsRange, subRange, Bool.and_eq_true]
  exact ⟨decide_eq_true after, decide_eq_true before⟩

end BlockMarkup.Document
