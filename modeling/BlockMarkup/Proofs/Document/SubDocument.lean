import BlockMarkup.Proofs.Document.Slice

/-!
# A slice as a document of its own

The text of a range can be made into a document. A position in it is moved to
the containing document by the position at which the slice begins. The other
way to the same place is to count from the start of the range in the containing
document. Both ways agree for every range and every offset in the slice, also
inside characters and breaks, since the ends of a slice divide no break.
-/

namespace BlockMarkup.Document

open Text

/-- Locations in a slice, moved by the location of its start, are locations in
    the document. -/
theorem locate_textIn (document : Document) (range : Range) {offset : Nat}
    (inside : offset ≤ Text.size (document.textIn range)) :
    (locate (document.textIn range) offset).placedAt
        (locate document.text (document.offsetOf range.start)) =
      locate document.text (document.offsetOf range.start + offset) := by
  obtain ⟨front, back, parted, start, startWhole, stopWhole⟩ := document.textIn_parts range
  have slice : locate (document.textIn range ++ back) offset =
      locate (document.textIn range) offset :=
    locate_append_of_le _ _ stopWhole inside
  have origin : locate document.text (Text.size front) = locate front (Text.size front) := by
    rw [parted]
    exact locate_append_of_le _ _ startWhole (Nat.le_refl _)
  rw [← start, origin, ← slice, parted, locate_append _ _ startWhole]

/-- The move of a location to the document is not refused if the size of the
    document is a machine word. -/
theorem toOuter_locate_textIn {document : Document} (fits : document.size < wordLimit)
    (range : Range) {offset : Nat} (inside : offset ≤ Text.size (document.textIn range)) :
    (locate (document.textIn range) offset).toOuter
        (locate document.text (document.offsetOf range.start)) =
      .ok (locate document.text (document.offsetOf range.start + offset)) := by
  have moved := document.locate_textIn range inside
  have bounds : _ ≤ document.size :=
    locate_le_size document.text (document.offsetOf range.start + offset)
  rw [← moved] at bounds ⊢
  exact Position.toOuter_of_lt (by omega) (by omega)

/-- Counting in the slice and moving the position gives what counting in the
    document gives. Neither way is refused in a document whose size is a machine
    word. -/
theorem positionAt_textIn_toOuter (document : Document) (fits : document.size < wordLimit)
    (range : Range) (offset : Nat) (inside : offset ≤ Text.size (document.textIn range)) :
    ∃ origin inner outer,
      document.positionAt (document.offsetOf range.start) = some origin ∧
      (ofText (document.textIn range)).positionAt offset = some inner ∧
      inner.toOuter origin = .ok outer ∧
      document.positionAfter range.start offset = some outer := by
  have reached := document.offsetOf_add_size_textIn_le range
  have sliceFits : (ofText (document.textIn range)).size < wordLimit := by
    change Text.size (document.textIn range) < wordLimit
    omega
  refine ⟨locate document.text (document.offsetOf range.start),
    locate (document.textIn range) offset,
    locate document.text (document.offsetOf range.start + offset), ?_, ?_, ?_, ?_⟩
  · exact positionAt_of_le fits (document.offsetOf_le_size range.start)
  · exact positionAt_of_le sliceFits inside
  · exact toOuter_locate_textIn fits range inside
  · exact positionAfter_of_le fits (by omega)

/-- The range begins inside a character and ends beyond the last line, and the
    offset is inside a break of the slice. -/
theorem positionAt_textIn_toOuter_inside_break :
    (ofText "aé\r\n\rb\r\nc".toList).size < wordLimit ∧
      3 ≤ Text.size ((ofText "aé\r\n\rb\r\nc".toList).textIn ⟨⟨0, 2⟩, ⟨7, 0⟩⟩) ∧
      ∃ origin inner outer,
        (ofText "aé\r\n\rb\r\nc".toList).positionAt
          ((ofText "aé\r\n\rb\r\nc".toList).offsetOf ⟨0, 2⟩) = some origin ∧
        (ofText ((ofText "aé\r\n\rb\r\nc".toList).textIn ⟨⟨0, 2⟩, ⟨7, 0⟩⟩)).positionAt 3 =
          some inner ∧
        inner.toOuter origin = .ok outer ∧
        (ofText "aé\r\n\rb\r\nc".toList).positionAfter ⟨0, 2⟩ 3 = some outer :=
  ⟨by decide, by decide, positionAt_textIn_toOuter _ (by decide) ⟨⟨0, 2⟩, ⟨7, 0⟩⟩ 3 (by decide)⟩

end BlockMarkup.Document
