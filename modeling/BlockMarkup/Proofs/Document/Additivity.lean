import BlockMarkup.Proofs.Document.Slice

/-!
# Slices put side by side

A document can be cut at any position: what stands before the cut and what
stands behind it are put together to what stood there. Nothing is asked of the
positions but their order. A column past the end of its line is cut before the
break, one inside a character before the character, and a line beyond the last at
the end of the text, and a position that is later never falls back behind one
that is earlier.

The offset of a position is what such a cut leaves before it.
-/

namespace BlockMarkup.Document

/-- Two slices that meet at a position are one slice. -/
theorem textIn_append_textIn (document : Document) {first second third : Position}
    (ordered : first ≤ second) (ordered' : second ≤ third) :
    document.textIn ⟨first, second⟩ ++ document.textIn ⟨second, third⟩ =
      document.textIn ⟨first, third⟩ := by
  simp only [textIn_eq_between]
  exact Text.between_append_between (document.isBoundary_offsetOf first)
    (document.isBoundary_offsetOf second) (document.isBoundary_offsetOf third)
    (document.offsetOf_le_offsetOf ordered) (document.offsetOf_le_offsetOf ordered')

/-- The slice up to a position has as many bytes as the offset says. -/
theorem size_textIn_origin (document : Document) (p : Position) :
    Text.size (document.textIn ⟨.origin, p⟩) = document.offsetOf p := by
  have sizes := document.offsetOf_add_size_textIn (Position.origin_le p)
  rwa [offsetOf_origin, Nat.zero_add] at sizes

/-- The range of a whole document is never refused, and it covers the text. -/
theorem textIn_fullRange (document : Document) :
    document.fullRange = .ok ⟨.origin, document.endPosition⟩ ∧
      document.textIn ⟨.origin, document.endPosition⟩ = document.text := by
  constructor
  · exact if_pos (Position.origin_le document.endPosition)
  · rw [textIn_eq_between, offsetOf_origin, offsetOf_endPosition]
    exact Text.between_zero_size document.text

/-- Slicing is additive, and no slice divides a character: the text falls into
    whole characters before the slice, the slice, and whole characters behind it,
    and the two cuts are at the offsets of the positions. -/
theorem textIn_additive (document : Document) :
    (∀ first second third : Position, first ≤ second → second ≤ third →
      document.textIn ⟨first, second⟩ ++ document.textIn ⟨second, third⟩ =
        document.textIn ⟨first, third⟩) ∧
    (∀ range : Range, ∃ front back, document.text = front ++ (document.textIn range ++ back) ∧
      Text.size front = document.offsetOf range.start ∧
      (document.offsetOf range.start ≤ document.offsetOf range.stop →
        Text.size front + Text.size (document.textIn range) = document.offsetOf range.stop)) ∧
    (∀ range : Range, document.offsetOf range.stop ≤ document.offsetOf range.start →
      document.textIn range = []) ∧
    (∃ whole, document.fullRange = .ok whole ∧ document.textIn whole = document.text) ∧
    ∀ p, document.offsetOf p = Text.size (document.textIn ⟨.origin, p⟩) := by
  refine ⟨?_, ?_, ?_, ⟨_, document.textIn_fullRange⟩, ?_⟩
  · intro first second third ordered ordered'
    exact document.textIn_append_textIn ordered ordered'
  · intro range
    obtain ⟨front, back, parted, start, _⟩ := document.textIn_parts range
    refine ⟨front, back, parted, start, ?_⟩
    intro ordered
    obtain ⟨_, _, _, atStart, atStop, _⟩ := textIn_parts_of_le ordered
    rwa [start, ← atStart]
  · intro range reverse
    exact textIn_eq_nil reverse
  · intro p
    exact (document.size_textIn_origin p).symm

/-- A cut inside a character, one past the end of a line that ends with a pair,
    and one beyond the last line; a range in reverse; and the whole. -/
theorem textIn_additive_outside :
    ((⟨0, 2⟩ : Position) ≤ ⟨0, 9⟩ ∧ (⟨0, 9⟩ : Position) ≤ ⟨7, 0⟩ ∧
      (ofText "aé\r\nb".toList).textIn ⟨⟨0, 2⟩, ⟨0, 9⟩⟩ = "é".toList ∧
      (ofText "aé\r\nb".toList).textIn ⟨⟨0, 2⟩, ⟨7, 0⟩⟩ = "é".toList ++ "\r\nb".toList) ∧
      ((ofText "aé\r\nb".toList).offsetOf ⟨0, 4⟩ ≤ (ofText "aé\r\nb".toList).offsetOf ⟨0, 5⟩ ∧
        (ofText "aé\r\nb".toList).textIn ⟨⟨0, 5⟩, ⟨0, 4⟩⟩ = []) ∧
      (∃ whole, (ofText "aé\r\nb".toList).fullRange = .ok whole ∧
        (ofText "aé\r\nb".toList).textIn whole = "aé\r\nb".toList) ∧
      3 = Text.size ((ofText "aé\r\nb".toList).textIn ⟨.origin, ⟨0, 9⟩⟩) := by
  obtain ⟨additive, _, empty, whole, offsets⟩ := textIn_additive (ofText "aé\r\nb".toList)
  have joined := additive ⟨0, 2⟩ ⟨0, 9⟩ ⟨7, 0⟩ (by decide) (by decide)
  have reverse : (ofText "aé\r\nb".toList).offsetOf ⟨0, 4⟩ ≤
      (ofText "aé\r\nb".toList).offsetOf ⟨0, 5⟩ := by decide
  exact ⟨⟨by decide, by decide, by decide, joined.symm⟩,
    ⟨reverse, empty ⟨⟨0, 5⟩, ⟨0, 4⟩⟩ reverse⟩, whole, offsets ⟨0, 9⟩⟩

end BlockMarkup.Document
