import BlockMarkup.Proofs.Document.LineIndex

/-!
# Slices of a document

The text that a range covers is a part of the text of the document, cut out
where the two positions stand. Positions divide neither characters nor breaks,
and so do the two cuts: `textIn_parts` gives the text in three parts, for every
range. The sizes of the parts are the offsets of the positions if these are in
order; otherwise the middle part is empty.
-/

namespace BlockMarkup.Document

open Text

/-- A document begins at offset zero. -/
@[simp]
theorem offsetOf_origin (document : Document) : document.offsetOf .origin = 0 := by
  obtain ⟨line, rest, lines⟩ := List.exists_cons_of_ne_nil (Line.split_ne_nil document.text)
  rw [offsetOf_eq, lines]
  exact floorBoundary_zero line.content

/-- A later position has no earlier offset. -/
theorem offsetOf_le_offsetOf (document : Document) {p q : Position} (ordered : p ≤ q) :
    document.offsetOf p ≤ document.offsetOf q := by
  rw [offsetOf_eq, offsetOf_eq]
  exact Line.offset_le_offset _ ordered

/-- No position is behind the last byte. -/
theorem offsetOf_le_size (document : Document) (p : Position) :
    document.offsetOf p ≤ document.size := by
  have bound := Line.offset_le_size (Line.split document.text) p
  rw [Line.joined_split] at bound
  rw [offsetOf_eq]
  exact bound

/-- A position divides neither a character nor a break. -/
theorem offsetOf_parts (document : Document) (p : Position) :
    ∃ front back, document.text = front ++ back ∧ Text.size front = document.offsetOf p ∧
      ¬ SplitsBreak front back := by
  rw [offsetOf_eq]
  exact Line.offset_parts document.text p

/-- An offset that divides neither a character nor a break is that of its
    position. -/
theorem offsetOf_locate {document : Document} {front back : Text}
    (parted : document.text = front ++ back) (whole : ¬ SplitsBreak front back) :
    document.offsetOf (locate document.text (Text.size front)) = Text.size front := by
  rw [offsetOf_eq]
  exact Line.offset_locate parted whole

/-- No position is inside a character. -/
theorem isBoundary_offsetOf (document : Document) (p : Position) :
    isBoundary document.text (document.offsetOf p) = true := by
  obtain ⟨front, back, parted, sizes, _⟩ := document.offsetOf_parts p
  exact (isBoundary_iff _ _).mpr ⟨front, back, parted, sizes⟩

/-- The location of the end is the end position: no line begins after the end,
    so its line is the last one, and the column takes all of that line. -/
theorem locate_size (document : Document) :
    locate document.text document.size = document.endPosition := by
  obtain ⟨line, found, column⟩ := Line.locate_line document.text document.size
  generalize located : locate document.text document.size = location at found column ⊢
  have present : location.line < document.lineCount := by
    rw [lineCount_eq]
    exact (List.getElem?_eq_some_iff.mp found).1
  have last : location.line = document.lineCount - 1 := by
    have lastPresent : document.lineCount - 1 < (Line.split document.text).length := by
      rw [← lineCount_eq]
      omega
    have reached := Line.offset_lineStart_le_iff lastPresent document.size
    rw [← offsetOf_eq, located] at reached
    have notAfter := reached.mp (document.offsetOf_le_size _)
    omega
  have whole : line.length ≤ document.size - document.offsetOf ⟨location.line, 0⟩ := by
    have ending := document.offsetOf_le_size ⟨location.line, line.length⟩
    rw [offsetOf_eq, Line.offset_eq_start_add (p := ⟨location.line, line.length⟩) found,
      ← offsetOf_eq] at ending
    have content : floorBoundary line.content line.length = line.length :=
      floorBoundary_self line.content
    simp only [content] at ending
    omega
  have length : document.lengthAt location.line = line.length := by
    rw [lengthAt, document.lines_eq, found]
  obtain ⟨index, character⟩ := location
  simp only at last column whole length
  rw [← offsetOf_eq, Nat.min_eq_right whole] at column
  rw [endPosition, ← last, length, column]

/-- The last position is behind the last byte. -/
@[simp]
theorem offsetOf_endPosition (document : Document) :
    document.offsetOf document.endPosition = document.size := by
  rw [← locate_size]
  exact offsetOf_locate (List.append_nil document.text).symm (not_splitsBreak_nil_right _)

/-- Lines begin one after another. -/
theorem offsetOf_lineStart_lt (document : Document) {first last : Nat} (ordered : first < last)
    (present : last < document.lineCount) :
    document.offsetOf ⟨first, 0⟩ < document.offsetOf ⟨last, 0⟩ := by
  rw [lineCount_eq] at present
  have firstPresent : first < (Line.split document.text).length := by omega
  have found := List.getElem?_eq_getElem (l := Line.split document.text) firstPresent
  have located := Line.locate_offset (p := ⟨first, 0⟩) found
  have reached := Line.offset_lineStart_le_iff present (document.offsetOf ⟨first, 0⟩)
  rw [← offsetOf_eq] at located reached
  rw [located] at reached
  simp only at reached
  omega

/-- The text of a range is what stands between the offsets of its two ends. -/
theorem textIn_eq_of_parts {document : Document} {range : Range} {front middle back : Text}
    (parted : document.text = front ++ (middle ++ back))
    (start : document.offsetOf range.start = Text.size front)
    (stop : document.offsetOf range.stop = Text.size front + Text.size middle) :
    document.textIn range = middle := by
  simp only [textIn, start, stop]
  split
  · next reached =>
    have empty : Text.size middle = 0 := by omega
    exact ((size_eq_zero_iff middle).mp empty).symm
  · rw [parted, between_append]

/-- A piece of a line is what a range of its size on that line covers. -/
theorem textIn_ofLength {document : Document} {index : Nat} {line : Line} {front middle back : Text}
    (present : document.lines[index]? = some line)
    (parted : line.content = front ++ (middle ++ back)) :
    document.textIn (Range.ofLength index (Text.size front) (Text.size middle)) = middle := by
  obtain ⟨before, after, joined, starts⟩ := Line.joined_parts present
  rw [joined_lines] at joined
  have column (character : Nat) : document.offsetOf ⟨index, character⟩ =
      Text.size before + floorBoundary line.content character := by
    rw [offsetOf_eq, ← document.lines_eq, Line.offset_eq_start_add present, starts]
  have atStart := floorBoundary_size front (middle ++ back)
  have atStop := floorBoundary_size (front ++ middle) back
  rw [List.append_assoc, size_append] at atStop
  apply textIn_eq_of_parts
    (show document.text = (before ++ front) ++ (middle ++ (back ++ line.breakText ++ after)) by
      rw [joined, Line.text, parted]
      simp only [List.append_assoc])
  · rw [Range.ofLength, column, parted, atStart, size_append]
  · rw [Range.ofLength, column, parted, atStop, size_append, Nat.add_assoc]

/-- The cut itself covers nothing for a range in reverse. -/
theorem textIn_eq_between (document : Document) (range : Range) :
    document.textIn range =
      between document.text (document.offsetOf range.start) (document.offsetOf range.stop) := by
  simp only [textIn]
  split
  · next reverse =>
    rw [between, Nat.sub_eq_zero_of_le reverse, takeSize_zero]
  · rfl

/-- A range in reverse covers nothing. -/
theorem textIn_eq_nil {document : Document} {range : Range}
    (reverse : document.offsetOf range.stop ≤ document.offsetOf range.start) :
    document.textIn range = [] := by
  simp [textIn, reverse]

/-- The text of a document in three parts, the middle one being the text that a
    range covers, if the ends of the range are in order. -/
theorem textIn_parts_of_le {document : Document} {range : Range}
    (ordered : document.offsetOf range.start ≤ document.offsetOf range.stop) :
    ∃ front back, document.text = front ++ (document.textIn range ++ back) ∧
      Text.size front = document.offsetOf range.start ∧
      Text.size front + Text.size (document.textIn range) = document.offsetOf range.stop ∧
      ¬ SplitsBreak front (document.textIn range ++ back) ∧
      ¬ SplitsBreak (front ++ document.textIn range) back := by
  obtain ⟨front, rest, parted, start, startWhole⟩ := document.offsetOf_parts range.start
  obtain ⟨front', back, parted', stop, stopWhole⟩ := document.offsetOf_parts range.stop
  rw [← start, ← stop] at ordered
  obtain ⟨middle, rfl, rfl⟩ := parts_nested (parted.symm.trans parted') ordered
  rw [size_append] at stop
  have covered : document.textIn range = middle := textIn_eq_of_parts parted start.symm stop.symm
  rw [covered]
  exact ⟨front, back, parted, start, stop, startWhole, stopWhole⟩

/-- Between two positions in order lies as much text as their offsets say. -/
theorem offsetOf_add_size_textIn (document : Document) {start stop : Position}
    (ordered : start ≤ stop) :
    document.offsetOf start + Text.size (document.textIn ⟨start, stop⟩) =
      document.offsetOf stop := by
  have offsets : document.offsetOf (⟨start, stop⟩ : Range).start ≤
      document.offsetOf (⟨start, stop⟩ : Range).stop := document.offsetOf_le_offsetOf ordered
  obtain ⟨front, back, _, atStart, atStop, _, _⟩ := textIn_parts_of_le offsets
  rw [← atStart, atStop]

/-- The text of a document in three parts, the middle one being the text that a
    range covers, for every range. -/
theorem textIn_parts (document : Document) (range : Range) :
    ∃ front back, document.text = front ++ (document.textIn range ++ back) ∧
      Text.size front = document.offsetOf range.start ∧
      ¬ SplitsBreak front (document.textIn range ++ back) ∧
      ¬ SplitsBreak (document.textIn range) back := by
  rcases Nat.le_total (document.offsetOf range.start) (document.offsetOf range.stop) with
    ordered | reverse
  · obtain ⟨front, back, parted, start, _, startWhole, stopWhole⟩ := textIn_parts_of_le ordered
    exact ⟨front, back, parted, start, startWhole, not_splitsBreak_of_append stopWhole⟩
  · obtain ⟨front, back, parted, start, whole⟩ := document.offsetOf_parts range.start
    rw [textIn_eq_nil reverse]
    exact ⟨front, back, parted, start, whole, not_splitsBreak_nil_left back⟩

/-- The slice ends where the document does or before. -/
theorem offsetOf_add_size_textIn_le (document : Document) (range : Range) :
    document.offsetOf range.start + Text.size (document.textIn range) ≤ document.size := by
  obtain ⟨front, back, parted, start, _, _⟩ := document.textIn_parts range
  have sizes := congrArg Text.size parted
  rw [size_append, size_append] at sizes
  rw [size]
  omega

/-- What a document gives out as a position is a location of its text. -/
theorem positionAfter_eq_some_iff (document : Document) (start p : Position) (offset : Nat) :
    document.positionAfter start offset = some p ↔
      document.offsetOf start + offset < wordLimit ∧
        document.offsetOf start + offset ≤ document.size ∧
        p = locate document.text (document.offsetOf start + offset) := by
  rw [positionAfter_eq]
  generalize document.offsetOf start + offset = target
  by_cases refused : wordLimit ≤ target ∨ document.size < target
  · rw [if_pos refused]
    constructor
    · intro impossible
      cases impossible
    · rintro ⟨fits, reached, _⟩
      omega
  · rw [if_neg refused, Option.some.injEq]
    constructor
    · rintro rfl
      exact ⟨by omega, by omega, rfl⟩
    · rintro ⟨_, _, located⟩
      exact located.symm

/-- A text that is held in memory has fewer bytes than a machine word counts.
    In such a document every offset up to the end has a position. -/
theorem positionAfter_of_le {document : Document} (fits : document.size < wordLimit)
    {start : Position} {offset : Nat} (reached : document.offsetOf start + offset ≤ document.size) :
    document.positionAfter start offset =
      some (locate document.text (document.offsetOf start + offset)) :=
  (positionAfter_eq_some_iff document start _ offset).mpr
    ⟨Nat.lt_of_le_of_lt reached fits, reached, rfl⟩

/-- An offset in the document has the position where it is located. -/
theorem positionAt_of_le {document : Document} (fits : document.size < wordLimit) {offset : Nat}
    (reached : offset ≤ document.size) :
    document.positionAt offset = some (locate document.text offset) := by
  have found : document.positionAfter .origin offset = _ :=
    positionAfter_of_le fits (by simpa using reached)
  rwa [offsetOf_origin, Nat.zero_add] at found

/-- Only such an offset has a position, and no other one. -/
theorem locate_of_positionAt {document : Document} {offset : Nat} {p : Position}
    (found : document.positionAt offset = some p) :
    offset ≤ document.size ∧ p = locate document.text offset := by
  obtain ⟨_, reached, located⟩ := (positionAfter_eq_some_iff document .origin p offset).mp found
  rw [offsetOf_origin, Nat.zero_add] at reached located
  exact ⟨reached, located⟩

/-- Behind the end there is no position. -/
theorem positionAt_of_lt {document : Document} {offset : Nat} (beyond : document.size < offset) :
    document.positionAt offset = none := by
  cases found : document.positionAt offset with
  | none => rfl
  | some p => exact absurd (locate_of_positionAt found).1 (Nat.not_le_of_lt beyond)

end BlockMarkup.Document
