import BlockMarkup.File.Scan
import BlockMarkup.Proofs.Block.Reading
import BlockMarkup.Proofs.Document.WholeLines

/-!
# Documents that share lines

Two documents may share lines in two ways. One may have all the lines of the
other after some of its own: everything the shorter document says of a position
then holds of the longer one, with the line numbers moved. Or two documents may
begin with the same lines: up to there they have the same text, and the contents
of the lines are the same.

Whether two documents agree far enough to read the same block is a matter of the
lines before the one that closes the block, and of the content of that one. Its
break does not count, `AgreesTo` does not ask for it.
-/

namespace BlockMarkup

/-- A document has the lines that its text is split into, so every list of whole
    lines is the beginning of the lines of any text that is put after them. -/
theorem Document.lines_ofText_joined_append {front : List Line}
    (whole : ∀ line ∈ front, line.IsWhole) (rest : Text) :
    (Document.ofText (Line.joined front ++ rest)).lines = front ++ (Document.ofText rest).lines :=
  Line.split_joined_append whole rest

namespace Document

open Text

/-- The offset of a position is counted along the lines. -/
theorem offsetOf_eq_offset_lines (document : Document) (p : Position) :
    document.offsetOf p = Line.offset document.lines p := by
  rw [offsetOf_eq, ← document.lines_eq]

/-- A document has at least one line. -/
theorem lineCount_pos (document : Document) : 0 < document.lineCount := by
  rw [lineCount_eq]
  exact List.length_pos_iff.mpr (Line.split_ne_nil document.text)

/-- The last position is on a line of the document. -/
theorem endPosition_line_lt (document : Document) :
    document.endPosition.line < document.lineCount := by
  have positive := document.lineCount_pos
  simp only [endPosition]
  omega

/-- A line starts on a line of the document, even where there is no such line. -/
theorem startOfLine_line_lt (document : Document) (index : Nat) :
    (document.startOfLine index).line < document.lineCount := by
  unfold startOfLine
  split
  · next present => exact present
  · exact document.endPosition_line_lt

/-- Every line before the last has at least the byte of its break. -/
theorem index_le_offsetOf {document : Document} {index : Nat}
    (present : index < document.lineCount) : index ≤ document.offsetOf ⟨index, 0⟩ := by
  induction index with
  | zero => exact Nat.zero_le _
  | succ index hypothesis =>
    have before := hypothesis (by omega)
    have next := document.offsetOf_lineStart_lt (Nat.lt_add_one index) present
    omega

/-- A text that begins with a line is short enough for its positions to be moved
    to that line. -/
theorem line_add_size_textIn_le {document : Document} {index : Nat}
    (present : index < document.lineCount) (stop : Position) :
    index + Text.size (document.textIn ⟨⟨index, 0⟩, stop⟩) ≤ document.size := by
  have start := index_le_offsetOf present
  have reached := document.offsetOf_add_size_textIn_le ⟨⟨index, 0⟩, stop⟩
  simp only at reached
  omega

/-! ## Lines in front -/

section Moved

variable {outer inner : Document} {front : List Line}
  (placed : outer.lines = front ++ inner.lines)

include placed

/-- The text is that of the lines in front, then that of the part. -/
theorem text_of_placed : outer.text = Line.joined front ++ inner.text := by
  rw [← joined_lines, placed, Line.joined_append, joined_lines]

/-- The bytes of the lines in front come first. -/
theorem size_of_placed : outer.size = Text.size (Line.joined front) + inner.size := by
  rw [size, text_of_placed placed, size_append]
  rfl

/-- The lines in front are counted too. -/
theorem lineCount_of_placed : outer.lineCount = inner.lineCount + front.length := by
  rw [lineCount, placed, List.length_append, Nat.add_comm]
  rfl

/-- A line of the part is found so many lines further on. -/
theorem getElem?_lines_of_placed (index : Nat) :
    outer.lines[index + front.length]? = inner.lines[index]? := by
  rw [placed, List.getElem?_append_right (Nat.le_add_left _ _), Nat.add_sub_cancel]

/-- It keeps its length. -/
theorem lengthAt_of_placed (index : Nat) :
    outer.lengthAt (index + front.length) = inner.lengthAt index := by
  rw [lengthAt, getElem?_lines_of_placed placed]
  rfl

/-- From a line of the part on, the same lines are left. -/
theorem contentsFrom_of_placed (index : Nat) :
    outer.contentsFrom (index + front.length) = inner.contentsFrom index := by
  rw [contentsFrom, placed, Nat.add_comm, List.drop_length_add_append]
  rfl

/-- The document ends where the part does. -/
theorem endPosition_of_placed :
    outer.endPosition = inner.endPosition.mapLines (· + front.length) := by
  have some := inner.lineCount_pos
  have last : outer.lineCount - 1 = inner.lineCount - 1 + front.length := by
    rw [lineCount_of_placed placed]
    omega
  rw [endPosition, last, lengthAt_of_placed placed]
  rfl

/-- A line starts where it does in the part, so many lines further on. -/
theorem startOfLine_of_placed (index : Nat) :
    outer.startOfLine (index + front.length) =
      (inner.startOfLine index).mapLines (· + front.length) := by
  unfold startOfLine
  rw [lineCount_of_placed placed, endPosition_of_placed placed]
  by_cases present : index < inner.lineCount
  · rw [if_pos present, if_pos (by omega)]
    rfl
  · rw [if_neg present, if_neg (by omega)]

/-- The offset of a position has the bytes of the lines in front added. -/
theorem offsetOf_of_placed (p : Position) :
    outer.offsetOf (p.mapLines (· + front.length)) =
      Text.size (Line.joined front) + inner.offsetOf p := by
  rw [offsetOf_eq_offset_lines, placed, Line.offset_append, ← offsetOf_eq_offset_lines]

/-- The text of a range does not depend on the lines in front. -/
theorem textIn_of_placed (range : Range) :
    outer.textIn (range.mapLines (· + front.length)) = inner.textIn range := by
  have length : Text.size (Line.joined front) + inner.offsetOf range.stop -
      (Text.size (Line.joined front) + inner.offsetOf range.start) =
        inner.offsetOf range.stop - inner.offsetOf range.start := by omega
  rw [textIn_eq_between, textIn_eq_between, Range.mapLines, offsetOf_of_placed placed,
    offsetOf_of_placed placed, text_of_placed placed, between, length, dropSize_size_add, between]

/-- The content of a block has its range so many lines further on. -/
theorem contentRange_of_placed (firstLine closingLine : Nat) :
    outer.contentRange (firstLine + front.length) (closingLine + front.length) =
      (inner.contentRange firstLine closingLine).map (Range.mapLines (· + front.length)) := by
  rw [contentRange_eq, contentRange_eq, Except.map]
  by_cases empty : closingLine ≤ firstLine
  · rw [if_pos empty, if_pos (by omega)]
    rfl
  · have last : closingLine + front.length - 1 = closingLine - 1 + front.length := by omega
    rw [if_neg empty, if_neg (by omega), last, lengthAt_of_placed placed]
    rfl

end Moved

/-! ## Lines at the beginning -/

/-- Texts that begin alike have the same text between offsets in what is alike. -/
theorem textIn_eq_of_front {first second : Document} {front firstRest secondRest : Text}
    (firstText : first.text = front ++ firstRest) (secondText : second.text = front ++ secondRest)
    {range : Range} (start : first.offsetOf range.start = second.offsetOf range.start)
    (stop : first.offsetOf range.stop = second.offsetOf range.stop)
    (inside : first.offsetOf range.stop ≤ Text.size front) :
    first.textIn range = second.textIn range := by
  rcases Nat.le_total (first.offsetOf range.start) (first.offsetOf range.stop) with
    ordered | reverse
  · obtain ⟨before, after, parted, atStart, atStop, _, _⟩ := textIn_parts_of_le ordered
    rw [← List.append_assoc, firstText] at parted
    have reached : Text.size (before ++ first.textIn range) ≤ Text.size front := by
      rw [size_append]
      omega
    obtain ⟨middle, rfl, _⟩ := parts_nested parted.symm reached
    have secondParts : second.text = before ++ (first.textIn range ++ (middle ++ secondRest)) := by
      rw [secondText]
      simp only [List.append_assoc]
    symm
    apply textIn_eq_of_parts secondParts
    · rw [← start, atStart]
    · rw [← stop, atStop]
  · rw [textIn_eq_nil reverse, textIn_eq_nil (by omega)]

/-- Up to the start of a line the lines from there on do not matter. -/
theorem textIn_eq_of_take {first second : Document} {index : Nat}
    (shared : first.lines.take index = second.lines.take index)
    (firstBound : index ≤ first.lineCount) (secondBound : index ≤ second.lineCount) {range : Range}
    (inside : range.stop ≤ ⟨index, 0⟩) : first.textIn range = second.textIn range := by
  have offsets {p : Position} (early : p ≤ ⟨index, 0⟩) : first.offsetOf p = second.offsetOf p := by
    rw [offsetOf_eq_offset_lines, offsetOf_eq_offset_lines, ← Line.offset_take firstBound early,
      ← Line.offset_take secondBound early, shared]
  by_cases ordered : range.start ≤ range.stop
  · have startInside : range.start ≤ ⟨index, 0⟩ := by
      simp only [Position.le_iff] at ordered inside ⊢
      omega
    have parts (document : Document) : document.text =
        Line.joined (document.lines.take index) ++ Line.joined (document.lines.drop index) := by
      rw [← Line.joined_append, List.take_append_drop, joined_lines]
    have secondParts := parts second
    rw [← shared] at secondParts
    apply textIn_eq_of_front (parts first) secondParts (offsets startInside) (offsets inside)
    rw [offsetOf_eq_offset_lines, ← Line.offset_take firstBound inside]
    exact Line.offset_le_size _ _
  · have reverse : range.stop ≤ range.start := by
      simp only [Position.le_iff] at ordered ⊢
      omega
    rw [textIn_eq_nil (first.offsetOf_le_offsetOf reverse),
      textIn_eq_nil (second.offsetOf_le_offsetOf reverse)]

/-- Whether two documents have the same lines before an index, and the same
    content at the index. -/
structure AgreesTo (first second : Document) (index : Nat) : Prop where
  lines : first.lines.take index = second.lines.take index
  content : first.lines[index]?.map Line.content = second.lines[index]?.map Line.content

namespace AgreesTo

variable {first second : Document} {index : Nat}

/-- It does not matter which of the documents comes first. -/
theorem symm (agrees : first.AgreesTo second index) : second.AgreesTo first index :=
  ⟨agrees.lines.symm, agrees.content.symm⟩

/-- If one of them has the line, the other has it. -/
theorem present (agrees : first.AgreesTo second index) (present : index < first.lineCount) :
    index < second.lineCount := by
  have found := agrees.content
  rw [List.getElem?_eq_getElem (l := first.lines) present] at found
  obtain ⟨line, there, _⟩ := Option.map_eq_some_iff.mp found.symm
  exact (List.getElem?_eq_some_iff.mp there).1

/-- They have the same lines before the index, breaks included. -/
theorem getElem?_lines (agrees : first.AgreesTo second index) {line : Nat} (before : line < index) :
    first.lines[line]? = second.lines[line]? := by
  have same := congrArg (fun lines => lines[line]?) agrees.lines
  simpa only [List.getElem?_take_of_lt before] using same

/-- A line up to the index has the same length in both. -/
theorem lengthAt (agrees : first.AgreesTo second index) {line : Nat} (before : line ≤ index) :
    first.lengthAt line = second.lengthAt line := by
  have byContent (document : Document) (line : Nat) : document.lengthAt line =
      ((document.lines[line]?.map Line.content).map Text.size).getD 0 := by
    unfold Document.lengthAt
    cases document.lines[line]? <;> rfl
  rw [byContent, byContent]
  rcases Nat.lt_or_eq_of_le before with earlier | rfl
  · rw [agrees.getElem?_lines earlier]
  · rw [agrees.content]

/-- The contents from a line up to the index are the same. -/
theorem contentsFrom (agrees : first.AgreesTo second index) {firstLine : Nat}
    {before after : List Text} {content : Text}
    (remaining : first.contentsFrom firstLine = before ++ content :: after)
    (reached : firstLine + before.length = index) :
    ∃ other, second.contentsFrom firstLine = before ++ content :: other := by
  have front (document : Document) : (document.contentsFrom firstLine).take before.length =
      ((document.lines.take index).drop firstLine).map Line.content := by
    rw [Document.contentsFrom, ← reached, List.drop_take, Nat.add_sub_cancel_left, List.map_take]
  have here (document : Document) : (document.contentsFrom firstLine)[before.length]? =
      document.lines[index]?.map Line.content := by
    rw [Document.contentsFrom, List.getElem?_map, List.getElem?_drop, reached]
  have sameFront := front second
  have sameHere := here second
  rw [← agrees.lines, ← front first, remaining, List.take_left] at sameFront
  rw [← agrees.content, ← here first, remaining, List.getElem?_append_right (Nat.le_refl _),
    Nat.sub_self, List.getElem?_cons_zero] at sameHere
  obtain ⟨bound, found⟩ := List.getElem?_eq_some_iff.mp sameHere
  have rest := List.take_append_drop before.length (second.contentsFrom firstLine)
  rw [sameFront, List.drop_eq_getElem_cons bound, found] at rest
  exact ⟨_, rest.symm⟩

end AgreesTo

end Document

end BlockMarkup
