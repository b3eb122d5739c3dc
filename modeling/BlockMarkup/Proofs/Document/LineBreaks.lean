import BlockMarkup.Proofs.Block.Locality
import BlockMarkup.Proofs.Document.LineRanges

/-!
# Documents that differ in their line breaks

Two texts have the same lines but for the breaks if their lines have the same
contents. Offsets behind the first break then differ, but lines are counted and
measured alike, so line ends, the end of the document and content ranges are the
same positions. What a range of lines covers in one document is what it covers
in the other, again but for the breaks, and it is empty in both or in neither.
-/

namespace BlockMarkup

/-- Whether two texts have the same lines but for the breaks. -/
def Text.SameLines (first second : Text) : Prop :=
  (Line.split first).map Line.content = (Line.split second).map Line.content

/-- Whether two texts have the same lines can be decided line by line. -/
instance (first second : Text) : Decidable (Text.SameLines first second) :=
  inferInstanceAs (Decidable (_ = _))

namespace Text.SameLines

variable {first second : Text}

/-- It does not matter which of the texts comes first. -/
theorem symm (same : SameLines first second) : SameLines second first := Eq.symm same

/-- A break leaves a line behind it, so the empty text has the lines of no other. -/
theorem eq_nil (same : SameLines [] second) : second = [] := by
  obtain ⟨front, last, parts, _, _⟩ := Line.split_parts second
  have made := Line.joined_append_last parts
  have contents : [[]] = front.map Line.content ++ [last] := by
    have split := same
    rwa [SameLines, parts, List.map_append] at split
  cases front with
  | nil =>
    obtain ⟨rfl, _⟩ := List.cons.inj contents
    exact made.symm
  | cons line rest =>
    have lengths := congrArg List.length contents
    simp at lengths

/-- Only the empty text has the lines of the empty text. -/
theorem isEmpty_eq (same : SameLines first second) : first.isEmpty = second.isEmpty := by
  rw [Bool.eq_iff_iff, List.isEmpty_iff, List.isEmpty_iff]
  constructor
  · rintro rfl
    exact same.eq_nil
  · rintro rfl
    exact same.symm.eq_nil

end Text.SameLines

namespace Document

/-- Whether two documents have the same lines but for the breaks. -/
def SameContents (first second : Document) : Prop :=
  first.lines.map Line.content = second.lines.map Line.content

namespace SameContents

variable {first second : Document} (same : first.SameContents second)

include same

/-- There are as many lines in either. -/
theorem lineCount : first.lineCount = second.lineCount := by
  have lengths := congrArg List.length same
  rwa [List.length_map, List.length_map] at lengths

/-- The same lines are left from an index on. -/
theorem contentsFrom (index : Nat) : first.contentsFrom index = second.contentsFrom index := by
  have dropped := congrArg (List.drop index) same
  rwa [← List.map_drop, ← List.map_drop] at dropped

/-- A line has the same content in either. -/
theorem contentAt (index : Nat) :
    first.lines[index]?.map Line.content = second.lines[index]?.map Line.content := by
  have found := congrArg (fun contents => contents[index]?) same
  simpa only [List.getElem?_map] using found

/-- A line has the same length in either. -/
theorem lengthAt (index : Nat) : first.lengthAt index = second.lengthAt index := by
  have content := same.contentAt index
  unfold Document.lengthAt
  cases here : first.lines[index]? with
  | none =>
    rw [here] at content
    rw [Option.map_eq_none_iff.mp content.symm]
  | some line =>
    rw [here] at content
    obtain ⟨other, there, equal⟩ := Option.map_eq_some_iff.mp content.symm
    rw [there]
    exact congrArg Text.size equal.symm

/-- Both end at the same position. -/
theorem endPosition : first.endPosition = second.endPosition := by
  rw [Document.endPosition, Document.endPosition, same.lineCount, same.lengthAt]

/-- A line starts at the same position in either. -/
theorem startOfLine (index : Nat) : first.startOfLine index = second.startOfLine index := by
  rw [Document.startOfLine, Document.startOfLine, same.lineCount, same.endPosition]

/-- The content of a block has the same range in either. -/
theorem contentRange (firstLine closingLine : Nat) :
    first.contentRange firstLine closingLine = second.contentRange firstLine closingLine := by
  rw [contentRange_eq, contentRange_eq, same.lengthAt]

/-! ## What is covered -/

/-- The lines between two indices have the same contents. -/
theorem map_content_linesBetween (start stop : Nat) :
    (first.linesBetween start stop).map Line.content =
      (second.linesBetween start stop).map Line.content := by
  have parts := congrArg (fun contents => (contents.take stop).drop start) same
  simpa only [linesBetween, ← List.map_take, ← List.map_drop] using parts

/-- From the start of a line to that of another, the texts have the same lines. -/
theorem textIn_lineStarts {start stop : Nat} (ordered : start ≤ stop)
    (present : stop < first.lineCount) :
    Text.SameLines (first.textIn ⟨⟨start, 0⟩, ⟨stop, 0⟩⟩)
      (second.textIn ⟨⟨start, 0⟩, ⟨stop, 0⟩⟩) := by
  have otherPresent : stop < second.lineCount := by rwa [← same.lineCount]
  rw [Text.SameLines, split_textIn_lineStarts ordered present,
    split_textIn_lineStarts ordered otherPresent, List.map_append, List.map_append,
    same.map_content_linesBetween]

/-- So have the texts that end where a line ends before its break. -/
theorem textIn_toLineEnd {start stop : Nat} (ordered : start ≤ stop)
    (present : stop < first.lineCount) :
    Text.SameLines (first.textIn ⟨⟨start, 0⟩, ⟨stop, first.lengthAt stop⟩⟩)
      (second.textIn ⟨⟨start, 0⟩, ⟨stop, first.lengthAt stop⟩⟩) := by
  have here : first.lines[stop]? = some first.lines[stop] := List.getElem?_eq_getElem present
  have content := same.contentAt stop
  rw [here] at content
  obtain ⟨other, there, equal⟩ := Option.map_eq_some_iff.mp content.symm
  have lines := split_textIn_toLineEnd ordered here
  have otherLines := split_textIn_toLineEnd ordered there
  rw [← same.lengthAt] at otherLines
  rw [Text.SameLines, lines, otherLines, List.map_append, List.map_append,
    same.map_content_linesBetween, List.map_singleton, List.map_singleton, equal]

omit same in
/-- A range that is empty covers nothing in either document. -/
theorem textIn_self (p : Position) :
    Text.SameLines (first.textIn ⟨p, p⟩) (second.textIn ⟨p, p⟩) := by
  rw [textIn_eq_nil (Nat.le_refl _), textIn_eq_nil (Nat.le_refl _)]
  exact rfl

/-- So have the contents of a block. -/
theorem textIn_contentRange {firstLine closingLine : Nat} {range : Range}
    (covered : first.contentRange firstLine closingLine = .ok range)
    (present : closingLine < first.lineCount) :
    Text.SameLines (first.textIn range) (second.textIn range) := by
  rw [contentRange_eq] at covered
  cases covered
  split
  · exact textIn_self _
  · exact same.textIn_toLineEnd (by omega) (by omega)

/-- What has not been reported before a line, from the start of an earlier line. -/
theorem textIn_startOfLine {pending index : Nat} (ordered : pending ≤ index)
    (present : index < first.lineCount) :
    Text.SameLines (first.textIn ⟨first.startOfLine pending, ⟨index, 0⟩⟩)
      (second.textIn ⟨first.startOfLine pending, ⟨index, 0⟩⟩) := by
  rw [Document.startOfLine, if_pos (Nat.lt_of_le_of_lt ordered present)]
  exact same.textIn_lineStarts ordered present

/-- So have the texts behind the last block. -/
theorem textIn_toEnd (pending : Nat) :
    Text.SameLines (first.textIn ⟨first.startOfLine pending, first.endPosition⟩)
      (second.textIn ⟨first.startOfLine pending, first.endPosition⟩) := by
  by_cases present : pending < first.lineCount
  · rw [Document.startOfLine, if_pos present]
    exact same.textIn_toLineEnd (by omega) (by omega)
  · rw [Document.startOfLine, if_neg present]
    exact textIn_self _

end SameContents

end Document

end BlockMarkup
