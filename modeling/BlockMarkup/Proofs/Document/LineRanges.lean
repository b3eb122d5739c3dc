import BlockMarkup.Proofs.Document.SharedLines

/-!
# Ranges of lines

Most ranges of a file begin with a line and end with one: content ranges, the
ranges of blocks, and the text between blocks. What such a range covers is the
text of its lines, the last one with or without its break. As a document of its
own it has these same lines, since all lines but the last of a document are
whole.
-/

namespace BlockMarkup

namespace Document

/-! ## The lines of a document -/

/-- Only the last line is without a break. -/
theorem isWhole_of_mem_take {document : Document} {index : Nat}
    (present : index < document.lineCount) {line : Line}
    (member : line ∈ document.lines.take index) : line.IsWhole := by
  obtain ⟨front, last, parts, whole, _⟩ := Line.split_parts document.text
  rw [← document.lines_eq] at parts
  have count : document.lineCount = front.length + 1 := by
    rw [lineCount, parts]
    simp
  rw [parts, List.take_append_of_le_length (by omega)] at member
  exact whole line (List.mem_of_mem_take member)

/-- No line has a line feed in its content. -/
theorem noFeed_of_mem_lines {document : Document} {line : Line} (member : line ∈ document.lines) :
    '\n' ∉ line.content := by
  obtain ⟨front, last, parts, whole, noFeed⟩ := Line.split_parts document.text
  rw [← document.lines_eq] at parts
  rw [parts] at member
  rcases List.mem_append.mp member with early | final
  · exact (whole line early).noFeed
  · rw [List.mem_singleton.mp final]
    exact noFeed

/-- The lines from an index on are the lines of a document. -/
theorem exists_document_drop {document : Document} {index : Nat}
    (present : index < document.lineCount) :
    ∃ behind : Document, behind.lines = document.lines.drop index := by
  refine ⟨ofText (Line.joined (document.lines.drop index)), ?_⟩
  have whole : ∀ line ∈ document.lines.take index, line.IsWhole := by
    intro line member
    exact isWhole_of_mem_take present member
  have parted := Line.split_joined_append whole (Line.joined (document.lines.drop index))
  rw [← Line.joined_append, List.take_append_drop, joined_lines, ← document.lines_eq] at parted
  have cancelled := (List.take_append_drop index document.lines).trans parted
  exact (List.append_cancel_left cancelled).symm

/-- The lines from an index up to another, which is not among them. -/
def linesBetween (document : Document) (first last : Nat) : List Line :=
  (document.lines.take last).drop first

/-- The lines up to an index are those before another and those between the two. -/
theorem take_append_linesBetween (document : Document) {first last : Nat} (ordered : first ≤ last) :
    document.lines.take first ++ document.linesBetween first last = document.lines.take last := by
  have parts := List.take_append_drop first (document.lines.take last)
  rwa [List.take_take, Nat.min_eq_left ordered] at parts

/-- Between two lines of a document there are as many as their numbers are apart. -/
theorem length_linesBetween {document : Document} {first last : Nat}
    (present : last < document.lineCount) :
    (document.linesBetween first last).length = last - first := by
  rw [linesBetween, List.length_drop, List.length_take_of_le (Nat.le_of_lt present)]

/-- A line before another one ends with a break. -/
theorem isWhole_of_mem_linesBetween {document : Document} {last : Nat}
    (present : last < document.lineCount) (first : Nat) :
    ∀ line ∈ document.linesBetween first last, line.IsWhole := by
  intro line member
  exact isWhole_of_mem_take present (List.mem_of_mem_drop member)

/-! ## What ranges of lines cover -/

/-- The texts from one position to a second and from there to a third. -/
theorem textIn_append (document : Document) {first second third : Position}
    (before : first ≤ second) (after : second ≤ third) :
    document.textIn ⟨first, second⟩ ++ document.textIn ⟨second, third⟩ =
      document.textIn ⟨first, third⟩ := by
  simp only [textIn_eq_between]
  exact Text.between_append_between (document.isBoundary_offsetOf first)
    (document.isBoundary_offsetOf second) (document.isBoundary_offsetOf third)
    (document.offsetOf_le_offsetOf before) (document.offsetOf_le_offsetOf after)

/-- From the start of a line to that of another. -/
theorem textIn_lineStarts {document : Document} {first last : Nat} (ordered : first ≤ last)
    (present : last < document.lineCount) :
    document.textIn ⟨⟨first, 0⟩, ⟨last, 0⟩⟩ = Line.joined (document.linesBetween first last) := by
  have upTo := document.take_append_linesBetween ordered
  have bound : last ≤ document.lines.length := Nat.le_of_lt present
  have parts : document.text = Line.joined (document.lines.take first) ++
      (Line.joined (document.linesBetween first last) ++
        Line.joined (document.lines.drop last)) := by
    rw [← List.append_assoc, ← Line.joined_append, ← Line.joined_append, upTo,
      List.take_append_drop, joined_lines]
  apply textIn_eq_of_parts parts
  · rw [offsetOf_eq_offset_lines, Line.offset_lineStart (Nat.le_trans ordered bound)]
  · rw [offsetOf_eq_offset_lines, Line.offset_lineStart bound, ← Text.size_append,
      ← Line.joined_append, upTo]

/-- The length of a line is the size of its content. -/
theorem lengthAt_of_present {document : Document} {index : Nat} {line : Line}
    (present : document.lines[index]? = some line) :
    document.lengthAt index = Text.size line.content := by
  rw [lengthAt, present]
  rfl

/-- From the start of a line to the end of another, without the break there. -/
theorem textIn_toLineEnd {document : Document} {first last : Nat} (ordered : first ≤ last)
    {line : Line} (present : document.lines[last]? = some line) :
    document.textIn ⟨⟨first, 0⟩, ⟨last, document.lengthAt last⟩⟩ =
      Line.joined (document.linesBetween first last) ++ line.content := by
  have inside : last < document.lineCount := (List.getElem?_eq_some_iff.mp present).1
  have content : document.textIn ⟨⟨last, 0⟩, ⟨last, document.lengthAt last⟩⟩ = line.content := by
    have whole : line.content = [] ++ (line.content ++ []) := by simp
    have covered := textIn_ofLength present whole
    rwa [Range.ofLength, Text.size_nil, Nat.zero_add, ← lengthAt_of_present present] at covered
  have toStart : (⟨first, 0⟩ : Position) ≤ ⟨last, 0⟩ := by
    rw [Position.le_iff]
    simp only
    omega
  have toEnd : (⟨last, 0⟩ : Position) ≤ ⟨last, document.lengthAt last⟩ :=
    Position.le_iff.mpr (Or.inr ⟨rfl, Nat.zero_le _⟩)
  rw [← document.textIn_append toStart toEnd, content, textIn_lineStarts ordered inside]

/-- The lines of the text from the start of a line to that of another. Behind the
    last break there is an empty line. -/
theorem split_textIn_lineStarts {document : Document} {first last : Nat} (ordered : first ≤ last)
    (present : last < document.lineCount) :
    Line.split (document.textIn ⟨⟨first, 0⟩, ⟨last, 0⟩⟩) =
      document.linesBetween first last ++ [⟨[], none⟩] := by
  have parted := Line.split_joined_append (isWhole_of_mem_linesBetween present first) []
  rw [List.append_nil, ← textIn_lineStarts ordered present] at parted
  exact parted

/-- The lines of the text from the start of a line to the end of another. -/
theorem split_textIn_toLineEnd {document : Document} {first last : Nat} (ordered : first ≤ last)
    {line : Line} (present : document.lines[last]? = some line) :
    Line.split (document.textIn ⟨⟨first, 0⟩, ⟨last, document.lengthAt last⟩⟩) =
      document.linesBetween first last ++ [⟨line.content, none⟩] := by
  have inside : last < document.lineCount := (List.getElem?_eq_some_iff.mp present).1
  rw [textIn_toLineEnd ordered present,
    Line.split_joined_append (isWhole_of_mem_linesBetween inside first),
    Line.split_of_noFeed (noFeed_of_mem_lines (List.mem_of_getElem? present))]

end Document

end BlockMarkup
