import BlockMarkup.Block.Dictionary
import BlockMarkup.Proofs.Document.Slice

/-!
# Pieces of a line

The grammars of single lines report strings and ranges side by side: the name of
a block, the key and the value of a field, the element of an array field, the
entry of an array, and the line itself where it fits no form. They compute them
apart from each other, but each grammar gives its line back in pieces. The string
is one of these, and the column of the range counts the bytes before it.

So the range covers the string, and it does not leave the line.
-/

namespace BlockMarkup

/-- Whether a string is a piece of a line with that index, and a range the place
    where it stands. -/
def IsPiece (content : Text) (index : Nat) (piece : Text) (range : Range) : Prop :=
  ∃ front back, content = front ++ (piece ++ back) ∧
    range = Range.ofLength index (Text.size front) (Text.size piece)

/-- A piece is what its range covers. -/
theorem IsPiece.textIn {document : Document} {index : Nat} {line : Line} {piece : Text}
    {range : Range} (isPiece : IsPiece line.content index piece range)
    (present : document.lines[index]? = some line) : document.textIn range = piece := by
  obtain ⟨front, back, parted, rfl⟩ := isPiece
  exact Document.textIn_ofLength present parted

/-- A line is a piece of itself. -/
theorem PlainText.isPiece_ofLine (content : Text) (index : Nat) :
    IsPiece content index content (ofLine content index).range :=
  ⟨[], [], by simp, rfl⟩

/-- The name of a block is a piece of its header line. -/
theorem BlockHeader.isPiece_name {content : Text} {index : Nat} {header : BlockHeader}
    (found : ofLine? content index = some header) :
    IsPiece content index header.name header.nameRange := by
  obtain ⟨pieces, read, rfl⟩ := Option.map_eq_some_iff.mp found
  have parted := (HeaderLine.text_of_read? read).symm
  rw [HeaderLine.text, List.append_assoc, List.append_assoc] at parted
  exact ⟨_, _, parted, rfl⟩

namespace SimpleField

variable {content : Text} {index : Nat} {field : SimpleField}
  (found : ofLine? content index = some field)

include found

/-- Before the key stand the leading blanks and the mark. -/
theorem isPiece_key : IsPiece content index field.key field.keyRange := by
  obtain ⟨pieces, read, rfl⟩ := Option.map_eq_some_iff.mp found
  have parted : content = (pieces.lead ++ markText pieces.disabled) ++
      (pieces.key ++ (pieces.gap ++ ':' :: pieces.value)) := by
    rw [← FieldLine.text_of_read? read, FieldLine.text]
    simp only [List.append_assoc]
  refine ⟨_, _, parted, ?_⟩
  rw [Text.size_append]
  rfl

/-- The value is trimmed, so what stands before it is the key with its mark, the
    colon and the blanks of the value. -/
theorem isPiece_value : IsPiece content index field.value field.valueRange := by
  obtain ⟨pieces, read, rfl⟩ := Option.map_eq_some_iff.mp found
  obtain ⟨tail, value⟩ := Text.leadingBlanks_append_trim pieces.value
  have parted : content =
      (pieces.lead ++ markText pieces.disabled ++ pieces.key ++ pieces.gap ++ [':'] ++
        Text.leadingBlanks pieces.value) ++ (Text.trim pieces.value ++ tail) := by
    rw [← FieldLine.text_of_read? read, FieldLine.text]
    simp only [List.append_assoc, List.cons_append, List.nil_append]
    rw [← value]
  refine ⟨_, _, parted, ?_⟩
  simp only [Text.size_append]
  rfl

/-- The key ends before the value starts, as the colon stands between them. -/
theorem keyRange_lt_valueRange : field.keyRange.stop < field.valueRange.start := by
  obtain ⟨pieces, read, rfl⟩ := Option.map_eq_some_iff.mp found
  rw [Position.lt_iff]
  refine Or.inr ⟨rfl, ?_⟩
  simp only [Range.ofLength, FieldLine.valueSpan, FieldLine.keySpan, Span.ofLength]
  omega

end SimpleField

/-- An entry is a piece of its line, with or without a comma behind it. -/
theorem Entry.isPiece_entry {place : EntryPlace} {content : Text} {index : Nat} {entry : Entry}
    (found : ofLine? place content index = some entry) :
    IsPiece content index entry.entry entry.entryRange := by
  unfold ofLine? at found
  split at found
  · cases found
  · obtain ⟨pieces, read, rfl⟩ := Option.map_eq_some_iff.mp found
    have parted := (EntryLine.text_of_read? read).symm
    rw [EntryLine.text, List.append_assoc, List.append_assoc] at parted
    refine ⟨_, _, parted, ?_⟩
    rw [Text.size_append]
    rfl

/-- An element stands after the blanks of its line; a comma and blanks may
    follow it. -/
theorem ArrayField.elementText_parts (content : Text) :
    ∃ tail, content = Text.leadingBlanks content ++ (elementText content ++ tail) := by
  obtain ⟨tail, parted⟩ := Text.leadingBlanks_append_trim content
  unfold elementText
  simp only
  split
  · next comma =>
    obtain ⟨front, ended⟩ := List.getLast?_eq_some_iff.mp comma
    obtain ⟨gap, body⟩ := Text.trimEnd_append front
    refine ⟨gap ++ ',' :: tail, ?_⟩
    rw [ended, List.dropLast_concat]
    calc content = Text.leadingBlanks content ++ (front ++ [','] ++ tail) := by
          rw [← ended, ← parted]
      _ = Text.leadingBlanks content ++ (Text.trimEnd front ++ gap ++ [','] ++ tail) := by
          rw [← body]
      _ = Text.leadingBlanks content ++ (Text.trimEnd front ++ (gap ++ ',' :: tail)) := by simp
  · exact ⟨tail, parted⟩

/-- An element stands behind the leading blanks, the comma after it left out. -/
theorem ArrayField.isPiece_element (content : Text) (index : Nat) :
    IsPiece content index (elementText content)
      (Range.ofLength index (Text.size (Text.leadingBlanks content))
        (Text.size (elementText content))) := by
  obtain ⟨tail, parted⟩ := elementText_parts content
  exact ⟨_, tail, parted, rfl⟩

end BlockMarkup
