import BlockMarkup.Proofs.Document.WholeLines
import BlockMarkup.Proofs.Variable.Placement

/-!
# Interpolations line by line

No interpolation goes over a line break, since there are no blanks in one. So
the references by interpolation in a text are those of its lines, one line after
another, and the breaks between the lines count for nothing but the number of
the line. `references_eq_byLine` says so for every text that begins with a line.
-/

namespace BlockMarkup

open Text

namespace Line.IsWhole

variable {line : Line} (whole : line.IsWhole)

include whole

/-- The text of a whole line ends at the start of the next line. -/
theorem locate_size : locate line.text (Text.size line.text) = ⟨1, 0⟩ := by
  have lines : (Document.ofText line.text).lines = [line, ⟨[], none⟩] := by
    have parted := split_text_append whole []
    rwa [List.append_nil] at parted
  refine (Document.locate_size (Document.ofText line.text)).trans ?_
  simp [Document.endPosition, Document.lineCount, Document.lengthAt, lines, Line.length]

/-- The text of a whole line ends with a line feed, so it parts no break. -/
theorem not_splitsBreak_text (rest : Text) : ¬ SplitsBreak line.text rest := by
  obtain ⟨content, ending⟩ := line
  obtain ⟨_, lineBreak, rfl, _⟩ := whole
  rintro ⟨carriage, _⟩
  rw [text, breakText, List.getLast?_append] at carriage
  cases lineBreak <;> cases carriage

/-- The content takes nothing from the break behind it. -/
theorem not_splitsBreak_content (rest : Text) :
    ¬ SplitsBreak line.content (line.breakText ++ rest) := by
  obtain ⟨content, ending⟩ := line
  obtain ⟨_, lineBreak, rfl, parted⟩ := whole
  rintro ⟨carriage, feed⟩
  apply parted
  refine ⟨carriage, ?_⟩
  cases lineBreak <;> exact feed

/-- An offset in the first line is located by that line alone. -/
theorem locate_content (rest : Text) {offset : Nat} (inside : offset ≤ Text.size line.content) :
    locate (line.text ++ rest) offset = locate line.content offset := by
  rw [text, List.append_assoc]
  exact locate_append_of_le _ _ (whole.not_splitsBreak_content rest) inside

/-- Behind a whole line positions are one line further down. -/
theorem locate_behind (rest : Text) (offset index : Nat) :
    (locate (line.text ++ rest) (Text.size line.text + offset)).placedAt ⟨index, 0⟩ =
      (locate rest offset).placedAt ⟨index + 1, 0⟩ := by
  rw [locate_append _ _ (whole.not_splitsBreak_text rest), whole.locate_size,
    Position.placedAt_placedAt]
  rfl

end Line.IsWhole

namespace Interpolation

/-- A scan goes over a line break. -/
theorem scanFrom_append_break (content : Text) (lineBreak : LineBreak) (rest : Text) :
    scanFrom 0 0 (content ++ (lineBreak.text ++ rest)) = scanFrom 0 0 content ++
      scanFrom (0 + (Text.size content + Text.size lineBreak.text)) 0 rest := by
  have feed (front : Text) (offset : Nat) : scanFrom offset 0 (front ++ '\n' :: rest) =
      scanFrom offset 0 front ++ scanFrom (offset + Text.size front + 1) 0 rest :=
    scanFrom_append_blank (by decide) rest (Nat.zero_le _)
  cases lineBreak with
  | lf =>
    rw [← Nat.add_assoc]
    exact feed content 0
  | crlf =>
    -- The line feed is a blank at the start of what follows the carriage return.
    have carriage : scanFrom 0 0 (content ++ '\r' :: '\n' :: rest) =
        scanFrom 0 0 content ++ scanFrom (0 + Text.size content + 1) 0 ('\n' :: rest) :=
      scanFrom_append_blank (by decide) _ (Nat.zero_le _)
    rw [← Nat.add_assoc]
    exact carriage.trans (congrArg (scanFrom 0 0 content ++ ·) (feed [] _))

/-- What is found in a line and the text behind it: what is found in the content,
    and what is found in the text behind. -/
theorem scan_text_append {line : Line} (whole : line.IsWhole) (rest : Text) :
    scan (line.text ++ rest) = scan line.content ++
      (scan rest).map fun found => ⟨found.name, found.offset + Text.size line.text⟩ := by
  obtain ⟨content, ending⟩ := line
  obtain ⟨_, lineBreak, rfl, _⟩ := whole
  simp only [Line.text, Line.breakText, List.append_assoc, size_append]
  rw [scan, scanFrom_append_break, scanFrom_add]
  rfl

/-- The references in a line and in the text behind it. -/
theorem references_text_append {line : Line} (whole : line.IsWhole) (rest : Text) (index : Nat) :
    references (line.text ++ rest) ⟨index, 0⟩ =
      references line.content ⟨index, 0⟩ ++ references rest ⟨index + 1, 0⟩ := by
  unfold references
  rw [scan_text_append whole, List.map_append, List.map_map]
  congr 1
  · apply List.map_congr_left
    intro found member
    obtain ⟨start, stop⟩ := nameSpan_le_size member
    rw [whole.locate_content rest start, whole.locate_content rest stop]
  · apply List.map_congr_left
    intro found _
    have start := whole.locate_behind rest found.nameSpan.start index
    have stop := whole.locate_behind rest found.nameSpan.stop index
    simp only [Function.comp_apply, nameSpan, Span.ofLength] at start stop ⊢
    rw [Nat.add_right_comm, Nat.add_comm found.offset, Nat.add_comm (found.offset + _), start, stop]

/-- The references by interpolation in lines, the first at the index. -/
def referencesByLine : List Text → Nat → List VariableReference
  | [], _ => []
  | content :: rest, index => references content ⟨index, 0⟩ ++ referencesByLine rest (index + 1)

/-- A text made of lines refers to what its lines refer to, one after another. -/
theorem references_joined_append {front : List Line} (whole : ∀ line ∈ front, line.IsWhole)
    (last : Text) (index : Nat) :
    references (Line.joined front ++ last) ⟨index, 0⟩ =
      referencesByLine (front.map Line.content ++ [last]) index := by
  induction front generalizing index with
  | nil => exact (List.append_nil _).symm
  | cons line rest hypothesis =>
    have restWhole : ∀ other ∈ rest, other.IsWhole := fun other member =>
      whole other (List.mem_cons_of_mem line member)
    rw [Line.joined_cons, List.append_assoc,
      references_text_append (whole line List.mem_cons_self), hypothesis restWhole]
    rfl

/-- The references in a text are those in its lines. -/
theorem references_eq_byLine (text : Text) (index : Nat) :
    references text ⟨index, 0⟩ = referencesByLine ((Line.split text).map Line.content) index := by
  obtain ⟨front, last, parts, whole, _⟩ := Line.split_parts text
  have lines := references_joined_append whole last index
  rw [Line.joined_append_last parts] at lines
  rw [lines, parts, List.map_append]
  rfl

end Interpolation

end BlockMarkup
