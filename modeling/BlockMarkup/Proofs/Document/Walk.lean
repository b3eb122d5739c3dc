import BlockMarkup.Proofs.Document.Conversion
import BlockMarkup.Proofs.Document.LineRanges
import BlockMarkup.Proofs.Variable.LineByLine

/-!
# Walking from line to line

A number of bytes can be counted off without a line index: begin on some line,
and as long as the bytes reach beyond the line and its break, go on with the
next one. The walk has three rules of its own. The end of a content belongs to
its line, so does everything inside a break, and what reaches beyond the last
line is nowhere.

`positionAfter` searches the line starts instead, and its columns are distances
from the start of the text. `positionAfter_eq_walkAfter` says that both find the
same position, from any start.
-/

namespace BlockMarkup

open Text

namespace Line

/-- The position a number of bytes behind the start of the first line, which is
    line `index`. -/
def walk : List Line → Nat → Nat → Option Position
  | [], _, _ => none
  | line :: rest, index, remaining =>
    if remaining ≤ line.length then some ⟨index, remaining⟩
    else if rest.isEmpty then none
    else if remaining < line.length + size line.breakText then some ⟨index, line.length⟩
    else walk rest (index + 1) (remaining - (line.length + size line.breakText))

/-- The walk ends on the last line or before. -/
theorem walk_last (last : Text) (index remaining : Nat) :
    walk [⟨last, none⟩] index remaining =
      if remaining ≤ size last then some ⟨index, remaining⟩ else none := rfl

/-- On a line that is alone the column is the offset. -/
theorem locate_of_noFeed {content : Text} (noFeed : '\n' ∉ content) {offset : Nat}
    (inside : offset ≤ size content) : locate content offset = ⟨0, offset⟩ := by
  obtain ⟨line, found, column⟩ := locate_line content offset
  rw [split_of_noFeed noFeed] at found column
  obtain ⟨bound, rfl⟩ := List.getElem?_eq_some_iff.mp found
  generalize locate content offset = location at *
  obtain ⟨index, character⟩ := location
  obtain rfl : index = 0 := by simpa using bound
  simp only [List.getElem_singleton, length, offset_cons_zero, floorBoundary_zero] at column
  rw [column, Nat.sub_zero, Nat.min_eq_left inside]

/-- Inside the break of a whole line every offset is at the end of the content. -/
theorem IsWhole.locate_inside_break {line : Line} (whole : line.IsWhole) (rest : Text)
    {offset : Nat} (behind : line.length ≤ offset) (inside : offset < size line.text) :
    locate (line.text ++ rest) offset = ⟨0, line.length⟩ := by
  obtain ⟨further, rfl⟩ := Nat.exists_eq_add_of_le behind
  have parted := locate_append _ _ (whole.not_splitsBreak_content rest) further
  rw [locate_of_noFeed whole.noFeed (Nat.le_refl _)] at parted
  rw [text, List.append_assoc]
  refine parted.trans ?_
  obtain ⟨_, lineBreak, ended, _⟩ := whole
  have broken : line.breakText = lineBreak.text := by rw [breakText, ended]
  rw [text, size_append, broken] at inside
  rw [broken, locate_break_lt lineBreak rest (Nat.lt_of_add_lt_add_left inside)]
  rfl

/-- A walk over whole lines and a last one finds the location, as far as there
    is text. -/
theorem walk_append_last {front : List Line} {last : Text}
    (whole : ∀ line ∈ front, line.IsWhole) (noFeed : '\n' ∉ last) (index remaining : Nat) :
    walk (front ++ [⟨last, none⟩]) index remaining =
      if remaining ≤ size (joined front ++ last) then
        some ((locate (joined front ++ last) remaining).placedAt ⟨index, 0⟩)
      else none := by
  induction front generalizing index remaining with
  | nil =>
    rw [List.nil_append, joined_nil, List.nil_append, walk_last]
    by_cases inside : remaining ≤ size last
    · rw [if_pos inside, if_pos inside, locate_of_noFeed noFeed inside,
        Position.placedAt_lineStart]
      rfl
    · rw [if_neg inside, if_neg inside]
  | cons line others hypothesis =>
    have here := whole line List.mem_cons_self
    have later := hypothesis fun other member => whole other (List.mem_cons_of_mem line member)
    have measured : size line.text = line.length + size line.breakText := size_append _ _
    have goesOn : (others ++ [(⟨last, none⟩ : Line)]).isEmpty = false := by simp
    rw [List.cons_append, walk, goesOn, joined_cons, List.append_assoc, size_append]
    simp only [Bool.false_eq_true, if_false]
    -- The target is in the content, inside the break, or on a later line.
    by_cases onLine : remaining ≤ line.length
    · rw [if_pos onLine, if_pos (by omega), here.locate_content _ onLine,
        locate_of_noFeed here.noFeed onLine, Position.placedAt_lineStart]
      rfl
    · by_cases inBreak : remaining < line.length + size line.breakText
      · rw [if_neg onLine, if_pos inBreak, if_pos (by omega),
          here.locate_inside_break _ (by omega) (by omega), Position.placedAt_lineStart]
        rfl
      · obtain ⟨further, rfl⟩ := Nat.exists_eq_add_of_le (show size line.text ≤ remaining by omega)
        rw [if_neg onLine, if_neg inBreak, ← measured, Nat.add_sub_cancel_left, later,
          here.locate_behind]
        simp only [Nat.add_le_add_iff_left]

/-- A walk over the lines of a text leads to where the offset is located, unless it
    leaves the text. -/
theorem walk_split (source : Text) (index remaining : Nat) :
    walk (split source) index remaining =
      if remaining ≤ size source then some ((locate source remaining).placedAt ⟨index, 0⟩)
      else none := by
  obtain ⟨front, last, parts, whole, noFeed⟩ := split_parts source
  rw [parts, walk_append_last whole noFeed, joined_append_last parts]

end Line

namespace Document

/-- The position that a walk finds a number of bytes after another position. It
    begins on the line of the position that stands for the given one. -/
def walkAfter (document : Document) (start : Position) (offset : Nat) : Option Position :=
  let origin := document.clamp start
  let remaining := origin.character + offset
  if wordLimit ≤ remaining then none
  else Line.walk (document.lines.drop origin.line) origin.line remaining

/-- A walk from the start of a line finds the location, as far as there is
    text. -/
theorem walk_drop {document : Document} {index : Nat} (present : index < document.lineCount)
    (remaining : Nat) :
    Line.walk (document.lines.drop index) index remaining =
      if document.offsetOf ⟨index, 0⟩ + remaining ≤ document.size then
        some (locate document.text (document.offsetOf ⟨index, 0⟩ + remaining))
      else none := by
  obtain ⟨behind, dropped⟩ := exists_document_drop present
  obtain ⟨front, back, parted, sizes, whole⟩ := document.offsetOf_parts ⟨index, 0⟩
  have counted : Text.size (Line.joined (document.lines.take index)) =
      document.offsetOf ⟨index, 0⟩ := by
    rw [offsetOf_eq_offset_lines, Line.offset_lineStart (Nat.le_of_lt present)]
  obtain ⟨_, rfl⟩ : Line.joined (document.lines.take index) = front ∧ behind.text = back := by
    apply parts_unique _ (counted.trans sizes.symm)
    rw [← parted, ← behind.joined_lines, dropped, ← Line.joined_append, List.take_append_drop,
      joined_lines]
  have begins : locate front (Text.size front) = ⟨index, 0⟩ := by
    have line := List.getElem?_eq_getElem (l := document.lines) present
    have located := document.locate_offsetOf ⟨index, 0⟩
    rw [clamp, line, ← sizes, parted] at located
    have moved := locate_append front behind.text whole 0
    rw [locate_zero, Position.origin_placedAt, Nat.add_zero] at moved
    simpa [← moved] using located
  rw [← dropped, behind.lines_eq, Line.walk_split, ← sizes, size, parted, size_append,
    locate_append front behind.text whole, begins]
  simp only [Nat.add_le_add_iff_left]

/-- The offset of a position is that of the start of a line and the column in
    it, both being those of the position that stands for it. -/
theorem offsetOf_eq_clamp (document : Document) (p : Position) :
    (document.clamp p).line < document.lineCount ∧
      document.offsetOf p =
        document.offsetOf ⟨(document.clamp p).line, 0⟩ + (document.clamp p).character := by
  obtain ⟨front, back, parted, sizes, whole⟩ := document.offsetOf_parts p
  have same := offsetOf_locate parted whole
  obtain ⟨line, found, column⟩ := Line.locate_line document.text (document.offsetOf p)
  rw [sizes] at same
  rw [locate_offsetOf] at same found column
  have present := (List.getElem?_eq_some_iff.mp found).1
  have parts := Line.offset_eq_start_add found
  have lowered := floorBoundary_le line.content (document.clamp p).character
  rw [← offsetOf_eq, ← offsetOf_eq, same] at parts
  rw [← offsetOf_eq] at column
  refine ⟨by rwa [lineCount_eq], ?_⟩
  omega

/-- Searching the line starts finds what a walk from line to line finds. A sum
    that is no machine word is nowhere, whichever way it is formed. -/
theorem positionAfter_eq_walkAfter (document : Document) (fits : document.size < wordLimit)
    (start : Position) (offset : Nat) :
    document.positionAfter start offset = document.walkAfter start offset ∧
      (wordLimit ≤ document.offsetOf start + offset →
        document.positionAfter start offset = none) := by
  obtain ⟨present, target⟩ := document.offsetOf_eq_clamp start
  have walked := walk_drop present ((document.clamp start).character + offset)
  rw [← Nat.add_assoc, ← target] at walked
  rw [positionAfter_eq, walkAfter]
  simp only [walked]
  constructor
  · by_cases reached : document.offsetOf start + offset ≤ document.size
    · rw [if_neg (by omega), if_neg (by omega), if_pos reached]
    · rw [if_pos (by omega), if_neg reached, ite_self]
  · intro tooLarge
    rw [if_pos (Or.inl tooLarge)]

/-- The start is inside a character and the target inside a break; the other
    start is beyond the last line. -/
theorem positionAfter_eq_walkAfter_inside_break :
    (ofText "aé\r\n\rb\r\nc".toList).size < wordLimit ∧
      (ofText "aé\r\n\rb\r\nc".toList).positionAfter ⟨0, 2⟩ 3 =
        (ofText "aé\r\n\rb\r\nc".toList).walkAfter ⟨0, 2⟩ 3 ∧
      (ofText "aé\r\n\rb\r\nc".toList).walkAfter ⟨0, 2⟩ 3 = some ⟨0, 3⟩ ∧
      (ofText "aé\r\n\rb\r\nc".toList).positionAfter ⟨7, 0⟩ 1 =
        (ofText "aé\r\n\rb\r\nc".toList).walkAfter ⟨7, 0⟩ 1 ∧
      (ofText "aé\r\n\rb\r\nc".toList).walkAfter ⟨7, 0⟩ 1 = none :=
  ⟨by decide, (positionAfter_eq_walkAfter _ (by decide) ⟨0, 2⟩ 3).1, by decide,
    (positionAfter_eq_walkAfter _ (by decide) ⟨7, 0⟩ 1).1, by decide⟩

end Document

end BlockMarkup
