import BlockMarkup.Proofs.Position.Containment
import BlockMarkup.Proofs.Variable.Naming

/-!
# Offsets and positions, there and back

Positions stand for some offsets only: those that divide neither a character nor
a break. Going from an offset to its position and back lowers the offset to the
largest of these that is not above it. In front of the line feed of a pair that
is the offset before the carriage return, everywhere else the start of the
character.

Going the other way lowers a position to one that the document has: a column to
a boundary of its line, and a line beyond the last to the end position. Both
ways keep order, and nothing is asked of the position or offset to begin with.
-/

namespace BlockMarkup

namespace Text

/-- Whether a number of bytes is the largest at which a text can be parted and
    that is not above an offset. -/
structure IsFloor (text : Text) (offset boundary : Nat) : Prop where
  reached : ∃ front, front <+: text ∧ size front = boundary
  notAbove : boundary ≤ offset
  largest : ∀ front, front <+: text → size front ≤ offset → size front ≤ boundary

/-- The boundary below an offset is the largest one that is not above it. -/
theorem isFloor_floorBoundary (text : Text) (offset : Nat) :
    IsFloor text offset (floorBoundary text offset) where
  reached := by
    refine ⟨takeSize offset text, ⟨dropSize offset text, ?_⟩, size_takeSize offset text⟩
    exact takeSize_append_dropSize offset text
  notAbove := floorBoundary_le text offset
  largest := by
    rintro front ⟨back, rfl⟩ notAbove
    have raised := floorBoundary_le_floorBoundary (front ++ back) notAbove
    rwa [floorBoundary_size] at raised

/-- A text in front moves the place inside a break. -/
theorem InsideBreak.behind {text : Text} {offset : Nat} (inside : InsideBreak text offset)
    (before : Text) : InsideBreak (before ++ text) (size before + offset) := by
  obtain ⟨front, back, rfl, rfl⟩ := inside
  exact ⟨before ++ front, back, by rw [List.append_assoc], by rw [size_append, Nat.add_assoc]⟩

/-- An offset that is not inside a break is not behind any offset that has its
    position or a later one. -/
theorem le_of_locate_le_locate {text : Text} {first last : Nat} (reached : first ≤ size text)
    (outside : ¬ InsideBreak text first) (ordered : locate text first ≤ locate text last) :
    first ≤ last := by
  induction text using byBreaks generalizing first last with
  | nil => exact Nat.le_trans reached (Nat.zero_le last)
  | atBreak lineBreak rest hypothesis =>
    rcases Nat.lt_or_ge first (size lineBreak.text) with before | beyond
    · -- Before the end of the break there are its start and what is inside.
      have start : first = 0 := by
        cases lineBreak with
        | lf => exact Nat.lt_one_iff.mp before
        | crlf =>
          have notOne : first ≠ 1 := fun one => outside ⟨[], rest, rfl, one⟩
          have belowTwo : first < 2 := before
          omega
      exact start ▸ Nat.zero_le last
    · obtain ⟨later, rfl⟩ := Nat.exists_eq_add_of_le beyond
      rcases Nat.lt_or_ge last (size lineBreak.text) with lastBefore | lastBeyond
      · rw [locate_break_add, locate_break_lt lineBreak rest lastBefore, Position.placedAt_lineStart,
          Position.le_iff] at ordered
        simp only [Position.origin] at ordered
        omega
      · obtain ⟨lastLater, rfl⟩ := Nat.exists_eq_add_of_le lastBeyond
        rw [locate_break_add, locate_break_add] at ordered
        rw [size_append] at reached
        exact Nat.add_le_add_left (hypothesis (by omega)
          (fun inside => outside (inside.behind lineBreak.text))
          (Position.le_of_placedAt_le_placedAt ordered)) _
  | ordinary c rest plain hypothesis =>
    rw [locate_ordinary plain, locate_ordinary plain] at ordered
    by_cases lastBefore : last < c.utf8Size
    · rw [if_pos lastBefore] at ordered
      by_cases before : first < c.utf8Size
      · rw [if_pos before, Position.le_iff] at ordered
        simp only at ordered
        omega
      · rw [if_neg before] at ordered
        have column := Position.placedAt_le_placedAt ⟨0, c.utf8Size⟩
          (Position.origin_le (locate rest (first - c.utf8Size)))
        rw [Position.origin_placedAt] at column
        have short := Position.le_trans column ordered
        rw [Position.le_iff] at short
        simp only at short
        omega
    · by_cases before : first < c.utf8Size
      · omega
      · rw [if_neg lastBefore, if_neg before] at ordered
        obtain ⟨later, rfl⟩ := Nat.exists_eq_add_of_le (Nat.le_of_not_lt before)
        rw [size_cons] at reached
        have behind := hypothesis (by omega)
          (fun inside => outside (by simpa using inside.behind [c]))
          (Position.le_of_placedAt_le_placedAt ordered)
        omega

end Text

namespace Document

open Text

/-- The position that stands for any other one: the column is lowered to a
    boundary of its line, and a line beyond the last is the end. -/
def clamp (document : Document) (p : Position) : Position :=
  match document.lines[p.line]? with
  | some line => ⟨p.line, floorBoundary line.content p.character⟩
  | none => document.endPosition

/-! ## From an offset and back -/

/-- A position never stands for an offset behind the one it was found for: the
    line begins at or before it, and the column counts no further. -/
theorem offsetOf_locate_le (document : Document) (offset : Nat) :
    document.offsetOf (locate document.text offset) ≤ offset := by
  obtain ⟨line, found, column⟩ := Line.locate_line document.text offset
  have present := (List.getElem?_eq_some_iff.mp found).1
  have begins := (Line.offset_lineStart_le_iff present offset).mpr (Nat.le_refl _)
  have lowered := floorBoundary_le line.content (locate document.text offset).character
  rw [offsetOf_eq, Line.offset_eq_start_add found]
  omega

/-- A parting that divides no break is not behind the position of any later
    offset. -/
theorem le_offsetOf_locate {document : Document} {front back : Text} {offset : Nat}
    (parted : document.text = front ++ back) (whole : ¬ SplitsBreak front back)
    (notAbove : Text.size front ≤ offset) :
    Text.size front ≤ document.offsetOf (locate document.text offset) := by
  have later := document.offsetOf_le_offsetOf (locate_le_locate document.text notAbove)
  rwa [offsetOf_locate parted whole] at later

/-- No position stands for an offset inside a break. -/
theorem not_insideBreak_offsetOf (document : Document) (p : Position) :
    ¬ InsideBreak document.text (document.offsetOf p) := by
  rintro ⟨front, back, parted, inside⟩
  obtain ⟨front', back', parted', sizes, whole⟩ := document.offsetOf_parts p
  have equal : (front ++ ['\r']) ++ ('\n' :: back) = front' ++ back' := by
    rw [← parted', parted, List.append_assoc, List.singleton_append]
  have behindReturn : Text.size (front ++ ['\r']) = Text.size front + 1 := size_append _ _
  obtain ⟨rfl, rfl⟩ := parts_unique equal (by omega)
  apply whole
  simp [SplitsBreak]

/-- Inside a break the position is the end of the line, one byte before. -/
theorem offsetOf_locate_of_insideBreak {document : Document} {offset : Nat}
    (inside : InsideBreak document.text offset) :
    document.offsetOf (locate document.text offset) = offset - 1 := by
  have notAbove := document.offsetOf_locate_le offset
  have other : document.offsetOf (locate document.text offset) ≠ offset := by
    intro same
    have never := document.not_insideBreak_offsetOf (locate document.text offset)
    rw [same] at never
    exact never inside
  obtain ⟨front, back, parted, rfl⟩ := inside
  have before : ¬ SplitsBreak front ('\r' :: '\n' :: back) := by simp [SplitsBreak]
  have notBelow := le_offsetOf_locate parted before (Nat.le_add_right (Text.size front) 1)
  omega

/-- Everywhere else it is the character boundary below the offset. -/
theorem offsetOf_locate_of_not_insideBreak {document : Document} {offset : Nat}
    (outside : ¬ InsideBreak document.text offset) :
    document.offsetOf (locate document.text offset) = floorBoundary document.text offset := by
  have floor := isFloor_floorBoundary document.text offset
  apply Nat.le_antisymm
  · obtain ⟨front, back, parted, sizes, _⟩ :=
      document.offsetOf_parts (locate document.text offset)
    have notAbove := document.offsetOf_locate_le offset
    rw [← sizes] at notAbove ⊢
    exact floor.largest front ⟨back, parted.symm⟩ notAbove
  · have notAbove := floor.notAbove
    obtain ⟨front, ⟨back, parted⟩, sizes⟩ := floor.reached
    rw [← sizes] at notAbove ⊢
    apply le_offsetOf_locate parted.symm _ notAbove
    rintro ⟨carriage, feed⟩
    obtain ⟨later, rfl⟩ := List.head?_eq_some_iff.mp feed
    -- A line feed that fits before the offset would have been taken in.
    have reached : Text.size front = offset := by
      have taken := floor.largest (front ++ ['\n']) ⟨later, by rw [← parted]; simp⟩
      rw [← sizes] at taken
      simp only [size_append, size_cons, size_nil] at taken
      have single : '\n'.utf8Size = 1 := rfl
      omega
    rw [← parted, ← reached] at outside
    exact not_splitsBreak_of_not_insideBreak outside ⟨carriage, feed⟩

/-! ## From a position and back -/

/-- Going to the offset of a position and back gives the position that stands
    for it. -/
theorem locate_offsetOf (document : Document) (p : Position) :
    locate document.text (document.offsetOf p) = document.clamp p := by
  unfold clamp
  cases found : document.lines[p.line]? with
  | some line =>
    rw [document.lines_eq] at found
    rw [offsetOf_eq]
    exact Line.locate_offset found
  | none =>
    have absent : document.lines.length ≤ p.line := List.getElem?_eq_none_iff.mp found
    rw [offsetOf_eq, ← document.lines_eq, Line.offset_of_absent absent, joined_lines]
    exact document.locate_size

/-- What a document gives out for an offset is the location of the offset. -/
theorem positionAt_eq_some_iff {document : Document} (fits : document.size < wordLimit)
    {offset : Nat} {p : Position} :
    document.positionAt offset = some p ↔
      offset ≤ document.size ∧ p = locate document.text offset := by
  constructor
  · exact locate_of_positionAt
  · rintro ⟨reached, rfl⟩
    exact positionAt_of_le fits reached

/-- Offsets and positions of a document are converted into each other up to
    clamping, and order is kept both ways. -/
theorem offsetOf_positionAt_inverse (document : Document) (fits : document.size < wordLimit) :
    (∀ offset, (document.positionAt offset).isSome ↔ offset ≤ document.size) ∧
    (∀ offset p, document.positionAt offset = some p →
      p.line < document.lineCount ∧ p.character ≤ document.lengthAt p.line ∧
      (InsideBreak document.text offset → document.offsetOf p = offset - 1) ∧
      (¬ InsideBreak document.text offset →
        IsFloor document.text offset (document.offsetOf p))) ∧
    (∀ q line, document.lines[q.line]? = some line →
      ∃ column, IsFloor line.content q.character column ∧
        document.positionAt (document.offsetOf q) = some ⟨q.line, column⟩) ∧
    (∀ q, document.lineCount ≤ q.line →
      document.positionAt (document.offsetOf q) = some document.endPosition) ∧
    (∀ p q, p ≤ q → document.offsetOf p ≤ document.offsetOf q) ∧
    (∀ first last p q, first ≤ last → document.positionAt first = some p →
      document.positionAt last = some q → p ≤ q) := by
  have back (q : Position) :
      document.positionAt (document.offsetOf q) = some (document.clamp q) := by
    rw [positionAt_eq_some_iff fits, locate_offsetOf]
    exact ⟨document.offsetOf_le_size q, rfl⟩
  refine ⟨?_, ?_, ?_, ?_, fun p q => document.offsetOf_le_offsetOf, ?_⟩
  · intro offset
    rw [Option.isSome_iff_exists]
    constructor
    · rintro ⟨p, found⟩
      exact ((positionAt_eq_some_iff fits).mp found).1
    · intro reached
      exact ⟨_, positionAt_of_le fits reached⟩
  · intro offset p found
    obtain ⟨_, rfl⟩ := (positionAt_eq_some_iff fits).mp found
    obtain ⟨line, here, column⟩ := Line.locate_line document.text offset
    rw [← document.lines_eq] at here
    refine ⟨(List.getElem?_eq_some_iff.mp here).1, ?_, offsetOf_locate_of_insideBreak, ?_⟩
    · rw [lengthAt, here, column]
      exact Nat.min_le_right _ _
    · intro outside
      rw [offsetOf_locate_of_not_insideBreak outside]
      exact isFloor_floorBoundary document.text offset
  · intro q line present
    refine ⟨floorBoundary line.content q.character, isFloor_floorBoundary _ _, ?_⟩
    rw [back, clamp, present]
  · intro q absent
    rw [back, clamp, List.getElem?_eq_none absent]
  · intro first last p q ordered atFirst atLast
    obtain ⟨_, rfl⟩ := (positionAt_eq_some_iff fits).mp atFirst
    obtain ⟨_, rfl⟩ := (positionAt_eq_some_iff fits).mp atLast
    exact locate_le_locate document.text ordered

/-- One offset between the two characters of a break, one between the two bytes
    of a character, and a column beyond the end of a line. -/
theorem offsetOf_positionAt_inverse_inside_break :
    (ofText "aé\r\nb".toList).size < wordLimit ∧
      ((ofText "aé\r\nb".toList).positionAt 4 = some ⟨0, 3⟩ ∧
        InsideBreak (ofText "aé\r\nb".toList).text 4 ∧
        (ofText "aé\r\nb".toList).offsetOf ⟨0, 3⟩ = 4 - 1) ∧
      ((ofText "aé\r\nb".toList).positionAt 2 = some ⟨0, 2⟩ ∧
        ¬ InsideBreak (ofText "aé\r\nb".toList).text 2 ∧
        IsFloor (ofText "aé\r\nb".toList).text 2 ((ofText "aé\r\nb".toList).offsetOf ⟨0, 2⟩)) ∧
      ∃ column, IsFloor "aé".toList 9 column ∧
        (ofText "aé\r\nb".toList).positionAt ((ofText "aé\r\nb".toList).offsetOf ⟨0, 9⟩) =
          some ⟨0, column⟩ := by
  obtain ⟨_, back, forth, _⟩ := offsetOf_positionAt_inverse (ofText "aé\r\nb".toList) (by decide)
  refine ⟨by decide, ⟨by decide, by decide, ?_⟩, ⟨by decide, by decide, ?_⟩, ?_⟩
  · exact (back 4 ⟨0, 3⟩ (by decide)).2.2.1 (by decide)
  · exact (back 2 ⟨0, 2⟩ (by decide)).2.2.2 (by decide)
  · exact forth ⟨0, 9⟩ ⟨"aé".toList, some .crlf⟩ (by decide)

end Document

end BlockMarkup
