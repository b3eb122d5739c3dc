import BlockMarkup.Document
import BlockMarkup.Proofs.Document.Location

/-!
# The line index finds locations

A document converts between offsets and positions with the help of its line
starts, and searches them by halving. The walks of `Text.locate` and
`Line.offset` need no index. This module shows that the index gives their
answers: `offsetOf` is `Line.offset` for every position, and `positionAfter` is
`Text.locate` for every offset that the document reaches and that is a machine
word.

The line of a location is found through the line starts alone: a line begins at
or before an offset exactly if it is not after the line of the offset. So the
partition point of the starts is one more than that line.
-/

namespace BlockMarkup

/-- The halving search returns the partition point of any values that have one.
    The point stays inside the open interval, which shrinks by at least one in
    every round. -/
theorem searchBetween_eq {holds : Nat → Bool} {values : Array Nat} {point : Nat}
    (parted : ∀ index, index < values.size →
      ((values[index]?.map holds).getD false = true ↔ index < point))
    (budget low high : Nat) (above : low ≤ point) (below : point ≤ high)
    (bound : high ≤ values.size)
    (enough : high - low ≤ budget) : searchBetween holds values budget low high = point := by
  induction budget generalizing low high with
  | zero =>
    have closed : low = point := by omega
    simp [searchBetween, closed]
  | succ budget hypothesis =>
    simp only [searchBetween]
    by_cases isOpen : low < high
    · have middle := parted (low + (high - low) / 2) (by omega)
      rw [if_pos isOpen]
      by_cases reached : low + (high - low) / 2 < point
      · rw [if_pos (middle.mpr reached)]
        exact hypothesis _ _ (by omega) below bound (by omega)
      · rw [if_neg (fun holdsThere => reached (middle.mp holdsThere))]
        exact hypothesis _ _ above (by omega) (by omega) (by omega)
    · rw [if_neg isOpen]
      omega

/-- `partitionPoint` is the partition point. -/
theorem partitionPoint_eq {holds : Nat → Bool} {values : Array Nat} {point : Nat}
    (bound : point ≤ values.size)
    (parted : ∀ index, index < values.size →
      ((values[index]?.map holds).getD false = true ↔ index < point)) :
    partitionPoint holds values = point :=
  searchBetween_eq parted values.size 0 values.size (Nat.zero_le _) bound (Nat.le_refl _)
    (by omega)

namespace Line

open Text

/-- A line begins at or before an offset exactly if it is not after the line of
    the offset. -/
theorem offset_lineStart_le_iff {source : Text} {index : Nat}
    (present : index < (split source).length)
    (target : Nat) :
    offset (split source) ⟨index, 0⟩ ≤ target ↔ index ≤ (locate source target).line := by
  induction source using byBreaks generalizing index target with
  | nil =>
    have first : index = 0 := by simpa [split] using present
    simp [first, split]
  | atBreak lineBreak rest hypothesis =>
    rw [split_break] at present ⊢
    cases index with
    | zero => simp
    | succ index =>
      have sizes : size (Line.text ⟨[], some lineBreak⟩) = size lineBreak.text := by
        simp [text, breakText]
      rw [offset_cons_succ, sizes]
      rcases Nat.lt_or_ge target (size lineBreak.text) with before | beyond
      · rw [locate_break_lt lineBreak rest before]
        simp only [Position.origin]
        omega
      · obtain ⟨later, rfl⟩ := Nat.exists_eq_add_of_le beyond
        have behind := hypothesis (by simpa using present) later
        rw [locate_break_add, Position.placedAt_lineStart]
        simp only
        omega
  | ordinary c rest plain hypothesis =>
    rw [split_ordinary plain] at present ⊢
    cases index with
    | zero =>
      have first := offset_extendFirst_short c (split rest) (p := ⟨0, 0⟩) rfl c.utf8Size_pos
      simp [first]
    | succ index =>
      have moved := offset_extendFirst c (split_ne_nil rest) ⟨index + 1, 0⟩
      have restPresent : index + 1 < (split rest).length := by
        obtain ⟨line, others, lines⟩ := List.exists_cons_of_ne_nil (split_ne_nil rest)
        rw [lines] at present ⊢
        exact present
      have behind := hypothesis restPresent (target - c.utf8Size)
      simp only [Position.placedAt, Nat.add_one_ne_zero, if_false, Nat.zero_add] at moved
      rw [moved, locate_ordinary plain]
      split
      · simp only
        omega
      · rw [Position.placedAt_column_line]
        omega

/-- The line of an offset is there, and the column is the distance from its
    start, cut off at the end of the content. -/
theorem locate_line (source : Text) (target : Nat) :
    ∃ line, (split source)[(locate source target).line]? = some line ∧
      (locate source target).character =
        min (target - offset (split source) ⟨(locate source target).line, 0⟩) line.length := by
  induction source using byBreaks generalizing target with
  | nil => exact ⟨⟨[], none⟩, rfl, by simp [locate, Position.origin, length]⟩
  | atBreak lineBreak rest hypothesis =>
    rw [split_break]
    rcases Nat.lt_or_ge target (size lineBreak.text) with before | beyond
    · rw [locate_break_lt lineBreak rest before]
      exact ⟨⟨[], some lineBreak⟩, rfl, by simp [Position.origin, length]⟩
    · obtain ⟨later, rfl⟩ := Nat.exists_eq_add_of_le beyond
      obtain ⟨line, present, column⟩ := hypothesis later
      have sizes : size (Line.text ⟨[], some lineBreak⟩) = size lineBreak.text := by
        simp [text, breakText]
      rw [locate_break_add, Position.placedAt_lineStart, Nat.add_comm 1]
      refine ⟨line, by simpa using present, ?_⟩
      rw [offset_cons_succ, sizes]
      simp only
      rw [column]
      congr 1
      omega
  | ordinary c rest plain hypothesis =>
    obtain ⟨first, others, lines⟩ := List.exists_cons_of_ne_nil (split_ne_nil rest)
    rw [split_ordinary plain, locate_ordinary plain]
    split
    · next inside =>
      have start := offset_extendFirst_short c (split rest) (p := ⟨0, 0⟩) rfl c.utf8Size_pos
      refine ⟨{ first with content := c :: first.content }, by rw [lines]; rfl, ?_⟩
      simp only [start, length, size_cons]
      omega
    · next beyond =>
      obtain ⟨line, present, column⟩ := hypothesis (target - c.utf8Size)
      generalize locate rest (target - c.utf8Size) = found at present column ⊢
      obtain ⟨index, character⟩ := found
      have moved := offset_extendFirst c (split_ne_nil rest) ⟨index, 0⟩
      simp only at column
      rw [lines] at present column
      cases index with
      | zero =>
        cases present
        have start := offset_extendFirst_short c (split rest) (p := ⟨0, 0⟩) rfl c.utf8Size_pos
        refine ⟨{ first with content := c :: first.content }, by rw [lines]; rfl, ?_⟩
        simp only [offset_cons_zero, floorBoundary_zero] at column
        simp only [Position.placedAt, if_true, start, column, length, size_cons]
        omega
      | succ index =>
        simp only [Position.placedAt, Nat.add_one_ne_zero, if_false, Nat.zero_add] at moved ⊢
        refine ⟨line, by rw [lines]; exact present, ?_⟩
        rw [moved, column, lines]
        congr 1
        omega

/-- The column of a position is counted from the start of its line. -/
theorem offset_eq_start_add {lines : List Line} {p : Position} {line : Line}
    (present : lines[p.line]? = some line) :
    offset lines p = offset lines ⟨p.line, 0⟩ + floorBoundary line.content p.character := by
  induction lines generalizing p with
  | nil => simp at present
  | cons first rest hypothesis =>
    obtain ⟨index, character⟩ := p
    cases index with
    | zero =>
      cases present
      simp
    | succ index =>
      have later := hypothesis (p := ⟨index, character⟩) present
      simp only [offset_cons_succ, later, Nat.add_assoc]

/-- A line beyond the last stands for the end. -/
theorem offset_of_absent {lines : List Line} {p : Position} (absent : lines.length ≤ p.line) :
    offset lines p = size (joined lines) := by
  induction lines generalizing p with
  | nil => simp [joined]
  | cons line rest hypothesis =>
    obtain ⟨index, character⟩ := p
    cases index with
    | zero => simp at absent
    | succ index =>
      have later := hypothesis (p := ⟨index, character⟩) (Nat.le_of_succ_le_succ absent)
      simp [later, joined]

/-- The text of a line stands at the start of the line. -/
theorem joined_parts {lines : List Line} {index : Nat} {line : Line}
    (present : lines[index]? = some line) :
    ∃ before after, joined lines = before ++ (line.text ++ after) ∧
      size before = offset lines ⟨index, 0⟩ := by
  induction lines generalizing index with
  | nil => simp at present
  | cons first rest hypothesis =>
    cases index with
    | zero =>
      cases present
      exact ⟨[], joined rest, rfl, by simp⟩
    | succ index =>
      obtain ⟨before, after, parted, sizes⟩ := hypothesis present
      refine ⟨first.text ++ before, after, ?_, ?_⟩
      · rw [joined, List.flatMap_cons, ← joined, parted, List.append_assoc]
      · rw [size_append, sizes, offset_cons_succ]

/-- The starts are the offsets of the first columns. -/
theorem starts_getElem? {lines : List Line} {index : Nat} (present : index < lines.length)
    (base : Nat) : (starts base lines)[index]? = some (base + offset lines ⟨index, 0⟩) := by
  induction lines generalizing base index with
  | nil => simp at present
  | cons line rest hypothesis =>
    cases index with
    | zero => simp [starts]
    | succ index =>
      have later := hypothesis (Nat.lt_of_succ_lt_succ present) (base + size line.text)
      simp [starts, later, Nat.add_assoc]

end Line

namespace Document

open Text

/-- A document has as many lines as its text is split into. -/
theorem lineCount_eq (document : Document) :
    document.lineCount = (Line.split document.text).length := by
  rw [lineCount, document.lines_eq]

/-- The start of a line, as the index has it. -/
theorem starts_getElem? (document : Document) {index : Nat} (present : index < document.lineCount) :
    document.starts[index]? = some (Line.offset (Line.split document.text) ⟨index, 0⟩) := by
  have found := Line.starts_getElem? present 0
  rw [document.starts_eq, List.getElem?_toArray, found, Nat.zero_add, document.lines_eq]

/-- The offset of a position is found by walking through the lines. -/
theorem offsetOf_eq (document : Document) (p : Position) :
    document.offsetOf p = Line.offset (Line.split document.text) p := by
  unfold offsetOf
  rcases Nat.lt_or_ge p.line document.lineCount with present | absent
  · have line := List.getElem?_eq_getElem (l := document.lines) present
    have start := document.starts_getElem? present
    rw [line, start, ← document.lines_eq, Line.offset_eq_start_add line]
  · have line : document.lines[p.line]? = none := List.getElem?_eq_none absent
    rw [line, ← document.lines_eq, Line.offset_of_absent absent, joined_lines]
    rfl

/-- The partition point of the starts is one more than the line of an offset. -/
theorem partitionPoint_starts (document : Document) (target : Nat) :
    partitionPoint (fun lineStart => decide (lineStart ≤ target)) document.starts =
      (locate document.text target).line + 1 := by
  obtain ⟨line, found, _⟩ := Line.locate_line document.text target
  have present : (locate document.text target).line < document.lineCount := by
    rw [lineCount_eq]
    exact (List.getElem?_eq_some_iff.mp found).1
  apply partitionPoint_eq
  · rw [size_starts]
    exact present
  · intro index bound
    rw [size_starts] at bound
    rw [document.starts_getElem? bound]
    simp only [Option.map_some, Option.getD_some, decide_eq_true_eq]
    rw [lineCount_eq] at bound
    rw [Line.offset_lineStart_le_iff bound target]
    omega

/-- The position a number of bytes after another is the location of the sum of
    the offsets; there is none if the document does not reach that far or the
    sum is no machine word. -/
theorem positionAfter_eq (document : Document) (start : Position) (offset : Nat) :
    document.positionAfter start offset =
      if wordLimit ≤ document.offsetOf start + offset ∨
          document.size < document.offsetOf start + offset
      then none else some (locate document.text (document.offsetOf start + offset)) := by
  unfold positionAfter
  generalize document.offsetOf start + offset = target
  by_cases tooLarge : wordLimit ≤ target
  · simp [tooLarge]
  · by_cases beyond : document.size < target
    · simp [tooLarge, beyond]
    · obtain ⟨line, found, column⟩ := Line.locate_line document.text target
      have point := document.partitionPoint_starts target
      generalize locate document.text target = location at found column point
      have present : location.line < document.lineCount := by
        rw [lineCount_eq]
        exact (List.getElem?_eq_some_iff.mp found).1
      have length : document.lengthAt location.line = line.length := by
        rw [lengthAt, document.lines_eq, found]
      simp only [tooLarge, beyond, if_false, or_self, point, Nat.add_sub_cancel, length,
        document.starts_getElem? present, Option.getD_some, ← column]

end Document

end BlockMarkup
