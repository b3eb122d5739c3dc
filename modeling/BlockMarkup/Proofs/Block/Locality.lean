import BlockMarkup.Proofs.Document.SharedLines

/-!
# A block ends at its closing line

No reader looks past the line that closes a block. `ClosesAfter` says so of a
list of lines: reading ends at one of them, whatever stands behind it. The line
that closes a block is never empty, since it has at least a bracket.

So a document that agrees with another up to the closing line of a block has the
same content there. The break after the closing line does not count.
-/

namespace BlockMarkup

/-- Whether reading a list of lines ends at the one after `count` of them: that
    line has characters, and any lines may stand behind it. -/
def ClosesAfter {α : Type} (read : List Text → α) (lines : List Text) (count : Nat) : Prop :=
  ∃ before closing after, lines = before ++ closing :: after ∧ before.length = count ∧
    closing ≠ [] ∧ ∀ other, read (before ++ closing :: other) = read lines

namespace ClosesAfter

variable {α β : Type} {read : List Text → α}

/-- A reading that ends at its first line looks at no line behind it. -/
theorem here {closing : Text} {after : List Text} (filled : closing ≠ [])
    (same : ∀ other, read (closing :: other) = read (closing :: after)) :
    ClosesAfter read (closing :: after) 0 :=
  ⟨[], closing, after, rfl, rfl, filled, same⟩

/-- A reader that takes one line and leaves the rest to another ends where the
    other does. -/
theorem cons {content : Text} {rest : List Text} {count : Nat}
    (later : ClosesAfter read rest count) {outer : List Text → β} (result : α → β)
    (step : ∀ lines, outer (content :: lines) = result (read lines)) :
    ClosesAfter outer (content :: rest) (count + 1) := by
  obtain ⟨before, closing, after, rfl, counted, filled, same⟩ := later
  refine ⟨content :: before, closing, after, rfl, congrArg (· + 1) counted, filled, ?_⟩
  intro other
  rw [List.cons_append, step, same, step]

variable {document : Document} {firstLine count : Nat}
  (closes : ClosesAfter read (document.contentsFrom firstLine) count)

include closes

/-- Documents that agree up to the closing line are read alike. -/
theorem read_eq {other : Document} (agrees : document.AgreesTo other (firstLine + count)) :
    read (other.contentsFrom firstLine) = read (document.contentsFrom firstLine) := by
  obtain ⟨before, closing, after, remaining, counted, _, same⟩ := closes
  obtain ⟨behind, there⟩ := agrees.contentsFrom remaining (by rw [counted])
  rw [there, same]

/-- The line that closes a block is not empty. -/
theorem content_ne_nil {line : Line} (present : document.lines[firstLine + count]? = some line) :
    line.content ≠ [] := by
  obtain ⟨before, closing, after, remaining, counted, filled, _⟩ := closes
  have found : (document.contentsFrom firstLine)[count]? = some line.content := by
    rw [Document.contentsFrom, List.getElem?_map, List.getElem?_drop, present]
    rfl
  rw [remaining, ← counted, List.getElem?_append_right (Nat.le_refl _), Nat.sub_self,
    List.getElem?_cons_zero] at found
  rwa [← Option.some.inj found]

end ClosesAfter

/-! ## The readers -/

/-- A line on which something is closed has a bracket. -/
theorem ne_nil_of_closes {content : Text} {depth : Int} (positive : 0 < depth)
    (closes : depth + braceBalance content ≤ 0) : content ≠ [] := by
  rintro rfl
  have balanced : braceBalance [] = 0 := rfl
  omega

/-- The count of braces ends at the closing line and looks no further. -/
theorem TextBlock.closesAfter_linesBeforeEnd? {lines : List Text} {depth : Int} {count : Nat}
    (positive : 0 < depth) (found : linesBeforeEnd? lines depth = some count) :
    ClosesAfter (linesBeforeEnd? · depth) lines count := by
  induction lines generalizing depth count with
  | nil => cases found
  | cons content rest hypothesis =>
    simp only [linesBeforeEnd?] at found
    split at found
    · next closes =>
      cases found
      apply ClosesAfter.here (ne_nil_of_closes positive closes)
      intro other
      simp only [linesBeforeEnd?, if_pos closes]
    · next deeper =>
      obtain ⟨before, later, rfl⟩ := Option.map_eq_some_iff.mp found
      apply (hypothesis (by omega) later).cons (Option.map (· + 1))
      intro lines
      simp only [linesBeforeEnd?, if_neg deeper]

namespace ArrayBlock

/-- The search for a closing bracket that stands alone ends at the first. -/
theorem closesAfter_findIdx? {lines : List Text} {count : Nat}
    (found : lines.findIdx? (isLone Bracket.square.closing) = some count) :
    ClosesAfter (List.findIdx? (isLone Bracket.square.closing)) lines count := by
  induction lines generalizing count with
  | nil => cases found
  | cons content rest hypothesis =>
    rw [List.findIdx?_cons] at found
    split at found
    · next closes =>
      cases found
      have filled : content ≠ [] := by
        rintro rfl
        cases closes
      apply ClosesAfter.here filled
      intro other
      rw [List.findIdx?_cons, List.findIdx?_cons, if_pos closes, if_pos closes]
    · next item =>
      obtain ⟨before, later, rfl⟩ := Option.map_eq_some_iff.mp found
      apply (hypothesis later).cons (Option.map (· + 1))
      intro lines
      rw [List.findIdx?_cons, if_neg item]

/-- An array is read up to its closing line and no further. -/
theorem closesAfter_read {lines : List Text} {firstLine : Nat}
    {closed : Closed (List ArrayItem)} (ended : read lines firstLine = .ok closed) :
    ∃ count, closed.closingLine = firstLine + count ∧
      ClosesAfter (read · firstLine) lines count := by
  obtain ⟨count, found, rfl⟩ := read_eq_ok ended
  obtain ⟨before, closing, after, rfl, counted, filled, same⟩ := closesAfter_findIdx? found
  refine ⟨count, rfl, before, closing, after, rfl, counted, filled, ?_⟩
  -- The items are those of the lines before, in whatever list these stand.
  intro other
  simp only [read, same, found, ← counted, List.take_left]

end ArrayBlock

namespace Dictionary

/-- Only a line with a bracket closes a dictionary, and the depth stays above
    zero until then. -/
theorem step_positive {depth : Int} (positive : 0 < depth) (state : State) (content : Text)
    (index : Nat) :
    (step state depth content index = .closes ∧ content ≠ []) ∨
      ∃ items next deeper, step state depth content index = .goesOn items next deeper ∧
        0 < deeper := by
  have collected (field : ArrayField) : ∃ items next deeper,
      collect field content index depth = .goesOn items next deeper ∧ 0 < deeper := by
    unfold collect
    split
    · exact ⟨_, _, _, rfl, positive⟩
    · exact ⟨_, _, _, rfl, positive⟩
  unfold step
  split
  · exact Or.inr (collected _)
  · exact Or.inr (collected _)
  · exact Or.inr ⟨_, _, _, rfl, positive⟩
  · exact Or.inr ⟨_, _, _, rfl, positive⟩
  · simp only
    split
    · next closes => exact Or.inl ⟨rfl, ne_nil_of_closes positive closes⟩
    · next deeper => exact Or.inr ⟨_, _, _, rfl, by omega⟩

/-- So is a dictionary, in whatever state it has come to a line. -/
theorem closesAfter_run {firstLine index : Nat} {lines : List Text} {state : State} {depth : Int}
    {closed : Closed (List DictionaryItem)} (positive : 0 < depth)
    (ended : run firstLine lines index state depth = .ok closed) :
    ∃ count, closed.closingLine = index + count ∧
      ClosesAfter (run firstLine · index state depth) lines count := by
  induction lines generalizing index state depth closed with
  | nil => cases ended
  | cons content rest hypothesis =>
    rcases step_positive positive state content index with
      ⟨closes, filled⟩ | ⟨items, next, deeper, goesOn, stillPositive⟩
    · simp only [run, closes] at ended
      cases ended
      refine ⟨0, rfl, ClosesAfter.here filled ?_⟩
      intro other
      simp only [run, closes]
    · simp only [run, goesOn] at ended
      obtain ⟨later, continued, rfl⟩ := Checked.map_eq_ok_iff.mp ended
      obtain ⟨count, counted, closes⟩ := hypothesis stillPositive continued
      refine ⟨count + 1, ?_, closes.cons (Except.map (Closed.map (items ++ ·))) ?_⟩
      · simp only [Closed.map]
        omega
      · intro lines
        simp only [run, goesOn]

end Dictionary

/-! ## Content ranges -/

namespace Document

/-- Content begins with the first content line, also if there is none. -/
theorem start_of_contentRange {document : Document} {firstLine closingLine : Nat} {range : Range}
    (covered : document.contentRange firstLine closingLine = .ok range)
    (ordered : firstLine ≤ closingLine) : range.start = ⟨firstLine, 0⟩ := by
  rw [contentRange_eq] at covered
  cases covered
  split
  · next reached => rw [Nat.le_antisymm ordered reached, Range.emptyAt]
  · rfl

/-- Content ends before the closing line. -/
theorem stop_of_contentRange {document : Document} {firstLine closingLine : Nat} {range : Range}
    (covered : document.contentRange firstLine closingLine = .ok range) :
    range.stop ≤ ⟨closingLine, 0⟩ := by
  rw [contentRange_eq] at covered
  cases covered
  rw [Position.le_iff]
  split
  · exact Or.inr ⟨rfl, Nat.le_refl _⟩
  · left
    simp only
    omega

/-- Documents that agree up to the closing line have the content in the same range. -/
theorem AgreesTo.contentRange {first second : Document} {closingLine : Nat}
    (agrees : first.AgreesTo second closingLine) (firstLine : Nat) :
    second.contentRange firstLine closingLine = first.contentRange firstLine closingLine := by
  rw [contentRange_eq, contentRange_eq, agrees.lengthAt (Nat.sub_le _ _)]

/-- What stands in a content range is the same in documents that agree. -/
theorem AgreesTo.textIn_contentRange {first second : Document} {firstLine closingLine : Nat}
    (agrees : first.AgreesTo second closingLine) (present : closingLine < first.lineCount)
    {range : Range} (covered : first.contentRange firstLine closingLine = .ok range) :
    second.textIn range = first.textIn range :=
  textIn_eq_of_take agrees.lines.symm (Nat.le_of_lt (agrees.present present)) (Nat.le_of_lt present)
    (stop_of_contentRange covered)

end Document

/-! ## Contents -/

/-- What the closing line of a block is, and that nothing behind it matters for
    the content. -/
theorem Block.readContent_local {document : Document} {firstLine : Nat} {kind : ContentKind}
    {closed : Closed BlockContent}
    (ended : readContent document firstLine kind = .ok (.ok closed)) :
    (∀ line, document.lines[closed.closingLine]? = some line → line.content ≠ []) ∧
      ∀ other, document.AgreesTo other closed.closingLine →
        readContent other firstLine kind = .ok (.ok closed) := by
  rcases readContent_eq_ok ended with
    ⟨rfl, inner, rfl, read⟩ | ⟨rfl, inner, rfl, read⟩ | ⟨isText, inner, rfl, read⟩
  · obtain ⟨count, counted, closes⟩ := ArrayBlock.closesAfter_read read
    simp only [Closed.map, counted]
    refine ⟨fun line present => closes.content_ne_nil present, ?_⟩
    intro other agrees
    simp only [readContent, closes.read_eq agrees, read, Except.map, Closed.map, counted]
  · obtain ⟨count, counted, closes⟩ := Dictionary.closesAfter_run Int.one_pos read
    simp only [Closed.map, counted]
    refine ⟨fun line present => closes.content_ne_nil present, ?_⟩
    intro other agrees
    have same : Dictionary.read (other.contentsFrom firstLine) firstLine = .ok inner :=
      (closes.read_eq agrees).trans read
    simp only [readContent, same, Except.map, Closed.map, counted]
  · have present := (readContent_closingLine ended).2
    obtain ⟨count, range, counted, covered, rfl⟩ := TextBlock.read_eq_ok read
    have closes := TextBlock.closesAfter_linesBeforeEnd? Int.one_pos counted
    simp only [Closed.map] at present ⊢
    refine ⟨fun line here => closes.content_ne_nil here, ?_⟩
    intro other agrees
    have otherRead : TextBlock.read other firstLine =
        .ok (.ok ⟨document.textIn range, firstLine + count⟩) := by
      have same : TextBlock.linesBeforeEnd? (other.contentsFrom firstLine) 1 = some count :=
        (closes.read_eq agrees).trans counted
      rw [TextBlock.read, same]
      simp only [agrees.contentRange, covered, ← agrees.textIn_contentRange present covered]
      rfl
    rcases isText with rfl | rfl
    · simp only [readContent, otherRead]
      rfl
    · simp only [readContent, otherRead]
      rfl

end BlockMarkup
