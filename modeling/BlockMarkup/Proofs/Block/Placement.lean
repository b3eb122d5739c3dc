import BlockMarkup.Proofs.Block.Locality
import BlockMarkup.Proofs.File.Acceptance
import BlockMarkup.Proofs.Variable.Placement

/-!
# The same block in another document

What a header reads is a matter of the lines from there to the closing line.
With other lines in front the block is the same with other line numbers, and
what is never closed there is never closed here. With other lines behind its
closing line the block is the same altogether.
-/

namespace BlockMarkup

namespace Block

variable {reading : Reading} {document : Document} {header : BlockHeader}

/-! ## Reading in two parts -/

/-- A block is read only if the line behind its header has a number. -/
theorem word_of_read {result : Except Unclosed Block}
    (found : read reading document header = .ok result) : header.line + 1 < wordLimit := by
  obtain ⟨_, advanced, _⟩ := Checked.bind_eq_ok_iff.mp found
  exact (addWord_eq_ok_iff.mp advanced).1

/-- A header whose content has no end makes no block, and the cause is told. -/
theorem read_of_unclosed (word : header.line + 1 < wordLimit) {cause : Unclosed}
    (ended : readContent document (header.line + 1)
      (reading.settings.classify header.name header.bracket) = .ok (.error cause)) :
    read reading document header = .ok (.error cause) :=
  Checked.bind_eq_ok_iff.mpr ⟨_, addWord_eq_ok_iff.mpr ⟨word, rfl⟩,
    Checked.bind_eq_ok_iff.mpr ⟨_, ended, rfl⟩⟩

/-- A block whose content is known lacks only its references, and is refused only
    with them. -/
theorem read_of_closed (word : header.line + 1 < wordLimit) {closed : Closed BlockContent}
    (ended : readContent document (header.line + 1)
      (reading.settings.classify header.name header.bracket) = .ok (.ok closed))
    {contentRange : Range}
    (covered : document.contentRange (header.line + 1) closed.closingLine = .ok contentRange) :
    read reading document header =
      (readReferences reading document (reading.settings.classify header.name header.bracket)
        closed.content contentRange).map fun references => .ok
          { name := header.name
            nameRange := header.nameRange
            content := closed.content
            contentRange := contentRange
            range := ⟨⟨header.line, 0⟩,
              ⟨closed.closingLine, document.lengthAt closed.closingLine⟩⟩
            references := references } := by
  have advanced := addWord_eq_ok_iff.mpr ⟨word, rfl⟩
  have afterHeader := (readContent_closingLine ended).1
  have headerFirst : (⟨header.line, 0⟩ : Position) ≤
      ⟨closed.closingLine, document.lengthAt closed.closingLine⟩ := by
    rw [Position.le_iff]
    simp only
    omega
  have ranged := Range.between_eq_ok_iff.mpr ⟨headerFirst, rfl⟩
  simp only [read, advanced, ended, covered, ranged, Checked.ok_bind]
  cases readReferences reading document (reading.settings.classify header.name header.bracket)
      closed.content contentRange with
  | error fault => rfl
  | ok references => rfl

/-- What is established of a block is enough to read it. -/
theorem read_of_reads (word : header.line + 1 < wordLimit) {block : Block}
    (reads : Reads reading document header block) :
    read reading document header = .ok (.ok block) := by
  rw [read_of_closed word reads.content reads.contentRange, reads.references]
  obtain ⟨name, nameRange, content, contentRange, range, references⟩ := block
  simp only [Except.map, ← reads.name, ← reads.nameRange, ← reads.range]

/-- The content range begins with a line, so its interpolations are those of its
    text, counted from that line. -/
theorem interpolated_contentRange (fits : document.size < wordLimit) {firstLine closingLine : Nat}
    {range : Range} (covered : document.contentRange firstLine closingLine = .ok range)
    (ordered : firstLine ≤ closingLine) (present : closingLine < document.lineCount) :
    document.interpolated range =
      .ok (Interpolation.references (document.textIn range) ⟨firstLine, 0⟩) := by
  have start := Document.start_of_contentRange covered ordered
  have located : document.HasPosition range.start := by
    rw [start]
    exact Document.hasPosition_lineStart (Nat.lt_of_le_of_lt ordered present)
  rw [Document.interpolated_eq fits located, start]

/-! ## Lines in front -/

section Moved

variable {outer inner : Document} {front : List Line} (placed : outer.lines = front ++ inner.lines)

include placed

/-- A text block inside a document is closed where it is in the part, so many lines
    further on. -/
theorem readText_of_placed (firstLine : Nat) :
    TextBlock.read outer (firstLine + front.length) =
      (TextBlock.read inner firstLine).map (Unclosed.mapOutcome (· + front.length)
        (Closed.mapLines (· + front.length) id)) := by
  unfold TextBlock.read
  rw [Document.contentsFrom_of_placed placed]
  cases TextBlock.linesBeforeEnd? (inner.contentsFrom firstLine) 1 with
  | none => rfl
  | some count =>
    have covered := inner.contentRange_eq firstLine (firstLine + count)
    have moved := Document.contentRange_of_placed placed firstLine (firstLine + count)
    rw [covered] at moved
    simp only [Nat.add_right_comm firstLine, covered, moved, Except.map, Checked.ok_bind,
      Document.textIn_of_placed placed]
    rfl

/-- The content of the same lines further down is the same further down. -/
theorem readContent_of_placed (firstLine : Nat) (kind : ContentKind) :
    readContent outer (firstLine + front.length) kind =
      (readContent inner firstLine kind).map (Unclosed.mapOutcome (· + front.length)
        (Closed.mapLines (· + front.length) (BlockContent.mapLines (· + front.length)))) := by
  have text : readContent outer (firstLine + front.length) .text =
      (readContent inner firstLine .text).map (Unclosed.mapOutcome (· + front.length)
        (Closed.mapLines (· + front.length) (BlockContent.mapLines (· + front.length)))) := by
    unfold readContent
    rw [readText_of_placed placed]
    rcases TextBlock.read inner firstLine with fault | cause | closed
    · rfl
    · rfl
    · rfl
  cases kind with
  | array =>
    unfold readContent
    rw [Document.contentsFrom_of_placed placed, ArrayBlock.read_add]
    cases ArrayBlock.read (inner.contentsFrom firstLine) firstLine <;> rfl
  | dictionary =>
    unfold readContent
    rw [Document.contentsFrom_of_placed placed, Dictionary.read_add]
    cases Dictionary.read (inner.contentsFrom firstLine) firstLine <;> rfl
  | text => exact text
  | code => exact text

/-- References are found further down too. The content range begins with a line,
    so in code as in other texts only line numbers change. -/
theorem readReferences_of_placed (reading : Reading) (fits : outer.size < wordLimit)
    (kind : ContentKind) {firstLine closingLine : Nat} {range : Range}
    (ordered : firstLine ≤ closingLine) (present : closingLine < inner.lineCount)
    (covered : inner.contentRange firstLine closingLine = .ok range) {content : BlockContent}
    (matched : content.MatchesSource inner range) :
    readReferences reading outer kind (content.mapLines (· + front.length))
        (range.mapLines (· + front.length)) =
      (readReferences reading inner kind content range).map
        (List.map (VariableReference.mapLines (· + front.length))) := by
  have sizes := Document.size_of_placed placed
  have counts := Document.lineCount_of_placed placed
  have same := Document.textIn_of_placed placed range
  have interpolated :
      outer.interpolated (range.mapLines (· + front.length)) =
        (inner.interpolated range).map
          (List.map (VariableReference.mapLines (· + front.length))) := by
    have moved := Document.contentRange_of_placed placed firstLine closingLine
    rw [covered] at moved
    rw [interpolated_contentRange fits moved (by omega) (by omega),
      interpolated_contentRange (by omega) covered ordered present, same]
    exact congrArg Except.ok (Interpolation.references_add _ _ ⟨firstLine, 0⟩)
  cases kind with
  | code =>
    cases content with
    | text code =>
      have start := Document.start_of_contentRange covered ordered
      obtain ⟨first, stop⟩ := range
      obtain rfl : first = ⟨firstLine, 0⟩ := start
      obtain rfl : code = inner.textIn ⟨⟨firstLine, 0⟩, stop⟩ := matched
      have outerPresent : firstLine + front.length < outer.lineCount := by omega
      have short := Document.line_add_size_textIn_le outerPresent (stop.mapLines (· + front.length))
      apply AccessorCall.referencesIn_add
      rw [← same]
      exact Nat.lt_of_le_of_lt short fits
    | dictionary items => exact interpolated
    | array items => exact interpolated
  | array => exact interpolated
  | dictionary => exact interpolated
  | text => exact interpolated

/-- A header further down reads the same block further down, and is refused where
    the other is. -/
theorem read_of_placed (reading : Reading) (fits : outer.size < wordLimit)
    (word : header.line + front.length + 1 < wordLimit) :
    read reading outer (header.mapLines (· + front.length)) =
      (read reading inner header).map
        (Unclosed.mapOutcome (· + front.length) (Block.mapLines (· + front.length))) := by
  have innerWord : header.line + 1 < wordLimit := by omega
  have outerWord : (header.mapLines (· + front.length)).line + 1 < wordLimit := word
  have movedContent := readContent_of_placed placed (header.line + 1)
    (reading.settings.classify header.name header.bracket)
  rw [Nat.add_right_comm] at movedContent
  obtain ⟨result, ended⟩ := readContent_accepted inner (header.line + 1)
    (reading.settings.classify header.name header.bracket)
  rw [ended] at movedContent
  cases result with
  | error cause =>
    rw [read_of_unclosed innerWord ended]
    exact read_of_unclosed outerWord movedContent
  | ok closed =>
    obtain ⟨ordered, present⟩ := readContent_closingLine ended
    have covered := inner.contentRange_eq (header.line + 1) closed.closingLine
    have movedCover := Document.contentRange_of_placed placed (header.line + 1) closed.closingLine
    rw [covered, Nat.add_right_comm] at movedCover
    have references := readReferences_of_placed placed reading fits
      (reading.settings.classify header.name header.bracket) ordered present covered
      (matchesSource_of_readContent ended covered)
    have length := Document.lengthAt_of_placed placed closed.closingLine
    rw [read_of_closed innerWord ended covered]
    refine (read_of_closed outerWord movedContent movedCover).trans ?_
    simp only [Closed.mapLines]
    change Except.map _ (readReferences reading outer
      (reading.settings.classify header.name header.bracket) _ _) = _
    rw [references, length]
    cases readReferences reading inner (reading.settings.classify header.name header.bracket)
        closed.content _ with
    | error fault => rfl
    | ok found => rfl

end Moved

/-! ## Lines behind -/

/-- A block is read from every document that agrees with its own up to its
    closing line. -/
theorem read_of_agrees {other : Document} (fits : document.size < wordLimit)
    (otherFits : other.size < wordLimit) {block : Block}
    (found : read reading document header = .ok (.ok block))
    (agrees : document.AgreesTo other block.closingLine) :
    read reading other header = .ok (.ok block) := by
  have reads := reads_of_read found
  obtain ⟨ordered, present⟩ := readContent_closingLine reads.content
  have same := agrees.textIn_contentRange present reads.contentRange
  have covered : other.contentRange (header.line + 1) block.closingLine =
      .ok block.contentRange := by
    rw [agrees.contentRange, reads.contentRange]
  have interpolated :
      other.interpolated block.contentRange = document.interpolated block.contentRange := by
    rw [interpolated_contentRange fits reads.contentRange ordered present,
      interpolated_contentRange otherFits covered ordered (agrees.present present), same]
  apply read_of_reads (word_of_read found)
  refine ⟨reads.name, reads.nameRange, (readContent_local reads.content).2 other agrees, covered,
    ?_, ?_⟩
  · rw [← agrees.lengthAt (Nat.le_refl _), ← reads.range]
  · rw [← reads.references]
    unfold readReferences
    split
    · rfl
    · exact interpolated

end Block

end BlockMarkup
