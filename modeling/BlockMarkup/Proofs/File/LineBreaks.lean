import Mathlib.Data.List.Forall2
import BlockMarkup.Proofs.Document.LineBreaks
import BlockMarkup.Proofs.File.Outside
import BlockMarkup.Proofs.Variable.LineByLine

/-!
# The style of line breaks

Documents that differ in their line breaks alone have the same files but for the
breaks. The lines of a block are read without their breaks, so dictionaries and
arrays are the same; a text is kept with its breaks. The references by
interpolation are found line by line. Only what reads scripts is given a text
with the breaks in it, and may find other references in it.

`SameUpToBreaks` says so for each part of a file. The two scans go in step:
`Document.scanLines_sameContents` carries the relation over the lines.
-/

namespace BlockMarkup

/-! ## What is to be shown -/

/-- The same range, and texts with the same lines but for the breaks. -/
structure PlainText.SameUpToBreaks (first second : PlainText) : Prop where
  range : first.range = second.range
  text : Text.SameLines first.text second.text

/-- The same items, or texts with the same lines but for the breaks. -/
def BlockContent.SameUpToBreaks : BlockContent → BlockContent → Prop
  | .text first, .text second => Text.SameLines first second
  | .dictionary first, .dictionary second => first = second
  | .array first, .array second => first = second
  | _, _ => False

/-- The same block but for the breaks in a text. Blocks of code may have other
    references. -/
structure Block.SameUpToBreaks (settings : Settings) (first second : Block) : Prop where
  name : first.name = second.name
  nameRange : first.nameRange = second.nameRange
  contentRange : first.contentRange = second.contentRange
  range : first.range = second.range
  content : first.content.SameUpToBreaks second.content
  references : settings.classify first.name first.bracket ≠ .code →
    first.references = second.references

/-! ## References -/

/-- Texts with the same lines have the same interpolations, wherever they begin
    with a line. -/
theorem Text.SameLines.references_eq {first second : Text} (same : SameLines first second)
    (index : Nat) :
    Interpolation.references first ⟨index, 0⟩ = Interpolation.references second ⟨index, 0⟩ := by
  rw [Interpolation.references_eq_byLine, Interpolation.references_eq_byLine, same]

namespace Block

/-- The references of a block that is no code are its interpolations. -/
theorem readReferences_of_ne_code (reading : Reading) (document : Document) {kind : ContentKind}
    (notCode : kind ≠ .code) (content : BlockContent) (contentRange : Range) :
    readReferences reading document kind content contentRange =
      document.interpolated contentRange := by
  unfold readReferences
  split
  · exact absurd rfl notCode
  · rfl

/-- A block of code has curly brackets and a text for its content, so it is told
    from the block alone. -/
theorem classify_bracket_of_code {reading : Reading} {document : Document} {header : BlockHeader}
    {block : Block} (reads : Reads reading document header block)
    (code : reading.settings.classify header.name header.bracket = .code) :
    reading.settings.classify block.name block.bracket = .code := by
  have curly : header.bracket = .curly := by
    cases bracket : header.bracket with
    | curly => rfl
    | square =>
      rw [bracket] at code
      cases code
  have content := reads.content
  rw [code] at content
  have isText : block.bracket = .curly := by
    rcases readContent_eq_ok content with ⟨kind, _⟩ | ⟨kind, _⟩ | ⟨_, inner, made, _⟩
    · cases kind
    · cases kind
    · have text : block.content = .text inner.content := congrArg Closed.content made
      rw [bracket, text]
  rw [isText, reads.name, ← curly, code]

variable {reading : Reading} {first second : Document} (same : first.SameContents second)

include same

/-- The interpolations of a content range are the same. Their offsets differ, but
    not the lines and columns. -/
theorem interpolated_sameContents (fits : first.size < wordLimit)
    (otherFits : second.size < wordLimit) {firstLine closingLine : Nat} {range : Range}
    (covered : first.contentRange firstLine closingLine = .ok range)
    (ordered : firstLine ≤ closingLine) (present : closingLine < first.lineCount) :
    first.interpolated range = second.interpolated range := by
  have otherPresent : closingLine < second.lineCount := by rwa [← same.lineCount]
  have otherCovered : second.contentRange firstLine closingLine = .ok range := by
    rwa [← same.contentRange]
  rw [interpolated_contentRange fits covered ordered present,
    interpolated_contentRange otherFits otherCovered ordered otherPresent,
    (same.textIn_contentRange covered present).references_eq]

/-! ## Blocks -/

/-- Whether the contents are never closed in either document, or are the same but
    for the breaks and closed by the same line. -/
def ReadsAlike (first second : Document) (firstLine : Nat) (kind : ContentKind) : Prop :=
  (∃ cause, readContent first firstLine kind = .ok (.error cause) ∧
    readContent second firstLine kind = .ok (.error cause)) ∨
  ∃ closingLine content other,
    readContent first firstLine kind = .ok (.ok ⟨content, closingLine⟩) ∧
    readContent second firstLine kind = .ok (.ok ⟨other, closingLine⟩) ∧
    content.SameUpToBreaks other

/-- Documents with the same line contents have the same contents of blocks, whatever the
    breaks. -/
theorem readsAlike_of_sameContents (firstLine : Nat) (kind : ContentKind) :
    ReadsAlike first second firstLine kind := by
  have contents := same.contentsFrom firstLine
  have text : ReadsAlike first second firstLine .text := by
    unfold ReadsAlike readContent TextBlock.read
    rw [← contents]
    cases counted : TextBlock.linesBeforeEnd? (first.contentsFrom firstLine) 1 with
    | none => exact Or.inl ⟨_, rfl, rfl⟩
    | some count =>
      have bound := TextBlock.linesBeforeEnd?_lt counted
      rw [Document.length_contentsFrom] at bound
      have covered := first.contentRange_eq firstLine (firstLine + count)
      have lines := same.textIn_contentRange covered (by omega)
      simp only [← same.contentRange, covered, Checked.ok_bind]
      exact Or.inr ⟨_, _, _, rfl, rfl, lines⟩
  cases kind with
  | array =>
    unfold ReadsAlike readContent
    rw [← contents]
    cases ArrayBlock.read (first.contentsFrom firstLine) firstLine with
    | error cause => exact Or.inl ⟨cause, rfl, rfl⟩
    | ok closed => exact Or.inr ⟨_, _, _, rfl, rfl, rfl⟩
  | dictionary =>
    unfold ReadsAlike readContent
    rw [← contents]
    cases Dictionary.read (first.contentsFrom firstLine) firstLine with
    | error cause => exact Or.inl ⟨cause, rfl, rfl⟩
    | ok closed => exact Or.inr ⟨_, _, _, rfl, rfl, rfl⟩
  | text => exact text
  | code => exact text

/-- A header reads the same block but for the breaks, or one that is never closed
    in either document. -/
theorem read_sameContents (fits : first.size < wordLimit) (otherFits : second.size < wordLimit)
    {header : BlockHeader} {result otherResult : Except Unclosed Block}
    (found : read reading first header = .ok result)
    (otherFound : read reading second header = .ok otherResult) :
    (∃ cause, result = .error cause ∧ otherResult = .error cause) ∨
    ∃ block other, result = .ok block ∧ otherResult = .ok other ∧
      block.SameUpToBreaks reading.settings other := by
  have word := word_of_read found
  rcases readsAlike_of_sameContents same (header.line + 1)
    (reading.settings.classify header.name header.bracket) with
    ⟨cause, ended, otherEnded⟩ | ⟨closingLine, content, other, ended, otherEnded, alike⟩
  · left
    rw [read_of_unclosed word ended] at found
    rw [read_of_unclosed word otherEnded] at otherFound
    exact ⟨cause, (Except.ok.inj found).symm, (Except.ok.inj otherFound).symm⟩
  · right
    obtain ⟨ordered, present⟩ := readContent_closingLine ended
    have covered := first.contentRange_eq (header.line + 1) closingLine
    have otherCovered := covered
    rw [same.contentRange] at otherCovered
    have read := found
    have otherRead := otherFound
    rw [read_of_closed word ended covered] at read
    rw [read_of_closed word otherEnded otherCovered] at otherRead
    obtain ⟨references, referred, rfl⟩ := Checked.map_eq_ok_iff.mp read
    obtain ⟨otherReferences, otherReferred, rfl⟩ := Checked.map_eq_ok_iff.mp otherRead
    refine ⟨_, _, rfl, rfl, rfl, rfl, rfl, ?_, alike, ?_⟩
    · simp only [same.lengthAt]
    · intro notCode
      have kind : reading.settings.classify header.name header.bracket ≠ .code := fun code =>
        notCode (classify_bracket_of_code (reads_of_read found) code)
      rw [readReferences_of_ne_code _ _ kind,
        interpolated_sameContents same fits otherFits covered ordered present] at referred
      rw [readReferences_of_ne_code _ _ kind, referred] at otherReferred
      exact Except.ok.inj otherReferred

end Block

namespace Document

variable {reading : Reading} {first second : Document}

/-- The same text but for the breaks is reported in the same way, or not at all. -/
theorem gap_sameUpToBreaks {start stop : Position}
    (same : Text.SameLines (first.textIn ⟨start, stop⟩) (second.textIn ⟨start, stop⟩)) :
    List.Forall₂ PlainText.SameUpToBreaks (first.gap start stop) (second.gap start stop) := by
  unfold gap
  rw [← same.isEmpty_eq]
  split
  · exact .nil
  · exact .cons ⟨rfl, same⟩ .nil

/-- A scan that goes on at a header has read its block, or found it open. -/
theorem exists_read_of_scanLines {content : Text} {rest : List Text} {index : Nat}
    {start : Position} {header : BlockHeader} {scan : Scan}
    (opened : BlockHeader.ofLine? content index = some header)
    (scanned : scanLines reading first (content :: rest) index 0 start = .ok scan) :
    ∃ result, Block.read reading first header = .ok result := by
  cases read : Block.read reading first header with
  | ok result => exact ⟨result, rfl⟩
  | error fault =>
    rw [scanLines_refused _ _ opened read] at scanned
    cases scanned

/-- Two scans go in step. What has not been reported begins with a line that is
    not behind the line where they stand, lines that they still pass over
    included. -/
theorem scanLines_sameContents (same : first.SameContents second) (fits : first.size < wordLimit)
    (otherFits : second.size < wordLimit) {lines : List Text} {index inside pending : Nat}
    {scan other : Scan} (remaining : lines = first.contentsFrom index)
    (reached : pending ≤ index + inside)
    (scanned : scanLines reading first lines index inside (first.startOfLine pending) = .ok scan)
    (otherScanned : scanLines reading second lines index inside (first.startOfLine pending) =
      .ok other) :
    List.Forall₂ (Block.SameUpToBreaks reading.settings) scan.blocks other.blocks ∧
      List.Forall₂ PlainText.SameUpToBreaks scan.outside other.outside := by
  induction lines generalizing index inside pending scan other with
  | nil =>
    rw [scanLines_nil] at scanned
    rw [scanLines_nil, ← same.endPosition] at otherScanned
    cases scanned
    cases otherScanned
    exact ⟨.nil, gap_sameUpToBreaks (same.textIn_toEnd pending)⟩
  | cons content rest hypothesis =>
    obtain ⟨⟨line, present, rfl⟩, restEq⟩ := contentsFrom_eq_cons remaining.symm
    have inDocument : index < first.lineCount := (List.getElem?_eq_some_iff.mp present).1
    cases inside with
    | succ inside => exact hypothesis restEq (by omega) scanned otherScanned
    | zero =>
      cases opened : BlockHeader.ofLine? line.content index with
      | none =>
        rw [scanLines_pass _ _ opened] at scanned otherScanned
        exact hypothesis restEq (by omega) scanned otherScanned
      | some header =>
        have notBehind : pending ≤ index := by omega
        have before := gap_sameUpToBreaks (same.textIn_startOfLine notBehind inDocument)
        obtain ⟨result, read⟩ := exists_read_of_scanLines opened scanned
        obtain ⟨otherResult, otherRead⟩ := exists_read_of_scanLines opened otherScanned
        rcases Block.read_sameContents same fits otherFits read otherRead with
          ⟨cause, rfl, rfl⟩ | ⟨block, otherBlock, rfl, rfl, alike⟩
        · rw [scanLines_unclosed _ _ opened read] at scanned
          rw [scanLines_unclosed _ _ opened otherRead, ← same.endPosition] at otherScanned
          cases scanned
          cases otherScanned
          have after := gap_sameUpToBreaks (same.textIn_toEnd index)
          rw [startOfLine, if_pos inDocument] at after
          exact ⟨.nil, List.rel_append before after⟩
        · have closing : otherBlock.closingLine = block.closingLine := by
            rw [Block.closingLine, ← alike.range, Block.closingLine]
          rw [scanLines_block _ _ opened read] at scanned
          rw [scanLines_block _ _ opened otherRead, closing, ← same.startOfLine] at otherScanned
          obtain ⟨later, continued, rfl⟩ := Checked.map_eq_ok_iff.mp scanned
          obtain ⟨otherLater, otherContinued, rfl⟩ := Checked.map_eq_ok_iff.mp otherScanned
          obtain ⟨blocks, outside⟩ := hypothesis restEq (by omega) continued otherContinued
          exact ⟨.cons alike blocks, List.rel_append before outside⟩

/-- Documents whose lines have the same contents have the same file but for the
    breaks in texts: the same blocks with the same ranges, the same items and,
    other than in code, the same references, and the same text between them.
    The scripts of both are read without a fault. -/
theorem parse_sameUpToBreaks (reading : Reading) (first second : Document)
    (same : first.lines.map Line.content = second.lines.map Line.content)
    (fits : first.size < wordLimit) (otherFits : second.size < wordLimit) {file other : ParsedFile}
    (parsed : first.parse reading = .ok file) (otherParsed : second.parse reading = .ok other) :
    List.Forall₂ (Block.SameUpToBreaks reading.settings) file.blocks other.blocks ∧
      List.Forall₂ PlainText.SameUpToBreaks file.outside other.outside := by
  obtain ⟨scan, scanned, rfl⟩ := parse_eq_ok_iff.mp parsed
  obtain ⟨otherScan, otherScanned, rfl⟩ := parse_eq_ok_iff.mp otherParsed
  have contents : first.contentsFrom 0 = second.contentsFrom 0 := SameContents.contentsFrom same 0
  have begins : Position.origin = first.startOfLine 0 := by
    rw [startOfLine, if_pos first.lineCount_pos]
    rfl
  rw [Document.scan, begins] at scanned
  rw [Document.scan, ← contents, begins] at otherScanned
  exact scanLines_sameContents same fits otherFits rfl (Nat.le_refl 0) scanned otherScanned

/-- A text with an interpolation behind a break, and a dictionary, with breaks of
    both kinds. -/
def mixedBreaks : Document :=
  ofText "x\r\nt \x7b\r\n a\r\n \x7b\x7bé\x7d\x7d\n\x7d\nm \x7b\r\n k: v\r\n\x7d\r\ny".toList

/-- The same lines with line feeds. -/
def lineFeeds : Document :=
  ofText "x\nt \x7b\n a\n \x7b\x7bé\x7d\x7d\n\x7d\nm \x7b\n k: v\n\x7d\ny".toList

/-- Mixed breaks change the texts that go over lines, and nothing else. -/
theorem parse_sameUpToBreaks_mixed :
    mixedBreaks.text ≠ lineFeeds.text ∧
      mixedBreaks.lines.map Line.content = lineFeeds.lines.map Line.content ∧
      ∃ file other, mixedBreaks.parse ⟨⟨["t".toList], []⟩, fun _ => none⟩ = .ok file ∧
        lineFeeds.parse ⟨⟨["t".toList], []⟩, fun _ => none⟩ = .ok other ∧
        other.blocks.flatMap Block.references =
          [⟨['é'], ⟨⟨3, 3⟩, ⟨3, 5⟩⟩, .read, .unknown⟩] ∧
        file.outside.length = 2 ∧
        List.Forall₂ (Block.SameUpToBreaks ⟨["t".toList], []⟩) file.blocks other.blocks ∧
        List.Forall₂ PlainText.SameUpToBreaks file.outside other.outside := by
  obtain ⟨file, parsed, gaps⟩ : ∃ file : ParsedFile,
      mixedBreaks.parse ⟨⟨["t".toList], []⟩, fun _ => none⟩ = .ok file ∧ file.outside.length = 2 :=
    ⟨_, rfl, rfl⟩
  obtain ⟨other, otherParsed, reference⟩ : ∃ other : ParsedFile,
      lineFeeds.parse ⟨⟨["t".toList], []⟩, fun _ => none⟩ = .ok other ∧
      other.blocks.flatMap Block.references =
        [⟨['é'], ⟨⟨3, 3⟩, ⟨3, 5⟩⟩, .read, .unknown⟩] := ⟨_, rfl, rfl⟩
  have same : mixedBreaks.lines.map Line.content = lineFeeds.lines.map Line.content := by decide
  obtain ⟨blocks, outside⟩ := parse_sameUpToBreaks _ _ _ same (by decide) (by decide) parsed
    otherParsed
  exact ⟨by decide, same, file, other, parsed, otherParsed, reference, gaps, blocks, outside⟩

end Document

end BlockMarkup
