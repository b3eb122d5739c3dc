import BlockMarkup.Proofs.Block.SourceText
import BlockMarkup.Proofs.Variable.Naming

/-!
# Parsing is never refused

A computation is refused for a range in reverse and for a sum that is no machine
word. The ranges of a parse are in order because they are ranges of the document
and later offsets have later positions. The sums stay below the size of the
document, which is a machine word for every text that is held in memory. What
reads scripts has to report spans in order, and nothing else can go wrong.
-/

namespace BlockMarkup

namespace Document

/-- A content range is a range of the document if the closing line is one of its
    lines. -/
theorem hasRange_of_contentRange {document : Document} {firstLine closingLine : Nat} {range : Range}
    (covered : document.contentRange firstLine closingLine = .ok range)
    (present : closingLine < document.lineCount) : document.HasRange range := by
  rw [contentRange_eq] at covered
  split at covered
  · cases covered
    have here := hasPosition_lineStart present
    exact ⟨here, here, Position.le_iff.mpr (Or.inr ⟨rfl, Nat.le_refl _⟩)⟩
  · next some =>
    cases covered
    refine ⟨hasPosition_lineStart (by omega), hasPosition_lineEnd (by omega), ?_⟩
    rw [Position.le_iff]
    simp only
    omega

/-- There are at least as many bytes before a line as there are lines. -/
theorem index_add_lengthAt_le {document : Document} {index : Nat}
    (present : index < document.lineCount) : index + document.lengthAt index ≤ document.size := by
  have bound := Text.locate_le_size document.text
    (document.offsetOf ⟨index, document.lengthAt index⟩)
  rw [hasPosition_lineEnd present] at bound
  exact bound

end Document

namespace Block

variable {reading : Reading} {document : Document}

/-- Reading a content never fails: the content is found, or the cause why it has no end. -/
theorem readContent_accepted (document : Document) (firstLine : Nat) (kind : ContentKind) :
    ∃ result, readContent document firstLine kind = .ok result := by
  have text : ∃ result, TextBlock.read document firstLine = .ok result := by
    unfold TextBlock.read
    split
    · rw [Document.contentRange_eq]
      exact ⟨_, rfl⟩
    · exact ⟨_, rfl⟩
  obtain ⟨result, accepted⟩ := text
  cases kind with
  | array => exact ⟨_, rfl⟩
  | dictionary => exact ⟨_, rfl⟩
  | text => exact ⟨_, Checked.bind_eq_ok_iff.mpr ⟨result, accepted, rfl⟩⟩
  | code => exact ⟨_, Checked.bind_eq_ok_iff.mpr ⟨result, accepted, rfl⟩⟩

/-- The two ways to find references, the code being what the content range
    covers. -/
theorem readReferences_eq (reading : Reading) (document : Document) (kind : ContentKind)
    {content : BlockContent} {contentRange : Range}
    (matched : content.MatchesSource document contentRange) :
    readReferences reading document kind content contentRange =
        AccessorCall.referencesIn reading.reader (document.textIn contentRange) contentRange.start ∨
      readReferences reading document kind content contentRange =
        document.interpolated contentRange := by
  unfold readReferences
  split
  · next code =>
    rw [show code = document.textIn contentRange from matched]
    exact Or.inl rfl
  · exact Or.inr rfl

/-- Nor does reading the references of a document that is small enough. -/
theorem readReferences_accepted (fits : document.size < wordLimit)
    (ordered : reading.reader.Ordered) (kind : ContentKind) {content : BlockContent}
    {contentRange : Range} (matched : content.MatchesSource document contentRange)
    (present : document.HasRange contentRange) :
    ∃ references, readReferences reading document kind content contentRange = .ok references := by
  rcases readReferences_eq reading document kind matched with byCalls | interpolated
  · rw [byCalls]
    exact AccessorCall.referencesIn_accepted fits present.start ordered
  · rw [interpolated]
    exact Document.interpolated_accepted fits contentRange

/-- The block of a header is never refused, also if no line of the document has
    that header. -/
theorem read_accepted (fits : document.size < wordLimit) (ordered : reading.reader.Ordered)
    {header : BlockHeader} (word : header.line + 1 < wordLimit) :
    ∃ result, read reading document header = .ok result := by
  have advanced := addWord_eq_ok_iff.mpr ⟨word, rfl⟩
  obtain ⟨result, contentRead⟩ := readContent_accepted document (header.line + 1)
    (reading.settings.classify header.name header.bracket)
  cases result with
  | error cause =>
    exact ⟨.error cause, Checked.bind_eq_ok_iff.mpr ⟨_, advanced,
      Checked.bind_eq_ok_iff.mpr ⟨_, contentRead, rfl⟩⟩⟩
  | ok closed =>
    obtain ⟨after, present⟩ := readContent_closingLine contentRead
    have covered := document.contentRange_eq (header.line + 1) closed.closingLine
    have matched := matchesSource_of_readContent contentRead covered
    obtain ⟨references, referred⟩ := readReferences_accepted fits ordered
      (reading.settings.classify header.name header.bracket) matched
      (Document.hasRange_of_contentRange covered present)
    have headerFirst : (⟨header.line, 0⟩ : Position) ≤
        ⟨closed.closingLine, document.lengthAt closed.closingLine⟩ := by
      rw [Position.le_iff]
      simp only
      omega
    have ranged := Range.between_eq_ok_iff.mpr ⟨headerFirst, rfl⟩
    exact ⟨_, Checked.bind_eq_ok_iff.mpr ⟨_, advanced, Checked.bind_eq_ok_iff.mpr ⟨_, contentRead,
      Checked.bind_eq_ok_iff.mpr ⟨_, covered, Checked.bind_eq_ok_iff.mpr ⟨_, ranged,
        Checked.bind_eq_ok_iff.mpr ⟨_, referred, rfl⟩⟩⟩⟩⟩⟩

end Block

namespace Document

variable {reading : Reading} {document : Document}

/-- Text outside of blocks is asked for only between positions in order. -/
theorem outsideText_accepted (document : Document) (start stop : Position) :
    ∃ found, document.outsideText start stop = .ok found := by
  unfold outsideText
  split
  · exact ⟨[], rfl⟩
  · next forward =>
    have ordered : start ≤ stop := by
      rw [Position.le_iff] at forward ⊢
      omega
    have ranged := Range.between_eq_ok_iff.mpr ⟨ordered, rfl⟩
    exact ⟨_, Checked.bind_eq_ok_iff.mpr ⟨_, ranged, rfl⟩⟩

/-- A header line has characters, so there are more bytes than lines up to it. -/
theorem header_line_lt_size {index : Nat} {line : Line} {header : BlockHeader}
    (present : document.lines[index]? = some line)
    (opened : BlockHeader.ofLine? line.content index = some header) : index < document.size := by
  have bound := index_add_lengthAt_le (List.getElem?_eq_some_iff.mp present).1
  have length : document.lengthAt index = Text.size line.content := by
    rw [lengthAt, present]
    rfl
  have characters : Text.size line.content ≠ 0 := by
    intro empty
    rw [(Text.size_eq_zero_iff _).mp empty] at opened
    cases opened
  omega

/-- No step of a scan is refused. -/
theorem scanLines_accepted (fits : document.size < wordLimit) (ordered : reading.reader.Ordered)
    {lines : List Text} {index : Nat} (remaining : lines = document.contentsFrom index)
    (inside : Nat) (start : Position) :
    ∃ scan, scanLines reading document lines index inside start = .ok scan := by
  induction lines generalizing index inside start with
  | nil =>
    obtain ⟨outside, reported⟩ := outsideText_accepted document start document.endPosition
    exact ⟨_, Checked.bind_eq_ok_iff.mpr ⟨outside, reported, rfl⟩⟩
  | cons content rest hypothesis =>
    obtain ⟨⟨line, present, rfl⟩, restEq⟩ := contentsFrom_eq_cons remaining.symm
    cases inside with
    | succ inside => exact hypothesis restEq inside start
    | zero =>
      rw [scanLines]
      cases opened : BlockHeader.ofLine? line.content index with
      | none => exact hypothesis restEq 0 start
      | some header =>
        have word : header.line + 1 < wordLimit := by
          have early := header_line_lt_size present opened
          rw [BlockHeader.line_of_ofLine? opened]
          omega
        obtain ⟨before, reported⟩ := outsideText_accepted document start ⟨index, 0⟩
        obtain ⟨result, read⟩ := Block.read_accepted fits ordered word
        cases result with
        | ok block =>
          obtain ⟨later, continued⟩ := hypothesis restEq (block.closingLine - index)
            (document.startOfLine (block.closingLine + 1))
          exact ⟨_, Checked.bind_eq_ok_iff.mpr ⟨before, reported, Checked.bind_eq_ok_iff.mpr
            ⟨_, read, Checked.bind_eq_ok_iff.mpr ⟨later, continued, rfl⟩⟩⟩⟩
        | error cause =>
          obtain ⟨after, ended⟩ := outsideText_accepted document ⟨index, 0⟩ document.endPosition
          exact ⟨_, Checked.bind_eq_ok_iff.mpr ⟨before, reported, Checked.bind_eq_ok_iff.mpr
            ⟨_, read, Checked.bind_eq_ok_iff.mpr ⟨after, ended, rfl⟩⟩⟩⟩

/-- Every document of machine-word size has a file. -/
theorem parse_accepted (fits : document.size < wordLimit) (ordered : reading.reader.Ordered) :
    ∃ file, document.parse reading = .ok file := by
  obtain ⟨scan, scanned⟩ := scanLines_accepted fits ordered rfl 0 Position.origin
  exact ⟨scan.file, Checked.bind_eq_ok_iff.mpr ⟨scan, scanned, rfl⟩⟩

end Document

end BlockMarkup
