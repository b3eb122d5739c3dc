import BlockMarkup.Block.Reader
import BlockMarkup.Proofs.Checked

/-!
# What reading a block establishes

The three ways to read the content of a block agree on where it ends: at a line
of the document that is not before the first content line. `Block.Reads` says
everything that is known of a block that was read from a header, and
`Block.reads_of_read` obtains it, so nothing else has to open the reader.
-/

namespace BlockMarkup

namespace Document

/-- As many lines are left as there are from the index on. -/
@[simp]
theorem length_contentsFrom (document : Document) (index : Nat) :
    (document.contentsFrom index).length = document.lineCount - index := by
  simp [contentsFrom, lineCount]

/-- The first of the remaining contents is that of the line at the index. -/
theorem contentsFrom_eq_cons {document : Document} {index : Nat} {content : Text} {rest : List Text}
    (remaining : document.contentsFrom index = content :: rest) :
    (∃ line, document.lines[index]? = some line ∧ line.content = content) ∧
      rest = document.contentsFrom (index + 1) := by
  obtain ⟨line, others, dropped, rfl, rfl⟩ := List.map_eq_cons_iff.mp remaining
  constructor
  · refine ⟨line, ?_, rfl⟩
    have first : (document.lines.drop index)[0]? = document.lines[index + 0]? := List.getElem?_drop
    rw [dropped] at first
    exact first.symm
  · have next := congrArg List.tail dropped
    rw [List.tail_drop] at next
    rw [contentsFrom, next]
    rfl

/-- A line that is there comes first, then the lines after it. -/
theorem contentsFrom_of_present {document : Document} {index : Nat} {line : Line}
    (present : document.lines[index]? = some line) :
    document.contentsFrom index = line.content :: document.contentsFrom (index + 1) := by
  obtain ⟨bound, rfl⟩ := List.getElem?_eq_some_iff.mp present
  rw [contentsFrom, contentsFrom, List.drop_eq_getElem_cons bound, List.map_cons]

/-- Behind the last line nothing is left. -/
theorem contentsFrom_of_absent {document : Document} {index : Nat}
    (absent : document.lineCount ≤ index) : document.contentsFrom index = [] := by
  rw [contentsFrom, List.drop_eq_nil_of_le absent, List.map_nil]

/-- A content range is never refused. -/
theorem contentRange_eq (document : Document) (firstLine closingLine : Nat) :
    document.contentRange firstLine closingLine =
      .ok (if closingLine ≤ firstLine then Range.emptyAt ⟨closingLine, 0⟩
        else ⟨⟨firstLine, 0⟩, ⟨closingLine - 1, document.lengthAt (closingLine - 1)⟩⟩) := by
  unfold contentRange
  split
  · rfl
  · rw [Range.between_eq_ok_iff]
    refine ⟨?_, rfl⟩
    rw [Position.le_iff]
    simp only
    omega

end Document

/-- The line that closes a text is one of those that were given. -/
theorem TextBlock.linesBeforeEnd?_lt {lines : List Text} {depth : Int} {count : Nat}
    (found : linesBeforeEnd? lines depth = some count) : count < lines.length := by
  induction lines generalizing depth count with
  | nil => cases found
  | cons content rest hypothesis =>
    simp only [linesBeforeEnd?] at found
    split at found
    · cases found
      exact Nat.zero_lt_succ _
    · obtain ⟨before, later, rfl⟩ := Option.map_eq_some_iff.mp found
      exact Nat.succ_lt_succ (hypothesis later)

/-- The line that closes a dictionary is one of those that were given. -/
theorem Dictionary.run_closingLine {firstLine index : Nat} {lines : List Text} {state : State}
    {depth : Int} {closed : Closed (List DictionaryItem)}
    (ended : run firstLine lines index state depth = .ok closed) :
    index ≤ closed.closingLine ∧ closed.closingLine < index + lines.length := by
  induction lines generalizing index state depth closed with
  | nil => cases ended
  | cons content rest hypothesis =>
    simp only [run] at ended
    rw [List.length_cons]
    split at ended
    · cases ended
      simp only
      omega
    · obtain ⟨later, continued, rfl⟩ := Checked.map_eq_ok_iff.mp ended
      have bounds := hypothesis continued
      simp only [Closed.map]
      omega

/-- A text that was read is what the content range covers. -/
theorem TextBlock.read_eq_ok {document : Document} {firstLine : Nat} {closed : Closed Text}
    (ended : read document firstLine = .ok (.ok closed)) :
    ∃ count range, linesBeforeEnd? (document.contentsFrom firstLine) 1 = some count ∧
      document.contentRange firstLine (firstLine + count) = .ok range ∧
      closed = ⟨document.textIn range, firstLine + count⟩ := by
  unfold read at ended
  split at ended
  · next count counted =>
    obtain ⟨range, covered, made⟩ := Checked.bind_eq_ok_iff.mp ended
    cases made
    exact ⟨count, range, counted, covered, rfl⟩
  · cases ended

/-- Only the last line of an array has no line behind it. -/
theorem ArrayBlock.items_cons (content : Text) (rest : List Text) (index : Nat) :
    items (content :: rest) index =
      item (if rest = [] then .last else .inner) content index :: items rest (index + 1) := by
  cases rest with
  | nil => rfl
  | cons next others => rfl

/-- An array that was read has the items of the lines before the first closing
    bracket. -/
theorem ArrayBlock.read_eq_ok {lines : List Text} {firstLine : Nat}
    {closed : Closed (List ArrayItem)} (ended : read lines firstLine = .ok closed) :
    ∃ count, lines.findIdx? (isLone Bracket.square.closing) = some count ∧
      closed = ⟨items (lines.take count) firstLine, firstLine + count⟩ := by
  unfold read at ended
  split at ended
  · next count found =>
    cases ended
    exact ⟨count, found, rfl⟩
  · cases ended

namespace Block

/-- What was read as the content of a block comes from the reader of its kind. -/
theorem readContent_eq_ok {document : Document} {firstLine : Nat} {kind : ContentKind}
    {closed : Closed BlockContent}
    (ended : readContent document firstLine kind = .ok (.ok closed)) :
    (kind = .array ∧ ∃ inner, closed = inner.map .array ∧
      ArrayBlock.read (document.contentsFrom firstLine) firstLine = .ok inner) ∨
    (kind = .dictionary ∧ ∃ inner, closed = inner.map .dictionary ∧
      Dictionary.read (document.contentsFrom firstLine) firstLine = .ok inner) ∨
    ((kind = .text ∨ kind = .code) ∧ ∃ inner, closed = inner.map .text ∧
      TextBlock.read document firstLine = .ok (.ok inner)) := by
  have ofText (read : (do return (← TextBlock.read document firstLine).map (Closed.map .text)) =
      (.ok (.ok closed) : Checked (Except Unclosed (Closed BlockContent)))) :
      ∃ inner, closed = inner.map .text ∧ TextBlock.read document firstLine = .ok (.ok inner) := by
    obtain ⟨result, returned, mapped⟩ := Checked.bind_eq_ok_iff.mp read
    obtain ⟨inner, rfl, rfl⟩ := Checked.map_eq_ok_iff.mp (Checked.pure_eq_ok_iff.mp mapped)
    exact ⟨inner, rfl, returned⟩
  cases kind with
  | array =>
    obtain ⟨inner, found, rfl⟩ := Checked.map_eq_ok_iff.mp (Except.ok.inj ended)
    exact Or.inl ⟨rfl, inner, rfl, found⟩
  | dictionary =>
    obtain ⟨inner, found, rfl⟩ := Checked.map_eq_ok_iff.mp (Except.ok.inj ended)
    exact Or.inr (Or.inl ⟨rfl, inner, rfl, found⟩)
  | text => exact Or.inr (Or.inr ⟨Or.inl rfl, ofText ended⟩)
  | code => exact Or.inr (Or.inr ⟨Or.inr rfl, ofText ended⟩)

/-- The line that closes a block is a line of the document at or after the first
    content line. -/
theorem readContent_closingLine {document : Document} {firstLine : Nat} {kind : ContentKind}
    {closed : Closed BlockContent}
    (ended : readContent document firstLine kind = .ok (.ok closed)) :
    firstLine ≤ closed.closingLine ∧ closed.closingLine < document.lineCount := by
  rcases readContent_eq_ok ended with
    ⟨_, inner, rfl, read⟩ | ⟨_, inner, rfl, read⟩ | ⟨_, inner, rfl, read⟩
  · obtain ⟨count, found, rfl⟩ := ArrayBlock.read_eq_ok read
    have bound := (List.findIdx?_eq_some_iff_findIdx_eq.mp found).1
    rw [Document.length_contentsFrom] at bound
    simp only [Closed.map]
    omega
  · have bounds := Dictionary.run_closingLine read
    rw [Document.length_contentsFrom] at bounds
    simp only [Closed.map]
    omega
  · obtain ⟨count, range, counted, _, rfl⟩ := TextBlock.read_eq_ok read
    have bound := TextBlock.linesBeforeEnd?_lt counted
    rw [Document.length_contentsFrom] at bound
    simp only [Closed.map]
    omega

/-- Everything that is known of a block that was read from a header. -/
structure Reads (reading : Reading) (document : Document) (header : BlockHeader) (block : Block) :
    Prop where
  name : block.name = header.name
  nameRange : block.nameRange = header.nameRange
  content : readContent document (header.line + 1)
    (reading.settings.classify header.name header.bracket) =
      .ok (.ok ⟨block.content, block.closingLine⟩)
  contentRange : document.contentRange (header.line + 1) block.closingLine = .ok block.contentRange
  range : block.range =
    ⟨⟨header.line, 0⟩, ⟨block.closingLine, document.lengthAt block.closingLine⟩⟩
  references : readReferences reading document
    (reading.settings.classify header.name header.bracket) block.content block.contentRange =
      .ok block.references

/-- Whatever a header is read as has its name, its content and its references from the
    document. -/
theorem reads_of_read {reading : Reading} {document : Document} {header : BlockHeader}
    {block : Block} (found : read reading document header = .ok (.ok block)) :
    Reads reading document header block := by
  obtain ⟨firstLine, advanced, afterLine⟩ := Checked.bind_eq_ok_iff.mp found
  obtain ⟨_, rfl⟩ := addWord_eq_ok_iff.mp advanced
  obtain ⟨result, contentRead, afterContent⟩ := Checked.bind_eq_ok_iff.mp afterLine
  cases result with
  | error cause => cases afterContent
  | ok closed =>
    obtain ⟨contentRange, covered, afterCover⟩ := Checked.bind_eq_ok_iff.mp afterContent
    obtain ⟨range, ranged, afterRange⟩ := Checked.bind_eq_ok_iff.mp afterCover
    obtain ⟨references, referred, made⟩ := Checked.bind_eq_ok_iff.mp afterRange
    obtain ⟨_, rfl⟩ := Range.between_eq_ok_iff.mp ranged
    cases made
    exact ⟨rfl, rfl, contentRead, covered, rfl, referred⟩

end Block

end BlockMarkup
