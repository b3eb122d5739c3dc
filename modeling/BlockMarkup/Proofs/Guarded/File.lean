import BlockMarkup.Proofs.File.Outside
import BlockMarkup.Proofs.Guarded.Content
import BlockMarkup.Proofs.Guarded.References

/-!
# Files in guarded steps

A whole parse in guarded steps: the line table of the text is filled, the lines
are scanned for headers, each header has its block read, and the references of
the block are found in its content or, for code, in a table of its own. Every
sum, difference, cut and look-up of a line is guarded, and so is every range.

`parse_without_violation` says that nothing of this is ever refused, for any
settings and any text that can be held in memory, and that the guarded parse
gives the file of the library. Whatever reads the scripts has to report spans in
order; they may lie outside of the script or divide its characters.
-/

namespace BlockMarkup.Guarded

open Text

/-! ## Blocks -/

/-- Reads the block that a header opens. -/
def readBlock (reading : Reading) (table : LineTable) (header : BlockHeader) :
    Guarded (Except Unclosed Block) := do
  let firstLine ← add header.line 1
  let kind := reading.settings.classify header.name header.bracket
  match ← readContent table firstLine kind with
  | .error cause => return .error cause
  | .ok closed =>
    let contentRange ← contentRange table firstLine closed.closingLine
    let range ← between ⟨header.line, 0⟩
      ⟨closed.closingLine, ← table.lineLength closed.closingLine⟩
    let references ← readReferences reading table kind closed.content contentRange
    return .ok
      { name := header.name
        nameRange := header.nameRange
        content := closed.content
        contentRange := contentRange
        range := range
        references := references }

/-- A block is read without a violation, apart from ranges in reverse. -/
theorem readBlock_eq (reading : Reading) {document : Document} (held : document.size < signedLimit)
    {header : BlockHeader} (word : header.line + 1 < wordLimit) :
    readBlock reading (.ofDocument document) header =
      ofChecked (Block.read reading document header) := by
  have fits : document.size < wordLimit := Nat.lt_of_lt_of_le held signedLimit_le_wordLimit
  rw [readBlock, Block.read, add_eq word, ok_bind, addWord_eq_ok_iff.mpr ⟨word, rfl⟩,
    Checked.ok_bind]
  simp only [readContent_eq held (Nat.succ_pos header.line), ofChecked_bind]
  cases read : Block.readContent document (header.line + 1)
      (reading.settings.classify header.name header.bracket) with
  | error fault => rfl
  | ok result =>
    cases result with
    | error cause => rfl
    | ok closed =>
      obtain ⟨_, present⟩ := Block.readContent_closingLine read
      have covered := document.contentRange_eq (header.line + 1) closed.closingLine
      have matched := Block.matchesSource_of_readContent read covered
      have ranged := Document.hasRange_of_contentRange covered present
      have referred := readReferences_eq fits reading
        (reading.settings.classify header.name header.bracket) matched ranged
      simp only [ofChecked_ok, ok_bind, contentRange_eq present, covered,
        LineTable.lineLength_eq present, referred, ofChecked_bind]
      rfl

/-! ## Files -/

/-- The text between two positions as a piece outside of blocks. -/
def outsideText (table : LineTable) (start stop : Position) : Guarded (List PlainText) :=
  if stop ≤ start then return []
  else do
    let range ← between start stop
    let text ← table.textIn range
    return if text.isEmpty then [] else [⟨text, range⟩]

/-- The start of a line, or the end of the text. -/
def startOfLine (table : LineTable) (index : Nat) : Guarded Position :=
  if index < table.lineCount then return ⟨index, 0⟩ else table.endPosition

/-- How far the lines of a file have been scanned: what was found, the next line,
    and where the text begins that has not been reported. -/
structure FileRead where
  file : ParsedFile
  index : Nat
  start : Position

/-- Scans the next line of a file, and with it the block that it opens. -/
def fileLine (reading : Reading) (table : LineTable) (done : FileRead) :
    Guarded (Next FileRead ParsedFile) :=
  if done.index < table.lineCount then do
    let content ← table.line done.index
    match ← headerOn? content done.index with
    | none => return .goesOn { done with index := ← add done.index 1 }
    | some header =>
      let before ← outsideText table done.start ⟨done.index, 0⟩
      match ← readBlock reading table header with
      | .ok block =>
        let following ← add block.closingLine 1
        return .goesOn ⟨⟨done.file.blocks ++ [block], done.file.outside ++ before⟩, following,
          ← startOfLine table following⟩
      | .error _ =>
        let after ← outsideText table ⟨done.index, 0⟩ (← table.endPosition)
        return .ends ⟨done.file.blocks, done.file.outside ++ (before ++ after)⟩
  else do
    let after ← outsideText table done.start (← table.endPosition)
    return .ends ⟨done.file.blocks, done.file.outside ++ after⟩

/-- The blocks of a text and the text outside of them. -/
def parse (reading : Reading) (text : Text) : Guarded ParsedFile := do
  let table ← LineTable.ofText text
  loop (fileLine reading table) (table.lineCount + 1) ⟨⟨[], []⟩, 0, .origin⟩

/-- The block that a header opens in a text. -/
def parseBlock (reading : Reading) (text : Text) (header : BlockHeader) :
    Guarded (Except Unclosed Block) := do
  readBlock reading (← LineTable.ofText text) header

/-- Whether a file is what was found so far and what a scan from there on
    finds. -/
def FileRead.Answers (reading : Reading) (document : Document) (done : FileRead)
    (file : ParsedFile) : Prop :=
  ∃ scan, document.scanLines reading (document.contentsFrom done.index) done.index 0 done.start =
      .ok scan ∧
    file = ⟨done.file.blocks ++ scan.blocks, done.file.outside ++ scan.outside⟩

section Files

variable {document : Document} (held : document.size < signedLimit)

/-- The start of any line is found without a violation. -/
theorem startOfLine_eq (document : Document) (index : Nat) :
    startOfLine (.ofDocument document) index = .ok (document.startOfLine index) := by
  rw [startOfLine, LineTable.lineCount_ofDocument, Document.startOfLine]
  split
  · rfl
  · exact LineTable.endPosition_eq document

include held

/-- The text between two positions on lines that are there is cut out without a
    violation. -/
theorem outsideText_eq {start stop : Position} (startPresent : start.line < document.lineCount)
    (stopPresent : stop.line < document.lineCount) :
    outsideText (.ofDocument document) start stop = .ok (document.gap start stop) := by
  have fits : document.size < wordLimit := Nat.lt_of_lt_of_le held signedLimit_le_wordLimit
  rw [← ofChecked_ok, ← Document.outsideText_eq, outsideText, Document.outsideText]
  split
  · rfl
  · next forward =>
    have ordered : start ≤ stop := by
      rw [Position.le_iff] at forward ⊢
      omega
    have text : (LineTable.ofDocument document).textIn ⟨start, stop⟩ = _ :=
      LineTable.textIn_eq fits startPresent stopPresent
    rw [between_eq ordered, ok_bind, text, ok_bind,
      Range.between_eq_ok_iff.mpr ⟨ordered, rfl⟩]
    rfl

section Round

variable {reading : Reading} {done : FileRead}

/-- Behind the last line the rest of the text is put outside, and the loop ends. -/
theorem fileLine_end (started : done.start.line < document.lineCount)
    (behind : document.lineCount ≤ done.index) :
    fileLine reading (.ofDocument document) done = .ok (.ends ⟨done.file.blocks,
      done.file.outside ++ document.gap done.start document.endPosition⟩) := by
  have after := outsideText_eq held started document.endPosition_line_lt
  rw [fileLine, LineTable.lineCount_ofDocument, if_neg (Nat.not_lt_of_le behind),
    LineTable.endPosition_eq, ok_bind, after, ok_bind]
  rfl

variable {line : Line} (present : document.lines[done.index]? = some line)

include present

/-- A line without a header is passed over. -/
theorem fileLine_pass (none : BlockHeader.ofLine? line.content done.index = none) :
    fileLine reading (.ofDocument document) done =
      .ok (.goesOn { done with index := done.index + 1 }) := by
  have inside : done.index < document.lineCount := (List.getElem?_eq_some_iff.mp present).1
  rw [fileLine, LineTable.lineCount_ofDocument, if_pos inside, LineTable.line_eq present, ok_bind,
    headerOn?_eq, none, ok_bind, following_eq held inside]
  rfl

variable {header : BlockHeader} (opened : BlockHeader.ofLine? line.content done.index = some header)

include opened

/-- The line of a header is a machine word, and so is the one after it. -/
theorem header_word : header.line + 1 < wordLimit := by
  have early := Document.header_line_lt_size present opened
  have limits := signedLimit_le_wordLimit
  rw [BlockHeader.line_of_ofLine? opened]
  omega

variable (started : done.start.line < document.lineCount)

include started

/-- A block that is never closed ends the loop, and its lines are put outside. -/
theorem fileLine_unclosed {cause : Unclosed}
    (read : Block.read reading document header = .ok (.error cause)) :
    fileLine reading (.ofDocument document) done = .ok (.ends ⟨done.file.blocks,
      done.file.outside ++ (document.gap done.start ⟨done.index, 0⟩ ++
        document.gap ⟨done.index, 0⟩ document.endPosition)⟩) := by
  have inside : done.index < document.lineCount := (List.getElem?_eq_some_iff.mp present).1
  have here : (⟨done.index, 0⟩ : Position).line < document.lineCount := inside
  have blockRead := readBlock_eq reading held (header_word held present opened)
  rw [read, ofChecked_ok] at blockRead
  simp only [fileLine, LineTable.lineCount_ofDocument, if_pos inside, LineTable.line_eq present,
    headerOn?_eq, opened, outsideText_eq held started here, blockRead, LineTable.endPosition_eq,
    outsideText_eq held here document.endPosition_line_lt, ok_bind]
  rfl

/-- A block is added, and the loop goes on behind its closing line. -/
theorem fileLine_block {block : Block}
    (read : Block.read reading document header = .ok (.ok block))
    (closing : block.closingLine < document.lineCount) :
    fileLine reading (.ofDocument document) done = .ok (.goesOn
      ⟨⟨done.file.blocks ++ [block],
          done.file.outside ++ document.gap done.start ⟨done.index, 0⟩⟩,
        block.closingLine + 1, document.startOfLine (block.closingLine + 1)⟩) := by
  have inside : done.index < document.lineCount := (List.getElem?_eq_some_iff.mp present).1
  have here : (⟨done.index, 0⟩ : Position).line < document.lineCount := inside
  have blockRead := readBlock_eq reading held (header_word held present opened)
  rw [read, ofChecked_ok] at blockRead
  simp only [fileLine, LineTable.lineCount_ofDocument, if_pos inside, LineTable.line_eq present,
    headerOn?_eq, opened, outsideText_eq held started here, blockRead, following_eq held closing,
    startOfLine_eq, ok_bind]
  rfl

end Round

/-- One round of the scan: a line is passed over, a block is read and the scan
    goes on behind it, or the file is complete. -/
theorem fileLine_round {reading : Reading} (ordered : reading.reader.Ordered) {done : FileRead}
    (started : done.start.line < document.lineCount) :
    (∃ file, fileLine reading (.ofDocument document) done = .ok (.ends file) ∧
      done.Answers reading document file) ∨
    ∃ next, fileLine reading (.ofDocument document) done = .ok (.goesOn next) ∧
      document.lineCount - next.index < document.lineCount - done.index ∧
      next.start.line < document.lineCount ∧
      ∀ file, next.Answers reading document file → done.Answers reading document file := by
  have fits : document.size < wordLimit := Nat.lt_of_lt_of_le held signedLimit_le_wordLimit
  by_cases inside : done.index < document.lineCount
  · have present := List.getElem?_eq_getElem (l := document.lines) inside
    generalize (document.lines[done.index]) = line at present
    have remaining := Document.contentsFrom_of_present present
    cases opened : BlockHeader.ofLine? line.content done.index with
    | none =>
      refine Or.inr ⟨_, fileLine_pass held present opened, by simp only; omega, started, ?_⟩
      rintro file ⟨scan, scanned, rfl⟩
      refine ⟨scan, ?_, rfl⟩
      rw [remaining, Document.scanLines_pass _ _ opened]
      exact scanned
    | some header =>
      obtain ⟨result, read⟩ :=
        Block.read_accepted fits ordered (header_word held present opened)
      cases result with
      | error cause =>
        have scanned := Document.scanLines_unclosed (document.contentsFrom (done.index + 1))
          done.start opened read
        rw [← remaining] at scanned
        exact Or.inl ⟨_, fileLine_unclosed held present opened started read, _, scanned, by simp⟩
      | ok block =>
        have reads := Block.reads_of_read read
        obtain ⟨later, closing⟩ := Block.readContent_closingLine reads.content
        rw [BlockHeader.line_of_ofLine? opened] at later
        simp only at later closing
        refine Or.inr ⟨_, fileLine_block held present opened started read closing,
          by simp only; omega, document.startOfLine_line_lt _, ?_⟩
        rintro file ⟨scan, scanned, rfl⟩
        have behind : done.index + 1 + (block.closingLine - done.index) =
            block.closingLine + 1 := by omega
        refine ⟨scan.cons (document.gap done.start ⟨done.index, 0⟩) block, ?_, ?_⟩
        · rw [remaining, Document.scanLines_block _ _ opened read, Document.scanLines_skip, behind,
            scanned]
          rfl
        · simp [Scan.cons]
  · have behind := Nat.le_of_not_lt inside
    have scanned : document.scanLines reading [] done.index 0 done.start = _ :=
      Document.scanLines_nil done.index 0 done.start
    rw [← Document.contentsFrom_of_absent behind] at scanned
    exact Or.inl ⟨_, fileLine_end held started behind, _, scanned, by simp⟩

end Files

/-- A parse never runs into a violation, for any settings and any text that can be
    held in memory, and the same is true of reading the block of a header that need
    not be one of the text. What is read is what the library reads. -/
theorem parse_without_violation (reading : Reading) (text : Text) (held : size text < signedLimit)
    (ordered : reading.reader.Ordered) :
    (∃ file, parse reading text = .ok file ∧
      (Document.ofText text).parse reading = .ok file) ∧
    ∀ header : BlockHeader, header.line + 1 < wordLimit →
      ∃ result, parseBlock reading text header = .ok result ∧
        Block.read reading (.ofText text) header = .ok result := by
  have fits : size text < wordLimit := Nat.lt_of_lt_of_le held signedLimit_le_wordLimit
  have filled := LineTable.ofText_eq fits
  have documentHeld : (Document.ofText text).size < signedLimit := held
  constructor
  · have looped : ∃ file, loop (fileLine reading (.ofDocument (.ofText text)))
        ((Document.ofText text).lineCount + 1) ⟨⟨[], []⟩, 0, .origin⟩ = .ok file ∧
          FileRead.Answers reading (.ofText text) ⟨⟨[], []⟩, 0, .origin⟩ file := by
      apply loop_accepted (fun done => done.start.line < (Document.ofText text).lineCount)
        (fun done => (Document.ofText text).lineCount - done.index)
        (FileRead.Answers reading (.ofText text))
      · intro done started
        exact fileLine_round documentHeld ordered started
      · exact Nat.lt_succ_of_le (Nat.sub_le _ _)
      · exact (Document.ofText text).lineCount_pos
    obtain ⟨file, accepted, scan, scanned, rfl⟩ := looped
    refine ⟨scan.file, ?_, Document.parse_eq_ok_iff.mpr ⟨scan, scanned, rfl⟩⟩
    rw [parse, filled, ok_bind, LineTable.lineCount_ofDocument]
    exact accepted
  · intro header word
    have wordFits : (Document.ofText text).size < wordLimit := fits
    obtain ⟨result, read⟩ := Block.read_accepted wordFits ordered word
    refine ⟨result, ?_, read⟩
    rw [parseBlock, filled, ok_bind, readBlock_eq reading documentHeld word, read, ofChecked_ok]

/-- A script behind breaks of two characters, and a block that is never closed. -/
def scriptBeforeUnclosed : Text :=
  "tests \x7b\r\n bru.getVar(`é`)\r\n\x7d\r\nvars [\n".toList

/-- The spans of the call of that script, of its argument and of the value, four
    times: as they stand, with a value and with an argument that divide a
    character, and with a call that goes beyond the script. -/
def carelessSpans : List (Span × Span × Span) :=
  [(⟨1, 17⟩, ⟨12, 16⟩, ⟨13, 15⟩), (⟨1, 17⟩, ⟨12, 16⟩, ⟨14, 15⟩), (⟨1, 17⟩, ⟨12, 14⟩, ⟨13, 15⟩),
    (⟨1, 99⟩, ⟨12, 16⟩, ⟨13, 15⟩)]

/-- Reports these calls of every script. The settings are not valid, they have
    code that is no text. -/
def carelessReading : Reading where
  settings := ⟨[], ["tests".toList]⟩
  reader _ := some ⟨carelessSpans.map fun (call, whole, value) =>
    ⟨"bru".toList, "getVar".toList, call, some (.literal whole value)⟩, true⟩

/-- A header on the last line but one that a machine word counts. -/
def headerFarBelow : BlockHeader := ⟨"t".toList, ⟨⟨wordLimit - 2, 4⟩, ⟨0, 0⟩⟩, .square⟩

/-- Settings that are not valid, a reader whose spans divide characters or lie beyond
    the script, and a header far below the document lead to no violation. -/
theorem parse_without_violation_careless :
    size scriptBeforeUnclosed < signedLimit ∧ carelessReading.settings.check.toOption = none ∧
      carelessReading.reader.Ordered ∧ headerFarBelow.line + 1 < wordLimit ∧
      (∃ file, parse carelessReading scriptBeforeUnclosed = .ok file ∧
        (Document.ofText scriptBeforeUnclosed).parse carelessReading = .ok file ∧
        (file.blocks.flatMap Block.references).map VariableReference.name =
          ["é".toList, "é".toList]) ∧
      ∃ result, parseBlock carelessReading scriptBeforeUnclosed headerFarBelow = .ok result ∧
        Block.read carelessReading (.ofText scriptBeforeUnclosed) headerFarBelow = .ok result := by
  have held : size scriptBeforeUnclosed < signedLimit := by decide
  have word : headerFarBelow.line + 1 < wordLimit := by decide
  have ordered : carelessReading.reader.Ordered := by
    intro source outline reported call member
    cases reported
    obtain ⟨⟨span, whole, value⟩, listed, rfl⟩ := List.mem_map.mp member
    have spans : ∀ found ∈ carelessSpans,
        found.1.Ordered ∧ found.2.1.Ordered ∧ found.2.2.Ordered := by decide
    obtain ⟨callOrdered, wholeOrdered, valueOrdered⟩ := spans _ listed
    refine ⟨callOrdered, ?_⟩
    rintro argument ⟨⟩
    exact ⟨wholeOrdered, valueOrdered⟩
  have names : ((Document.ofText scriptBeforeUnclosed).parse carelessReading).toOption.map
      (fun file => (file.blocks.flatMap Block.references).map VariableReference.name) =
        some ["é".toList, "é".toList] := by decide +kernel
  obtain ⟨⟨file, guarded, parsed⟩, blocks⟩ :=
    parse_without_violation carelessReading scriptBeforeUnclosed held ordered
  rw [parsed] at names
  exact ⟨held, by decide, ordered, word, ⟨file, guarded, parsed, Option.some.inj names⟩,
    blocks headerFarBelow word⟩

end BlockMarkup.Guarded
