import BlockMarkup.Proofs.File.Composition

/-!
# A block on its own

The text of a block, from its header line to its closing line, is a document of
its own. It has the lines of the block, the last of them without a break. Read
there, the header gives the same block with lines counted from the header, since
neither the lines in front of a block nor those behind it matter. Nothing is
left over, so the file of that text is this one block.
-/

namespace BlockMarkup

namespace Document

variable {reading : Reading} {document : Document}

/-- The text of some lines agrees with the lines from the first one on up to the
    last, whose break it lacks. -/
theorem agreesTo_textIn {behind : Document} {first last : Nat}
    (dropped : behind.lines = document.lines.drop first) (ordered : first ≤ last)
    (present : last < document.lineCount) :
    behind.AgreesTo (ofText (document.textIn ⟨⟨first, 0⟩, ⟨last, document.lengthAt last⟩⟩))
      (last - first) := by
  have found : document.lines[last]? = some document.lines[last] := List.getElem?_eq_getElem present
  have excerpt := split_textIn_toLineEnd ordered found
  have counted : (document.linesBetween first last).length = last - first :=
    length_linesBetween present
  constructor
  · change _ = (Line.split _).take (last - first)
    rw [excerpt, dropped, List.take_append_of_le_length (Nat.le_of_eq counted.symm),
      List.take_of_length_le (Nat.le_of_eq counted), linesBetween, List.drop_take]
  · change _ = (Line.split _)[last - first]?.map Line.content
    rw [excerpt, dropped, List.getElem?_append_right (Nat.le_of_eq counted), counted, Nat.sub_self,
      List.getElem?_drop, Nat.add_sub_cancel' ordered, found]
    rfl

/-- An excerpt from one line to the end of another has all the lines between. -/
theorem lineCount_textIn {first last : Nat} (ordered : first ≤ last)
    (present : last < document.lineCount) :
    (ofText (document.textIn ⟨⟨first, 0⟩, ⟨last, document.lengthAt last⟩⟩)).lineCount =
      last - first + 1 := by
  have found : document.lines[last]? = some document.lines[last] := List.getElem?_eq_getElem present
  change (Line.split _).length = _
  rw [split_textIn_toLineEnd ordered found, List.length_append, length_linesBetween present,
    List.length_singleton]

/-- A block whose header is on the first line and which is closed on the last is
    all that there is. -/
theorem parse_of_read {header : BlockHeader} {block : Block} {line : Line}
    (first : document.lines[0]? = some line)
    (opened : BlockHeader.ofLine? line.content 0 = some header)
    (read : Block.read reading document header = .ok (.ok block))
    (last : document.lineCount = block.closingLine + 1) :
    document.parse reading = .ok ⟨[block], []⟩ := by
  obtain ⟨rest, remaining⟩ : ∃ rest, document.contentsFrom 0 = line.content :: rest := by
    obtain ⟨others, lines⟩ := List.head?_eq_some_iff.mp ((List.head?_eq_getElem? ..).trans first)
    refine ⟨others.map Line.content, ?_⟩
    rw [contentsFrom, lines]
    rfl
  have counted := congrArg List.length remaining
  rw [length_contentsFrom, List.length_cons] at counted
  have atEnd : document.startOfLine (block.closingLine + 1) = document.endPosition :=
    if_neg (by omega)
  have scanned : document.scan reading = .ok ⟨[block], [], none⟩ := by
    rw [Document.scan, remaining, scanLines_block _ _ opened read,
      scanLines_inside (by omega), atEnd, gap_self, Position.origin, gap_self]
    rfl
  exact parse_eq_ok_iff.mpr ⟨_, scanned, rfl⟩

/-- A block can be read from the lines from its header on, with the header on the
    first of them. -/
theorem exists_read_behind (fits : document.size < wordLimit) {header : BlockHeader} {line : Line}
    (present : document.lines[header.line]? = some line)
    (opened : BlockHeader.ofLine? line.content header.line = some header) {block : Block}
    (reads : Block.Reads reading document header block) {behind : Document}
    (dropped : behind.lines = document.lines.drop header.line) :
    ∃ first own, BlockHeader.ofLine? line.content 0 = some first ∧
      Block.read reading behind first = .ok (.ok own) ∧
      own.mapLines (· + header.line) = block := by
  have inside : header.line < document.lineCount := (List.getElem?_eq_some_iff.mp present).1
  have counted : (document.lines.take header.line).length = header.line :=
    List.length_take_of_le (Nat.le_of_lt inside)
  have placed : document.lines = document.lines.take header.line ++ behind.lines := by
    rw [dropped, List.take_append_drop]
  have word : header.line + 1 < wordLimit := by
    have early := header_line_lt_size present opened
    omega
  have moved := BlockHeader.ofLine?_map (· + header.line) line.content 0
  rw [Nat.zero_add, opened] at moved
  obtain ⟨first, firstOpened, isMoved⟩ := Option.map_eq_some_iff.mp moved.symm
  have firstWord : first.line + (document.lines.take header.line).length + 1 < wordLimit := by
    rw [counted, BlockHeader.line_of_ofLine? firstOpened, Nat.zero_add]
    exact word
  have read := Block.read_of_placed placed reading fits firstWord
  rw [counted, isMoved, Block.read_of_reads word reads] at read
  obtain ⟨outcome, readBehind, mapped⟩ := Checked.map_eq_ok_iff.mp read.symm
  cases outcome with
  | error cause => cases mapped
  | ok own => exact ⟨first, own, firstOpened, readBehind, Except.ok.inj mapped⟩

/-- The text of a block of a file, parsed on its own, is a file of this block
    alone with the line numbers counted from its header. -/
theorem parse_textIn_range (reading : Reading) (document : Document)
    (fits : document.size < wordLimit) {file : ParsedFile}
    (parsed : document.parse reading = .ok file) {block : Block} (member : block ∈ file.blocks) :
    (ofText (document.textIn block.range)).parse reading =
      .ok ⟨[block.mapLines (· - block.headerLine)], []⟩ := by
  obtain ⟨line, header, present, opened, reads⟩ := opensBlock_of_mem parsed member
  obtain ⟨afterHeader, closing⟩ := Block.readContent_closingLine reads.content
  simp only at afterHeader closing
  have ordered : header.line ≤ block.closingLine := Nat.le_of_succ_le afterHeader
  have isHeaderLine : block.headerLine = header.line := by
    rw [Block.headerLine, reads.range]
  -- Without the lines in front the block is `own`, and so it is without those behind.
  have inside : header.line < document.lineCount := by omega
  obtain ⟨behind, dropped⟩ := exists_document_drop inside
  obtain ⟨first, own, firstOpened, readBehind, moved⟩ :=
    exists_read_behind fits present opened reads dropped
  have ownClosing : block.closingLine - header.line = own.closingLine := by
    rw [← moved]
    exact Nat.add_sub_cancel _ _
  have agrees := agreesTo_textIn dropped ordered closing
  have count := lineCount_textIn ordered closing
  rw [ownClosing, ← reads.range] at agrees
  rw [ownClosing, ← reads.range] at count
  have behindFits : behind.size < wordLimit := by
    have placed : document.lines = document.lines.take header.line ++ behind.lines := by
      rw [dropped, List.take_append_drop]
    have sizes := size_of_placed placed
    omega
  have excerptFits : (ofText (document.textIn block.range)).size < wordLimit := by
    have reached := document.offsetOf_add_size_textIn_le block.range
    change Text.size (document.textIn block.range) < wordLimit
    omega
  have readAlone := Block.read_of_agrees behindFits excerptFits readBehind agrees
  have here : (ofText (document.textIn block.range)).lines[0]? = some line := by
    rw [← agrees.getElem?_lines (by omega), dropped, List.getElem?_drop, Nat.add_zero, present]
  have alone := parse_of_read here firstOpened readAlone count
  rw [alone, isHeaderLine, ← moved, Block.mapLines_cancel]
  exact fun line => Nat.add_sub_cancel line header.line

/-- A script with breaks of two characters, between an array and more text. -/
def scriptAmongLines : Document :=
  ofText "x\ntags [\n]\r\ns \x7b\r\n bru.getVar('v')\r\n\x7d\r\ny".toList

/-- The excerpt of a script that stands among other lines has its call three lines
    further up. -/
theorem parse_textIn_range_script :
    ∃ file block, scriptAmongLines.parse oneCallReading = .ok file ∧ block ∈ file.blocks ∧
      block.headerLine = 3 ∧ block.references = [⟨['v'], ⟨⟨4, 13⟩, ⟨4, 14⟩⟩, .read, .runtime⟩] ∧
      (ofText (scriptAmongLines.textIn block.range)).parse oneCallReading =
        .ok ⟨[block.mapLines (· - block.headerLine)], []⟩ := by
  obtain ⟨file, block, parsed, second, header, call⟩ : ∃ (file : ParsedFile) (block : Block),
      scriptAmongLines.parse oneCallReading = .ok file ∧ file.blocks[1]? = some block ∧
      block.headerLine = 3 ∧ block.references = [⟨['v'], ⟨⟨4, 13⟩, ⟨4, 14⟩⟩, .read, .runtime⟩] :=
    ⟨_, _, rfl, rfl, rfl, rfl⟩
  have member := List.mem_of_getElem? second
  have alone := parse_textIn_range oneCallReading _ (by decide) parsed member
  exact ⟨file, block, parsed, member, header, call, alone⟩

end Document

end BlockMarkup
