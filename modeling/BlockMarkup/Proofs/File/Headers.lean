import BlockMarkup.Proofs.File.Outside
import BlockMarkup.Proofs.File.Tiling

/-!
# The header lines of a file

Which lines open blocks can be seen from the document alone: a scan goes from
one header line to the next that no block covers, and stops at the first whose
block is never closed. So the blocks of a file are those that can be read from
their own header lines, they follow one another without sharing a line, and a
header line that is in none of them stands at the stopping line or after it.

`Document.Accounts` says what is known of a scan from a line on. Each step of the
scan establishes it from what the rest of the scan establishes.
-/

namespace BlockMarkup

/-- The header on a line of a document. -/
def Document.headerAt? (document : Document) (index : Nat) : Option BlockHeader :=
  document.lines[index]?.bind fun line => BlockHeader.ofLine? line.content index

/-- Whether a line is one of those from the header of a block to its closing
    line. -/
def Block.HasLine (block : Block) (index : Nat) : Prop :=
  block.headerLine ≤ index ∧ index ≤ block.closingLine

/-- Whether a line is one of a block is told by two comparisons. -/
instance (block : Block) (index : Nat) : Decidable (block.HasLine index) :=
  inferInstanceAs (Decidable (_ ∧ _))

/-- Whether a line has a header and is a line of no block. -/
def ParsedFile.LeavesOut (file : ParsedFile) (document : Document) (index : Nat) : Prop :=
  document.headerAt? index ≠ none ∧ ∀ block ∈ file.blocks, ¬ block.HasLine index

/-- Whether a file leaves out a header is decided block by block. -/
instance (file : ParsedFile) (document : Document) (index : Nat) :
    Decidable (file.LeavesOut document index) :=
  inferInstanceAs (Decidable (_ ∧ ∀ block ∈ file.blocks, ¬ block.HasLine index))

/-- Whether a line is the first that has a header and is a line of no block. -/
def ParsedFile.LeavesOutFirst (file : ParsedFile) (document : Document) (index : Nat) : Prop :=
  file.LeavesOut document index ∧ ∀ earlier < index, ¬ file.LeavesOut document earlier

/-- Whether it is the first one that is left out is decided line by line. -/
instance (file : ParsedFile) (document : Document) (index : Nat) :
    Decidable (file.LeavesOutFirst document index) :=
  inferInstanceAs (Decidable (_ ∧ ∀ earlier < index, ¬ file.LeavesOut document earlier))

/-! ## The lines of a block -/

/-- A block is an array exactly if its bracket is square. -/
theorem Settings.classify_eq_array_iff {settings : Settings} {name : Text} {bracket : Bracket} :
    settings.classify name bracket = .array ↔ bracket = .square := by
  cases bracket with
  | square => simp [classify]
  | curly =>
    simp only [classify, reduceCtorEq, iff_false]
    split
    · simp
    · split
      · simp
      · simp

namespace Block

variable {reading : Reading} {document : Document} {header : BlockHeader} {block : Block}

/-- A block begins on the line of its header. -/
theorem Reads.headerLine_eq (reads : Reads reading document header block) :
    block.headerLine = header.line := by
  rw [headerLine, reads.range]

/-- It ends on a later line. -/
theorem Reads.headerLine_lt (reads : Reads reading document header block) :
    block.headerLine < block.closingLine := by
  have after := (readContent_closingLine reads.content).1
  rw [reads.headerLine_eq]
  exact after

/-- Square brackets open arrays and nothing else does, so the content tells the
    bracket. -/
theorem Reads.bracket_eq (reads : Reads reading document header block) :
    block.bracket = header.bracket := by
  have kinds := readContent_eq_ok reads.content
  unfold bracket
  cases opened : header.bracket with
  | square =>
    have array : reading.settings.classify header.name header.bracket = .array :=
      Settings.classify_eq_array_iff.mpr opened
    rw [array] at kinds
    rcases kinds with ⟨_, inner, made, _⟩ | ⟨impossible, _⟩ | ⟨impossible | impossible, _⟩
    · rw [show block.content = .array inner.content from congrArg Closed.content made]
    · cases impossible
    · cases impossible
    · cases impossible
  | curly =>
    rcases kinds with ⟨array, _⟩ | ⟨_, inner, made, _⟩ | ⟨_, inner, made, _⟩
    · rw [opened] at array
      cases Settings.classify_eq_array_iff.mp array
    · rw [show block.content = .dictionary inner.content from congrArg Closed.content made]
    · rw [show block.content = .text inner.content from congrArg Closed.content made]

end Block

namespace Document

variable {reading : Reading} {document : Document}

/-- The header on a line is read from its content. -/
theorem headerAt?_of_present {index : Nat} {line : Line}
    (present : document.lines[index]? = some line) :
    document.headerAt? index = BlockHeader.ofLine? line.content index := by
  rw [headerAt?, present]
  rfl

/-- A header stands on a line of the document. -/
theorem lt_lineCount_of_headerAt? {index : Nat} {header : BlockHeader}
    (opened : document.headerAt? index = some header) : index < document.lineCount := by
  obtain ⟨line, present, _⟩ := Option.bind_eq_some_iff.mp opened
  exact (List.getElem?_eq_some_iff.mp present).1

/-- There is text from a header line on. -/
theorem gap_of_header {index : Nat} {header : BlockHeader}
    (opened : document.headerAt? index = some header) :
    document.gap ⟨index, 0⟩ document.endPosition =
      [⟨document.textIn ⟨⟨index, 0⟩, document.endPosition⟩,
        ⟨⟨index, 0⟩, document.endPosition⟩⟩] := by
  have bound := lt_lineCount_of_headerAt? opened
  obtain ⟨line, present, found⟩ := Option.bind_eq_some_iff.mp opened
  have characters : line.content ≠ [] := by
    intro empty
    rw [empty] at found
    cases found
  have whole : line.content = [] ++ (line.content ++ []) := by simp
  have covered : document.textIn (Range.ofLength index 0 (Text.size line.content)) =
      line.content := textIn_ofLength present whole
  have onLine : (⟨index, 0⟩ : Position) ≤ ⟨index, 0 + Text.size line.content⟩ :=
    Position.le_iff.mpr (Or.inr ⟨rfl, Nat.zero_le _⟩)
  have lineSize := document.offsetOf_add_size_textIn onLine
  change _ + Text.size (document.textIn (Range.ofLength index 0 (Text.size line.content))) = _
    at lineSize
  rw [covered] at lineSize
  have toEnd := document.startOfLine_le_endPosition index
  rw [startOfLine, if_pos bound] at toEnd
  have restSize := document.offsetOf_add_size_textIn toEnd
  rw [offsetOf_endPosition] at restSize
  have inside := document.offsetOf_le_size ⟨index, 0 + Text.size line.content⟩
  have positive : Text.size line.content ≠ 0 := fun zero =>
    characters ((Text.size_eq_zero_iff _).mp zero)
  have nonempty : (document.textIn ⟨⟨index, 0⟩, document.endPosition⟩).isEmpty = false := by
    cases empty : (document.textIn ⟨⟨index, 0⟩, document.endPosition⟩).isEmpty with
    | false => rfl
    | true =>
      rw [List.isEmpty_iff.mp empty, Text.size_nil] at restSize
      omega
  rw [gap, nonempty]
  rfl

/-! ## What a scan accounts for -/

/-- What a scan says of the lines from `first` on. Its blocks are read from header
    lines and follow one another; a header line is in a block or not before the
    header at which the scan stopped; and that header is behind all blocks, is
    never closed, and begins the last text outside of blocks. -/
structure Accounts (reading : Reading) (document : Document) (first : Nat) (scan : Scan) :
    Prop where
  read : ∀ block ∈ scan.blocks, ∃ header, document.headerAt? block.headerLine = some header ∧
    Block.read reading document header = .ok (.ok block)
  notBefore : ∀ block ∈ scan.blocks, first ≤ block.headerLine
  apart : scan.blocks.Pairwise fun earlier later => earlier.closingLine < later.headerLine
  covered : ∀ index, first ≤ index → document.headerAt? index ≠ none →
    (∃ block ∈ scan.blocks, block.HasLine index) ∨
      ∃ header cause, scan.unterminated = some (header, cause) ∧ header.line ≤ index
  stopped : ∀ header cause, scan.unterminated = some (header, cause) →
    first ≤ header.line ∧ document.headerAt? header.line = some header ∧
      Block.read reading document header = .ok (.error cause) ∧
      (∀ block ∈ scan.blocks, block.closingLine < header.line) ∧
      ∃ last, scan.outside.getLast? = some last ∧
        last.range = ⟨⟨header.line, 0⟩, document.endPosition⟩

namespace Accounts

/-- Behind the last line there is nothing to account for. -/
theorem atEnd {first : Nat} (beyond : document.lineCount ≤ first) (outside : List PlainText) :
    document.Accounts reading first ⟨[], outside, none⟩ where
  read := by simp
  notBefore := by simp
  apart := List.Pairwise.nil
  covered := by
    intro index reached opened
    obtain ⟨header, found⟩ := Option.ne_none_iff_exists'.mp opened
    have bound := lt_lineCount_of_headerAt? found
    omega
  stopped := by simp

/-- A line without a header needs no account. -/
theorem pass {first : Nat} {scan : Scan} (plain : document.headerAt? first = none)
    (later : document.Accounts reading (first + 1) scan) :
    document.Accounts reading first scan where
  read := later.read
  notBefore := fun block member => Nat.le_of_succ_le (later.notBefore block member)
  apart := later.apart
  covered := by
    intro index reached opened
    apply later.covered index _ opened
    have other : index ≠ first := by
      rintro rfl
      exact opened plain
    omega
  stopped := by
    intro header cause left
    obtain ⟨reached, stop⟩ := later.stopped header cause left
    exact ⟨Nat.le_of_succ_le reached, stop⟩

/-- A block accounts for its own lines. -/
theorem block {first : Nat} {header : BlockHeader} {block : Block} {later : Scan}
    (opened : document.headerAt? first = some header)
    (read : Block.read reading document header = .ok (.ok block))
    (begins : block.headerLine = first) (ends : first < block.closingLine)
    (account : document.Accounts reading (block.closingLine + 1) later)
    (before : List PlainText) : document.Accounts reading first (later.cons before block) where
  read := by
    intro other member
    rcases List.mem_cons.mp member with rfl | laterMember
    · exact ⟨header, by rw [begins, opened], read⟩
    · exact account.read other laterMember
  notBefore := by
    intro other member
    rcases List.mem_cons.mp member with rfl | laterMember
    · exact Nat.le_of_eq begins.symm
    · have after := account.notBefore other laterMember
      omega
  apart := List.Pairwise.cons (fun other member => account.notBefore other member) account.apart
  covered := by
    intro index reached found
    by_cases inside : index ≤ block.closingLine
    · exact Or.inl ⟨block, List.mem_cons_self, by rw [begins]; exact reached, inside⟩
    · rcases account.covered index (by omega) found with ⟨other, member, within⟩ | stop
      · exact Or.inl ⟨other, List.mem_cons_of_mem block member, within⟩
      · exact Or.inr stop
  stopped := by
    intro stop cause left
    obtain ⟨reached, found, never, closed, last, isLast, ranged⟩ :=
      account.stopped stop cause left
    refine ⟨by omega, found, never, ?_, last, ?_, ranged⟩
    · intro other member
      rcases List.mem_cons.mp member with rfl | laterMember
      · exact reached
      · exact closed other laterMember
    · simp only [Scan.cons, List.getLast?_append, isLast, Option.some_or]

/-- A block that is never closed leaves everything from its header on. -/
theorem unclosed {first : Nat} {header : BlockHeader} {cause : Unclosed}
    (opened : document.headerAt? first = some header) (begins : header.line = first)
    (never : Block.read reading document header = .ok (.error cause))
    (before : List PlainText) :
    document.Accounts reading first
      ⟨[], before ++ document.gap ⟨first, 0⟩ document.endPosition, some (header, cause)⟩ where
  read := by simp
  notBefore := by simp
  apart := List.Pairwise.nil
  covered := fun index reached _ => Or.inr ⟨header, cause, rfl, by rw [begins]; exact reached⟩
  stopped := by
    rintro stop stopCause ⟨⟩
    refine ⟨Nat.le_of_eq begins.symm, by rw [begins, opened], never, by simp, ?_⟩
    rw [gap_of_header opened, begins]
    exact ⟨_, List.getLast?_concat, rfl⟩

end Accounts

/-- A scan accounts for the lines from where it stands, block lines that it still
    passes over left aside. The induction is on those lines. -/
theorem accounts_of_scanLines {lines : List Text} {index inside : Nat} {start : Position}
    {scan : Scan} (remaining : lines = document.contentsFrom index)
    (scanned : scanLines reading document lines index inside start = .ok scan) :
    document.Accounts reading (index + inside) scan := by
  induction lines generalizing index inside start scan with
  | nil =>
    have none : document.lineCount - index = 0 := by
      rw [← length_contentsFrom, ← remaining]
      rfl
    rw [scanLines_nil] at scanned
    cases scanned
    exact Accounts.atEnd (by omega) _
  | cons content rest hypothesis =>
    obtain ⟨⟨line, present, rfl⟩, restEq⟩ := contentsFrom_eq_cons remaining.symm
    cases inside with
    | succ inside =>
      have later := hypothesis restEq scanned
      rwa [Nat.add_right_comm] at later
    | zero =>
      have here := headerAt?_of_present present
      rcases scanLines_step scanned with ⟨none, continued⟩ |
        ⟨header, before, block, later, opened, _, read, continued, rfl⟩ |
        ⟨header, before, cause, after, opened, _, never, ended, rfl⟩
      · have later := hypothesis restEq continued
        exact Accounts.pass (here.trans none) later
      · have reads := Block.reads_of_read read
        have begins := reads.headerLine_eq.trans (BlockHeader.line_of_ofLine? opened)
        have ends := reads.headerLine_lt
        rw [begins] at ends
        have account := hypothesis restEq continued
        have next : index + 1 + (block.closingLine - index) = block.closingLine + 1 := by omega
        rw [next] at account
        exact Accounts.block (here.trans opened) read begins ends account before
      · rw [outsideText_eq] at ended
        cases ended
        exact Accounts.unclosed (here.trans opened) (BlockHeader.line_of_ofLine? opened) never
          before

/-- Every parse comes from a scan that accounts for all the lines. -/
theorem accounts_of_parse {file : ParsedFile} (parsed : document.parse reading = .ok file) :
    ∃ scan, document.Accounts reading 0 scan ∧ scan.file = file := by
  obtain ⟨scan, scanned, made⟩ := parse_eq_ok_iff.mp parsed
  exact ⟨scan, accounts_of_scanLines rfl scanned, made⟩

namespace Accounts

variable {scan : Scan} (account : document.Accounts reading 0 scan)

include account

/-- The header at which a scan stopped is the first that is in no block. -/
theorem leavesOutFirst {header : BlockHeader} {cause : Unclosed}
    (left : scan.unterminated = some (header, cause)) :
    scan.file.LeavesOutFirst document header.line := by
  obtain ⟨_, opened, _, closed, _⟩ := account.stopped header cause left
  constructor
  · constructor
    · rw [opened]
      exact Option.some_ne_none header
    · rintro block member ⟨_, inside⟩
      have before := closed block member
      omega
  · rintro earlier before ⟨found, outside⟩
    rcases account.covered earlier (Nat.zero_le _) found with ⟨block, member, within⟩ |
      ⟨other, otherCause, same, reached⟩
    · exact outside block member within
    · rw [left] at same
      cases same
      omega

/-- A header line that is in no block stands where the scan stopped or after. -/
theorem stopped_of_leavesOut {index : Nat} (leftOut : scan.file.LeavesOut document index) :
    ∃ header cause, scan.unterminated = some (header, cause) ∧ header.line ≤ index := by
  obtain ⟨opened, outside⟩ := leftOut
  rcases account.covered index (Nat.zero_le _) opened with ⟨block, member, within⟩ | stop
  · exact absurd within (outside block member)
  · exact stop

end Accounts

/-- The blocks of a file are told by the header lines of its document: each is
    what its own header line reads, with the bracket of that line; they follow one
    another and share no line; and of the header lines in no block the first is
    never closed, has no block behind it, and begins the last text outside of
    blocks. So a header line opens a block, stands in one, or does not come before
    the first that is never closed. -/
theorem blocks_of_headers (reading : Reading) (document : Document) {file : ParsedFile}
    (parsed : document.parse reading = .ok file) :
    (∀ block ∈ file.blocks, ∃ header, document.headerAt? block.headerLine = some header ∧
      Block.read reading document header = .ok (.ok block) ∧ block.bracket = header.bracket) ∧
    ((∀ block ∈ file.blocks, block.headerLine ≤ block.closingLine) ∧
      file.blocks.Pairwise fun earlier later => earlier.closingLine < later.headerLine) ∧
    (∀ index header, file.LeavesOutFirst document index →
      document.headerAt? index = some header →
        (∃ cause, Block.read reading document header = .ok (.error cause)) ∧
        (∀ block ∈ file.blocks, block.headerLine < index) ∧
        ∃ last, file.outside.getLast? = some last ∧
          last.range = ⟨⟨index, 0⟩, document.endPosition⟩) ∧
    ∀ index header, document.headerAt? index = some header →
      (∃ block ∈ file.blocks, block.headerLine = index) ∨
      (∃ block ∈ file.blocks, block.headerLine < index ∧ index ≤ block.closingLine) ∨
      ∃ first stop cause, first ≤ index ∧ file.LeavesOutFirst document first ∧
        document.headerAt? first = some stop ∧
        Block.read reading document stop = .ok (.error cause) := by
  obtain ⟨scan, account, rfl⟩ := accounts_of_parse parsed
  refine ⟨?_, ⟨?_, account.apart⟩, ?_, ?_⟩
  · intro block member
    obtain ⟨header, opened, read⟩ := account.read block member
    exact ⟨header, opened, read, (Block.reads_of_read read).bracket_eq⟩
  · intro block member
    obtain ⟨header, _, read⟩ := account.read block member
    exact Nat.le_of_lt (Block.reads_of_read read).headerLine_lt
  · rintro index header ⟨leftOut, first⟩ opened
    obtain ⟨stop, cause, left, reached⟩ := account.stopped_of_leavesOut leftOut
    obtain ⟨_, found, never, closed, last⟩ := account.stopped stop cause left
    have same : stop.line = index := by
      rcases Nat.lt_or_ge stop.line index with before | notBefore
      · exact absurd (account.leavesOutFirst left).1 (first stop.line before)
      · exact Nat.le_antisymm reached notBefore
    rw [same] at found closed last
    rw [opened] at found
    cases found
    refine ⟨⟨cause, never⟩, ?_, last⟩
    intro block member
    obtain ⟨_, _, read⟩ := account.read block member
    exact Nat.lt_trans (Block.reads_of_read read).headerLine_lt (closed block member)
  · intro index header opened
    have isHeader : document.headerAt? index ≠ none := by
      rw [opened]
      exact Option.some_ne_none header
    rcases account.covered index (Nat.zero_le _) isHeader with ⟨block, member, begins, ends⟩ |
      ⟨stop, cause, left, reached⟩
    · rcases Nat.eq_or_lt_of_le begins with same | after
      · exact Or.inl ⟨block, member, same⟩
      · exact Or.inr (Or.inl ⟨block, member, after, ends⟩)
    · obtain ⟨_, found, never, _⟩ := account.stopped stop cause left
      exact Or.inr (Or.inr ⟨stop.line, stop, cause, reached, account.leavesOutFirst left, found,
        never⟩)

/-- A header inside a dictionary, one that is never closed, and one behind it. -/
def headersApart : Document :=
  ofText "x\nm \x7b\n a \x7b\n \x7d\n\x7d\nt [\n]\nu \x7b\nw [\n]".toList

/-- The header inside the dictionary is passed over, the one that is never closed ends
    the scan, and the rest is text. -/
theorem blocks_of_headers_apart :
    ∃ file, headersApart.parse ⟨.standard, fun _ => none⟩ = .ok file ∧
      file.blocks.map Block.headerLine = [1, 5] ∧ headersApart.headerAt? 2 ≠ none ∧
      headersApart.headerAt? 8 ≠ none ∧ file.LeavesOutFirst headersApart 7 ∧
      (∀ block ∈ file.blocks, block.headerLine < 7) ∧
      ∃ last, file.outside.getLast? = some last ∧ last.range = ⟨⟨7, 0⟩, ⟨9, 1⟩⟩ := by
  have evaluated : (headersApart.parse ⟨.standard, fun _ => none⟩).toOption.map (fun file =>
      decide (file.blocks.map Block.headerLine = [1, 5] ∧
        file.LeavesOutFirst headersApart 7)) = some true := by decide +kernel
  have opened : headersApart.headerAt? 7 =
      some ⟨"u".toList, ⟨⟨7, 0⟩, ⟨7, 1⟩⟩, .curly⟩ := by decide +kernel
  cases parsed : headersApart.parse ⟨.standard, fun _ => none⟩ with
  | error fault =>
    rw [parsed] at evaluated
    cases evaluated
  | ok file =>
    rw [parsed] at evaluated
    obtain ⟨lines, first⟩ := of_decide_eq_true (Option.some.inj evaluated)
    obtain ⟨_, _, stops, _⟩ := blocks_of_headers _ _ parsed
    obtain ⟨_, before, last⟩ := stops 7 _ first opened
    exact ⟨file, rfl, lines, by decide +kernel, by decide +kernel, first, before, last⟩

end Document

end BlockMarkup
