import BlockMarkup.File.Scan
import BlockMarkup.Proofs.Block.Reading

/-!
# The steps of a scan

A scan at a line outside of blocks does one of three things: it passes over the
line, it reads a block and goes on after it, or it meets a block that is never
closed and ends. `Document.scanLines_step` says so once, with everything that
the step establishes; what holds of a whole scan follows by induction over the
remaining lines.
-/

namespace BlockMarkup

/-- A header that was found on a line stands on that line. -/
theorem BlockHeader.line_of_ofLine? {content : Text} {index : Nat} {header : BlockHeader}
    (found : ofLine? content index = some header) : header.line = index := by
  obtain ⟨pieces, _, rfl⟩ := Option.map_eq_some_iff.mp found
  rfl

namespace Document

variable {reading : Reading} {document : Document}

/-- What the scan of a line outside of blocks can do. -/
theorem scanLines_step {content : Text} {rest : List Text} {index : Nat} {start : Position}
    {scan : Scan}
    (scanned : scanLines reading document (content :: rest) index 0 start = .ok scan) :
    (BlockHeader.ofLine? content index = none ∧
      scanLines reading document rest (index + 1) 0 start = .ok scan) ∨
    (∃ header before block later, BlockHeader.ofLine? content index = some header ∧
      document.outsideText start ⟨index, 0⟩ = .ok before ∧
      Block.read reading document header = .ok (.ok block) ∧
      scanLines reading document rest (index + 1) (block.closingLine - index)
        (document.startOfLine (block.closingLine + 1)) = .ok later ∧
      scan = later.cons before block) ∨
    (∃ header before cause after, BlockHeader.ofLine? content index = some header ∧
      document.outsideText start ⟨index, 0⟩ = .ok before ∧
      Block.read reading document header = .ok (.error cause) ∧
      document.outsideText ⟨index, 0⟩ document.endPosition = .ok after ∧
      scan = ⟨[], before ++ after, some (header, cause)⟩) := by
  rw [scanLines] at scanned
  cases opened : BlockHeader.ofLine? content index with
  | none =>
    rw [opened] at scanned
    exact Or.inl ⟨rfl, scanned⟩
  | some header =>
    rw [opened] at scanned
    obtain ⟨before, reported, afterBefore⟩ := Checked.bind_eq_ok_iff.mp scanned
    obtain ⟨result, read, afterRead⟩ := Checked.bind_eq_ok_iff.mp afterBefore
    cases result with
    | ok block =>
      obtain ⟨later, continued, made⟩ := Checked.bind_eq_ok_iff.mp afterRead
      cases made
      exact Or.inr (Or.inl ⟨header, before, block, later, rfl, reported, read, continued, rfl⟩)
    | error cause =>
      obtain ⟨after, ended, made⟩ := Checked.bind_eq_ok_iff.mp afterRead
      cases made
      exact Or.inr (Or.inr ⟨header, before, cause, after, rfl, reported, read, ended, rfl⟩)

/-- The block of a header on a line of the document. -/
def OpensBlock (reading : Reading) (document : Document) (block : Block) : Prop :=
  ∃ line header, document.lines[header.line]? = some line ∧
    BlockHeader.ofLine? line.content header.line = some header ∧
    Block.Reads reading document header block

/-- Every block that a scan reports was read from a header on a line of the
    document. -/
theorem opensBlock_of_mem_scanLines {lines : List Text} {index inside : Nat} {start : Position}
    {scan : Scan} (remaining : lines = document.contentsFrom index)
    (scanned : scanLines reading document lines index inside start = .ok scan) {block : Block}
    (member : block ∈ scan.blocks) : document.OpensBlock reading block := by
  induction lines generalizing index inside start scan with
  | nil =>
    obtain ⟨outside, _, made⟩ := Checked.bind_eq_ok_iff.mp scanned
    cases made
    cases member
  | cons content rest hypothesis =>
    obtain ⟨⟨line, present, rfl⟩, restEq⟩ := contentsFrom_eq_cons remaining.symm
    cases inside with
    | succ inside => exact hypothesis restEq scanned member
    | zero =>
      rcases scanLines_step scanned with ⟨_, continued⟩ |
        ⟨header, before, found, later, opened, _, read, continued, rfl⟩ |
        ⟨header, before, cause, after, _, _, _, _, rfl⟩
      · exact hypothesis restEq continued member
      · rcases List.mem_cons.mp member with rfl | laterMember
        · have atIndex := BlockHeader.line_of_ofLine? opened
          refine ⟨line, header, ?_, ?_, Block.reads_of_read read⟩
          · rw [atIndex, present]
          · rw [atIndex, opened]
        · exact hypothesis restEq continued laterMember
      · cases member

/-- Every block of a file was read from a header on a line of the document. -/
theorem opensBlock_of_mem {file : ParsedFile} (parsed : document.parse reading = .ok file)
    {block : Block} (member : block ∈ file.blocks) : document.OpensBlock reading block := by
  obtain ⟨scan, scanned, made⟩ := Checked.bind_eq_ok_iff.mp parsed
  cases made
  exact opensBlock_of_mem_scanLines rfl scanned member

end Document

end BlockMarkup
