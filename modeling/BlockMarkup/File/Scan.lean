import BlockMarkup.Block.Reader

/-!
# Scanning a document

The lines of a document are gone through from the top. A header line opens a
block, and the scan goes on after the line that closes it. A block that is never
closed ends the scan: everything from its header on is text outside of blocks.

Text outside of blocks is reported in the longest pieces there are, and empty
pieces are left out.
-/

namespace BlockMarkup

/-- What a scan has found. A block that is never closed is given with what was
    open at the end. -/
structure Scan where
  blocks : List Block
  outside : List PlainText
  unterminated : Option (BlockHeader × Unclosed)
deriving DecidableEq

namespace Scan

/-- The file that was scanned. -/
def file (scan : Scan) : ParsedFile := ⟨scan.blocks, scan.outside⟩

/-- Puts the text before a block and the block itself in front. -/
def cons (before : List PlainText) (block : Block) (later : Scan) : Scan :=
  { later with blocks := block :: later.blocks, outside := before ++ later.outside }

end Scan

namespace Document

/-- The text between two positions as a piece outside of blocks, if there is
    any. -/
def outsideText (document : Document) (start stop : Position) : Checked (List PlainText) :=
  if stop ≤ start then .ok []
  else do
    let range ← Range.between start stop
    let text := document.textIn range
    return if text.isEmpty then [] else [⟨text, range⟩]

/-- The start of a line, or the end of the document if it has no such line. -/
def startOfLine (document : Document) (index : Nat) : Position :=
  if index < document.lineCount then ⟨index, 0⟩ else document.endPosition

/-- Scans the lines from an index on. The first `inside` of them belong to a
    block, and the text outside of blocks that has not been reported begins at
    `start`. -/
def scanLines (reading : Reading) (document : Document) :
    List Text → Nat → Nat → Position → Checked Scan
  | [], _, _, start => do
    return ⟨[], ← document.outsideText start document.endPosition, none⟩
  | _ :: rest, index, inside + 1, start => scanLines reading document rest (index + 1) inside start
  | content :: rest, index, 0, start =>
    match BlockHeader.ofLine? content index with
    | none => scanLines reading document rest (index + 1) 0 start
    | some header => do
      let before ← document.outsideText start ⟨index, 0⟩
      match ← Block.read reading document header with
      | .ok block =>
        let later ← scanLines reading document rest (index + 1) (block.closingLine - index)
          (document.startOfLine (block.closingLine + 1))
        return later.cons before block
      | .error cause =>
        let after ← document.outsideText ⟨index, 0⟩ document.endPosition
        return ⟨[], before ++ after, some (header, cause)⟩

/-- Scans a document. -/
def scan (reading : Reading) (document : Document) : Checked Scan :=
  scanLines reading document (document.contentsFrom 0) 0 0 Position.origin

/-- The blocks of a document and the text outside of them. -/
def parse (reading : Reading) (document : Document) : Checked ParsedFile := do
  return (← document.scan reading).file

end Document

end BlockMarkup
