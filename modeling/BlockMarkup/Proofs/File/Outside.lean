import BlockMarkup.Proofs.Block.Placement
import BlockMarkup.Proofs.Document.LineRanges

/-!
# Scans and the text between blocks

The text between two positions is reported as one piece or, if it is empty, not
at all. `Document.gap` is what is reported; nothing is ever refused there. With
it the scan of a line is an equation for each of the things it can do, where
`scanLines_step` reads a result back.

A scan depends on the line at which it stands in two ways only. Further down,
behind other lines, it reports the same further down. And if the text that has
not been reported begins earlier, only the first report has more text.
-/

namespace BlockMarkup

namespace Document

variable {reading : Reading} {document : Document}

/-- A file is what a scan has found. -/
theorem parse_eq_ok_iff {file : ParsedFile} :
    document.parse reading = .ok file ↔ ∃ scan, document.scan reading = .ok scan ∧
      scan.file = file := by
  rw [parse, Checked.bind_eq_ok_iff]
  simp only [Checked.pure_eq_ok_iff]

/-! ## Reported text -/

/-- What is reported of the text between two positions. -/
def gap (document : Document) (start stop : Position) : List PlainText :=
  if (document.textIn ⟨start, stop⟩).isEmpty then []
  else [⟨document.textIn ⟨start, stop⟩, ⟨start, stop⟩⟩]

/-- The text between two positions is reported unless it is empty. -/
theorem outsideText_eq (document : Document) (start stop : Position) :
    document.outsideText start stop = .ok (document.gap start stop) := by
  unfold outsideText gap
  split
  · next reverse =>
    rw [textIn_eq_nil (document.offsetOf_le_offsetOf reverse)]
    rfl
  · next forward =>
    have ordered : start ≤ stop := by
      rw [Position.le_iff] at forward ⊢
      omega
    rw [Range.between_eq_ok_iff.mpr ⟨ordered, rfl⟩]
    rfl

/-- What is reported has the text between the positions. -/
theorem flatMap_text_gap (document : Document) (start stop : Position) :
    (document.gap start stop).flatMap PlainText.text = document.textIn ⟨start, stop⟩ := by
  unfold gap
  split
  · next empty => exact (List.isEmpty_iff.mp empty).symm
  · simp

/-- There is at most one piece. -/
theorem dropLast_gap (document : Document) (start stop : Position) :
    (document.gap start stop).dropLast = [] := by
  unfold gap
  split
  · rfl
  · rfl

/-- Between a position and itself nothing is reported. -/
theorem gap_self (document : Document) (p : Position) : document.gap p p = [] := by
  rw [gap, textIn_eq_nil (Nat.le_refl _)]
  rfl

/-- The same text is reported in the same way. -/
theorem gap_congr {other : Document} {start stop : Position}
    (same : other.textIn ⟨start, stop⟩ = document.textIn ⟨start, stop⟩) :
    other.gap start stop = document.gap start stop := by
  rw [gap, gap, same]

/-! ## The scan of a line -/

/-- Behind the last line the rest of the text is outside. -/
theorem scanLines_nil (index inside : Nat) (start : Position) :
    scanLines reading document [] index inside start =
      .ok ⟨[], document.gap start document.endPosition, none⟩ := by
  rw [scanLines, outsideText_eq]
  rfl

section Header

variable {content : Text} {index : Nat} (rest : List Text) (start : Position)

/-- A line without a header is passed over. -/
theorem scanLines_pass (none : BlockHeader.ofLine? content index = none) :
    scanLines reading document (content :: rest) index 0 start =
      scanLines reading document rest (index + 1) 0 start := by
  rw [scanLines, none]

variable {header : BlockHeader} (opened : BlockHeader.ofLine? content index = some header)

include opened

/-- A block takes its lines, and the text in front of it is outside. -/
theorem scanLines_block {block : Block}
    (read : Block.read reading document header = .ok (.ok block)) :
    scanLines reading document (content :: rest) index 0 start =
      (scanLines reading document rest (index + 1) (block.closingLine - index)
        (document.startOfLine (block.closingLine + 1))).map
          (Scan.cons (document.gap start ⟨index, 0⟩) block) := by
  rw [scanLines, opened]
  simp only [outsideText_eq, read, Checked.ok_bind]
  cases scanLines reading document rest (index + 1) (block.closingLine - index)
      (document.startOfLine (block.closingLine + 1)) with
  | error fault => rfl
  | ok later => rfl

/-- A block that is never closed ends the scan, and its lines are outside. -/
theorem scanLines_unclosed {cause : Unclosed}
    (read : Block.read reading document header = .ok (.error cause)) :
    scanLines reading document (content :: rest) index 0 start =
      .ok ⟨[], document.gap start ⟨index, 0⟩ ++ document.gap ⟨index, 0⟩ document.endPosition,
        some (header, cause)⟩ := by
  rw [scanLines, opened]
  simp only [outsideText_eq, read, Checked.ok_bind]
  rfl

/-- A block that is refused ends the scan with its fault. -/
theorem scanLines_refused {fault : Fault}
    (read : Block.read reading document header = .error fault) :
    scanLines reading document (content :: rest) index 0 start = .error fault := by
  rw [scanLines, opened]
  simp only [outsideText_eq, read, Checked.ok_bind]
  rfl

end Header

/-- Nothing is reported of lines that all belong to a block. -/
theorem scanLines_inside {lines : List Text} {inside : Nat} (within : lines.length ≤ inside)
    (index : Nat) (start : Position) :
    scanLines reading document lines index inside start =
      .ok ⟨[], document.gap start document.endPosition, none⟩ := by
  induction lines generalizing index inside with
  | nil => exact scanLines_nil index inside start
  | cons content rest hypothesis =>
    obtain ⟨fewer, rfl⟩ := Nat.exists_eq_add_of_lt within
    have restWithin : rest.length ≤ rest.length + fewer := Nat.le_add_right _ _
    exact hypothesis restWithin (index + 1)

/-- A scan that has lines of a block before it goes on behind them. -/
theorem scanLines_skip (reading : Reading) (document : Document) (index inside : Nat)
    (start : Position) :
    document.scanLines reading (document.contentsFrom index) index inside start =
      document.scanLines reading (document.contentsFrom (index + inside)) (index + inside) 0
        start := by
  induction inside generalizing index with
  | zero => rfl
  | succ inside hypothesis =>
    have advanced : index + (inside + 1) = index + 1 + inside := by omega
    rw [advanced]
    by_cases present : index < document.lineCount
    · rw [contentsFrom_of_present (List.getElem?_eq_getElem present), scanLines]
      exact hypothesis (index + 1)
    · rw [contentsFrom_of_absent (Nat.le_of_not_lt present), contentsFrom_of_absent (by omega),
        scanLines_nil, scanLines_nil]

end Document

/-! ## Lines in front -/

/-- A scan with its line numbers replaced. -/
def Scan.mapLines (f : Nat → Nat) (scan : Scan) : Scan where
  blocks := scan.blocks.map (Block.mapLines f)
  outside := scan.outside.map (PlainText.mapLines f)
  unterminated := scan.unterminated.map fun (header, cause) => (header.mapLines f, cause.mapLines f)

/-- The line numbers of a block and of the text in front of it are replaced with the
    others. -/
theorem Scan.mapLines_cons (f : Nat → Nat) (before : List PlainText) (block : Block)
    (later : Scan) :
    (later.cons before block).mapLines f =
      (later.mapLines f).cons (before.map (PlainText.mapLines f)) (block.mapLines f) := by
  simp [mapLines, cons]

namespace Document

variable {outer inner : Document} {front : List Line} (placed : outer.lines = front ++ inner.lines)

include placed

/-- The text between two positions is reported so many lines further on. -/
theorem gap_of_placed (start stop : Position) :
    outer.gap (start.mapLines (· + front.length)) (stop.mapLines (· + front.length)) =
      (inner.gap start stop).map (PlainText.mapLines (· + front.length)) := by
  have same := textIn_of_placed placed ⟨start, stop⟩
  rw [Range.mapLines_mk] at same
  unfold gap
  rw [same]
  split
  · rfl
  · rfl

/-- A scan further down reports the same further down. -/
theorem scanLines_of_placed (reading : Reading) (fits : outer.size < wordLimit)
    {lines : List Text} {index : Nat} (remaining : lines = inner.contentsFrom index) (inside : Nat)
    (start : Position) :
    scanLines reading outer lines (index + front.length) inside
        (start.mapLines (· + front.length)) =
      (scanLines reading inner lines index inside start).map
        (Scan.mapLines (· + front.length)) := by
  induction lines generalizing index inside start with
  | nil =>
    rw [scanLines_nil, scanLines_nil, endPosition_of_placed placed, gap_of_placed placed]
    rfl
  | cons content rest hypothesis =>
    obtain ⟨⟨line, present, rfl⟩, restEq⟩ := contentsFrom_eq_cons remaining.symm
    have next := hypothesis restEq
    rw [Nat.add_right_comm] at next
    cases inside with
    | succ inside => exact next inside start
    | zero =>
      have opened := BlockHeader.ofLine?_map (· + front.length) line.content index
      cases header? : BlockHeader.ofLine? line.content index with
      | none =>
        rw [header?] at opened
        rw [scanLines_pass _ _ opened, scanLines_pass _ _ header?]
        exact next 0 start
      | some header =>
        rw [header?, Option.map_some] at opened
        have atIndex := BlockHeader.line_of_ofLine? header?
        have word : header.line + front.length + 1 < wordLimit := by
          have there := (getElem?_lines_of_placed placed index).trans present
          have early := header_line_lt_size there opened
          omega
        have moved := Block.read_of_placed placed reading fits word
        have before : outer.gap (start.mapLines (· + front.length)) ⟨index + front.length, 0⟩ = _ :=
          gap_of_placed placed start ⟨index, 0⟩
        rcases read : Block.read reading inner header with fault | cause | block
        · rw [read] at moved
          rw [scanLines_refused _ _ opened moved, scanLines_refused _ _ header? read]
          rfl
        · rw [read] at moved
          have after := gap_of_placed placed ⟨index, 0⟩ inner.endPosition
          rw [← endPosition_of_placed placed, Position.mapLines_mk] at after
          rw [scanLines_unclosed _ _ opened moved, scanLines_unclosed _ _ header? read, before,
            after]
          simp [Except.map, Scan.mapLines]
        · rw [read] at moved
          have continued := next (block.closingLine - index)
            (inner.startOfLine (block.closingLine + 1))
          rw [← startOfLine_of_placed placed, Nat.add_right_comm block.closingLine] at continued
          have closing : (block.mapLines (· + front.length)).closingLine =
              block.closingLine + front.length := rfl
          have inside : block.closingLine + front.length - (index + front.length) =
              block.closingLine - index := by omega
          rw [scanLines_block _ _ opened moved, scanLines_block _ _ header? read, closing, inside,
            continued, before]
          cases scanLines reading inner rest (index + 1) (block.closingLine - index)
              (inner.startOfLine (block.closingLine + 1)) with
          | error fault => rfl
          | ok later => exact congrArg Except.ok (Scan.mapLines_cons _ _ _ _).symm

/-- The scan of the lines behind those in front. -/
theorem scan_of_placed (reading : Reading) (fits : outer.size < wordLimit) :
    scanLines reading outer (inner.contentsFrom 0) front.length 0 ⟨front.length, 0⟩ =
      (inner.scan reading).map (Scan.mapLines (· + front.length)) := by
  have moved := scanLines_of_placed placed reading fits (rfl : _ = inner.contentsFrom 0) 0
    Position.origin
  rwa [Position.origin, Position.mapLines_mk, Nat.zero_add] at moved

end Document

/-! ## Text that has not been reported -/

/-- Text that comes before what was reported goes in front of the first report;
    the blocks are the same. -/
theorem Document.scanLines_start {reading : Reading} {document : Document} {lines : List Text}
    {index : Nat} {first second : Position} {scan : Scan} (before : first ≤ second)
    (reached : second ≤ ⟨index, 0⟩) (inDocument : second ≤ document.endPosition)
    (scanned : scanLines reading document lines index 0 second = .ok scan) :
    ∃ other, scanLines reading document lines index 0 first = .ok other ∧
      other.blocks = scan.blocks ∧
      other.outside.flatMap PlainText.text =
        document.textIn ⟨first, second⟩ ++ scan.outside.flatMap PlainText.text := by
  induction lines generalizing index scan with
  | nil =>
    rw [scanLines_nil] at scanned
    cases scanned
    refine ⟨_, scanLines_nil index 0 first, rfl, ?_⟩
    simp only [flatMap_text_gap, document.textIn_append before inDocument]
  | cons content rest hypothesis =>
    have joined := document.textIn_append before reached
    rcases scanLines_step scanned with ⟨none, continued⟩ |
      ⟨header, reported, block, later, opened, made, read, continued, rfl⟩ |
      ⟨header, reported, cause, after, opened, made, read, ended, rfl⟩
    · have next : second ≤ ⟨index + 1, 0⟩ := by
        rw [Position.le_iff] at reached ⊢
        simp only at reached ⊢
        omega
      rw [scanLines_pass _ _ none]
      exact hypothesis next continued
    · rw [outsideText_eq] at made
      cases made
      rw [scanLines_block _ _ opened read, continued]
      refine ⟨_, rfl, rfl, ?_⟩
      simp only [Scan.cons, List.flatMap_append, flatMap_text_gap, ← joined, List.append_assoc]
    · rw [outsideText_eq] at made ended
      cases made
      cases ended
      refine ⟨_, scanLines_unclosed _ _ opened read, rfl, ?_⟩
      simp only [List.flatMap_append, flatMap_text_gap, ← joined, List.append_assoc]

end BlockMarkup
